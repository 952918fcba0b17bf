import HandlingModule.AIO.ExactlyOnce
import HandlingModule.Serial.Board

/-!
# Payloads that break the channel

A listener releases the mutex in its last statement. A payload it throws on leaves
the mutex held and ends the network thread; the payload of an `ALL_BEGINS` without a
usable group ends the thread it starts. `Usable` is what a payload needs so that
neither happens, and `unbroken_iff` says that it is exactly this.
-/

namespace HandlingModule.AIO

open Serial Transition Replace

variable {δ A : Type} {parse : String → Option Json} {dev : Device δ A}

namespace Handler

/-- A whole listener, with its reply. -/
def listen (l : String → Handler (Option Message)) (payload : String) : Handler Unit := do
  match ← l payload with
  | none => return ()
  | some m => answer m

/-- A payload that breaks nothing: the listener handles it, and `ALL_BEGINS` gets a group. -/
def Usable (parse : String → Option Json) (ch : Channel) (event : CommunicationEvents)
    (payload : String) : Prop :=
  Handles parse ch event payload
    ∧ (event = .allBegins →
      ∃ j group_id, parse payload = some j ∧ (j.member "GROUP_ID").toLong = .ok group_id)

/-- The channel as the listener leaves it. -/
def left {α : Type} : EStateM.Result Exn Channel α → Channel
  | .ok _ ch => ch
  | .error _ ch => ch

/-- The payload was rejected: by an exception, or by a `REFUSE`. -/
def Rejected (ch : Channel) : EStateM.Result Exn Channel Unit → Prop
  | .error _ _ => True
  | .ok _ ch' => ∃ m, ch'.emitted = ch.emitted ++ [m] ∧ m.event = .workAssignationReply
      ∧ m.data.member "REPLY" = .string "REFUSE"

/-- The payload does not break the channel. -/
structure Unbroken (l : String → Handler (Option Message)) (ch : Channel) (payload : String) :
    Prop where
  /-- No exception escapes from the listener, -/
  noEscape : ∃ ch', (listen l payload).run ch = .ok () ch'
  /-- nor from the thread it starts. -/
  noThreadEscape : ∀ d ∈ (left ((listen l payload).run ch)).dispatchers.drop ch.dispatchers.length,
    ∃ group_id, d.groupId = .ok group_id
  /-- The mutex is free when the listener is left. -/
  unlocked : (left ((listen l payload).run ch)).mutex = false
  /-- A rejected payload changes no queue, not the working flag and not the module's id. -/
  unchanged : Rejected ch ((listen l payload).run ch) →
    (left ((listen l payload).run ch)).services = ch.services
      ∧ (left ((listen l payload).run ch)).module_id = ch.module_id

theorem run_listen {l : String → Handler (Option Message)} (payload : String) (ch : Channel) :
    (listen l payload).run ch = match (l payload).run ch with
      | .ok none ch' => .ok () ch'
      | .ok (some m) ch' => .ok () { ch' with mutex := false, emitted := ch'.emitted ++ [m] }
      | .error e ch' => .error e ch' := by
  unfold listen
  rw [run_bind]
  cases (l payload).run ch with
  | error e ch' => rfl
  | ok m ch' => cases m <;> rfl

/-- The thread of an `ALL_BEGINS` gets its group exactly when the payload has one. -/
theorem groupId_ok {j : Json} {pc : DispatchPc} {group_id : Int64} :
    (Dispatcher.mk j pc).groupId = .ok group_id ↔ (j.member "GROUP_ID").toLong = .ok group_id := by
  unfold Dispatcher.groupId
  cases hi : j.index "GROUP_ID" with
  | ok p =>
      obtain ⟨v, j'⟩ := p
      rw [← (Json.index_spec hi).1]
      exact Iff.rfl
  | error e =>
      constructor
      · intro h; exact absurd h (by simp [bind, Except.bind])
      · intro h
        have hne : j.member "GROUP_ID" ≠ .null := by
          intro h0
          rw [h0] at h
          exact absurd h (by simp [Json.toLong])
        exact absurd (Json.indexable_of_member rfl hne) (Json.index_error hi)

/-- A listener that comes back breaks nothing if its threads and its rejections do not. -/
theorem unbroken_of_run {l : String → Handler (Option Message)} {ch ch' : Channel} {payload : String}
    (hrun : (listen l payload).run ch = .ok () ch') (hm : ch'.mutex = false)
    (hds : ∀ d ∈ ch'.dispatchers.drop ch.dispatchers.length, ∃ group_id, d.groupId = .ok group_id)
    (hrej : Rejected ch (.ok () ch') → ch'.services = ch.services ∧ ch'.module_id = ch.module_id) :
    Unbroken l ch payload where
  noEscape := ⟨ch', hrun⟩
  noThreadEscape := by rw [hrun]; exact hds
  unlocked := by rw [hrun]; exact hm
  unchanged := by rw [hrun]; exact hrej

/-- Where no thread has been started there is none to throw. -/
theorem no_threads (ch : Channel) :
    ∀ d ∈ ch.dispatchers.drop ch.dispatchers.length, ∃ group_id, d.groupId = .ok group_id := by
  rw [List.drop_length]
  intro d hd
  exact absurd hd List.not_mem_nil

/-- Without a message nothing has been refused. -/
theorem not_rejected {ch ch' : Channel} (h : ch'.emitted = ch.emitted) :
    ¬ Rejected ch (.ok () ch') := by
  intro ⟨m, hm, _⟩
  rw [h] at hm
  have := congrArg List.length hm
  simp at this

/--
**Which payloads break the channel.** In every state, for each of the four listeners:
those that are not usable, and no others.
-/
theorem unbroken_iff {event : CommunicationEvents} {l : String → Handler (Option Message)}
    (hl : listener parse event = some l) (ch : Channel) (payload : String) :
    Unbroken l ch payload ↔ Usable parse ch event payload := by
  have hheard := heard hl payload ch
  have hrun := run_listen (l := l) payload ch
  cases hr : (l payload).run ch with
  | error e ch' =>
      rw [hr] at hheard hrun
      cases hheard with
      | thrown _ hn =>
          constructor
          · intro hu
            obtain ⟨ch'', hok⟩ := hu.noEscape
            rw [hrun] at hok
            exact absurd hok (by simp)
          · intro hu; exact absurd hu.1 hn
  | ok m ch' =>
      rw [hr] at hheard hrun
      cases hheard with
      | registered j module_id hp hm =>
          constructor
          · intro _; exact ⟨⟨j, module_id, hp, hm⟩, by simp⟩
          · intro _
            exact unbroken_of_run hrun rfl (no_threads ch) (fun h => absurd h (not_rejected rfl))
      | refused j name hp hname hnone =>
          constructor
          · intro _
            exact ⟨⟨j, name, hp, hname, by rw [hnone]; intro h; exact absurd h (by simp)⟩, by simp⟩
          · intro _
            exact unbroken_of_run hrun rfl (no_threads ch) (fun _ => ⟨rfl, rfl⟩)
      | accepted j group_id c hp ha =>
          obtain ⟨name, service, hname, hs⟩ := ha.name
          constructor
          · intro _; exact ⟨⟨j, name, hp, hname, fun _ => ⟨group_id, ha.group⟩⟩, by simp⟩
          · intro _
            refine unbroken_of_run hrun rfl (no_threads ch) ?_
            -- an `ACCEPTED` is no rejection
            intro ⟨m, hm, _, hrefuse⟩
            have hlast : [assignationReply ch.module_id (j.member "COMMAND_ID")
                (j.member "GROUP_ID") true] = [m] := List.append_cancel_left hm
            rw [← (List.cons.inj hlast).1] at hrefuse
            exact absurd (Json.string.inj hrefuse) (by decide)
      | begun j hp =>
          constructor
          · intro hu
            refine ⟨⟨j, hp⟩, fun _ => ?_⟩
            have hth := hu.noThreadEscape
            rw [hrun] at hth
            obtain ⟨group_id, hg⟩ := hth ⟨j, .setWorking⟩ (by
              show _ ∈ (ch.dispatchers ++ [_]).drop ch.dispatchers.length
              rw [List.drop_left]; exact List.mem_singleton.mpr rfl)
            exact ⟨j, group_id, hp, groupId_ok.mp hg⟩
          · intro hu
            obtain ⟨j', group_id, hp', hg⟩ := hu.2 rfl
            rw [hp] at hp'
            rw [← Option.some.inj hp'] at hg
            refine unbroken_of_run hrun rfl ?_ (fun h => absurd h (not_rejected rfl))
            show ∀ d ∈ (ch.dispatchers ++ [Dispatcher.mk j .setWorking]).drop
              ch.dispatchers.length, ∃ group_id, d.groupId = .ok group_id
            rw [List.drop_left]
            intro d hd
            rw [List.mem_singleton.mp hd]
            exact ⟨group_id, groupId_ok.mpr hg⟩
      | asked j hp hx =>
          constructor
          · intro _; exact ⟨⟨j, hp, hx⟩, by simp⟩
          · intro _
            exact unbroken_of_run hrun rfl (no_threads ch) (fun _ => ⟨rfl, rfl⟩)

end Handler

/-! ## Runs on usable payloads -/

/-- The guard: every payload received is usable. -/
def Fed (parse : String → Option Json) (w : World δ) : Act A → Prop
  | .receive event payload => Handler.Usable parse w.channel event payload
  | _ => True

/-- The thread is between its `lock` and its `unlock`. -/
def Consumer.locking (c : Consumer) : Bool :=
  match c.pc with
  | .emit _ | .unlock => true
  | _ => false

/-- How many parties are between their `lock` and their `unlock`. -/
def World.locking (w : World δ) : Nat :=
  (match w.network with
    | .answering _ => 1
    | _ => 0) + w.consumers.countP Consumer.locking

/-- Nothing has gone wrong on the channel. -/
structure Unharmed (w : World δ) : Prop where
  network : ∀ e, w.network ≠ .thrown e
  dispatchers : ∀ d ∈ w.channel.dispatchers,
    (∃ group_id, d.groupId = .ok group_id) ∧ ∀ e, d.pc ≠ .thrown e
  consumers : ∀ c ∈ w.consumers, ∀ e, c.pc ≠ .thrown e
  /-- The mutex is held by the party that has locked it, and free when there is none. -/
  mutex : w.locking = if w.channel.mutex = true then 1 else 0

theorem unharmed_start (module_id : String) (d : δ) : Unharmed (World.start module_id d) where
  network := by intro e he; exact absurd he (by simp [World.start])
  dispatchers := by intro d hd; exact absurd hd (by simp [World.start])
  consumers := by intro c hc; exact absurd hc (by simp [World.start])
  mutex := rfl

/-- One `all_begins` thread moves on without throwing. -/
theorem Unharmed.dispatch {w w' : World δ} (h : Unharmed w) {i : Nat} {d : Dispatcher}
    (hd : w.channel.dispatchers[i]? = some d) (pc : DispatchPc) (hpc : ∀ e, pc ≠ .thrown e)
    (hds : w'.channel.dispatchers = w.channel.dispatchers.set i { d with pc := pc })
    (hn : w'.network = w.network) (hm : w'.channel.mutex = w.channel.mutex)
    (hc : ∀ c ∈ w'.consumers, c ∈ w.consumers ∨ c.pc = .createFromString)
    (hcount : w'.consumers.countP Consumer.locking = w.consumers.countP Consumer.locking) :
    Unharmed w' where
  network := by rw [hn]; exact h.network
  dispatchers := by
    intro d' hd'
    rw [hds] at hd'
    rcases List.mem_or_eq_of_mem_set hd' with hd' | rfl
    · exact h.dispatchers d' hd'
    · exact ⟨(h.dispatchers d (List.mem_of_getElem? hd)).1, hpc⟩
  consumers := by
    intro c hc' e he
    rcases hc c hc' with hc' | hc'
    · exact h.consumers c hc' e he
    · rw [hc'] at he; exact absurd he (by simp)
  mutex := by rw [World.locking, hn, hcount, hm]; exact h.mutex

/-- One `consumeService` thread moves on without throwing. -/
theorem Unharmed.consume {w w' : World δ} (h : Unharmed w) {i : Nat} {c : Consumer}
    (hc : w.consumers[i]? = some c) (c' : Consumer) (hpc : ∀ e, c'.pc ≠ .thrown e)
    (hcs : w'.consumers = w.consumers.set i c') (hn : w'.network = w.network)
    (hds : w'.channel.dispatchers = w.channel.dispatchers)
    (hm : (if w'.channel.mutex = true then 1 else 0) + (if c.locking = true then 1 else 0)
      = (if w.channel.mutex = true then 1 else 0) + (if c'.locking = true then 1 else 0)) :
    Unharmed w' where
  network := by rw [hn]; exact h.network
  dispatchers := by rw [hds]; exact h.dispatchers
  consumers := by
    intro d hd
    rw [hcs] at hd
    rcases List.mem_or_eq_of_mem_set hd with hd | rfl
    · exact h.consumers d hd
    · exact hpc
  mutex := by
    have hset := countP_set_add Consumer.locking c' hc
    have hmu := h.mutex
    rw [World.locking] at hmu
    rw [World.locking, hn, hcs]
    omega

/-- The network thread has a reply to emit, and holds the mutex alone. -/
theorem Unharmed.answering {w w' : World δ} (h : Unharmed w) (m : Message)
    (hn : w'.network = .answering m) (hds : w'.channel.dispatchers = w.channel.dispatchers)
    (hcs : w'.consumers = w.consumers) (hm : w'.channel.mutex = true)
    (h0 : w.consumers.countP Consumer.locking = 0) : Unharmed w' where
  network := by intro e he; rw [hn] at he; exact absurd he (by simp)
  dispatchers := by rw [hds]; exact h.dispatchers
  consumers := by rw [hcs]; exact h.consumers
  mutex := by rw [World.locking, hn, hcs, hm, h0]; rfl

theorem unharmed_step {w w' : World δ} {a : Act A} (h : World.Step parse dev w a w')
    (hg : Fed parse w a) (hl : Ledger w) (hu : Unharmed w) : Unharmed w' := by
  have hfree : w.network = .idle → w.channel.mutex = false →
      w.consumers.countP Consumer.locking = 0 := by
    intro hidle hm
    have := hu.mutex
    rw [World.locking, hidle, hm] at this
    simpa using this
  cases h with
  | received ch hidle hm hh =>
      have h0 := hfree hidle hm
      cases hh with
      | registered j module_id _ _ =>
          refine ⟨hu.network, hu.dispatchers, hu.consumers, ?_⟩
          rw [World.locking, hidle]; simpa using h0
      | begun j hp =>
          refine ⟨hu.network, ?_, hu.consumers, ?_⟩
          · intro d hd
            rcases List.mem_append.mp hd with hd | hd
            · exact hu.dispatchers d hd
            · obtain ⟨j', group_id, hp', hgid⟩ := hg.2 rfl
              rw [hp] at hp'
              rw [← Option.some.inj hp'] at hgid
              rw [List.mem_singleton.mp hd]
              exact ⟨⟨group_id, Handler.groupId_ok.mpr hgid⟩, by intro e he; exact absurd he (by simp)⟩
          · rw [World.locking, hidle]; simpa using h0
  | replying m ch hidle hm hh =>
      have h0 := hfree hidle hm
      cases hh with
      | refused j name _ _ _ => exact hu.answering _ rfl rfl rfl rfl h0
      | accepted j group_id c _ _ => exact hu.answering _ rfl rfl rfl rfl h0
      | asked j _ _ => exact hu.answering _ rfl rfl rfl rfl h0
  | threw e ch _ _ hh =>
      cases hh with
      | thrown _ hn => exact absurd hg.1 hn
  | answered m hm =>
      refine ⟨by intro e he; exact absurd he (by simp), hu.dispatchers, hu.consumers, ?_⟩
      -- the network thread was the one that held the mutex
      have hmu := hu.mutex
      rw [World.locking, hm] at hmu
      rw [World.locking]
      simp only [Bool.false_eq_true, if_false] at hmu ⊢
      split at hmu <;> omega
  | unwound e he => exact absurd he (hu.network e)
  | workingSet d hd _ =>
      exact hu.dispatch hd .groupId (by simp) rfl rfl rfl (fun c hc => Or.inl hc) rfl
  | grouped d group_id hd _ _ =>
      exact hu.dispatch hd (.isEmptyCommands group_id) (by simp) rfl rfl rfl
        (fun c hc => Or.inl hc) rfl
  | groupThrew d e hd _ herr =>
      obtain ⟨group_id, hok⟩ := (hu.dispatchers d (List.mem_of_getElem? hd)).1
      rw [herr] at hok
      exact absurd hok (by simp)
  | drained d group_id hd _ _ =>
      exact hu.dispatch hd .clearWorking (by simp) rfl rfl rfl (fun c hc => Or.inl hc) rfl
  | found d group_id hd _ _ =>
      exact hu.dispatch hd (.getNextWork group_id) (by simp) rfl rfl rfl
        (fun c hc => Or.inl hc) rfl
  | popped d group_id c services hd _ _ =>
      exact hu.dispatch hd (.newThread group_id c) (by simp) rfl rfl rfl
        (fun c hc => Or.inl hc) rfl
  | threaded d group_id c hd _ =>
      refine hu.dispatch hd (.isEmptyCommands group_id) (by simp) rfl rfl rfl ?_ ?_
      · intro e he
        rcases List.mem_append.mp he with he | he
        · exact Or.inl he
        · rw [List.mem_singleton.mp he]; exact Or.inr rfl
      · show (w.consumers ++ [Consumer.start group_id c]).countP _ = _
        rw [List.countP_append]; rfl
  | workingCleared d hd _ =>
      exact hu.dispatch hd .ended (by simp) rfl rfl rfl (fun c hc => Or.inl hc) rfl
  | findThrew c e hc hpc hf =>
      -- the command was accepted under the name of a class, and the class is registered
      obtain ⟨cls, _, command, hok, _⟩ := hl.books.findService hc
      rw [hf] at hok
      exact absurd hok (by simp)
  | notFound c hc hpc hf =>
      obtain ⟨cls, _, command, hok, _⟩ := hl.books.findService hc
      rw [hf] at hok
      exact absurd hok (by simp)
  | called c responsible creators command line hc hpc _ _ =>
      refine hu.consume hc { c with pc := .execute responsible command, call := _ } (by simp)
        rfl rfl rfl ?_
      have h0 : c.locking = false := by simp [Consumer.locking, hpc]
      rw [h0]; rfl
  | ran c responsible command k hcall line _ _ _ _ _ =>
      exact ⟨hu.network, hu.dispatchers, hu.consumers, hu.mutex⟩
  | returned c responsible command k hcall code reply_info hc hpc =>
      refine hu.consume hc { c with pc := .lock reply_info } (by simp) rfl rfl rfl ?_
      have h0 : c.locking = false := by simp [Consumer.locking, hpc]
      rw [h0]; rfl
  | replyThrew c responsible command k hcall code e hc hpc _ _ _ hrep =>
      have hf := hl.kept _ c hc
      rw [hpc] at hf
      rw [reply_eq hf.1] at hrep
      exact absurd hrep (by simp)
  | locked c reply_info hc hpc hm =>
      refine hu.consume hc { c with pc := .emit reply_info } (by simp) rfl rfl rfl ?_
      simp [Consumer.locking, hpc, hm]
  | emitted c reply_info hc hpc =>
      refine hu.consume hc { c with pc := .unlock } (by simp) rfl rfl rfl ?_
      simp [Consumer.locking, hpc]
  | unlocked c hc hpc =>
      refine hu.consume hc { c with pc := .ended } (by simp) rfl rfl rfl ?_
      -- this thread is one that has locked, so the mutex is held
      have hpos : 0 < w.consumers.countP Consumer.locking :=
        List.countP_pos_iff.mpr ⟨c, List.mem_of_getElem? hc, by simp [Consumer.locking, hpc]⟩
      have hheld : w.channel.mutex = true := by
        by_contra hm
        have hmu := hu.mutex
        rw [if_neg hm, World.locking] at hmu
        omega
      simp [Consumer.locking, hpc, hheld]
  | device line _ => exact ⟨hu.network, hu.dispatchers, hu.consumers, hu.mutex⟩

/--
**No usable payload breaks the channel, and every other one does.** In a run on usable
payloads no exception escapes from a listener or a thread, and the mutex is free
whenever nobody is between a `lock` and an `unlock`; and for any state and payload,
the listener leaves the channel unbroken exactly when the payload is usable.
-/
theorem channel_unbroken (parse : String → Option Json) (dev : Device δ A) (module_id : String)
    (d : δ) :
    (∀ (as : List (Act A)) (w : World δ),
      Run (World.step parse dev) (Fed parse) (World.start module_id d) as w → Unharmed w)
    ∧ ∀ (event : CommunicationEvents) (l : String → Handler (Option Message)) (ch : Channel)
      (payload : String), Handler.listener parse event = some l →
      (Handler.Unbroken l ch payload ↔ Handler.Usable parse ch event payload) := by
  refine ⟨?_, fun event l ch payload hl => Handler.unbroken_iff hl ch payload⟩
  intro as w hr
  have hboth : Ledger w ∧ Unharmed w := by
    refine hr.invariant (I := fun w => Ledger w ∧ Unharmed w)
      ⟨ledger_start module_id d, unharmed_start module_id d⟩ ?_
    intro u v a hu hg hst
    have h := World.step_cases hst
    exact ⟨ledger_step h hu.1, unharmed_step h hg hu.1 hu.2⟩
  exact hboth.2

/-- Payloads of a session that are usable in every state. -/
def sessionFed (_w : World δ) : Act A → Bool
  | .receive .workAssignation payload => payload == openPayload
  | .receive .allBegins payload => payload == beginPayload
  | .receive _ _ => false
  | _ => true

theorem fed_of_sessionFed {w : World δ} {a : Act A} (h : sessionFed w a = true) :
    Fed sessionParse w a := by
  cases a with
  | receive event payload =>
      cases event with
      | workAssignation =>
          have hp : payload = openPayload := eq_of_beq h
          subst hp
          exact ⟨⟨_, "OPEN-GRIP", rfl, rfl, fun _ => ⟨7, rfl⟩⟩, by simp⟩
      | allBegins =>
          have hp : payload = beginPayload := eq_of_beq h
          subst hp
          exact ⟨⟨_, rfl⟩, fun _ => ⟨_, 7, rfl, rfl⟩⟩
      | registration => exact absurd h Bool.false_ne_true
      | registrationReply => exact absurd h Bool.false_ne_true
      | workAssignationReply => exact absurd h Bool.false_ne_true
      | workStatus => exact absurd h Bool.false_ne_true
      | workStatusReply => exact absurd h Bool.false_ne_true
      | actionFinished => exact absurd h Bool.false_ne_true
  | answer => trivial
  | unwind => trivial
  | allBegins i => trivial
  | consumeService i ok => trivial
  | device a => trivial

/-- An `OPEN-GRIP` is accepted and begun, and the thread that was started is through. -/
theorem channel_unbroken_open :
    (∃ w, Run (World.step sessionParse firmware) (Fed sessionParse)
        (World.start "handling" Board.start)
        [.receive .workAssignation openPayload, .answer, .receive .allBegins beginPayload,
          .allBegins 0, .allBegins 0, .allBegins 0, .allBegins 0] w
      ∧ w.channel.dispatchers.length = 1 ∧ Unharmed w)
    ∧ (Handler.Unbroken (Handler.workAssignation sessionParse)
          (World.start "handling" Board.start).channel openPayload
      ↔ Handler.Usable sessionParse (World.start "handling" Board.start).channel .workAssignation
          openPayload) := by
  have hexec : (exec (checked sessionFed (World.step sessionParse firmware))
      (World.start "handling" Board.start)
      [.receive .workAssignation openPayload, .answer, .receive .allBegins beginPayload,
        .allBegins 0, .allBegins 0, .allBegins 0, .allBegins 0]).any
      (fun w => w.channel.dispatchers.length == 1) = true := by decide +kernel
  obtain ⟨w, hw, hlen⟩ := exists_of_exec hexec
  have hr := (run_of_exec_checked hw).weaken (fun u a h => fed_of_sessionFed h)
  refine ⟨⟨w, hr, eq_of_beq hlen, ?_⟩, ?_⟩
  · exact (channel_unbroken sessionParse firmware "handling" Board.start).1 _ w hr
  · exact (channel_unbroken sessionParse firmware "handling" Board.start).2
      .workAssignation _ _ openPayload rfl

/-- A payload that is no JSON, at the start: the exception leaves the mutex held. -/
theorem not_unbroken_text :
    ¬ Handler.Unbroken (Handler.workAssignation sessionParse)
      (World.start "handling" Board.start).channel "OPEN-GRIP" := by
  intro h
  have hthrow : (Handler.left ((Handler.listen (Handler.workAssignation sessionParse)
      "OPEN-GRIP").run (World.start "handling" Board.start).channel)).mutex = true := by
    decide +kernel
  rw [h.unlocked] at hthrow
  exact absurd hthrow Bool.false_ne_true

end HandlingModule.AIO
