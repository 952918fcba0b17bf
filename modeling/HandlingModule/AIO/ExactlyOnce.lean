import HandlingModule.AIO.Accounts
import HandlingModule.Serial.Board

/-!
# Every accepted command, exactly once

What the books add up to for somebody who sees only the channel: the `ACCEPTED`
replies name the accepted commands in order, an accepted command was popped or is
still in its group's queue, a popped command is reported at most once, and once the
threads are through it has been reported exactly once.
-/

namespace HandlingModule.AIO

open Serial Transition

variable {δ A : Type} {parse : String → Option Json} {dev : Device δ A}

/-! ## Replies to assignations -/

/-- A `WORK_ASSIGNATION_REPLY` that says `ACCEPTED`. -/
def Message.accepts (m : Message) : Bool :=
  m.event == .workAssignationReply && match m.data.member "REPLY" with
    | .string reply => reply == "ACCEPTED"
    | _ => false

/-- What the module has emitted, and the reply the network thread is about to emit. -/
def World.answers (w : World δ) : List Message :=
  w.channel.emitted ++ match w.network with
    | .answering m => [m]
    | _ => []

/-- The reply is about the command. -/
structure Names (p : Int64 × CommandInfo) (m : Message) : Prop where
  command_id : m.data.member "COMMAND_ID" = p.2.command.member "COMMAND_ID"
  group_id : m.data.member "GROUP_ID" = p.2.command.member "GROUP_ID"

/-- The replies on the channel agree with the acceptances. -/
structure Acknowledged (w : World δ) : Prop where
  accepted : List.Forall₂ Names w.channel.services.accepted (w.answers.filter Message.accepts)
  others : ∀ m ∈ w.answers, m.event = .workAssignationReply →
    m.accepts = true ∨ m.data.member "REPLY" = .string "REFUSE"
  network : ∀ m, w.network = .answering m → m.event ≠ .actionFinished

theorem acknowledged_start (module_id : String) (d : δ) :
    Acknowledged (World.start module_id d) where
  accepted := List.Forall₂.nil
  others := by
    intro m hm he
    rw [List.mem_singleton.mp hm] at he
    exact absurd he (by simp)
  network := by intro m hm; exact absurd hm (by simp [World.start])

/-- A step that adds to the channel only what is no reply to an assignation. -/
theorem Acknowledged.keep {w w' : World δ} (h : Acknowledged w)
    (hs : w'.channel.services.accepted = w.channel.services.accepted)
    (ha : w'.answers.filter Message.accepts = w.answers.filter Message.accepts)
    (ho : ∀ m ∈ w'.answers, m ∈ w.answers ∨ m.event ≠ .workAssignationReply
      ∨ m.data.member "REPLY" = .string "REFUSE")
    (hn : ∀ m, w'.network = .answering m → m.event ≠ .actionFinished) : Acknowledged w' where
  accepted := by rw [hs, ha]; exact h.accepted
  others := by
    intro m hm he
    rcases ho m hm with hm | hne | hr
    · exact h.others m hm he
    · exact absurd he hne
    · exact Or.inr hr
  network := hn

/-- Nothing is added to the answers, and no new one is pending. -/
theorem Acknowledged.keep_answers {w w' : World δ} (h : Acknowledged w)
    (hs : w'.channel.services.accepted = w.channel.services.accepted)
    (ha : w'.answers = w.answers) (hn : ∀ m, w'.network ≠ .answering m) : Acknowledged w' := by
  refine h.keep hs (by rw [ha]) ?_ (fun m hm => absurd hm (hn m))
  intro m hm
  rw [ha] at hm
  exact Or.inl hm

/-- A reply is pending that accepts nothing. -/
theorem Acknowledged.answering {w w' : World δ} (h : Acknowledged w)
    (hs : w'.channel.services.accepted = w.channel.services.accepted) {m : Message}
    (hans : w'.answers = w.answers ++ [m]) (hn : w'.network = .answering m)
    (hno : m.accepts = false) (hne : m.event ≠ .actionFinished)
    (hm : m.event ≠ .workAssignationReply ∨ m.data.member "REPLY" = .string "REFUSE") :
    Acknowledged w' := by
  refine h.keep hs ?_ ?_ ?_
  · rw [hans, List.filter_append]
    simp [hno]
  · intro m' hm'
    rw [hans] at hm'
    rcases List.mem_append.mp hm' with hm' | hm'
    · exact Or.inl hm'
    · rw [List.mem_singleton.mp hm']
      exact Or.inr hm
  · intro m' hm'
    rw [hn] at hm'
    rw [← NetworkPc.answering.inj hm']
    exact hne

theorem acknowledged_step {w w' : World δ} {a : Act A} (h : World.Step parse dev w a w')
    (hk : Acknowledged w) : Acknowledged w' := by
  have hsame : ∀ m ∈ w.answers, m ∈ w.answers ∨ m.event ≠ .workAssignationReply
      ∨ m.data.member "REPLY" = .string "REFUSE" := fun m hm => Or.inl hm
  cases h with
  | received ch hidle _ hh =>
      cases hh with
      | registered j module_id _ _ => exact hk.keep rfl rfl hsame hk.network
      | begun j _ => exact hk.keep rfl rfl hsame hk.network
  | replying m ch hidle _ hh =>
      -- no reply was pending before this one
      have hans : w.answers = w.channel.emitted := by simp [World.answers, hidle]
      cases hh with
      | refused j hp =>
          exact hk.answering rfl (by rw [hans]; rfl) rfl rfl (by simp [Handler.assignationReply])
            (Or.inr rfl)
      | asked j hp =>
          exact hk.answering rfl (by rw [hans]; rfl) rfl rfl (by simp [Handler.statusReply])
            (Or.inl (by simp [Handler.statusReply]))
      | accepted j group_id c hp ha =>
          have hacc := hk.accepted
          rw [hans] at hacc
          refine ⟨?_, ?_, ?_⟩
          · -- one acceptance, one reply that names it
            show List.Forall₂ Names (_ ++ [(group_id, c)]) ((w.channel.emitted ++ [_]).filter _)
            rw [List.filter_append]
            refine List.rel_append hacc (List.Forall₂.cons ⟨?_, ?_⟩ List.Forall₂.nil)
            · exact (ha.same "COMMAND_ID").symm
            · exact (ha.same "GROUP_ID").symm
          · intro m hm he
            rcases List.mem_append.mp hm with hm | hm
            · exact hk.others m (by rw [hans]; exact hm) he
            · rw [List.mem_singleton.mp hm]; exact Or.inl rfl
          · intro m hm; rw [← NetworkPc.answering.inj hm]; simp [Handler.assignationReply]
  | threw e ch hidle _ hh =>
      cases hh
      exact hk.keep_answers rfl (by simp [World.answers, hidle]) (by simp)
  | answered m hm => exact hk.keep_answers rfl (by simp [World.answers, hm]) (by simp)
  | unwound e he => exact hk.keep_answers rfl (by simp [World.answers, he]) (by simp)
  | workingSet d _ _ => exact hk.keep rfl rfl hsame hk.network
  | grouped d group_id _ _ _ => exact hk.keep rfl rfl hsame hk.network
  | groupThrew d e _ _ _ => exact hk.keep rfl rfl hsame hk.network
  | drained d group_id _ _ _ => exact hk.keep rfl rfl hsame hk.network
  | found d group_id _ _ _ => exact hk.keep rfl rfl hsame hk.network
  | popped d group_id c services _ _ hn =>
      obtain ⟨rest, _, rfl⟩ := Services.getNextWork_cases hn
      exact hk.keep rfl rfl hsame hk.network
  | threaded d group_id c _ _ => exact hk.keep rfl rfl hsame hk.network
  | workingCleared d _ _ => exact hk.keep rfl rfl hsame hk.network
  | findThrew c e _ _ _ => exact hk.keep rfl rfl hsame hk.network
  | notFound c _ _ _ => exact hk.keep rfl rfl hsame hk.network
  | called c responsible creators command line _ _ _ _ => exact hk.keep rfl rfl hsame hk.network
  | ran c responsible command k hcall line _ _ _ _ _ => exact hk.keep rfl rfl hsame hk.network
  | returned c responsible command k hcall code reply_info => exact hk.keep rfl rfl hsame hk.network
  | replyThrew c responsible command k hcall code e => exact hk.keep rfl rfl hsame hk.network
  | locked c reply_info _ _ _ => exact hk.keep rfl rfl hsame hk.network
  | unlocked c _ _ => exact hk.keep rfl rfl hsame hk.network
  | emitted c reply_info hc hpc =>
      -- an `ACTION_FINISHED` is no reply to an assignation
      refine hk.keep rfl ?_ ?_ hk.network
      · show ((w.channel.emitted ++ [_]) ++ _).filter _ = (w.channel.emitted ++ _).filter _
        rw [List.filter_append, List.filter_append, List.filter_append]
        exact congrArg (· ++ _) (List.append_nil _)
      · intro m hm
        rcases List.mem_append.mp hm with hm | hm
        · rcases List.mem_append.mp hm with hm | hm
          · exact Or.inl (List.mem_append_left _ hm)
          · rw [List.mem_singleton.mp hm]; exact Or.inr (Or.inl (by simp))
        · exact Or.inl (List.mem_append_right _ hm)
  | device line _ => exact hk.keep rfl rfl hsame hk.network

/-! ## Any run -/

/-- Everything that is kept about a command, from its payload to its report. -/
structure Ledger (w : World δ) : Prop where
  books : Books w
  kept : Kept w
  reported : Reported w
  acknowledged : Acknowledged w

theorem ledger_start (module_id : String) (d : δ) : Ledger (World.start module_id d) where
  books := books_start module_id d
  kept := by intro i c hc; exact absurd hc (by simp [World.start])
  reported := reported_start module_id d
  acknowledged := acknowledged_start module_id d

theorem ledger_step {w w' : World δ} {a : Act A} (h : World.Step parse dev w a w')
    (hl : Ledger w) : Ledger w' where
  books := books_step h hl.books
  kept := kept_step h hl.books hl.kept
  reported := reported_step h hl.kept hl.reported hl.acknowledged.network
  acknowledged := acknowledged_step h hl.acknowledged

/-- **The run lemma.** Whatever the payloads and the schedule. -/
theorem ledger_run {module_id : String} {d : δ} {as : List (Act A)} {w : World δ}
    {G : World δ → Act A → Prop}
    (hr : Run (World.step parse dev) G (World.start module_id d) as w) : Ledger w :=
  hr.invariant (ledger_start module_id d) (fun hl _ hst => ledger_step (World.step_cases hst) hl)

/-- A step changes the queue of a group: it pushes an accepted command or pops the front. -/
def QueueStep (parse : String → Option Json) (w w' : World δ) (a : Act A) (g : Int64) : Prop :=
  (∃ payload j c, a = .receive .workAssignation payload ∧ parse payload = some j
      ∧ Services.Accepts w.channel.services j g c
      ∧ w'.channel.services.commandsInfo g = w.channel.services.commandsInfo g ++ [c])
    ∨ ∃ i d c, a = .allBegins i ∧ w.channel.dispatchers[i]? = some d ∧ d.pc = .getNextWork g
      ∧ w.channel.services.commandsInfo g = c :: w'.channel.services.commandsInfo g

/-- The queue of a group changes in a step for that group, and in no other. -/
theorem queueStep_of_ne {w w' : World δ} {a : Act A} {g : Int64}
    (h : World.Step parse dev w a w')
    (hne : w'.channel.services.commandsInfo g ≠ w.channel.services.commandsInfo g) :
    QueueStep parse w w' a g := by
  cases h with
  | replying m ch _ _ hh =>
      cases hh with
      | refused j _ => exact absurd rfl hne
      | asked j _ => exact absurd rfl hne
      | accepted j group_id c hp ha =>
          have hpush : (w.channel.services.push group_id c).commandsInfo g
            = Function.update w.channel.services.commandsInfo group_id _ g := rfl
          rcases eq_or_ne g group_id with rfl | hg
          · rw [Function.update_self] at hpush
            exact Or.inl ⟨_, j, c, rfl, hp, ha, hpush⟩
          · rw [Function.update_of_ne hg] at hpush
            exact absurd hpush hne
  | popped d group_id c services hd hpc hn =>
      obtain ⟨rest, hq, rfl⟩ := Services.getNextWork_cases hn
      have hpop : Function.update w.channel.services.commandsInfo group_id rest g
          ≠ w.channel.services.commandsInfo g := hne
      rcases eq_or_ne g group_id with rfl | hg
      · refine Or.inr ⟨_, d, c, rfl, hd, hpc, ?_⟩
        show _ = c :: Function.update w.channel.services.commandsInfo g rest g
        rw [Function.update_self, hq]
      · exact absurd (Function.update_of_ne hg _ _) hpop
  | received ch _ _ hh => cases hh <;> exact absurd rfl hne
  | threw e ch _ _ hh => cases hh; exact absurd rfl hne
  | answered m _ => exact absurd rfl hne
  | unwound e _ => exact absurd rfl hne
  | workingSet d _ _ => exact absurd rfl hne
  | grouped d group_id _ _ _ => exact absurd rfl hne
  | groupThrew d e _ _ _ => exact absurd rfl hne
  | drained d group_id _ _ _ => exact absurd rfl hne
  | found d group_id _ _ _ => exact absurd rfl hne
  | threaded d group_id c _ _ => exact absurd rfl hne
  | workingCleared d _ _ => exact absurd rfl hne
  | findThrew c e _ _ _ => exact absurd rfl hne
  | notFound c _ _ _ => exact absurd rfl hne
  | called c responsible creators command line _ _ _ _ => exact absurd rfl hne
  | ran c responsible command k hcall line _ _ _ _ _ => exact absurd rfl hne
  | returned c responsible command k hcall code reply_info => exact absurd rfl hne
  | replyThrew c responsible command k hcall code e => exact absurd rfl hne
  | locked c reply_info _ _ _ => exact absurd rfl hne
  | emitted c reply_info _ _ => exact absurd rfl hne
  | unlocked c _ _ => exact absurd rfl hne
  | device line _ => exact absurd rfl hne

/-- What is true of the accepted commands in every state. -/
structure ExactlyOnce (w : World δ) : Prop where
  /-- For each group: accepted is popped, then what is waiting, in order. -/
  accounts : ∀ g, forGroup w.channel.services.accepted g
    = forGroup w.channel.services.popped g ++ w.channel.services.commandsInfo g
  /-- The `ACCEPTED` replies, sent or about to be, name the accepted commands in order. -/
  accepted : List.Forall₂ Names w.channel.services.accepted (w.answers.filter Message.accepts)
  /-- Every other reply to an assignation says `REFUSE`. -/
  refused : ∀ m ∈ w.answers, m.event = .workAssignationReply →
    m.accepts = true ∨ m.data.member "REPLY" = .string "REFUSE"
  /-- The `ACTION_FINISHED` messages on the channel are the reports. -/
  sent : (w.channel.emitted.filter (fun m => m.event == .actionFinished)).map Message.data
    = w.reports.map Report.data
  /-- A popped command is in the hands of one `all_begins` thread or one `consumeService` thread. -/
  threads : w.channel.services.popped.Perm w.custody
    ∧ (w.channel.services.popped.map (fun p => p.2.ticket)).Nodup
  /-- A report is about a command that was popped, and carries its id. -/
  popped : ∀ r ∈ w.reports, ∃ p ∈ w.channel.services.popped, p.2.ticket = r.ticket
    ∧ r.data.member "COMMAND_ID" = p.2.command.member "COMMAND_ID"
  /-- No command is reported twice. -/
  once : (w.reports.map Report.ticket).Nodup
  /-- No thread drops its command. -/
  kept : ∀ c ∈ w.consumers, c.pc ≠ .dropped ∧ ∀ e, c.pc ≠ .thrown e
  /-- With all threads through, every popped command has been reported. -/
  complete : (∀ d ∈ w.channel.dispatchers, d.held = []) → (∀ c ∈ w.consumers, c.pc = .ended) →
    (w.reports.map Report.ticket).Perm (w.channel.services.popped.map (fun p => p.2.ticket))

/-- The tickets reported are those of the threads past their report. -/
theorem Ledger.reports_perm {w : World δ} (h : Ledger w) :
    (w.reports.map Report.ticket).Perm
      ((w.consumers.filter Consumer.reported).map (fun c => c.commandInfo.ticket)) := by
  have hnd : ((w.consumers.filter Consumer.reported).map (fun c => c.commandInfo.ticket)).Nodup :=
    h.books.consumers_once.sublist (List.filter_sublist.map _)
  have hrt : (w.reports.map Report.ticket).Nodup := by
    refine List.Nodup.map_on ?_ (List.Nodup.of_map _ h.reported.once)
    intro r hr r' hr' ht
    -- a report's ticket determines its thread
    obtain ⟨c, hc, _, hct, _⟩ := h.reported.by_thread r hr
    obtain ⟨c', hc', _, hct', _⟩ := h.reported.by_thread r' hr'
    have hthread := h.books.consumer_unique hc hc' (by rw [← hct, ← hct', ht])
    exact List.inj_on_of_nodup_map h.reported.once hr hr' hthread
  refine (List.perm_ext_iff_of_nodup hrt hnd).mpr ?_
  intro t
  constructor
  · intro ht
    obtain ⟨r, hr, rfl⟩ := List.mem_map.mp ht
    obtain ⟨c, hc, hrep, hticket, _⟩ := h.reported.by_thread r hr
    rw [hticket]
    exact List.mem_map.mpr ⟨c, List.mem_filter.mpr ⟨List.mem_of_getElem? hc, hrep⟩, rfl⟩
  · intro ht
    obtain ⟨c, hc, rfl⟩ := List.mem_map.mp ht
    obtain ⟨hc, hrep⟩ := List.mem_filter.mp hc
    obtain ⟨i, hi⟩ := List.mem_iff_getElem?.mp hc
    obtain ⟨r, hr, hri⟩ := h.reported.all i c hi hrep
    obtain ⟨c', hc', _, hticket, _⟩ := h.reported.by_thread r hr
    rw [hri, hi] at hc'
    rw [← Option.some.inj hc'] at hticket
    exact List.mem_map.mpr ⟨r, hr, hticket⟩

theorem Ledger.exactlyOnce {w : World δ} (h : Ledger w) : ExactlyOnce w where
  accounts := h.books.accounted.queues
  accepted := h.acknowledged.accepted
  refused := h.acknowledged.others
  sent := h.reported.sent
  threads := ⟨h.books.custody, h.books.accounted.popped_once⟩
  popped := by
    intro r hr
    obtain ⟨c, hc, _, ht, hd⟩ := h.reported.by_thread r hr
    exact ⟨c.entry, h.books.mem_popped hc, ht.symm, by rw [hd]; rfl⟩
  once := by
    refine h.reports_perm.nodup_iff.mpr ?_
    exact h.books.consumers_once.sublist (List.filter_sublist.map _)
  kept := by
    intro c hc
    obtain ⟨i, hi⟩ := List.mem_iff_getElem?.mp hc
    have hf := h.kept i c hi
    refine ⟨?_, ?_⟩
    · intro hpc; rw [hpc] at hf; exact hf
    · intro e hpc; rw [hpc] at hf; exact hf
  complete := by
    intro hd hc
    have hheld : w.channel.dispatchers.flatMap Dispatcher.held = [] :=
      List.flatMap_eq_nil_iff.mpr hd
    have hall : w.consumers.filter Consumer.reported = w.consumers := by
      refine List.filter_eq_self.mpr ?_
      intro c hm
      simp [Consumer.reported, hc c hm]
    have hcus := h.books.custody.map (fun p : Int64 × CommandInfo => p.2.ticket)
    unfold World.custody at hcus
    rw [hheld, List.nil_append, List.map_map] at hcus
    have hrep := h.reports_perm
    rw [hall] at hrep
    exact hrep.trans hcus.symm

/--
**Exactly-once accounting.** In every state of every run, whatever the payloads, the
device and the interleaving; and a step changes the queue of a group only if it is
a step for that group.
-/
theorem exactlyOnce_run {module_id : String} {d : δ} {as : List (Act A)} {w : World δ}
    (hr : Run (World.step parse dev) NoGuard (World.start module_id d) as w) :
    ExactlyOnce w ∧ ∀ (a : Act A) (w' : World δ) (g : Int64), w.step parse dev a = some w' →
      w'.channel.services.commandsInfo g ≠ w.channel.services.commandsInfo g →
      QueueStep parse w w' a g := by
  refine ⟨(ledger_run hr).exactlyOnce, ?_⟩
  intro a w' g hst hne
  exact queueStep_of_ne (World.step_cases hst) hne

/-- A session in which an `OPEN-GRIP` is accepted, begun, carried out and reported. -/
def openSession : List (Act Unit) :=
  [.receive .workAssignation openPayload, .answer, .receive .allBegins beginPayload]
    ++ times 5 (.allBegins 0) ++ times 4 (.consumeService 0 true) ++ times 67 (.device ())
    ++ times 99 (.consumeService 0 true) ++ times 4 (.consumeService 0 true)
    ++ times 2 (.allBegins 0)

set_option maxRecDepth 10000 in
theorem exactlyOnce_run_open :
    ∃ w, Run (World.step sessionParse firmware) NoGuard (World.start "handling" Board.start)
        openSession w
      ∧ w.reports.length = 1
      ∧ (ExactlyOnce w ∧ ∀ (a : Act Unit) (w' : World Board) (g : Int64),
        w.step sessionParse firmware a = some w' →
        w'.channel.services.commandsInfo g ≠ w.channel.services.commandsInfo g →
        QueueStep sessionParse w w' a g) := by
  have hexec : (exec (World.step sessionParse firmware) (World.start "handling" Board.start)
      openSession).any (fun w => w.reports.length == 1) = true := by decide +kernel
  obtain ⟨w, hw, hlen⟩ := exists_of_exec hexec
  have hr := run_of_exec hw
  exact ⟨w, hr, eq_of_beq hlen, exactlyOnce_run hr⟩

end HandlingModule.AIO
