import HandlingModule.AIO.ExactlyOnce

/-!
# The working flag

One flag serves all the `all_begins` threads: each raises it when it starts and lowers
it when its queue is empty. It stays up for all of them exactly as long as a thread
lowers it only when it is the last. `WORK_STATUS` is answered from this flag, the
wrong way round, and the flag knows nothing of the `consumeService` threads.
-/

namespace HandlingModule.AIO

open Serial Transition Replace

variable {δ A : Type} {parse : String → Option Json} {dev : Device δ A}

/-- After its `setWorking(true)` and before its `setWorking(false)`. -/
def DispatchPc.between : DispatchPc → Bool
  | .groupId | .isEmptyCommands _ | .getNextWork _ | .newThread _ _ | .clearWorking => true
  | _ => false

/-- In the loop that empties its queue. -/
def DispatchPc.draining : DispatchPc → Bool
  | .isEmptyCommands _ | .getNextWork _ | .newThread _ _ => true
  | _ => false

def Dispatcher.between (d : Dispatcher) : Bool := d.pc.between

def Dispatcher.draining (d : Dispatcher) : Bool := d.pc.draining

/-- How many threads are between the two. -/
def World.between (w : World δ) : Nat := w.channel.dispatchers.countP Dispatcher.between

/-- What a step is for the flag and the threads that share it. -/
inductive FlagStep (w : World δ) : Act A → World δ → Prop where
  | unseen {a : Act A} {w' : World δ} :
      w'.channel.dispatchers = w.channel.dispatchers →
      w'.channel.services.isWorking = w.channel.services.isWorking →
      (∀ (i : Nat) (d : Dispatcher), a = .allBegins i → w.channel.dispatchers[i]? = some d →
        d.pc ≠ .clearWorking) → FlagStep w a w'
  | begun {event : CommunicationEvents} {payload : String} {w' : World δ} (j : Json) :
      w'.channel.dispatchers = w.channel.dispatchers ++ [⟨j, .setWorking⟩] →
      w'.channel.services.isWorking = w.channel.services.isWorking →
      FlagStep w (.receive event payload) w'
  | raised {i : Nat} {w' : World δ} (d : Dispatcher) :
      w.channel.dispatchers[i]? = some d → d.pc = .setWorking →
      w'.channel.dispatchers = w.channel.dispatchers.set i { d with pc := .groupId } →
      w'.channel.services.isWorking = true → FlagStep w (.allBegins i) w'
  | moved {i : Nat} {w' : World δ} (d : Dispatcher) (pc : DispatchPc) :
      w.channel.dispatchers[i]? = some d → d.between = true → d.pc ≠ .clearWorking →
      (pc.between = true ∨ ∃ e, pc = .thrown e) →
      w'.channel.dispatchers = w.channel.dispatchers.set i { d with pc := pc } →
      w'.channel.services.isWorking = w.channel.services.isWorking → FlagStep w (.allBegins i) w'
  | lowered {i : Nat} {w' : World δ} (d : Dispatcher) :
      w.channel.dispatchers[i]? = some d → d.pc = .clearWorking →
      w'.channel.dispatchers = w.channel.dispatchers.set i { d with pc := .ended } →
      w'.channel.services.isWorking = false → FlagStep w (.allBegins i) w'

theorem flagStep {w w' : World δ} {a : Act A} (h : World.Step parse dev w a w') :
    FlagStep w a w' := by
  cases h with
  | received ch _ _ hh =>
      cases hh with
      | registered j module_id _ _ => exact .unseen rfl rfl (fun _ _ ha => by simp at ha)
      | begun j _ => exact .begun j rfl rfl
  | replying m ch _ _ hh => cases hh <;> exact .unseen rfl rfl (fun _ _ ha => by simp at ha)
  | threw e ch _ _ hh => cases hh; exact .unseen rfl rfl (fun _ _ ha => by simp at ha)
  | workingSet d hd hpc => exact .raised d hd hpc rfl rfl
  | grouped d g hd hpc _ =>
      exact .moved d (.isEmptyCommands g) hd (by simp [Dispatcher.between, DispatchPc.between, hpc])
        (by simp [hpc]) (Or.inl rfl) rfl rfl
  | groupThrew d e hd hpc _ =>
      exact .moved d (.thrown e) hd (by simp [Dispatcher.between, DispatchPc.between, hpc])
        (by simp [hpc]) (Or.inr ⟨e, rfl⟩) rfl rfl
  | drained d g hd hpc _ =>
      exact .moved d .clearWorking hd (by simp [Dispatcher.between, DispatchPc.between, hpc])
        (by simp [hpc]) (Or.inl rfl) rfl rfl
  | found d g hd hpc _ =>
      exact .moved d (.getNextWork g) hd (by simp [Dispatcher.between, DispatchPc.between, hpc])
        (by simp [hpc]) (Or.inl rfl) rfl rfl
  | popped d g c services hd hpc hn =>
      obtain ⟨rest, _, rfl⟩ := Services.getNextWork_cases hn
      exact .moved d (.newThread g c) hd (by simp [Dispatcher.between, DispatchPc.between, hpc])
        (by simp [hpc]) (Or.inl rfl) rfl rfl
  | threaded d g c hd hpc =>
      exact .moved d (.isEmptyCommands g) hd (by simp [Dispatcher.between, DispatchPc.between, hpc])
        (by simp [hpc]) (Or.inl rfl) rfl rfl
  | workingCleared d hd hpc => exact .lowered d hd hpc rfl rfl
  | _ => exact .unseen rfl rfl (fun _ _ ha => by simp at ha)

/-! ## Overlapping groups -/

/-- The flag is up for every thread between the two. -/
def FlagHolds (w : World δ) : Prop :=
  ∀ (i : Nat) (d : Dispatcher), w.channel.dispatchers[i]? = some d → d.between = true →
    w.channel.services.isWorking = true

theorem flagHolds_iff {w : World δ} :
    FlagHolds w ↔ w.between = 0 ∨ w.channel.services.isWorking = true := by
  constructor
  · intro h
    rcases Nat.eq_zero_or_pos w.between with h0 | hpos
    · exact Or.inl h0
    · obtain ⟨d, hm, hb⟩ := List.countP_pos_iff.mp hpos
      obtain ⟨i, hd⟩ := List.mem_iff_getElem?.mp hm
      exact Or.inr (h i d hd hb)
  · rintro (h0 | hup) i d hd hb
    · exact absurd hb (List.countP_eq_zero.mp h0 d (List.mem_of_getElem? hd))
    · exact hup

/-- The guard: a thread lowers the flag only as the last one out. -/
def LastOut (w : World δ) : Act A → Bool
  | .allBegins i =>
      match (w.channel.dispatchers[i]?).map Dispatcher.pc with
      | some .clearWorking => w.between == 1
      | _ => true
  | _ => true

theorem lastOut_iff {w : World δ} {a : Act A} :
    LastOut w a = true ↔ ∀ (i : Nat) (d : Dispatcher), a = .allBegins i →
      w.channel.dispatchers[i]? = some d → d.pc = .clearWorking → w.between = 1 := by
  constructor
  · rintro h i d rfl hd hpc
    simp only [LastOut, hd, Option.map_some, hpc, beq_iff_eq] at h
    exact h
  · intro h
    cases a with
    | allBegins i =>
        simp only [LastOut]
        split
        · rename_i hpc
          obtain ⟨d, hd, hpc⟩ := Option.map_eq_some_iff.mp hpc
          exact beq_iff_eq.mpr (h i d rfl hd hpc)
        · rfl
    | _ => rfl

/-- A step that raises or leaves the flag keeps it up for everybody. -/
theorem FlagStep.keeps {w w' : World δ} {a : Act A} (h : FlagStep w a w') (hf : FlagHolds w)
    (hlow : ∀ (i : Nat) (d : Dispatcher), a = .allBegins i → w.channel.dispatchers[i]? = some d →
      d.pc ≠ .clearWorking) : FlagHolds w' := by
  cases h with
  | unseen hds hw _ =>
      intro i d hd hb
      rw [hw]; exact hf i d (by rw [← hds]; exact hd) hb
  | begun j hds hw =>
      intro i d hd hb
      rw [hds] at hd
      rcases getElem?_snoc_cases hd with hd | ⟨_, rfl⟩
      · rw [hw]; exact hf i d hd hb
      · exact absurd hb Bool.false_ne_true
  | raised d hd hpc hds hw => exact fun _ _ _ _ => hw
  | moved d pc hd hb _ _ hds hw =>
      -- the thread was between the two already
      intro _ _ _ _
      rw [hw]; exact hf _ d hd hb
  | lowered d hd hpc _ _ => exact absurd hpc (hlow _ d rfl hd)

/-- A thread that lowers the flag leaves the others without. -/
theorem between_lowered {w w' : World δ} {i : Nat} {d : Dispatcher}
    (hd : w.channel.dispatchers[i]? = some d) (hpc : d.pc = .clearWorking)
    (hds : w'.channel.dispatchers = w.channel.dispatchers.set i { d with pc := .ended }) :
    w'.between + 1 = w.between := by
  have hset := countP_set_add Dispatcher.between { d with pc := .ended } hd
  have h0 : d.between = true := by simp [Dispatcher.between, DispatchPc.between, hpc]
  have h1 : Dispatcher.between { d with pc := .ended } = false := rfl
  rw [h0, h1] at hset
  simp only [Bool.false_eq_true, if_false, if_true] at hset
  unfold World.between
  rw [hds]
  exact hset

/-- **One step.** From a state in which the flag is up for everybody: the guard decides. -/
theorem flagHolds_step {w w' : World δ} {a : Act A} (h : World.Step parse dev w a w')
    (hf : FlagHolds w) : FlagHolds w' ↔ LastOut w a = true := by
  have hfs := flagStep h
  by_cases hlow : ∃ (i : Nat) (d : Dispatcher), a = .allBegins i
      ∧ w.channel.dispatchers[i]? = some d ∧ d.pc = .clearWorking
  · obtain ⟨i, d, rfl, hd, hpc⟩ := hlow
    have hone : LastOut w (.allBegins i : Act A) = true ↔ w.between = 1 := by
      rw [lastOut_iff]
      exact ⟨fun hl => hl i d rfl hd hpc, fun h1 _ _ _ _ _ => h1⟩
    have hdown : w'.channel.services.isWorking = false ∧ w'.between + 1 = w.between := by
      cases hfs with
      | lowered e he hpc' hds hw => exact ⟨hw, between_lowered he hpc' hds⟩
      | unseen _ _ hne => exact absurd hpc (hne i d rfl hd)
      | raised e he hpc' => rw [← Option.some.inj (hd.symm.trans he), hpc] at hpc'; simp at hpc'
      | moved e pc he _ hne =>
          rw [← Option.some.inj (hd.symm.trans he)] at hne
          exact absurd hpc hne
    rw [flagHolds_iff, hone, hdown.1]
    simp only [Bool.false_eq_true, or_false]
    omega
  · have hne : ∀ (i : Nat) (d : Dispatcher), a = .allBegins i →
        w.channel.dispatchers[i]? = some d → d.pc ≠ .clearWorking :=
      fun i d ha hd hpc => hlow ⟨i, d, ha, hd, hpc⟩
    refine ⟨fun _ => lastOut_iff.mpr (fun i d ha hd hpc => absurd hpc (hne i d ha hd)), fun _ => ?_⟩
    exact hfs.keeps hf hne

theorem flagHolds_start (module_id : String) (d : δ) : FlagHolds (World.start module_id d) := by
  intro i e he
  exact absurd he (by simp [World.start])

/--
**The flag, whatever the groups.** In a run in which a thread lowers the flag only as the
last one out, the flag is up for every thread between its two calls; and the first
step that is not so leaves a thread between its two calls with the flag down.
-/
theorem flagHolds_run {module_id : String} {d : δ} {as : List (Act A)} {w : World δ}
    (hr : Run (World.step parse dev) (fun w a => LastOut w a = true) (World.start module_id d) as w) :
    FlagHolds w ∧ ∀ (a : Act A) (w' : World δ), w.step parse dev a = some w' →
      (FlagHolds w' ↔ LastOut w a = true) := by
  have hf : FlagHolds w := hr.invariant (flagHolds_start module_id d)
    (fun hf hg hst => (flagHolds_step (World.step_cases hst) hf).mpr hg)
  exact ⟨hf, fun a w' hst => flagHolds_step (World.step_cases hst) hf⟩

/-- Two groups, one after the other. -/
def separateSession : List (Act Unit) :=
  [.receive .allBegins beginPayload] ++ times 4 (.allBegins 0)
    ++ [.receive .allBegins beginPayload] ++ times 4 (.allBegins 1)

theorem flagHolds_run_separate :
    ∃ w, Run (World.step sessionParse firmware) (fun w a => LastOut w a = true)
        (World.start "handling" Board.start) separateSession w
      ∧ (FlagHolds w ∧ ∀ (a : Act Unit) (w' : World Board),
        w.step sessionParse firmware a = some w' → (FlagHolds w' ↔ LastOut w a = true)) := by
  have hexec : (exec (checked LastOut (World.step sessionParse firmware))
      (World.start "handling" Board.start) separateSession).any
      (fun w => w.between == 0) = true := by decide +kernel
  obtain ⟨w, hw, _⟩ := exists_of_exec hexec
  have hr := run_of_exec_checked hw
  exact ⟨w, hr, flagHolds_run hr⟩

/-- Two groups at once: the first thread is through while the second still reads its group. -/
def overlapSession : List (Act Unit) :=
  times 2 (.receive .allBegins beginPayload) ++ [.allBegins 1] ++ times 4 (.allBegins 0)

theorem not_flagHolds_overlap :
    ¬ ∀ (as : List (Act Unit)) (w : World Board),
      Run (World.step sessionParse firmware) NoGuard (World.start "handling" Board.start) as w →
      FlagHolds w := by
  intro hall
  have hexec : (exec (World.step sessionParse firmware) (World.start "handling" Board.start)
      overlapSession).any (fun w => w.between == 1 && !w.channel.services.isWorking)
      = true := by decide +kernel
  obtain ⟨w, hw, hend⟩ := exists_of_exec hexec
  obtain ⟨hone, hdown⟩ := Bool.and_eq_true_iff.mp hend
  rcases flagHolds_iff.mp (hall _ w (run_of_exec hw)) with h0 | hup
  · rw [h0] at hone; exact absurd hone (by decide)
  · rw [hup] at hdown; exact absurd hdown (by decide)

/-! ## Who keeps the flag up -/

/-- With the flag up, some thread has raised it and not lowered it since. -/
def Raised (w : World δ) : Prop :=
  w.channel.services.isWorking = true → ∃ (i : Nat) (d : Dispatcher),
    w.channel.dispatchers[i]? = some d ∧ (d.between = true ∨ ∃ e, d.pc = .thrown e)

theorem raised_start (module_id : String) (d : δ) : Raised (World.start module_id d) := by
  intro h
  exact absurd h Bool.false_ne_true

theorem raised_step {w w' : World δ} {a : Act A} (h : FlagStep w a w') (hr : Raised w) :
    Raised w' := by
  intro hup
  cases h with
  | unseen hds hw _ =>
      obtain ⟨i, d, hd, hb⟩ := hr (by rw [← hw]; exact hup)
      exact ⟨i, d, by rw [hds]; exact hd, hb⟩
  | begun j hds hw =>
      obtain ⟨i, d, hd, hb⟩ := hr (by rw [← hw]; exact hup)
      refine ⟨i, d, ?_, hb⟩
      rw [hds]
      exact (List.getElem?_append_left (List.getElem?_eq_some_iff.mp hd).1).trans hd
  | raised d hd hpc hds hw =>
      rename_i i
      refine ⟨i, { d with pc := .groupId }, ?_, Or.inl rfl⟩
      rw [hds]
      exact List.getElem?_set_self (List.getElem?_eq_some_iff.mp hd).1
  | moved d pc hd _ _ hpc hds hw =>
      rename_i i _ _
      refine ⟨i, { d with pc := pc }, ?_, hpc⟩
      rw [hds]
      exact List.getElem?_set_self (List.getElem?_eq_some_iff.mp hd).1
  | lowered d hd hpc hds hw => rw [hw] at hup; exact absurd hup Bool.false_ne_true

/-- In any run, a flag that is up is the flag of a thread that is not through. -/
theorem raised_run {module_id : String} {d : δ} {as : List (Act A)} {w : World δ}
    {G : World δ → Act A → Prop}
    (hr : Run (World.step parse dev) G (World.start module_id d) as w) : Raised w :=
  hr.invariant (raised_start module_id d)
    (fun h _ hst => raised_step (flagStep (World.step_cases hst)) h)

/-! ## `WORK_STATUS` -/

/-- Work is going on: a popped command has no report yet, or a thread is emptying its queue. -/
def World.Busy (w : World δ) : Prop :=
  (∃ p ∈ w.channel.services.popped, p.2.ticket ∉ w.reports.map Report.ticket)
    ∨ ∃ d ∈ w.channel.dispatchers, d.draining = true

/-- An answer to `WORK_STATUS` that is right: `WORKING` when work is going on, and only then. -/
def Tells (w : World δ) (m : Message) : Prop :=
  m.data.member "STATUS" = .string "WORKING" ↔ w.Busy

/-- A thread is in the loop of `all_begins`, or in `consumeService` before its report. -/
def World.threadsBusy (w : World δ) : Bool :=
  w.channel.dispatchers.any Dispatcher.draining || w.consumers.any (fun c => !c.reported)

/-- A command out of its queue and without a report is in the hands of a thread. -/
theorem Ledger.busy_iff {w : World δ} (h : Ledger w) : w.Busy ↔ w.threadsBusy = true := by
  unfold World.threadsBusy
  rw [Bool.or_eq_true, List.any_eq_true, List.any_eq_true]
  constructor
  · rintro (⟨p, hp, hno⟩ | hd)
    · rcases List.mem_append.mp (h.books.custody.mem_iff.mp hp) with hm | hm
      · -- popped, and not yet given to a thread of its own
        obtain ⟨d, hd, hm⟩ := List.mem_flatMap.mp hm
        refine Or.inl ⟨d, hd, ?_⟩
        cases hpc : d.pc with
        | newThread g c => simp [Dispatcher.draining, DispatchPc.draining, hpc]
        | _ => exact absurd hm (by simp [Dispatcher.held, hpc])
      · obtain ⟨c, hc, rfl⟩ := List.mem_map.mp hm
        refine Or.inr ⟨c, hc, Bool.not_eq_true' _ ▸ ?_⟩
        obtain ⟨i, hi⟩ := List.mem_iff_getElem?.mp hc
        by_contra hrep
        obtain ⟨r, hr, hri⟩ := h.reported.all i c hi (Bool.not_eq_false _ ▸ hrep)
        obtain ⟨c', hc', _, ht, _⟩ := h.reported.by_thread r hr
        rw [hri, hi] at hc'
        refine hno (List.mem_map.mpr ⟨r, hr, ?_⟩)
        rw [ht, ← Option.some.inj hc']; rfl
    · exact Or.inl hd
  · rintro (hd | ⟨c, hc, hrep⟩)
    · exact Or.inr hd
    · obtain ⟨i, hi⟩ := List.mem_iff_getElem?.mp hc
      refine Or.inl ⟨c.entry, h.books.mem_popped hi, ?_⟩
      intro hm
      -- the report would be of this thread
      obtain ⟨r, hr, ht⟩ := List.mem_map.mp hm
      obtain ⟨c', hc', hrep', ht', _⟩ := h.reported.by_thread r hr
      have hthread := h.books.consumer_unique hc' hi (by rw [← ht', ht]; rfl)
      rw [hthread, hi] at hc'
      rw [← Option.some.inj hc'] at hrep'
      rw [hrep'] at hrep
      exact absurd hrep Bool.false_ne_true

/-- The reply to a `WORK_STATUS` says `WORKING` exactly when the flag is down. -/
theorem workStatus_reply {w w' : World δ} {payload : String} {members : List (String × Json)}
    (h : World.Step parse dev w (.receive .workStatus payload) w')
    (hp : parse payload = some (.object members)) :
    ∃ m, w'.network = .answering m ∧ m.event = .workStatusReply
      ∧ (m.data.member "STATUS" = .string "WORKING" ↔ w.channel.services.isWorking = false) := by
  cases h with
  | received ch _ _ hh => cases hh
  | replying m ch _ _ hh =>
      cases hh with
      | asked j hj _ =>
          refine ⟨_, rfl, rfl, ?_⟩
          cases hw : w.channel.services.isWorking with
          | false => simp [Handler.statusReply, Json.member, List.lookup_cons]
          | true => simp [Handler.statusReply, Json.member, List.lookup_cons]
  | threw e ch _ _ hh =>
      cases hh with
      | thrown _ hno => exact absurd ⟨_, hp, trivial⟩ hno

/--
**`WORK_STATUS`.** In any run, the answer to a payload that is an object is right exactly
if the flag is the opposite of what the threads are doing: down while one of them is in
its loop or before its report, up while none is.
-/
theorem workStatus_tells_iff {module_id : String} {d : δ} {as : List (Act A)} {w w' : World δ}
    {payload : String} {members : List (String × Json)}
    (hr : Run (World.step parse dev) NoGuard (World.start module_id d) as w)
    (hst : w.step parse dev (.receive .workStatus payload) = some w')
    (hp : parse payload = some (.object members)) :
    ∃ m, w'.network = .answering m ∧ m.event = .workStatusReply
      ∧ (Tells w m ↔ w.channel.services.isWorking = !w.threadsBusy) := by
  obtain ⟨m, hm, hevent, hstatus⟩ := workStatus_reply (World.step_cases hst) hp
  refine ⟨m, hm, hevent, ?_⟩
  rw [Tells, hstatus, (ledger_run hr).busy_iff]
  cases w.channel.services.isWorking <;> cases w.threadsBusy <;> simp

theorem sessionParse_begin :
    sessionParse beginPayload = some (.object [("GROUP_ID", .unsigned 7)]) := by
  unfold sessionParse
  rw [if_neg (by decide +kernel), if_neg (by decide +kernel), if_pos rfl]

/-- An `OPEN-GRIP` whose thread has started, with the flag down again. -/
def startedSession : List (Act Unit) :=
  [.receive .workAssignation openPayload, .answer, .receive .allBegins beginPayload]
    ++ times 7 (.allBegins 0)

theorem workStatus_tells_iff_started :
    ∃ w w' m, Run (World.step sessionParse firmware) NoGuard (World.start "handling" Board.start)
        startedSession w
      ∧ w.step sessionParse firmware (.receive .workStatus beginPayload) = some w'
      ∧ w'.network = .answering m ∧ Tells w m := by
  have hexec : (exec (World.step sessionParse firmware) (World.start "handling" Board.start)
      startedSession).any (fun w => (w.channel.services.isWorking == !w.threadsBusy)
        && (w.step sessionParse firmware (.receive .workStatus beginPayload)).isSome)
      = true := by decide +kernel
  obtain ⟨w, hw, hend⟩ := exists_of_exec hexec
  obtain ⟨heq, hstep⟩ := Bool.and_eq_true_iff.mp hend
  obtain ⟨w', hst⟩ := Option.isSome_iff_exists.mp hstep
  obtain ⟨m, hm, _, hiff⟩ := workStatus_tells_iff (run_of_exec hw) hst sessionParse_begin
  exact ⟨w, w', m, run_of_exec hw, hst, hm, hiff.mpr (eq_of_beq heq)⟩

/-- Asked before anything has happened, the module says that it is working. -/
theorem not_tells_start :
    ¬ ∀ (as : List (Act Unit)) (w w' : World Board) (payload : String)
      (members : List (String × Json)) (m : Message),
      Run (World.step sessionParse firmware) NoGuard (World.start "handling" Board.start) as w →
      w.step sessionParse firmware (.receive .workStatus payload) = some w' →
      sessionParse payload = some (.object members) → w'.network = .answering m → Tells w m := by
  intro hall
  have hstep : ((World.start "handling" Board.start).step sessionParse firmware
      (.receive .workStatus beginPayload)).isSome = true := by decide +kernel
  obtain ⟨w', hst⟩ := Option.isSome_iff_exists.mp hstep
  obtain ⟨m, hm, _, hstatus⟩ := workStatus_reply (World.step_cases hst) sessionParse_begin
  have htells := hall [] _ w' _ _ m Run.nil hst sessionParse_begin hm
  rcases htells.mp (hstatus.mpr rfl) with ⟨p, hmem, _⟩ | ⟨d, hmem, _⟩
  · exact absurd hmem (by simp [World.start, handlingModule, Services.addService, Services.new])
  · exact absurd hmem (by simp [World.start])

/-- **A module with nothing to do always answers `WORKING`.** -/
theorem workStatus_idle {module_id : String} {d : δ} {as : List (Act A)} {w w' : World δ}
    {payload : String} {members : List (String × Json)}
    (hr : Run (World.step parse dev) NoGuard (World.start module_id d) as w)
    (hst : w.step parse dev (.receive .workStatus payload) = some w')
    (hp : parse payload = some (.object members))
    (hidle : ∀ e ∈ w.channel.dispatchers, e.pc = .setWorking ∨ e.pc = .ended) :
    ∃ m, w'.network = .answering m ∧ m.data.member "STATUS" = .string "WORKING" := by
  obtain ⟨m, hm, _, hstatus⟩ := workStatus_reply (World.step_cases hst) hp
  refine ⟨m, hm, hstatus.mpr (Bool.not_eq_true _ ▸ fun hup => ?_)⟩
  -- a flag that is up is the flag of a thread that is not through
  obtain ⟨i, e, he, hb⟩ := raised_run hr hup
  rcases hidle e (List.mem_of_getElem? he) with hpc | hpc
  · rw [Dispatcher.between, hpc] at hb
    exact absurd hb (by simp [DispatchPc.between])
  · rw [Dispatcher.between, hpc] at hb
    exact absurd hb (by simp [DispatchPc.between])

/-- **While a group is being dispatched and no other is, the answer is never `WORKING`.** -/
theorem workStatus_dispatching {module_id : String} {d : δ} {as : List (Act A)} {w w' : World δ}
    {payload : String} {members : List (String × Json)}
    (hr : Run (World.step parse dev) (fun w a => LastOut w a = true) (World.start module_id d) as w)
    (hst : w.step parse dev (.receive .workStatus payload) = some w')
    (hp : parse payload = some (.object members)) {i : Nat} {e : Dispatcher}
    (he : w.channel.dispatchers[i]? = some e) (hdr : e.draining = true) :
    ∃ m, w'.network = .answering m ∧ m.event = .workStatusReply
      ∧ m.data.member "STATUS" ≠ .string "WORKING" := by
  obtain ⟨m, hm, hevent, hstatus⟩ := workStatus_reply (World.step_cases hst) hp
  have hbetween : e.between = true := by
    cases hpc : e.pc <;> simp_all [Dispatcher.between, DispatchPc.between, Dispatcher.draining,
      DispatchPc.draining]
  have hup := flagHolds_run hr
  refine ⟨m, hm, hevent, ?_⟩
  intro hw
  rw [hup.1 i e he hbetween] at hstatus
  exact absurd (hstatus.mp hw) (by simp)

end HandlingModule.AIO
