import HandlingModule.AIO.Identity
import HandlingModule.AIO.Starts
import HandlingModule.AIO.Working

/-!
# On whose behalf a command is started

`ALL_BEGINS` starts a thread that empties its group's queue, and the queue is the live
one: a command that is accepted while the thread is at it is taken like the others. So
the `ALL_BEGINS` a command is started for came after the command was accepted, or its
thread had not yet found the queue empty by then. There is no third kind, and both
happen.
-/

namespace HandlingModule.AIO

open Serial Transition Replace

variable {δ A : Type} {parse : String → Option Json} {dev : Device δ A}

/-- The thread will not look at its queue again. -/
def DispatchPc.past : DispatchPc → Bool
  | .clearWorking | .ended | .thrown _ => true
  | _ => false

def Dispatcher.past (d : Dispatcher) : Bool := d.pc.past

/-- How many `ALL_BEGINS` have been received; each started the thread of its number. -/
def World.received (w : World δ) : Nat := w.channel.dispatchers.length

/-- The thread of that `ALL_BEGINS` is for the group and has not found its queue empty yet. -/
def World.Open (w : World δ) (g : Int64) (i : Nat) : Prop :=
  ∃ d, w.channel.dispatchers[i]? = some d ∧ d.groupId = .ok g ∧ d.past = false

/-! ## A thread that is past its loop stays past it -/

/-- A thread has the payload it was started with, and does not come back. -/
def Continues (w w' : World δ) : Prop :=
  ∀ (i : Nat) (d' : Dispatcher), i < w.received → w'.channel.dispatchers[i]? = some d' →
    ∃ d, w.channel.dispatchers[i]? = some d ∧ d'.dataJSON = d.dataJSON
      ∧ (d.past = true → d'.past = true)

theorem continues_set {w w' : World δ} {i : Nat} {d : Dispatcher} {pc : DispatchPc}
    (hd : w.channel.dispatchers[i]? = some d) (hpast : d.past = true → pc.past = true)
    (hds : w'.channel.dispatchers = w.channel.dispatchers.set i { d with pc := pc }) :
    Continues w w' := by
  intro j d' _ hd'
  rw [hds] at hd'
  rcases getElem?_set_cases hd hd' with ⟨rfl, rfl⟩ | ⟨_, hd'⟩
  · exact ⟨d, hd, rfl, hpast⟩
  · exact ⟨d', hd', rfl, id⟩

theorem continues_step {w w' : World δ} {a : Act A} (h : FlagStep w a w') : Continues w w' := by
  cases h with
  | unseen hds _ _ =>
      intro i d' _ hd'
      exact ⟨d', by rw [← hds]; exact hd', rfl, id⟩
  | begun j hds _ =>
      intro i d' hi hd'
      rw [hds] at hd'
      exact ⟨d', (List.getElem?_append_left hi).symm.trans hd', rfl, id⟩
  | raised d hd hpc hds _ =>
      exact continues_set hd (by simp [Dispatcher.past, DispatchPc.past, hpc]) hds
  | moved d pc hd hb hne _ hds _ =>
      -- a thread that moves within the loop is not past it
      refine continues_set hd (fun hp => ?_) hds
      cases hpc : d.pc with
      | clearWorking => exact absurd hpc hne
      | ended => simp [Dispatcher.between, DispatchPc.between, hpc] at hb
      | thrown e => simp [Dispatcher.between, DispatchPc.between, hpc] at hb
      | _ => simp [Dispatcher.past, DispatchPc.past, hpc] at hp
  | lowered d hd _ hds _ => exact continues_set hd (fun _ => rfl) hds

theorem received_step {w w' : World δ} {a : Act A} (h : FlagStep w a w') :
    w.received ≤ w'.received := by
  unfold World.received
  cases h with
  | unseen hds _ _ => rw [hds]
  | begun j hds _ => rw [hds, List.length_append]; exact Nat.le_add_right ..
  | raised d _ _ hds _ => rw [hds, List.length_set]
  | moved d pc _ _ _ _ hds _ => rw [hds, List.length_set]
  | lowered d _ _ hds _ => rw [hds, List.length_set]

/-- From any state on. -/
theorem continues_run {G : World δ → Act A → Prop} {w w' : World δ} {as : List (Act A)}
    (hr : Run (World.step parse dev) G w as w') : w.received ≤ w'.received ∧ Continues w w' := by
  refine hr.invariant (I := fun u => w.received ≤ u.received ∧ Continues w u)
    ⟨Nat.le_refl _, fun i d _ hd => ⟨d, hd, rfl, id⟩⟩ ?_
  intro u v a ⟨hle, hf⟩ _ hst
  have hfs := flagStep (World.step_cases hst)
  refine ⟨Nat.le_trans hle (received_step hfs), ?_⟩
  intro i d' hi hd'
  obtain ⟨e, he, hj, hp⟩ := continues_step hfs i d' (Nat.lt_of_lt_of_le hi hle) hd'
  obtain ⟨d, hd, hj', hp'⟩ := hf i e hi he
  exact ⟨d, hd, hj.trans hj', fun h => hp (hp' h)⟩

/-! ## Who takes a command -/

/-- Only a thread that has just seen a command takes one. -/
theorem popped_cases {w w' : World δ} {a : Act A} (h : World.Step parse dev w a w') {g : Int64}
    {c : CommandInfo}
    (hp : w'.channel.services.popped = w.channel.services.popped ++ [(g, c)]) :
    ∃ i d, a = .allBegins i ∧ w.channel.dispatchers[i]? = some d ∧ d.pc = .getNextWork g := by
  have hne : ∀ l : List (Int64 × CommandInfo), l ≠ l ++ [(g, c)] := by
    intro l hl
    exact absurd (List.self_eq_append_right.mp hl) (by simp)
  cases h with
  | popped d group_id c' services hd hpc hn =>
      obtain ⟨rest, _, rfl⟩ := Services.getNextWork_cases hn
      have hp : w.channel.services.popped ++ [(group_id, c')] = w.channel.services.popped ++ [(g, c)] := hp
      have heq := (List.append_cancel_left hp)
      rw [List.singleton_inj, Prod.mk.injEq] at heq
      exact ⟨_, d, rfl, hd, by rw [hpc, heq.1]⟩
  | received ch _ _ hh => cases hh <;> exact absurd hp (hne _)
  | replying m ch _ _ hh => cases hh <;> exact absurd hp (hne _)
  | threw e ch _ _ hh => cases hh; exact absurd hp (hne _)
  | _ => exact absurd hp (hne _)

/-! ## A thread left to itself -/

/-- A thread at a statement, with the queue of a group. -/
def World.At (w : World δ) (g : Int64) (i : Nat) (j : Json) (pc : DispatchPc)
    (queue : List CommandInfo) : Prop :=
  w.channel.dispatchers[i]? = some ⟨j, pc⟩ ∧ w.channel.services.commandsInfo g = queue

theorem getElem?_setDispatcher {w : World δ} {i : Nat} {d : Dispatcher}
    (hd : w.channel.dispatchers[i]? = some d) (d' : Dispatcher) :
    (w.channel.dispatchers.set i d')[i]? = some d' :=
  List.getElem?_set_self (List.getElem?_eq_some_iff.mp hd).1

section

variable (parse : String → Option Json) (dev : Device δ A)
variable {w : World δ} {g : Int64} {i : Nat} {j : Json} {queue : List CommandInfo}

theorem World.At.setWorking (h : w.At g i j .setWorking queue) :
    ∃ w', w.step parse dev (.allBegins i) = some w' ∧ w'.At g i j .groupId queue := by
  obtain ⟨hd, hq⟩ := h
  refine ⟨(w.setServices (w.channel.services.setWorking true)).setDispatcher i ⟨j, .groupId⟩, ?_,
    getElem?_setDispatcher hd _, hq⟩
  simp only [World.step, World.allBegins, hd]
  rfl

theorem World.At.groupId (h : w.At g i j .groupId queue)
    (hg : Dispatcher.groupId ⟨j, .groupId⟩ = .ok g) :
    ∃ w', w.step parse dev (.allBegins i) = some w' ∧ w'.At g i j (.isEmptyCommands g) queue := by
  obtain ⟨hd, hq⟩ := h
  refine ⟨w.setDispatcher i ⟨j, .isEmptyCommands g⟩, ?_, getElem?_setDispatcher hd _, hq⟩
  simp only [World.step, World.allBegins, hd, bind, Option.bind, hg]
  rfl

theorem World.At.found {c : CommandInfo} (h : w.At g i j (.isEmptyCommands g) (c :: queue)) :
    ∃ w', w.step parse dev (.allBegins i) = some w' ∧ w'.At g i j (.getNextWork g) (c :: queue) := by
  obtain ⟨hd, hq⟩ := h
  refine ⟨w.setDispatcher i ⟨j, .getNextWork g⟩, ?_, getElem?_setDispatcher hd _, hq⟩
  simp only [World.step, World.allBegins, hd, bind, Option.bind, Services.isEmptyCommands, hq]
  rfl

theorem World.At.getNextWork {c : CommandInfo} (h : w.At g i j (.getNextWork g) (c :: queue)) :
    ∃ w', w.step parse dev (.allBegins i) = some w' ∧ w'.At g i j (.newThread g c) queue
      ∧ w'.channel.services.popped = w.channel.services.popped ++ [(g, c)] := by
  obtain ⟨hd, hq⟩ := h
  refine ⟨(w.setServices { w.channel.services with
      commandsInfo := Function.update w.channel.services.commandsInfo g queue
      popped := w.channel.services.popped ++ [(g, c)] }).setDispatcher i ⟨j, .newThread g c⟩, ?_,
    ⟨getElem?_setDispatcher hd _, Function.update_self ..⟩, rfl⟩
  simp only [World.step, World.allBegins, hd, bind, Option.bind, Services.getNextWork, hq]
  rfl

theorem World.At.newThread {c : CommandInfo} (h : w.At g i j (.newThread g c) queue) :
    ∃ w', w.step parse dev (.allBegins i) = some w' ∧ w'.At g i j (.isEmptyCommands g) queue := by
  obtain ⟨hd, hq⟩ := h
  refine ⟨{ w.setDispatcher i ⟨j, .isEmptyCommands g⟩ with
    consumers := w.consumers ++ [Consumer.start g c] }, ?_, getElem?_setDispatcher hd _, hq⟩
  simp only [World.step, World.allBegins, hd]
  rfl

end

/-- There is a run on which thread `i` takes the command. -/
def CanPop (parse : String → Option Json) (dev : Device δ A) (w : World δ) (g : Int64) (i : Nat)
    (c : CommandInfo) : Prop :=
  ∃ bs w₂ w₃, Run (World.step parse dev) NoGuard w bs w₂
    ∧ w₂.step parse dev (.allBegins i) = some w₃
    ∧ w₃.channel.services.popped = w₂.channel.services.popped ++ [(g, c)]

theorem CanPop.of_step {w w' : World δ} {a : Act A} {g : Int64} {i : Nat} {c : CommandInfo}
    (hst : w.step parse dev a = some w') (h : CanPop parse dev w' g i c) :
    CanPop parse dev w g i c := by
  obtain ⟨bs, w₂, w₃, hr, hst₂, hp⟩ := h
  exact ⟨[a] ++ bs, w₂, w₃, (Run.one trivial hst).trans hr, hst₂, hp⟩

/-- Left to itself, a thread in its loop comes to every command of its queue. -/
theorem canPop_isEmptyCommands {g : Int64} {i : Nat} {j : Json} {c : CommandInfo}
    {queue : List CommandInfo} {w : World δ} (h : w.At g i j (.isEmptyCommands g) queue)
    (hc : c ∈ queue) : CanPop parse dev w g i c := by
  induction queue generalizing w with
  | nil => exact absurd hc (by simp)
  | cons c' queue ih =>
      obtain ⟨w₁, hst₁, h₁⟩ := h.found parse dev
      obtain ⟨w₂, hst₂, h₂, hp⟩ := h₁.getNextWork parse dev
      refine CanPop.of_step hst₁ ?_
      rcases List.mem_cons.mp hc with rfl | hc
      · exact ⟨[], w₁, w₂, Run.nil, hst₂, hp⟩
      · obtain ⟨w₃, hst₃, h₃⟩ := h₂.newThread parse dev
        exact CanPop.of_step hst₂ (CanPop.of_step hst₃ (ih h₃ hc))

/-- And so does one that has not come to its loop yet. -/
theorem canPop_of_open {g : Int64} {i : Nat} {c : CommandInfo} {w : World δ} (hs : Starts g w)
    (ho : w.Open g i) (hc : c ∈ w.channel.services.commandsInfo g) : CanPop parse dev w g i c := by
  obtain ⟨⟨j, pc⟩, hd, hg, hpast⟩ := ho
  have hgroup : ∀ h : Int64, pc.group = some h → h = g := by
    intro h hh
    have := (hs.group i _ h hd hh).symm.trans hg
    exact Except.ok.inj this
  have hgroupId : ∀ {w' : World δ} {queue : List CommandInfo}, c ∈ queue →
      w'.At g i j .groupId queue → CanPop parse dev w' g i c := by
    intro w' queue hc h
    obtain ⟨w₁, hst₁, h₁⟩ := h.groupId parse dev hg
    exact CanPop.of_step hst₁ (canPop_isEmptyCommands h₁ hc)
  cases pc with
  | setWorking =>
      obtain ⟨w₁, hst₁, h₁⟩ := (show w.At g i j .setWorking _ from ⟨hd, rfl⟩).setWorking parse dev
      exact CanPop.of_step hst₁ (hgroupId hc h₁)
  | groupId => exact hgroupId hc ⟨hd, rfl⟩
  | isEmptyCommands h =>
      rw [hgroup h rfl] at hd
      exact canPop_isEmptyCommands ⟨hd, rfl⟩ hc
  | getNextWork h =>
      rw [hgroup h rfl] at hd
      obtain ⟨c', queue, hq⟩ := List.exists_cons_of_ne_nil (List.ne_nil_of_mem hc)
      obtain ⟨w₁, hst₁, h₁, hp⟩ := (show w.At g i j (.getNextWork g) (c' :: queue) from
        ⟨hd, hq⟩).getNextWork parse dev
      rw [hq] at hc
      rcases List.mem_cons.mp hc with rfl | hc
      · exact ⟨[], w, w₁, Run.nil, hst₁, hp⟩
      · obtain ⟨w₂, hst₂, h₂⟩ := h₁.newThread parse dev
        exact CanPop.of_step hst₁ (CanPop.of_step hst₂ (canPop_isEmptyCommands h₂ hc))
  | newThread h c' =>
      rw [hgroup h rfl] at hd
      obtain ⟨w₁, hst₁, h₁⟩ := (show w.At g i j (.newThread g c') _ from ⟨hd, rfl⟩).newThread parse dev
      exact CanPop.of_step hst₁ (canPop_isEmptyCommands h₁ hc)
  | clearWorking => exact absurd hpast (by simp [Dispatcher.past, DispatchPc.past])
  | ended => exact absurd hpast (by simp [Dispatcher.past, DispatchPc.past])
  | thrown e => exact absurd hpast (by simp [Dispatcher.past, DispatchPc.past])

/-! ## The barrier there is -/

/-- What a step accepts is in its group's queue afterwards. -/
theorem mem_queue_of_accepted {w w' : World δ} {a : Act A} (h : World.Step parse dev w a w')
    {g : Int64} {c : CommandInfo}
    (hacc : w'.channel.services.accepted = w.channel.services.accepted ++ [(g, c)]) :
    c ∈ w'.channel.services.commandsInfo g := by
  rcases accepted_cases h with heq | ⟨_, j, g', c', _, _, _, hs⟩
  · rw [heq] at hacc
    exact absurd (List.self_eq_append_right.mp hacc) (by simp)
  · rw [hs] at hacc ⊢
    have heq := List.append_cancel_left (show w.channel.services.accepted ++ [(g', c')] = _ from hacc)
    rw [List.singleton_inj, Prod.mk.injEq] at heq
    obtain ⟨rfl, rfl⟩ := heq
    show c' ∈ Function.update w.channel.services.commandsInfo g' _ g'
    rw [Function.update_self]
    exact List.mem_append_right _ (List.mem_singleton.mpr rfl)

/-- A barrier: who can take a command on offer in `w` was started by a later `ALL_BEGINS`. -/
def StartBarrier (parse : String → Option Json) (dev : Device δ A) (w : World δ) (g : Int64)
    (c : CommandInfo) : Prop :=
  ∀ i, CanPop parse dev w g i c → w.received ≤ i

/--
**On whose behalf.** In any run, a command accepted for `g` is taken only by a thread
started for `g`: by one that an `ALL_BEGINS` started after the command was accepted, or
by one that had not found the queue empty when it was; and each of the latter can be
the one.
-/
theorem popped_on_behalf {module_id : String} {d : δ} {as : List (Act A)} {w w₁ : World δ}
    {a : Act A} {g : Int64} {c : CommandInfo}
    (hr : Run (World.step parse dev) NoGuard (World.start module_id d) as w)
    (hst : w.step parse dev a = some w₁)
    (hacc : w₁.channel.services.accepted = w.channel.services.accepted ++ [(g, c)]) :
    (∀ bs b w₂ w₃, Run (World.step parse dev) NoGuard w₁ bs w₂ → w₂.step parse dev b = some w₃ →
        w₃.channel.services.popped = w₂.channel.services.popped ++ [(g, c)] →
        ∃ i e, b = .allBegins i ∧ w₂.channel.dispatchers[i]? = some e ∧ e.groupId = .ok g
          ∧ (w₁.received ≤ i ∨ w₁.Open g i))
      ∧ ∀ i, w₁.Open g i → CanPop parse dev w₁ g i c := by
  have hr₁ := hr.snoc trivial hst
  refine ⟨?_, fun i ho => canPop_of_open (starts_run g hr₁) ho
    (mem_queue_of_accepted (World.step_cases hst) hacc)⟩
  intro bs b w₂ w₃ hr₂ hst₂ hp
  obtain ⟨i, e, rfl, he, hpc⟩ := popped_cases (World.step_cases hst₂) hp
  have hgroup : e.groupId = .ok g := (starts_run g (hr₁.trans hr₂)).group i e g he (by rw [hpc]; rfl)
  refine ⟨i, e, rfl, he, hgroup, ?_⟩
  rcases Nat.lt_or_ge i w₁.received with hlt | hge
  · obtain ⟨d₁, hd₁, hj, hpast⟩ := (continues_run hr₂).2 i e hlt he
    refine Or.inr ⟨d₁, hd₁, ?_, ?_⟩
    · rw [← hgroup, Dispatcher.groupId, Dispatcher.groupId, hj]
    · -- had it been past its loop, it would not be taking from the queue
      by_contra hp
      have := hpast (Bool.not_eq_false _ ▸ hp)
      simp [Dispatcher.past, DispatchPc.past, hpc] at this
  · exact Or.inl hge

/-- `ALL_BEGINS` first, and its thread at its loop when the `SHUT-GRIP` comes. -/
def earlySession : List (Act Unit) :=
  [.receive .allBegins beginPayload] ++ times 2 (.allBegins 0)

/-- The command that session goes on to accept. -/
theorem exists_early :
    ∃ w w₁ g c, Run (World.step sessionParse firmware) NoGuard (World.start "handling" Board.start)
        earlySession w
      ∧ w.step sessionParse firmware (.receive .workAssignation shutPayload) = some w₁
      ∧ w₁.channel.services.accepted = w.channel.services.accepted ++ [(g, c)]
      ∧ w₁.Open g 0 := by
  have hexec : (exec (World.step sessionParse firmware) (World.start "handling" Board.start)
      earlySession).any (fun w =>
        (w.step sessionParse firmware (.receive .workAssignation shutPayload)).any
        (fun w₁ => w₁.channel.services.accepted.map Prod.fst == [7]
          && w.channel.services.accepted.isEmpty
          && (w₁.channel.dispatchers[0]?).any (fun d => !d.past
            && (match d.groupId with | .ok g => g == 7 | _ => false)))) = true := by decide +kernel
  obtain ⟨w, hw, hend⟩ := exists_of_exec hexec
  obtain ⟨w₁, hst, hend⟩ := (Option.any_eq_true ..).mp hend
  obtain ⟨hend, hd⟩ := Bool.and_eq_true_iff.mp hend
  obtain ⟨hone, hempty⟩ := Bool.and_eq_true_iff.mp hend
  obtain ⟨d, hd, hopen⟩ := (Option.any_eq_true ..).mp hd
  obtain ⟨hpast, hg⟩ := Bool.and_eq_true_iff.mp hopen
  obtain ⟨⟨g, c⟩, hacc, hfst⟩ := List.map_eq_singleton_iff.mp (eq_of_beq hone)
  have hfst : g = 7 := hfst
  refine ⟨w, w₁, g, c, run_of_exec hw, hst, ?_, d, hd, ?_, Bool.not_eq_true' _ ▸ hpast⟩
  · rw [hacc, List.isEmpty_iff.mp hempty]; rfl
  · split at hg
    · rename_i g' hg'
      rw [hg', hfst, eq_of_beq hg]
    · exact absurd hg (by simp)

theorem popped_on_behalf_early :
    ∃ w₁ g c, w₁.Open g 0 ∧ CanPop sessionParse firmware w₁ g 0 c := by
  obtain ⟨w, w₁, g, c, hr, hst, hacc, ho⟩ := exists_early
  exact ⟨w₁, g, c, ho, (popped_on_behalf hr hst hacc).2 0 ho⟩

/-- The thread of the earlier `ALL_BEGINS` takes it. -/
theorem not_startBarrier_early :
    ¬ ∀ (as : List (Act Unit)) (a : Act Unit) (w w₁ : World Board) (g : Int64) (c : CommandInfo),
      Run (World.step sessionParse firmware) NoGuard (World.start "handling" Board.start) as w →
      w.step sessionParse firmware a = some w₁ →
      w₁.channel.services.accepted = w.channel.services.accepted ++ [(g, c)] →
      StartBarrier sessionParse firmware w₁ g c := by
  intro hall
  obtain ⟨w, w₁, g, c, hr, hst, hacc, ho⟩ := exists_early
  have hcan : CanPop sessionParse firmware w₁ g 0 c :=
    canPop_of_open (starts_run g (hr.snoc trivial hst)) ho
      (mem_queue_of_accepted (World.step_cases hst) hacc)
  have hlate := hall _ _ w w₁ g c hr hst hacc 0 hcan
  -- there was one `ALL_BEGINS` before the command already
  obtain ⟨d, hd, _⟩ := ho
  exact absurd (List.getElem?_eq_some_iff.mp hd).1 (Nat.not_lt.mpr hlate)

end HandlingModule.AIO
