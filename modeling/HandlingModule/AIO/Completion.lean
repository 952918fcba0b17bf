import HandlingModule.AIO.Barrier
import HandlingModule.AIO.Draining
import HandlingModule.AIO.Frames
import HandlingModule.AIO.Robustness
import HandlingModule.Serial.Remaining

/-!
# Completion

What is begun gets done. `World.remaining` counts what the module still has to do; an
event adds to it, and every other step takes from it, except a poll of the serial port
that finds nothing. And somebody can always move: no thread waits for one that waits
for it. So a run in which nothing goes wrong can be completed from wherever it is, and
when it is complete every command that was begun has its report.

Nothing goes wrong when the payloads are usable, no thread looks into a queue that
others are about to empty, and the commands are written one at a time (`Proper`); what
happens otherwise is told in the modules these three guards are from.
-/

namespace HandlingModule.AIO

open Serial Firmware Transition Replace

variable {parse : String → Option Json}

/-- The guard: nothing goes wrong. -/
structure Proper (parse : String → Option Json) (w : World Board) (a : Act Unit) : Prop where
  fed : Fed parse w a
  spared : Spared w a = true
  alone : Alone w a = true

/-- Every call of `handlingService` was made by a thread. -/
def Manned {δ : Type} (w : World δ) : Prop :=
  ∀ k, k < w.line.calls.length → ∃ (i : Nat) (c : Consumer),
    w.consumers[i]? = some c ∧ c.call = some k

/-- What holds in every state of a run in which nothing goes wrong. -/
structure Sound (w : World Board) : Prop where
  ledger : Ledger w
  unharmed : Unharmed w
  enough : Enough w
  serialized : Serialized w.line
  manned : Manned w

theorem sound_start (module_id : String) : Sound (World.start module_id Board.start) where
  ledger := ledger_start module_id _
  unharmed := unharmed_start module_id _
  enough := fun _ => Nat.zero_le _
  serialized := serialized_start
  manned := by intro k hk; exact absurd hk (Nat.not_lt_zero k)

theorem manned_step {w w' : World Board} {a : Act Unit} (h : World.Step parse firmware w a w')
    (hl : Ledger w) (hm : Manned w) : Manned w' := by
  have hkeep : ∀ k, k < w.line.calls.length → ∃ (i : Nat) (c : Consumer),
      w'.consumers[i]? = some c ∧ c.call = some k := by
    intro k hk
    obtain ⟨i, c, hc, hck⟩ := hm k hk
    obtain ⟨c', hc', _, hcall⟩ := (serialStep h hl.kept).keeps hc
    exact ⟨i, c', hc', hcall k hck⟩
  have hsame : w'.line.calls.length = w.line.calls.length → Manned w' := by
    intro hlen k hk
    exact hkeep k (hlen ▸ hk)
  cases h with
  | called c responsible creators command line hc _ _ hst =>
      intro k hk
      have hk : k < line.calls.length := hk
      rw [line_call hst, List.length_append, List.length_singleton] at hk
      rcases Nat.lt_succ_iff_lt_or_eq.mp hk with hlt | rfl
      · exact hkeep k hlt
      · -- the new call is this thread's
        exact ⟨_, _, List.getElem?_set_self (List.getElem?_eq_some_iff.mp hc).1, rfl⟩
  | ran c responsible command k hcall line _ _ _ _ hst =>
      obtain ⟨_, _, _, _, _, rfl⟩ := line_run hst
      exact hsame (List.length_set ..)
  | device line hst =>
      obtain ⟨_, _, _, rfl⟩ := line_device hst
      exact hsame rfl
  | _ => exact hsame rfl

theorem sound_step {w w' : World Board} {a : Act Unit} (h : World.Step parse firmware w a w')
    (hg : Proper parse w a) (hs : Sound w) : Sound w' where
  ledger := ledger_step h hs.ledger
  unharmed := unharmed_step h hg.fed hs.ledger hs.unharmed
  enough := enough_step h hg.spared hs.enough
  serialized := by
    rcases line_of_step h with heq | ⟨la, hla, hst⟩
    · rw [heq]; exact hs.serialized
    · have halone := hg.alone
      rw [Alone, hla] at halone
      exact serialized_step hs.serialized halone hst
  manned := manned_step h hs.ledger hs.manned

theorem sound_run {module_id : String} {as : List (Act Unit)} {w : World Board}
    (hr : Run (World.step parse firmware) (Proper parse) (World.start module_id Board.start) as w) :
    Sound w :=
  hr.invariant (sound_start module_id) (fun hs hg hst => sound_step (World.step_cases hst) hg hs)

/-! ## What is still to be done -/

/-- What a command costs from its thread on. -/
def threadCost : Nat := 5 + callCost ServiceClass.closeService.code

/-- What an `all_begins` thread has before it, if it finds no more commands. -/
def Dispatcher.remaining (d : Dispatcher) : Nat :=
  match d.pc with
  | .setWorking => 5
  | .groupId => 4
  | .isEmptyCommands _ => 3
  | .getNextWork _ => 2
  | .newThread _ _ => 4 + threadCost
  | .clearWorking => 1
  | .ended | .thrown _ => 0

/-- What a `consumeService` thread has before it, apart from its call. -/
def Consumer.remaining (c : Consumer) : Nat :=
  match c.pc with
  | .createFromString => threadCost
  | .execute _ _ => 4
  | .lock _ => 3
  | .emit _ => 2
  | .unlock => 1
  | .ended | .dropped | .thrown _ => 0

/-- What the network thread has before it. -/
def NetworkPc.remaining : NetworkPc → Nat
  | .answering _ => 1
  | _ => 0

/-- How many accepted commands wait in the queues. -/
def Services.waiting (s : Services) : Nat := s.accepted.length - s.popped.length

def World.remaining (w : World Board) : Nat :=
  w.network.remaining + (3 + threadCost) * w.channel.services.waiting
    + (w.channel.dispatchers.map Dispatcher.remaining).sum
    + (w.consumers.map Consumer.remaining).sum + w.line.remaining

/-- The step is a poll of the serial port that finds nothing. -/
def World.polls (w : World Board) (a : Act Unit) : Bool :=
  match w.lineAct a with
  | some (.run k _) => (w.line.calls[k]?).any (fun c => c.polls w.line.wire)
  | _ => false

/-- The step is an event. -/
def Act.isEvent {A : Type} : Act A → Bool
  | .receive _ _ => true
  | _ => false

theorem callCost_le (cls : ServiceClass) : 5 + callCost cls.code ≤ threadCost := by
  cases cls <;> decide +kernel

theorem Accounted.popped_lt {s s' : Services} (h : Accounted s') {group_id : Int64}
    {c : CommandInfo} (ha : s'.accepted = s.accepted) (hp : s'.popped = s.popped ++ [(group_id, c)]) :
    s.popped.length < s.accepted.length := by
  have hsub : s'.popped.map (fun p => p.2.ticket) ⊆ s'.accepted.map (fun p => p.2.ticket) := by
    intro t ht
    obtain ⟨p, hm, rfl⟩ := List.mem_map.mp ht
    exact List.mem_map_of_mem (h.mem_accepted (Or.inl hm))
  have hle := (List.subperm_of_subset h.popped_once hsub).length_le
  rw [List.length_map, List.length_map, ha, hp, List.length_append, List.length_singleton] at hle
  exact hle

/-- One thread of `all_begins` moves on, and nothing else changes. -/
theorem remaining_dispatch {w w' : World Board} {i : Nat} {d : Dispatcher} {pc : DispatchPc}
    (hd : w.channel.dispatchers[i]? = some d)
    (hlt : Dispatcher.remaining { d with pc := pc } < d.remaining)
    (hds : w'.channel.dispatchers = w.channel.dispatchers.set i { d with pc := pc })
    (hn : w'.network = w.network) (hcs : w'.consumers = w.consumers) (hl : w'.line = w.line)
    (hq : w'.channel.services.waiting = w.channel.services.waiting) :
    w'.remaining + 1 ≤ w.remaining := by
  have hsum := sum_map_set Dispatcher.remaining { d with pc := pc } hd
  unfold World.remaining
  rw [hds, hn, hcs, hl, hq]
  omega

/-- One thread of `consumeService` moves on, and its line is no longer to go. -/
theorem remaining_consume {w w' : World Board} {i : Nat} {c c' : Consumer}
    (hc : w.consumers[i]? = some c) (hcs : w'.consumers = w.consumers.set i c')
    (hlt : c'.remaining + w'.line.remaining < c.remaining + w.line.remaining)
    (hn : w'.network = w.network) (hds : w'.channel.dispatchers = w.channel.dispatchers)
    (hq : w'.channel.services = w.channel.services) : w'.remaining + 1 ≤ w.remaining := by
  have hsum := sum_map_set Consumer.remaining c' hc
  unfold World.remaining
  rw [hcs, hn, hds, hq]
  omega

/-- The line moves on, and nothing else changes but the record of the frames. -/
theorem remaining_line (w : World Board) (line : Line Board) (frames : List Frame) :
    World.remaining { w with line := line, frames := frames } + w.line.remaining
      = w.remaining + line.remaining := by
  unfold World.remaining
  dsimp only
  omega

/--
**One step.** Whatever is no event leaves less to do, unless it is a poll that finds
nothing, and that leaves no more.
-/
theorem remaining_step {w w' : World Board} {a : Act Unit} (h : World.Step parse firmware w a w')
    (hs : Sound w) (ha : a.isEvent = false) :
    w'.remaining + (if w.polls a = true then 0 else 1) ≤ w.remaining := by
  have hacc := accounted_step h hs.ledger.books.accounted
  have hone : ∀ b : Bool, (if b = true then 0 else 1) ≤ 1 := by decide
  have hle : w'.remaining + 1 ≤ w.remaining →
      w'.remaining + (if w.polls a = true then 0 else 1) ≤ w.remaining := by
    intro hlt
    have := hone (w.polls a)
    omega
  cases h with
  | received => exact absurd ha (by simp [Act.isEvent])
  | replying => exact absurd ha (by simp [Act.isEvent])
  | threw => exact absurd ha (by simp [Act.isEvent])
  | answered m hm =>
      refine hle ?_
      unfold World.remaining
      rw [hm]
      simp only [NetworkPc.remaining]
      omega
  | unwound e he => exact absurd he (hs.unharmed.network e)
  | workingSet d hd hpc =>
      exact hle (remaining_dispatch hd (by simp [Dispatcher.remaining, hpc]) rfl rfl rfl rfl rfl)
  | grouped d g hd hpc _ =>
      exact hle (remaining_dispatch hd (by simp [Dispatcher.remaining, hpc]) rfl rfl rfl rfl rfl)
  | groupThrew d e hd hpc hg =>
      obtain ⟨g, hok⟩ := (hs.unharmed.dispatchers d (List.mem_of_getElem? hd)).1
      rw [hok] at hg
      exact absurd hg (by simp)
  | drained d g hd hpc _ =>
      exact hle (remaining_dispatch hd (by simp [Dispatcher.remaining, hpc]) rfl rfl rfl rfl rfl)
  | found d g hd hpc _ =>
      exact hle (remaining_dispatch hd (by simp [Dispatcher.remaining, hpc]) rfl rfl rfl rfl rfl)
  | popped d g c services hd hpc hn =>
      refine hle ?_
      obtain ⟨rest, _, rfl⟩ := Services.getNextWork_cases hn
      have hlt := hacc.popped_lt (s := w.channel.services) rfl rfl
      have hsum := sum_map_set Dispatcher.remaining { d with pc := .newThread g c } hd
      have hold : d.remaining = 2 := by simp [Dispatcher.remaining, hpc]
      have hnew : Dispatcher.remaining { d with pc := .newThread g c } = 4 + threadCost := rfl
      -- one command less waits
      have hwait : w.channel.services.waiting
          = (w.channel.services.accepted.length
            - (w.channel.services.popped ++ [(g, c)]).length) + 1 := by
        rw [List.length_append, List.length_singleton, Services.waiting]
        omega
      unfold World.remaining
      rw [hwait, Nat.mul_add]
      simp only [World.setServices, World.setDispatcher, Services.waiting]
      omega
  | threaded d g c hd hpc =>
      refine hle ?_
      have hsum := sum_map_set Dispatcher.remaining { d with pc := .isEmptyCommands g } hd
      have hold : d.remaining = 4 + threadCost := by simp [Dispatcher.remaining, hpc]
      have hnew : Dispatcher.remaining { d with pc := .isEmptyCommands g } = 3 := rfl
      have hstart : (Consumer.start g c).remaining = threadCost := rfl
      unfold World.remaining
      simp only [World.setDispatcher, List.map_append, List.sum_append, List.map_cons, List.map_nil,
        List.sum_cons, List.sum_nil]
      omega
  | workingCleared d hd hpc =>
      exact hle (remaining_dispatch hd (by simp [Dispatcher.remaining, hpc]) rfl rfl rfl rfl rfl)
  | findThrew c e hc hpc hf =>
      obtain ⟨_, _, _, hok, _⟩ := hs.ledger.books.findService hc
      rw [hok] at hf
      exact absurd hf (by simp)
  | notFound c hc hpc hf =>
      obtain ⟨_, _, _, hok, _⟩ := hs.ledger.books.findService hc
      rw [hok] at hf
      exact absurd hf (by simp)
  | called c responsible creators command line hc hpc hf hst =>
      refine hle (remaining_consume hc rfl ?_ rfl rfl rfl)
      have hcost := callCost_le responsible.class_
      show 4 + line.remaining < _
      rw [remaining_call hst]
      simp only [Consumer.remaining, hpc]
      omega
  | @ran i ok c responsible command k hcall line hc hpc hck hk hst =>
      have hrun := remaining_run hs.serialized hk hst
      have hpolls : w.polls (.consumeService i ok) = hcall.polls w.line.wire := by
        simp only [World.polls, World.lineAct, hc, hpc, hck, Option.map_some, hk, Option.any_some]
      have hline := remaining_line w line (w.frames ++ w.writing c)
      rw [hpolls]
      omega
  | returned c responsible command k hcall code reply_info hc hpc _ _ _ _ =>
      refine hle (remaining_consume hc rfl (Nat.add_lt_add_right ?_ w.line.remaining) rfl rfl rfl)
      simp [Consumer.remaining, hpc]
  | replyThrew c responsible command k hcall code e hc hpc _ _ _ hrep =>
      have hf := hs.ledger.kept _ c hc
      rw [hpc] at hf
      rw [reply_eq hf.1] at hrep
      exact absurd hrep (by simp)
  | locked c reply_info hc hpc _ =>
      refine hle (remaining_consume hc rfl (Nat.add_lt_add_right ?_ w.line.remaining) rfl rfl rfl)
      simp [Consumer.remaining, hpc]
  | emitted c reply_info hc hpc =>
      refine hle (remaining_consume hc rfl (Nat.add_lt_add_right ?_ w.line.remaining) rfl rfl rfl)
      simp [Consumer.remaining, hpc]
  | unlocked c hc hpc =>
      refine hle (remaining_consume hc rfl (Nat.add_lt_add_right ?_ w.line.remaining) rfl rfl rfl)
      simp [Consumer.remaining, hpc]
  | device line hst =>
      refine hle ?_
      have hlt := remaining_device hs.serialized hst
      have hline := remaining_line w line w.frames
      omega

/-! ## Somebody can move -/

/-- Nobody has anything left to do. -/
structure Finished {δ : Type} (w : World δ) : Prop where
  network : w.network = .idle
  dispatchers : ∀ d ∈ w.channel.dispatchers, d.pc = .ended
  consumers : ∀ c ∈ w.consumers, c.pc = .ended

/-- The guard of a run that no event adds to. -/
structure Unprompted (parse : String → Option Json) (w : World Board) (a : Act Unit) : Prop where
  proper : Proper parse w a
  noEvent : a.isEvent = false

variable (parse) in
/-- The step of an `all_begins` thread can always be taken. -/
theorem dispatch_moves {w : World Board} (hs : Sound w) {i : Nat} {d : Dispatcher}
    (hd : w.channel.dispatchers[i]? = some d) (hne : d.pc ≠ .ended) :
    ∃ w', w.step parse firmware (.allBegins i) = some w' := by
  obtain ⟨⟨g, hg⟩, hthrown⟩ := hs.unharmed.dispatchers d (List.mem_of_getElem? hd)
  show ∃ w', w.allBegins i = some w'
  unfold World.allBegins
  rw [hd]
  cases hpc : d.pc with
  | setWorking => exact ⟨_, by simp only [hpc, Option.bind_eq_bind, Option.bind_some]; rfl⟩
  | groupId => exact ⟨_, by simp only [hpc, hg, Option.bind_eq_bind, Option.bind_some]; rfl⟩
  | isEmptyCommands g => exact ⟨_, by simp only [hpc, Option.bind_eq_bind, Option.bind_some]; rfl⟩
  | getNextWork g =>
      -- it has seen a command, and nobody has taken it away
      have hq : w.channel.services.commandsInfo g ≠ [] := hs.enough.frontDefined i d g hd hpc
      obtain ⟨c, rest, hq⟩ := List.exists_cons_of_ne_nil hq
      exact ⟨_, by simp only [hpc, Services.getNextWork, hq, Option.bind_eq_bind, Option.bind_some]; rfl⟩
  | newThread g c => exact ⟨_, by simp only [hpc, Option.bind_eq_bind, Option.bind_some]; rfl⟩
  | clearWorking => exact ⟨_, by simp only [hpc, Option.bind_eq_bind, Option.bind_some]; rfl⟩
  | ended => exact absurd hpc hne
  | thrown e => exact absurd hpc (hthrown e)

/-- And it may be taken, once nobody else is about to take a command. -/
theorem dispatch_spared {w : World Board} {i : Nat} {d : Dispatcher}
    (hd : w.channel.dispatchers[i]? = some d)
    (hfree : (∃ g, d.pc = .getNextWork g) ∨ ∀ g, w.popping g = 0) : Spared w (Act.allBegins (A := Unit) i) = true := by
  simp only [Spared, hd, Option.map_some]
  rcases hfree with ⟨g, hpc⟩ | hfree
  · rw [hpc]
  · split
    · rename_i g _
      cases hq : w.channel.services.commandsInfo g with
      | nil => simp [Services.isEmptyCommands, hq]
      | cons c rest => simp [hfree g]
    · rfl

theorem proper_allBegins {w : World Board} {i : Nat} (h : Spared w (Act.allBegins (A := Unit) i) = true) :
    Unprompted parse w (.allBegins i) := ⟨⟨trivial, h, rfl⟩, rfl⟩

variable (parse) in
/-- A call that helps is the call of a thread, which can take the step. -/
theorem helps_moves {w : World Board} (hs : Sound w) {k : Nat} {hc : HandlingCall}
    (hh : Helps w.line k hc) :
    ∃ i w' line, w.step parse firmware (.consumeService i true) = some w'
      ∧ Unprompted parse w (.consumeService i true)
      ∧ w.polls (.consumeService i true) = hc.polls w.line.wire
      ∧ w.line.step firmware (.run k true) = some line ∧ w'.line = line := by
  obtain ⟨i, c, hci, hck⟩ := hs.manned k (List.getElem?_eq_some_iff.mp hh.call).1
  obtain ⟨line, hline⟩ := hh.moves
  have hf := hs.ledger.kept i c hci
  -- a thread at any other statement has no call, or one that is back
  obtain ⟨responsible, command, hpc⟩ : ∃ responsible command, c.pc = .execute responsible command := by
    have hback : ∀ {cls : ServiceClass} {hc' : HandlingCall} {code : Int},
        c.Called w.line cls hc' → hc'.pc = .returned code → False := by
      rintro cls hc' code ⟨_, _, k', hk', hcall'⟩ hret
      have : k' = k := Option.some.inj (hk'.symm.trans hck)
      subst this
      have : hc' = hc := Option.some.inj (hcall'.symm.trans hh.call)
      exact hh.running code (this ▸ hret)
    cases hpc : c.pc with
    | execute responsible command => exact ⟨_, _, rfl⟩
    | createFromString => rw [hpc] at hf; exact absurd (hck.symm.trans hf) (by simp)
    | lock r => rw [hpc] at hf; obtain ⟨_, _, _, _, h1, h2⟩ := hf; exact (hback h1 h2).elim
    | emit r => rw [hpc] at hf; obtain ⟨_, _, _, _, h1, h2⟩ := hf; exact (hback h1 h2).elim
    | unlock => rw [hpc] at hf; obtain ⟨_, _, _, h1, h2⟩ := hf; exact (hback h1 h2).elim
    | ended => rw [hpc] at hf; obtain ⟨_, _, _, h1, h2⟩ := hf; exact (hback h1 h2).elim
    | dropped => rw [hpc] at hf; exact hf.elim
    | thrown e => rw [hpc] at hf; exact hf.elim
  have hact : w.lineAct (Act.consumeService (A := Unit) i true) = some (.run k true) := by
    simp only [World.lineAct, hci, hpc, hck, Option.map_some]
  refine ⟨i, { w with line := line, frames := w.frames ++ w.writing c }, line, ?_,
    ⟨⟨trivial, rfl, ?_⟩, rfl⟩, ?_, hline, rfl⟩
  · show w.consumeService firmware i true = some _
    unfold World.consumeService
    rw [hci]
    simp only [Option.bind_eq_bind, Option.bind_some, hpc, hck, hh.call]
    cases hcpc : hc.pc with
    | returned code => exact absurd hcpc (hh.running code)
    | _ => simp only [hline, Option.bind_some]; rfl
  · rw [Alone, hact]
    exact hh.exclusive
  · simp only [World.polls, hact, hh.call, Option.any_some]

/-- A poll with a byte there to be read is followed by the reading of it. -/
theorem helps_after_poll {l l' : Line Board} (hl : Serialized l') {k : Nat} {hc : HandlingCall}
    (hh : Helps l k hc) (hpc : hc.pc = .loop) (hpolls : hc.polls l.wire = true)
    (hhost : l.wire.toHost ≠ []) (hst : l.step firmware (.run k true) = some l') :
    ∃ hc', Helps l' k hc' ∧ hc'.polls l'.wire = false := by
  obtain ⟨c, c', wire, hck, hstep, rfl⟩ := line_run hst
  have : c = hc := Option.some.inj (hck.symm.trans hh.call)
  subst this
  have hcomp : c.reader.complete = false := by
    simp only [HandlingCall.polls, Bool.and_eq_true, Bool.not_eq_true'] at hpolls
    exact hpolls.1
  simp only [HandlingCall.step, hpc, hcomp, Bool.false_eq_true, if_false, Option.some.injEq,
    Prod.mk.injEq] at hstep
  obtain ⟨rfl, rfl⟩ := hstep
  have hup : l.wire.down = false := hl.up
  have hnew : HandlingCall.polls { c with pc := .serialDataAvail } l.wire = false := by
    simp [HandlingCall.polls, hcomp, Wire.serialDataAvail, hup, hhost]
  have hget : (l.calls.set k { c with pc := .serialDataAvail })[k]?
      = some { c with pc := .serialDataAvail } :=
    List.getElem?_set_self (List.getElem?_eq_some_iff.mp hck).1
  refine ⟨{ c with pc := .serialDataAvail }, ⟨hget, by simp, ?_, ⟨_, _, rfl⟩, Or.inl hnew⟩, hnew⟩
  simp only [Exclusive, hget]
  exact decide_eq_true (by simp)

/-- The thread is at its call of `handlingService`, and the call is not back. -/
def World.calling (w : World Board) (c : Consumer) : Prop :=
  ∃ k hc, c.call = some k ∧ w.line.calls[k]? = some hc ∧ ∀ code, hc.pc ≠ .returned code

variable (parse) in
/-- The step of a `consumeService` thread outside its call can be taken once the mutex is free. -/
theorem consume_moves {w : World Board} (hs : Sound w) {i : Nat} {c : Consumer}
    (hc : w.consumers[i]? = some c) (hne : c.pc ≠ .ended) (hcall : ¬ w.calling c)
    (hfree : c.locking = true ∨ w.channel.mutex = false) :
    ∃ w', w.step parse firmware (.consumeService i true) = some w' := by
  have hf := hs.ledger.kept i c hc
  refine Option.isSome_iff_exists.mp ?_
  show (w.consumeService firmware i true).isSome = true
  unfold World.consumeService
  rw [hc]
  simp only [Option.bind_eq_bind, Option.bind_some]
  cases hpc : c.pc with
  | createFromString =>
      obtain ⟨cls, _, command, hfind, _⟩ := hs.ledger.books.findService hc
      simp only [hfind]
      rfl
  | execute responsible command =>
      rw [hpc] at hf
      obtain ⟨hobj, _, hc', _, _, k, hk, hck⟩ := hf
      obtain ⟨code, hret⟩ : ∃ code, hc'.pc = .returned code := by
        by_contra hno
        exact hcall ⟨k, hc', hk, hck, fun code h => hno ⟨code, h⟩⟩
      simp only [hk, hck, hret, Option.bind_some, reply_eq hobj]
      rfl
  | lock r =>
      rcases hfree with h | hm
      · simp [Consumer.locking, hpc] at h
      · simp [hm]
  | emit r => rfl
  | unlock => rfl
  | ended => exact absurd hpc hne
  | dropped => rw [hpc] at hf; exact hf.elim
  | thrown e => rw [hpc] at hf; exact hf.elim

variable (parse) in
/-- And it neither writes into a transaction nor polls. -/
theorem consume_proper {w : World Board} (hs : Sound w) {i : Nat} {c : Consumer}
    (hc : w.consumers[i]? = some c) (hcall : ¬ w.calling c) :
    Unprompted parse w (.consumeService i true) ∧ w.polls (.consumeService i true) = false := by
  have hact : w.lineAct (Act.consumeService (A := Unit) i true) = none
      ∨ (∃ cls : ServiceClass, w.lineAct (Act.consumeService (A := Unit) i true) = some (.call cls.code))
      ∨ ∃ k hc' code, w.lineAct (Act.consumeService (A := Unit) i true) = some (.run k true)
        ∧ w.line.calls[k]? = some hc' ∧ hc'.pc = .returned code := by
    cases hpc : c.pc with
    | createFromString =>
        obtain ⟨cls, _, command, hfind, _⟩ := hs.ledger.books.findService hc
        refine Or.inr (Or.inl ⟨cls, ?_⟩)
        simp only [World.lineAct, hc, hpc, hfind]
        rfl
    | execute responsible command =>
        have hf := hs.ledger.kept i c hc
        rw [hpc] at hf
        obtain ⟨_, _, hc', _, _, k, hk, hck⟩ := hf
        obtain ⟨code, hret⟩ : ∃ code, hc'.pc = .returned code := by
          by_contra hno
          exact hcall ⟨k, hc', hk, hck, fun code h => hno ⟨code, h⟩⟩
        exact Or.inr (Or.inr ⟨k, hc', code, by simp only [World.lineAct, hc, hpc, hk, Option.map_some],
          hck, hret⟩)
    | _ => exact Or.inl (by simp only [World.lineAct, hc, hpc])
  refine ⟨⟨⟨trivial, rfl, ?_⟩, rfl⟩, ?_⟩
  · rcases hact with h | ⟨cls, h⟩ | ⟨k, hc', code, h, hck, hret⟩
    · rw [Alone, h]
    · rw [Alone, h]
      cases cls <;> rfl
    · simp only [Alone, h, Exclusive, hck, hret]
      rfl
  · rcases hact with h | ⟨cls, h⟩ | ⟨k, hc', code, h, hck, hret⟩
    · rw [World.polls, h]
    · rw [World.polls, h]
    · simp [World.polls, h, hck, HandlingCall.polls, hret]

/-- One step of the module that is no event and no idle poll. -/
theorem less_of_step {w : World Board} {a : Act Unit} (u : World Board) (hs : Sound w)
    (hst : w.step parse firmware a = some u) (hg : Unprompted parse w a)
    (hp : w.polls a = false) :
    ∃ bs w', Run (World.step parse firmware) (Unprompted parse) w bs w'
      ∧ w'.remaining < w.remaining := by
  have hle := remaining_step (World.step_cases hst) hs hg.noEvent
  rw [if_neg (by simp [hp])] at hle
  exact ⟨[a], u, Run.one hg hst, hle⟩

/-- The line brings the module forward as long as a call is not back. -/
theorem less_of_calling {w : World Board} (hs : Sound w) {k : Nat} {hc : HandlingCall}
    (hk : w.line.calls[k]? = some hc) (hpc : ∀ code, hc.pc ≠ .returned code) :
    ∃ bs w', Run (World.step parse firmware) (Unprompted parse) w bs w'
      ∧ w'.remaining < w.remaining := by
  rcases exists_helps hs.serialized hk hpc with ⟨line, hdev⟩ | ⟨k', hc', hh⟩
  · refine less_of_step (a := .device ()) { w with line := line } hs ?_
      ⟨⟨trivial, rfl, rfl⟩, rfl⟩ rfl
    show (w.line.step firmware (.device ())).bind _ = _
    rw [hdev]
    rfl
  · obtain ⟨i, w₁, line, hst, hg, hpolls, hline, hw₁⟩ := helps_moves parse hs hh
    cases hidle : hc'.polls w.line.wire with
    | false => exact less_of_step _ hs hst hg (hpolls.trans hidle)
    | true =>
        -- it looks first, and then it reads
        obtain ⟨hloop, hhost⟩ : hc'.pc = .loop ∧ w.line.wire.toHost ≠ [] := by
          rcases hh.useful with h | h
          · rw [hidle] at h; exact absurd h (by simp)
          · exact h
        have hs₁ := sound_step (World.step_cases hst) hg.proper hs
        have hle := remaining_step (World.step_cases hst) hs hg.noEvent
        rw [← hw₁] at hline
        obtain ⟨hc₂, hh₂, hread⟩ := helps_after_poll hs₁.serialized hh hloop hidle hhost hline
        obtain ⟨i₂, w₂, _, hst₂, hg₂, hpolls₂, _, _⟩ := helps_moves parse hs₁ hh₂
        obtain ⟨bs, w', hr, hlt⟩ := less_of_step _ hs₁ hst₂ hg₂ (hpolls₂.trans hread)
        exact ⟨[Act.consumeService i true] ++ bs, w', (Run.one hg hst).trans hr, by omega⟩

variable (parse) in
/-- **Somebody can move**, and bring the work forward. -/
theorem exists_less {w : World Board} (hs : Sound w) (hn : ¬ Finished w) :
    ∃ bs w', Run (World.step parse firmware) (Unprompted parse) w bs w'
      ∧ w'.remaining < w.remaining := by
  -- the network thread comes first, and then the `all_begins` threads
  cases hnet : w.network with
  | answering m =>
      refine less_of_step (a := .answer) { w with
        network := .idle
        channel := { w.channel with mutex := false, emitted := w.channel.emitted ++ [m] } } hs ?_ ⟨⟨trivial, rfl, rfl⟩, rfl⟩ rfl
      simp only [World.step, World.answer, hnet]
      rfl
  | thrown e => exact absurd hnet (hs.unharmed.network e)
  | idle =>
  by_cases hds : ∀ d ∈ w.channel.dispatchers, d.pc = .ended
  case neg =>
    obtain ⟨i, d, hd, hne, hfree⟩ : ∃ (i : Nat) (d : Dispatcher), w.channel.dispatchers[i]? = some d
        ∧ d.pc ≠ .ended ∧ ((∃ g, d.pc = .getNextWork g) ∨ ∀ g, w.popping g = 0) := by
      by_cases hpop : ∃ (i : Nat) (d : Dispatcher) (g : Int64),
          w.channel.dispatchers[i]? = some d ∧ d.pc = .getNextWork g
      · obtain ⟨i, d, g, hd, hpc⟩ := hpop
        exact ⟨i, d, hd, by simp [hpc], Or.inl ⟨g, hpc⟩⟩
      · obtain ⟨d, hmem, hne⟩ : ∃ d ∈ w.channel.dispatchers, d.pc ≠ .ended := by
          by_contra hno
          exact hds (fun d hd => by_contra (fun h => hno ⟨d, hd, h⟩))
        obtain ⟨i, hd⟩ := List.mem_iff_getElem?.mp hmem
        refine ⟨i, d, hd, hne, Or.inr (fun g => List.countP_eq_zero.mpr ?_)⟩
        intro e he hpc
        obtain ⟨j, hj⟩ := List.mem_iff_getElem?.mp he
        refine hpop ⟨j, e, g, hj, ?_⟩
        unfold Dispatcher.popping at hpc
        split at hpc
        · rename_i g' hg'; rw [hg', eq_of_beq hpc]
        · exact absurd hpc (by simp)
    obtain ⟨w', hst⟩ := dispatch_moves parse hs hd hne
    exact less_of_step _ hs hst (proper_allBegins (dispatch_spared hd hfree)) rfl
  case pos =>
  obtain ⟨c, hmem, hne⟩ : ∃ c ∈ w.consumers, c.pc ≠ .ended := by
    by_contra hno
    exact hn ⟨hnet, hds, fun c hc => by_contra (fun h => hno ⟨c, hc, h⟩)⟩
  by_cases hcalling : ∃ c ∈ w.consumers, w.calling c
  · obtain ⟨_, _, k, hc, _, hk, hpc⟩ := hcalling
    exact less_of_calling hs hk hpc
  -- nobody is waiting for the port: whoever has the mutex, and then anybody
  obtain ⟨i, d, hd, hdne, hfree⟩ : ∃ (i : Nat) (d : Consumer), w.consumers[i]? = some d
      ∧ d.pc ≠ .ended ∧ (d.locking = true ∨ w.channel.mutex = false) := by
    by_cases hlock : ∃ d ∈ w.consumers, d.locking = true
    · obtain ⟨d, hdmem, hl⟩ := hlock
      obtain ⟨i, hd⟩ := List.mem_iff_getElem?.mp hdmem
      refine ⟨i, d, hd, ?_, Or.inl hl⟩
      intro h
      simp [Consumer.locking, h] at hl
    · obtain ⟨i, hd⟩ := List.mem_iff_getElem?.mp hmem
      refine ⟨i, c, hd, hne, Or.inr ?_⟩
      have hzero : w.consumers.countP Consumer.locking = 0 :=
        List.countP_eq_zero.mpr (fun e he h => hlock ⟨e, he, h⟩)
      have hmu := hs.unharmed.mutex
      rw [World.locking, hnet, hzero] at hmu
      by_contra hm
      rw [if_pos (Bool.not_eq_false _ ▸ hm)] at hmu
      exact absurd hmu (by simp)
  have hnc : ¬ w.calling d := fun h => hcalling ⟨d, List.mem_of_getElem? hd, h⟩
  obtain ⟨w', hst⟩ := consume_moves parse hs hd hdne hnc hfree
  obtain ⟨hg, hp⟩ := consume_proper parse hs hd hnc
  exact less_of_step _ hs hst hg hp

/-- **From everywhere to the end.** -/
theorem exists_finished {w : World Board} (hs : Sound w) :
    ∃ bs w', Run (World.step parse firmware) (Unprompted parse) w bs w' ∧ Finished w' := by
  induction hn : w.remaining using Nat.strong_induction_on generalizing w with
  | _ n ih =>
      by_cases hf : Finished w
      · exact ⟨[], w, Run.nil, hf⟩
      · obtain ⟨bs, w₁, hr, hlt⟩ := exists_less parse hs hf
        have hs₁ : Sound w₁ := hr.invariant hs
          (fun hu hg hst => sound_step (World.step_cases hst) hg.proper hu)
        obtain ⟨cs, w', hr', hf'⟩ := ih _ (hn ▸ hlt) hs₁ rfl
        exact ⟨bs ++ cs, w', hr.trans hr', hf'⟩

/-- How many steps of an execution were more than an idle poll. -/
def World.efforts (parse : String → Option Json) : World Board → List (Act Unit) → Nat :=
  tally (World.step parse firmware) (fun w a => if w.polls a = true then 0 else 1)

theorem remaining_efforts {w w' : World Board} {bs : List (Act Unit)} (hs : Sound w)
    (hr : Run (World.step parse firmware) (Unprompted parse) w bs w') :
    Sound w' ∧ w'.remaining + w.efforts parse bs ≤ w.remaining := by
  have hI : ∀ {u v : World Board} {a : Act Unit}, Sound u → Unprompted parse u a →
      u.step parse firmware a = some v → Sound v :=
    fun hu hg hst => sound_step (World.step_cases hst) hg.proper hu
  refine ⟨hr.invariant hs hI, hr.tally_le _ World.remaining hs hI ?_⟩
  intro u v a hu hg hst
  exact remaining_step (World.step_cases hst) hu hg.noEvent

/-- The module has nothing to do, and has reported everything it took from its queues. -/
structure Settled (w : World Board) : Prop where
  /-- The reports are about the commands taken from the queues, each of them once. -/
  reports : (w.reports.map Report.ticket).Perm (w.channel.services.popped.map (fun p => p.2.ticket))
  once : (w.reports.map Report.ticket).Nodup
  /-- Every acceptance has been sent. -/
  accepted : List.Forall₂ Names w.channel.services.accepted
    (w.channel.emitted.filter Message.accepts)
  free : w.channel.mutex = false
  resting : w.channel.services.isWorking = false

theorem Finished.custody {w : World Board} (hf : Finished w) :
    w.custody = w.consumers.map Consumer.entry := by
  have hnone : w.channel.dispatchers.flatMap Dispatcher.held = [] := by
    refine List.flatMap_eq_nil_iff.mpr ?_
    intro d hd
    simp only [Dispatcher.held, hf.dispatchers d hd]
  rw [World.custody, hnone, List.nil_append]

theorem Finished.settled {w : World Board} (hf : Finished w) (hs : Sound w) (hw : Raised w) :
    Settled w := by
  have hall : w.consumers.filter Consumer.reported = w.consumers := by
    refine List.filter_eq_self.mpr ?_
    intro c hc
    simp only [Consumer.reported, hf.consumers c hc]
  have hreports : (w.reports.map Report.ticket).Perm
      (w.channel.services.popped.map (fun p => p.2.ticket)) := by
    have hcust := hs.ledger.books.custody.map (fun p => p.2.ticket)
    rw [hf.custody, List.map_map] at hcust
    have hrep := hs.ledger.reports_perm
    rw [hall] at hrep
    exact hrep.trans hcust.symm
  have hans : w.answers = w.channel.emitted := by simp [World.answers, hf.network]
  refine ⟨hreports, ?_, ?_, ?_, ?_⟩
  · exact hreports.nodup_iff.mpr hs.ledger.books.accounted.popped_once
  · rw [← hans]
    exact hs.ledger.acknowledged.accepted
  · have hzero : w.consumers.countP Consumer.locking = 0 := by
      refine List.countP_eq_zero.mpr ?_
      intro c hc
      simp [Consumer.locking, hf.consumers c hc]
    have hmu := hs.unharmed.mutex
    rw [World.locking, hf.network, hzero] at hmu
    by_contra hm
    rw [if_pos (Bool.not_eq_false _ ▸ hm)] at hmu
    exact absurd hmu (by simp)
  · by_contra hup
    obtain ⟨i, d, hd, hb⟩ := hw (Bool.not_eq_false _ ▸ hup)
    have hend := hf.dispatchers d (List.mem_of_getElem? hd)
    rcases hb with hb | ⟨e, he⟩
    · simp [Dispatcher.between, DispatchPc.between, hend] at hb
    · rw [hend] at he
      exact absurd he (by simp)

/-- Without further events the module does what it has to do, and no more. -/
structure ComesToRest (parse : String → Option Json) (w : World Board) : Prop where
  /-- It takes no more steps than it has remaining, idle polls apart. -/
  bounded : ∀ bs w', Run (World.step parse firmware) (Unprompted parse) w bs w' →
    w.efforts parse bs ≤ w.remaining
  /-- It is never stuck before it is finished, whatever was scheduled. -/
  moves : ∀ bs w', Run (World.step parse firmware) (Unprompted parse) w bs w' → ¬ Finished w' →
    ∃ cs w'', Run (World.step parse firmware) (Unprompted parse) w' cs w''
      ∧ w''.remaining < w'.remaining
  /-- Wherever it is finished, everything is settled. -/
  settled : ∀ bs w', Run (World.step parse firmware) (Unprompted parse) w bs w' → Finished w' →
    Settled w'
  /-- And it can get there. -/
  ends : ∃ bs w', Run (World.step parse firmware) (Unprompted parse) w bs w' ∧ Finished w'

/-- **The module comes to rest**, from every state of a run in which nothing goes wrong. -/
theorem completion_run {module_id : String} {as : List (Act Unit)} {w : World Board}
    (hr : Run (World.step parse firmware) (Proper parse) (World.start module_id Board.start) as w) :
    ComesToRest parse w where
  bounded := by
    intro bs w' hbs
    obtain ⟨_, hle⟩ := remaining_efforts (sound_run hr) hbs
    omega
  moves := by
    intro bs w' hbs hn
    exact exists_less parse (remaining_efforts (sound_run hr) hbs).1 hn
  settled := by
    intro bs w' hbs hf
    have hraised : Raised w' := raised_run (hr.trans (hbs.weaken (fun _ _ h => h.proper)))
    exact hf.settled (remaining_efforts (sound_run hr) hbs).1 hraised
  ends := exists_finished (sound_run hr)

/-- The guard of a session, as a check. -/
def sessionProper (w : World Board) (a : Act Unit) : Bool :=
  sessionFed w a && Spared w a && Alone w a

theorem proper_of_sessionProper {w : World Board} {a : Act Unit} (h : sessionProper w a = true) :
    Proper sessionParse w a := by
  obtain ⟨hboth, halone⟩ := Bool.and_eq_true_iff.mp h
  obtain ⟨hfed, hspared⟩ := Bool.and_eq_true_iff.mp hboth
  exact ⟨fed_of_sessionFed hfed, hspared, halone⟩

/-- From the moment the thread of an `OPEN-GRIP` has written its command. -/
theorem completion_run_open :
    ∃ as w, Run (World.step sessionParse firmware) (Proper sessionParse)
        (World.start "handling" Board.start) as w
      ∧ w.frames.length = 1 ∧ ComesToRest sessionParse w := by
  have hexec : (exec (checked sessionProper (World.step sessionParse firmware))
      (World.start "handling" Board.start)
      ([.receive .workAssignation openPayload, .answer, .receive .allBegins beginPayload]
        ++ times 5 (.allBegins 0) ++ times 4 (.consumeService 0 true))).any
      (fun w => w.frames.length == 1) = true := by decide +kernel
  obtain ⟨w, hw, hlen⟩ := exists_of_exec hexec
  have hr := (run_of_exec_checked hw).weaken (fun _ _ h => proper_of_sessionProper h)
  exact ⟨_, w, hr, eq_of_beq hlen, completion_run hr⟩

end HandlingModule.AIO
