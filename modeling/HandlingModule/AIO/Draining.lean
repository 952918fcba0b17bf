import HandlingModule.AIO.World
import HandlingModule.Lib.Replace
import HandlingModule.Serial.Board

/-!
# Draining a queue

`all_begins` asks whether a queue is empty and then takes from it, in two steps. A
queue never runs dry between the two exactly as long as no more threads are on
their way to a `getNextWork` than the queue has commands. Nothing in the source
keeps two threads of one group from passing the test on the same last command.
-/

namespace HandlingModule.AIO

open Serial Transition

variable {δ A : Type} {parse : String → Option Json} {dev : Device δ A}

/-- The thread has seen a command in the group's queue and is about to take one. -/
def Dispatcher.popping (group_id : Int64) (d : Dispatcher) : Bool :=
  match d.pc with
  | .getNextWork g => g == group_id
  | _ => false

/-- How many threads are about to take a command of the group. -/
def World.popping (w : World δ) (group_id : Int64) : Nat :=
  w.channel.dispatchers.countP (Dispatcher.popping group_id)

/--
The guard: a test that finds the queue of a group non-empty is made while fewer
threads are about to take from it than it has commands.
-/
def Spared (w : World δ) : Act A → Bool
  | .allBegins i =>
      match (w.channel.dispatchers[i]?).map Dispatcher.pc with
      | some (.isEmptyCommands g) =>
          w.channel.services.isEmptyCommands g
            || decide (w.popping g < (w.channel.services.commandsInfo g).length)
      | _ => true
  | _ => true

/-- Whoever is about to take a command finds one: `front()` and `pop()` are defined. -/
def FrontDefined (w : World δ) : Prop :=
  ∀ (i : Nat) (d : Dispatcher) (g : Int64), w.channel.dispatchers[i]? = some d →
    d.pc = .getNextWork g → w.channel.services.commandsInfo g ≠ []

/-- Enough commands for everybody on the way. -/
def Enough (w : World δ) : Prop :=
  ∀ g, w.popping g ≤ (w.channel.services.commandsInfo g).length

theorem popping_set {w : World δ} {i : Nat} {d : Dispatcher} (d' : Dispatcher)
    (hd : w.channel.dispatchers[i]? = some d) (g : Int64) :
    (w.channel.dispatchers.set i d').countP (Dispatcher.popping g)
        + (if d.popping g = true then 1 else 0)
      = w.popping g + (if d'.popping g = true then 1 else 0) :=
  Replace.countP_set_add _ d' hd

/-- A step of a thread that neither arrives at a `getNextWork` nor leaves one. -/
theorem enough_set {w w' : World δ} (he : Enough w) {i : Nat} {d d' : Dispatcher}
    (hd : w.channel.dispatchers[i]? = some d)
    (hw : w'.channel.dispatchers = w.channel.dispatchers.set i d')
    (hq : w'.channel.services.commandsInfo = w.channel.services.commandsInfo)
    (h0 : ∀ g, d.popping g = false) (h1 : ∀ g, d'.popping g = false) : Enough w' := by
  intro g
  have hset := popping_set d' hd g
  have := he g
  rw [h0 g, h1 g] at hset
  simp only [Bool.false_eq_true, if_false] at hset
  unfold World.popping
  rw [hw, hq]
  omega

theorem enough_step {w w' : World δ} {a : Act A} (h : World.Step parse dev w a w')
    (hg : Spared w a = true) (he : Enough w) : Enough w' := by
  cases h with
  | received ch _ _ hh =>
      cases hh with
      | registered j module_id _ _ => exact he
      | begun j _ =>
          intro g
          show (w.channel.dispatchers ++ [_]).countP _ ≤ _
          rw [List.countP_append]
          exact he g
  | replying m ch _ _ hh =>
      cases hh with
      | refused j _ => exact he
      | asked j _ => exact he
      | accepted j group_id c _ _ =>
          intro g
          have := he g
          refine Nat.le_trans this ?_
          show _ ≤ (Function.update w.channel.services.commandsInfo group_id _ g).length
          rcases eq_or_ne g group_id with rfl | hne
          · rw [Function.update_self, List.length_append]; omega
          · rw [Function.update_of_ne hne]
  | threw e ch _ _ hh => cases hh; exact he
  | answered m _ => exact he
  | unwound e _ => exact he
  | workingSet d hd hpc =>
      exact enough_set he hd rfl rfl (by simp [Dispatcher.popping, hpc]) (by simp [Dispatcher.popping])
  | grouped d group_id hd hpc _ =>
      exact enough_set he hd rfl rfl (by simp [Dispatcher.popping, hpc]) (by simp [Dispatcher.popping])
  | groupThrew d e hd hpc _ =>
      exact enough_set he hd rfl rfl (by simp [Dispatcher.popping, hpc]) (by simp [Dispatcher.popping])
  | drained d group_id hd hpc _ =>
      exact enough_set he hd rfl rfl (by simp [Dispatcher.popping, hpc]) (by simp [Dispatcher.popping])
  | threaded d group_id c hd hpc =>
      exact enough_set he hd rfl rfl (by simp [Dispatcher.popping, hpc]) (by simp [Dispatcher.popping])
  | workingCleared d hd hpc =>
      exact enough_set he hd rfl rfl (by simp [Dispatcher.popping, hpc]) (by simp [Dispatcher.popping])
  | found d group_id hd hpc hne =>
      -- one more on the way: the guard says there is one more command
      have hroom : w.popping group_id < (w.channel.services.commandsInfo group_id).length := by
        simp only [Spared, hd, Option.map_some, hpc, Services.isEmptyCommands, Bool.or_eq_true,
          List.isEmpty_iff, decide_eq_true_eq] at hg
        exact hg.resolve_left hne
      intro g
      have hset := popping_set { d with pc := .getNextWork group_id } hd g
      have h0 : d.popping g = false := by simp [Dispatcher.popping, hpc]
      have hle := he g
      show (w.channel.dispatchers.set _ _).countP _ ≤ _
      rw [h0] at hset
      rcases eq_or_ne group_id g with rfl | hgne
      · have h1 : Dispatcher.popping group_id { d with pc := .getNextWork group_id } = true := by
          simp [Dispatcher.popping]
        rw [h1] at hset
        simp only [Bool.false_eq_true, if_false, if_true] at hset
        show _ ≤ (w.channel.services.commandsInfo group_id).length
        omega
      · have h1 : Dispatcher.popping g { d with pc := .getNextWork group_id } = false := by
          simp [Dispatcher.popping, hgne]
        rw [h1] at hset
        simp only [Bool.false_eq_true, if_false] at hset
        show _ ≤ (w.channel.services.commandsInfo g).length
        omega
  | popped d group_id c services hd hpc hn =>
      -- one fewer on the way, and one fewer in the queue
      obtain ⟨rest, hq, rfl⟩ := Services.getNextWork_cases hn
      intro g
      have hset := popping_set { d with pc := .newThread group_id c } hd g
      have h1 : Dispatcher.popping g { d with pc := .newThread group_id c } = false := rfl
      have hle := he g
      rw [h1] at hset
      show (w.channel.dispatchers.set _ _).countP _
        ≤ (Function.update w.channel.services.commandsInfo group_id rest g).length
      rcases eq_or_ne g group_id with rfl | hgne
      · have h0 : d.popping g = true := by simp [Dispatcher.popping, hpc]
        rw [h0] at hset
        simp only [Bool.false_eq_true, if_false, if_true] at hset
        rw [Function.update_self]
        rw [hq, List.length_cons] at hle
        omega
      · have h0 : d.popping g = false := by simp [Dispatcher.popping, hpc, hgne.symm]
        rw [h0] at hset
        simp only [Bool.false_eq_true, if_false] at hset
        rw [Function.update_of_ne hgne]
        omega
  | findThrew c e _ _ _ => exact he
  | notFound c _ _ _ => exact he
  | called c responsible creators command line _ _ _ _ => exact he
  | ran c responsible command k hcall line _ _ _ _ _ => exact he
  | returned c responsible command k hcall code reply_info => exact he
  | replyThrew c responsible command k hcall code e => exact he
  | locked c reply_info _ _ _ => exact he
  | emitted c reply_info _ _ => exact he
  | unlocked c _ _ => exact he
  | device line _ => exact he

theorem Enough.frontDefined {w : World δ} (he : Enough w) : FrontDefined w := by
  intro i d g hd hpc h0
  have hpos : 0 < w.popping g :=
    List.countP_pos_iff.mpr ⟨d, List.mem_of_getElem? hd, by simp [Dispatcher.popping, hpc]⟩
  have := he g
  rw [h0, List.length_nil] at this
  omega

/-- With more threads on the way than commands, they can take all of them and one is left over. -/
theorem starved (g : Int64) (n : Nat) {w : World δ}
    (hn : (w.channel.services.commandsInfo g).length = n) (hp : n < w.popping g) :
    ∃ as w', Run (World.step parse dev) NoGuard w as w' ∧ ¬ FrontDefined w' := by
  induction n generalizing w with
  | zero =>
      obtain ⟨d, hm, hpop⟩ := List.countP_pos_iff.mp hp
      obtain ⟨i, hd⟩ := List.mem_iff_getElem?.mp hm
      refine ⟨[], w, Run.nil, fun hf => ?_⟩
      cases hpc : d.pc with
      | getNextWork g' =>
          simp only [Dispatcher.popping, hpc, beq_iff_eq] at hpop
          exact hf i d g hd (by rw [hpc, hpop]) (List.length_eq_zero_iff.mp hn)
      | _ => simp [Dispatcher.popping, hpc] at hpop
  | succ n ih =>
      obtain ⟨d, hm, hpop⟩ := List.countP_pos_iff.mp (Nat.lt_of_le_of_lt (Nat.zero_le _) hp)
      obtain ⟨i, hd⟩ := List.mem_iff_getElem?.mp hm
      cases hpc : d.pc with
      | getNextWork g' =>
          simp only [Dispatcher.popping, hpc, beq_iff_eq] at hpop
          subst hpop
          obtain ⟨c, rest, hq⟩ := List.exists_cons_of_length_eq_add_one hn
          -- one of them takes a command
          have hnext : ∃ services, w.channel.services.getNextWork g' = some (c, services)
              ∧ services.commandsInfo g' = rest := by
            refine ⟨_, by rw [Services.getNextWork, hq], ?_⟩
            exact Function.update_self ..
          obtain ⟨services, hget, hrest⟩ := hnext
          have hstep : w.step parse dev (.allBegins i)
              = some ((w.setServices services).setDispatcher i { d with pc := .newThread g' c }) := by
            show w.allBegins i = _
            simp only [World.allBegins, hd, Option.bind_eq_bind, Option.bind_some, hpc, hget]
            rfl
          have hset := popping_set { d with pc := .newThread g' c } hd g'
          have h0 : d.popping g' = true := by simp [Dispatcher.popping, hpc]
          have h1 : Dispatcher.popping g' { d with pc := .newThread g' c } = false := rfl
          rw [h0, h1] at hset
          simp only [Bool.false_eq_true, if_false, if_true] at hset
          obtain ⟨as, w', hr, hf⟩ := ih (w := (w.setServices services).setDispatcher i
              { d with pc := .newThread g' c })
            (by show (services.commandsInfo g').length = n
                rw [hrest]; rw [hq, List.length_cons] at hn; omega)
            (by show n < (w.channel.dispatchers.set _ _).countP _
                omega)
          exact ⟨_, w', (Run.one trivial hstep).trans hr, hf⟩
      | _ => simp [Dispatcher.popping, hpc] at hpop

/--
**When the test still holds at the pop.** In a run whose tests are all made with
commands to spare, `front()` and `pop()` are always defined; and a single test made
without any to spare can be followed by a `getNextWork` on an empty queue.
-/
theorem frontDefined_run (parse : String → Option Json) (dev : Device δ A) (module_id : String)
    (d : δ) :
    (∀ (as : List (Act A)) (w : World δ),
      Run (World.step parse dev) (fun w a => Spared w a = true) (World.start module_id d) as w →
      FrontDefined w)
    ∧ ∀ (as : List (Act A)) (w w' : World δ) (a : Act A),
      Run (World.step parse dev) NoGuard (World.start module_id d) as w →
      w.step parse dev a = some w' → Spared w a = false →
      ∃ bs w'', Run (World.step parse dev) NoGuard w' bs w'' ∧ ¬ FrontDefined w'' := by
  refine ⟨?_, ?_⟩
  · intro as w hr
    have he : Enough w := by
      refine hr.invariant (I := Enough) ?_ (fun he hg h => enough_step (World.step_cases h) hg he)
      intro g; exact Nat.zero_le _
    exact he.frontDefined
  · intro as w w' a _ hst hsp
    -- only a test that finds the queue non-empty can break the guard
    cases World.step_cases hst with
    | found d group_id hd hpc hne =>
        simp only [Spared, hd, Option.map_some, hpc, Services.isEmptyCommands, Bool.or_eq_false_iff,
          decide_eq_false_iff_not] at hsp
        have hset := popping_set { d with pc := .getNextWork group_id } hd group_id
        have h0 : d.popping group_id = false := by simp [Dispatcher.popping, hpc]
        have h1 : Dispatcher.popping group_id { d with pc := .getNextWork group_id } = true := by
          simp [Dispatcher.popping]
        rw [h0, h1] at hset
        simp only [Bool.false_eq_true, if_false, if_true] at hset
        refine starved group_id _ rfl ?_
        · show (w.channel.services.commandsInfo group_id).length
            < (w.channel.dispatchers.set _ _).countP _
          omega
    | drained d group_id hd hpc hq =>
        simp [Spared, hd, hpc, Services.isEmptyCommands, hq] at hsp
    | workingSet d hd hpc => simp [Spared, hd, hpc] at hsp
    | grouped d group_id hd hpc _ => simp [Spared, hd, hpc] at hsp
    | groupThrew d e hd hpc _ => simp [Spared, hd, hpc] at hsp
    | popped d group_id c services hd hpc _ => simp [Spared, hd, hpc] at hsp
    | threaded d group_id c hd hpc => simp [Spared, hd, hpc] at hsp
    | workingCleared d hd hpc => simp [Spared, hd, hpc] at hsp
    | _ => exact absurd hsp (by simp [Spared])

/-- One command, one `ALL_BEGINS`: the guard is met throughout. -/
theorem frontDefined_run_one :
    ∃ as w, Run (World.step sessionParse firmware) (fun w a => Spared w a = true)
        (World.start "handling" Board.start) as w
      ∧ w.channel.services.popped.length = 1 ∧ FrontDefined w := by
  have hexec : (exec (checked Spared (World.step sessionParse firmware))
      (World.start "handling" Board.start)
      ([.receive .workAssignation openPayload, .answer, .receive .allBegins beginPayload]
        ++ times 7 (.allBegins 0))).any
      (fun w => w.channel.services.popped.length == 1) = true := by decide +kernel
  obtain ⟨w, hw, hlen⟩ := exists_of_exec hexec
  have hr := run_of_exec_checked hw
  exact ⟨_, w, hr, eq_of_beq hlen,
    (frontDefined_run sessionParse firmware "handling" Board.start).1 _ w hr⟩

/-- Thread `i` is about to take from an empty queue. -/
def World.dry (w : World δ) (i : Nat) : Bool :=
  match (w.channel.dispatchers[i]?).map Dispatcher.pc with
  | some (.getNextWork g) => w.channel.services.isEmptyCommands g
  | _ => false

/--
Two `ALL_BEGINS` for a group with one command: both threads see it in the queue, one
of them takes it.
-/
theorem not_frontDefined_twice :
    ¬ ∀ (as : List (Act Unit)) (w : World Board),
      Run (World.step sessionParse firmware) NoGuard (World.start "handling" Board.start) as w →
      FrontDefined w := by
  intro hall
  have hexec : (exec (World.step sessionParse firmware) (World.start "handling" Board.start)
      ([.receive .workAssignation openPayload, .answer,
        .receive .allBegins beginPayload, .receive .allBegins beginPayload]
        ++ times 3 (.allBegins 0) ++ times 3 (.allBegins 1) ++ [.allBegins 0])).any
      (fun w => w.dry 1) = true := by decide +kernel
  obtain ⟨w, hw, hend⟩ := exists_of_exec hexec
  unfold World.dry at hend
  cases hd : w.channel.dispatchers[1]? with
  | none => simp [hd] at hend
  | some d =>
      cases hpc : d.pc with
      | getNextWork g =>
          simp only [hd, Option.map_some, hpc, Services.isEmptyCommands, List.isEmpty_iff] at hend
          exact hall _ w (run_of_exec hw) 1 d g hd hpc hend
      | _ => simp [hd, hpc] at hend

end HandlingModule.AIO
