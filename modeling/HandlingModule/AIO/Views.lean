import HandlingModule.AIO.World
import HandlingModule.Lib.Replace

/-!
# A step, seen from one side

`World.Step` has a constructor for everything that can happen. Most invariants are
about one part of the world, and for that part most steps are the same: what a step
accepts, what it emits, and what it is for the commands that pass from the queues to
the `all_begins` threads and from these to the `consumeService` threads.
-/

namespace HandlingModule.AIO

open Serial Transition Replace

variable {δ A : Type} {parse : String → Option Json} {dev : Device δ A}

/-- **What a step accepts**: nothing, or one command at the end. -/
theorem accepted_cases {w w' : World δ} {a : Act A} (h : World.Step parse dev w a w') :
    w'.channel.services.accepted = w.channel.services.accepted
      ∨ ∃ payload j g c, a = .receive .workAssignation payload ∧ parse payload = some j
        ∧ Services.Accepts w.channel.services j g c
        ∧ w'.channel.services = w.channel.services.push g c := by
  cases h with
  | received ch _ _ hh => cases hh <;> exact Or.inl rfl
  | replying m ch _ _ hh =>
      cases hh with
      | refused j _ => exact Or.inl rfl
      | asked j _ => exact Or.inl rfl
      | accepted j g c hp ha => exact Or.inr ⟨_, j, g, c, rfl, hp, ha, rfl⟩
  | threw e ch _ _ hh => cases hh; exact Or.inl rfl
  | popped d g c services _ _ hn =>
      obtain ⟨rest, _, rfl⟩ := Services.getNextWork_cases hn
      exact Or.inl rfl
  | _ => exact Or.inl rfl

/-- A step of the world emits nothing, or the pending reply, or a report. -/
theorem emitted_cases {w w' : World δ} {a : Act A} (h : World.Step parse dev w a w') :
    w'.channel.emitted = w.channel.emitted
      ∨ ∃ m, w'.channel.emitted = w.channel.emitted ++ [m]
        ∧ (w.network = .answering m ∨ m.event = .actionFinished) := by
  cases h with
  | received ch _ _ hh => cases hh <;> exact Or.inl rfl
  | replying m ch _ _ hh => cases hh <;> exact Or.inl rfl
  | threw e ch _ _ hh => cases hh; exact Or.inl rfl
  | answered m hm => exact Or.inr ⟨m, rfl, Or.inl hm⟩
  | emitted c reply_info _ _ => exact Or.inr ⟨⟨.actionFinished, reply_info⟩, rfl, Or.inr rfl⟩
  | _ => exact Or.inl rfl

/-! ## From hand to hand -/

/-- The command an `all_begins` thread has popped and not yet given to a thread. -/
def Dispatcher.held (d : Dispatcher) : List (Int64 × CommandInfo) :=
  match d.pc with
  | .newThread group_id c => [(group_id, c)]
  | _ => []

/-- The command of a `consumeService` thread. -/
def Consumer.entry (c : Consumer) : Int64 × CommandInfo := (c.group_id, c.commandInfo)

/-- The group a thread has read from its payload. -/
def DispatchPc.group : DispatchPc → Option Int64
  | .isEmptyCommands g | .getNextWork g | .newThread g _ => some g
  | _ => none

/-- What a step is for the `all_begins` threads and the commands they hand on. -/
inductive HandStep (w : World δ) : World δ → Prop where
  | unseen {w' : World δ} :
      w'.channel.dispatchers = w.channel.dispatchers →
      w'.channel.services.popped = w.channel.services.popped →
      w'.consumers.map Consumer.entry = w.consumers.map Consumer.entry → HandStep w w'
  | begun {w' : World δ} (j : Json) :
      w'.channel.dispatchers = w.channel.dispatchers ++ [⟨j, .setWorking⟩] →
      w'.channel.services.popped = w.channel.services.popped →
      w'.consumers.map Consumer.entry = w.consumers.map Consumer.entry → HandStep w w'
  | moved {i : Nat} {w' : World δ} (d : Dispatcher) (pc : DispatchPc) :
      w.channel.dispatchers[i]? = some d → d.held = [] →
      Dispatcher.held { d with pc := pc } = [] →
      (∀ g, pc.group = some g → d.groupId = .ok g ∨ d.pc.group = some g) →
      w'.channel.dispatchers = w.channel.dispatchers.set i { d with pc := pc } →
      w'.channel.services.popped = w.channel.services.popped →
      w'.consumers.map Consumer.entry = w.consumers.map Consumer.entry → HandStep w w'
  | popped {i : Nat} {w' : World δ} (d : Dispatcher) (g : Int64) (c : CommandInfo) :
      w.channel.dispatchers[i]? = some d → d.pc = .getNextWork g →
      w'.channel.dispatchers = w.channel.dispatchers.set i { d with pc := .newThread g c } →
      w'.channel.services.popped = w.channel.services.popped ++ [(g, c)] →
      w'.consumers.map Consumer.entry = w.consumers.map Consumer.entry → HandStep w w'
  | threaded {i : Nat} {w' : World δ} (d : Dispatcher) (g : Int64) (c : CommandInfo) :
      w.channel.dispatchers[i]? = some d → d.pc = .newThread g c →
      w'.channel.dispatchers = w.channel.dispatchers.set i { d with pc := .isEmptyCommands g } →
      w'.channel.services.popped = w.channel.services.popped →
      w'.consumers.map Consumer.entry = w.consumers.map Consumer.entry ++ [(g, c)] →
      HandStep w w'

theorem handStep {w w' : World δ} {a : Act A} (h : World.Step parse dev w a w') :
    HandStep w w' := by
  cases h with
  | received ch _ _ hh =>
      cases hh with
      | registered j module_id _ _ => exact .unseen rfl rfl rfl
      | begun j _ => exact .begun j rfl rfl rfl
  | replying m ch _ _ hh => cases hh <;> exact .unseen rfl rfl rfl
  | threw e ch _ _ hh => cases hh; exact .unseen rfl rfl rfl
  | workingSet d hd hpc =>
      exact .moved d .groupId hd (by simp [Dispatcher.held, hpc]) rfl (by simp [DispatchPc.group])
        rfl rfl rfl
  | grouped d group_id hd hpc hg =>
      refine .moved d (.isEmptyCommands group_id) hd (by simp [Dispatcher.held, hpc]) rfl ?_
        rfl rfl rfl
      intro g hgg
      rw [← Option.some.inj hgg]
      exact Or.inl hg
  | groupThrew d e hd hpc _ =>
      exact .moved d (.thrown e) hd (by simp [Dispatcher.held, hpc]) rfl (by simp [DispatchPc.group])
        rfl rfl rfl
  | drained d group_id hd hpc _ =>
      exact .moved d .clearWorking hd (by simp [Dispatcher.held, hpc]) rfl
        (by simp [DispatchPc.group]) rfl rfl rfl
  | found d group_id hd hpc _ =>
      refine .moved d (.getNextWork group_id) hd (by simp [Dispatcher.held, hpc]) rfl ?_ rfl rfl rfl
      intro g hgg
      rw [hpc]
      exact Or.inr hgg
  | workingCleared d hd hpc =>
      exact .moved d .ended hd (by simp [Dispatcher.held, hpc]) rfl (by simp [DispatchPc.group])
        rfl rfl rfl
  | popped d group_id c services hd hpc hn =>
      obtain ⟨rest, _, rfl⟩ := Services.getNextWork_cases hn
      exact .popped d group_id c hd hpc rfl rfl rfl
  | threaded d group_id c hd hpc =>
      exact .threaded d group_id c hd hpc rfl rfl (List.map_append ..)
  | findThrew c e hc _ _ => exact .unseen rfl rfl (map_set_of_eq hc rfl)
  | notFound c hc _ _ => exact .unseen rfl rfl (map_set_of_eq hc rfl)
  | called c responsible creators command line hc _ _ _ => exact .unseen rfl rfl (map_set_of_eq hc rfl)
  | returned c responsible command k hcall code reply_info hc => exact .unseen rfl rfl (map_set_of_eq hc rfl)
  | replyThrew c responsible command k hcall code e hc => exact .unseen rfl rfl (map_set_of_eq hc rfl)
  | locked c reply_info hc _ _ => exact .unseen rfl rfl (map_set_of_eq hc rfl)
  | emitted c reply_info hc _ => exact .unseen rfl rfl (map_set_of_eq hc rfl)
  | unlocked c hc _ => exact .unseen rfl rfl (map_set_of_eq hc rfl)
  | _ => exact .unseen rfl rfl rfl

end HandlingModule.AIO
