import HandlingModule.AIO.ExactlyOnce
import HandlingModule.Serial.Serializable

/-!
# All threads on one serial line

Every `consumeService` thread runs its command by a call of `handlingService` on the
same port. The channel's mutex is passed to the thread, but taken only to emit the
report: nothing keeps two calls from overlapping. A run of the module is, on the
line, a run of `Serial.Line` (`line_project`), so what is proved there about lines
whose transactions do not overlap holds here of the runs in which they do not.
-/

namespace HandlingModule.AIO

open Serial Transition

variable {δ A : Type} {parse : String → Option Json} {dev : Device δ A}

/-- What a step of the module is on the line. -/
def World.lineAct (w : World δ) : Act A → Option (LineAct A)
  | .consumeService i ok =>
      match w.consumers[i]? with
      | none => none
      | some c =>
          match c.pc with
          | .createFromString =>
              match c.findService w.creators with
              | .ok (some (responsible, _, _)) => some (.call responsible.class_.code)
              | _ => none
          | .execute _ _ => c.call.map (fun k => .run k ok)
          | _ => none
  | .device a => some (.device a)
  | _ => none

theorem line_of_step {w w' : World δ} {a : Act A} (h : World.Step parse dev w a w') :
    w'.line = w.line ∨ ∃ la, w.lineAct a = some la ∧ w.line.step dev la = some w'.line := by
  cases h with
  | called c responsible creators command line hc hpc hf hl =>
      exact Or.inr ⟨_, by simp only [World.lineAct, hc, hpc, hf], hl⟩
  | ran c responsible command k hcall line hc hpc hck _ hl =>
      exact Or.inr ⟨_, by simp only [World.lineAct, hc, hpc, hck, Option.map_some], hl⟩
  | device line hl => exact Or.inr ⟨_, rfl, hl⟩
  | _ => exact Or.inl rfl

/-- **A run of the module is a run of its line.** -/
theorem line_project {G : World δ → Act A → Prop} {H : Line δ → LineAct A → Prop}
    (hGH : ∀ w a la, G w a → w.lineAct a = some la → H w.line la)
    {module_id : String} {d : δ} {as : List (Act A)} {w : World δ}
    (hr : Run (World.step parse dev) G (World.start module_id d) as w) :
    ∃ las, Run (Line.step dev) H (Line.start d) las w.line := by
  refine hr.project (f := World.line) (I := fun _ => True) trivial (fun _ _ _ => trivial) ?_
  intro u v a _ hg hst
  rcases line_of_step (World.step_cases hst) with heq | ⟨la, hla, hl⟩
  · rw [heq]; exact ⟨[], Run.nil⟩
  · exact ⟨[la], Run.one (hGH u a la hg hla) hl⟩

/--
The guard: a thread that writes its command does so while no other thread's call is
between its own write and the poll of 0 that it makes after its reply.
-/
def Alone (w : World δ) (a : Act A) : Bool :=
  match w.lineAct a with
  | some la => Exclusive w.line la
  | none => true

/--
**Transactions are serializable when they do not overlap.** In a run in which every
command is written while no other call is in its transaction, which lasts until it has
polled 0 after its reply, at most one command is unanswered and every call has read its own
reply, in the order of the writes.
-/
theorem serializable_run {module_id : String} {as : List (Act Unit)} {w : World Board}
    (hr : Run (World.step parse firmware) (fun w a => Alone w a = true)
      (World.start module_id Board.start) as w) : Serializable w.line := by
  have hproj : ∃ las, Run (Line.step firmware) (fun l a => Exclusive l a = true)
      (Line.start Board.start) las w.line := by
    refine line_project ?_ hr
    intro u a la hg hla
    simpa only [Alone, hla] using hg
  obtain ⟨las, hl⟩ := hproj
  exact (hl.invariant (I := Serialized) serialized_start
    (fun hs hg hst => serialized_step hs hg hst)).serializable

/-- Two commands accepted, begun and started. -/
def twoThreads : List (Act Unit) :=
  [.receive .workAssignation openPayload, .answer, .receive .workAssignation shutPayload, .answer,
    .receive .allBegins beginPayload] ++ times 8 (.allBegins 0)

set_option maxRecDepth 10000 in
/-- The two threads one after the other. -/
theorem serializable_run_two :
    ∃ as w, Run (World.step sessionParse firmware) (fun w a => Alone w a = true)
        (World.start "handling" Board.start) as w
      ∧ w.line.calls.map HandlingCall.pc = [.returned 0, .returned 0] ∧ Serializable w.line := by
  have hexec : (exec (checked Alone (World.step sessionParse firmware))
      (World.start "handling" Board.start)
      (twoThreads ++ times 4 (.consumeService 0 true) ++ times 67 (.device ())
        ++ times 99 (.consumeService 0 true) ++ times 4 (.consumeService 1 true)
        ++ times 68 (.device ()) ++ times 99 (.consumeService 1 true))).any
      (fun w => w.line.calls.map HandlingCall.pc == [.returned 0, .returned 0]) = true := by
    decide +kernel
  obtain ⟨w, hw, hpc⟩ := exists_of_exec hexec
  have hr := run_of_exec_checked hw
  exact ⟨_, w, hr, eq_of_beq hpc, serializable_run hr⟩

set_option maxRecDepth 10000 in
/-- The two threads side by side: both commands are on the line, and neither is answered. -/
theorem not_serializable_two :
    ¬ ∀ (as : List (Act Unit)) (w : World Board),
      Run (World.step sessionParse firmware) NoGuard (World.start "handling" Board.start) as w →
      Serializable w.line := by
  intro hall
  -- four steps take a thread past its `serialPuts`
  have hexec : (exec (World.step sessionParse firmware) (World.start "handling" Board.start)
      (twoThreads ++ times 4 (.consumeService 0 true) ++ times 4 (.consumeService 1 true))).any
      (fun w => w.line.written.length == 2 && w.line.device.answered == 0) = true := by
    decide +kernel
  obtain ⟨w, hw, hend⟩ := exists_of_exec hexec
  obtain ⟨hwritten, hanswered⟩ := Bool.and_eq_true_iff.mp hend
  have hone := (hall _ w (run_of_exec hw)).one
  rw [eq_of_beq hwritten, eq_of_beq hanswered] at hone
  omega

end HandlingModule.AIO
