import Mathlib.Data.List.Basic

/-!
# Runs of a partial step function

A system is a step function `σ → α → Option σ`: an action the state does not
allow has no successor. A run is a list of actions, each of them allowed when it
was taken. Runs are stated with a *guard*, a condition every step met in the
state before it, because most results about concurrent code hold only of the
runs in which no thread stepped at a bad moment; `NoGuard` is the guard that
asks nothing.

Two rules are all that proofs about a system need from here: `Run.invariant`,
the induction over a run, and `Run.project`, which carries a run of one system
over to a run of another.
-/

namespace Transition

variable {σ α τ β : Type}

/-- The guard that allows every step. -/
def NoGuard : σ → α → Prop := fun _ _ => True

/-- `Run step G s as t`: the actions `as` lead from `s` to `t`, and each step met `G`. -/
inductive Run (step : σ → α → Option σ) (G : σ → α → Prop) (s : σ) : List α → σ → Prop where
  | nil : Run step G s [] s
  | snoc {as : List α} {t u : σ} {a : α} :
      Run step G s as t → G t a → step t a = some u → Run step G s (as ++ [a]) u

/-- Take a list of actions one after another. -/
def exec (step : σ → α → Option σ) : σ → List α → Option σ
  | s, [] => some s
  | s, a :: as => (step s a).bind (fun t => exec step t as)

/--
**The induction over a run.** What holds at the start and is kept by every step
that meets the guard holds wherever a run ends.
-/
theorem Run.invariant {step : σ → α → Option σ} {G : σ → α → Prop} {I : σ → Prop} {s t : σ}
    {as : List α} (hr : Run step G s as t) (h0 : I s)
    (hs : ∀ {u v a}, I u → G u a → step u a = some v → I v) : I t := by
  induction hr with
  | nil => exact h0
  | snoc _ hg hst ih => exact hs ih hg hst

theorem Run.weaken {step : σ → α → Option σ} {G H : σ → α → Prop} {s t : σ} {as : List α}
    (hr : Run step G s as t) (h : ∀ u a, G u a → H u a) : Run step H s as t := by
  induction hr with
  | nil => exact Run.nil
  | snoc _ hg hst ih => exact Run.snoc ih (h _ _ hg) hst

theorem Run.trans {step : σ → α → Option σ} {G : σ → α → Prop} {s t u : σ} {as bs : List α}
    (h1 : Run step G s as t) (h2 : Run step G t bs u) : Run step G s (as ++ bs) u := by
  induction h2 with
  | nil => rw [List.append_nil]; exact h1
  | snoc _ hg hst ih => rw [← List.append_assoc]; exact Run.snoc ih hg hst

theorem Run.one {step : σ → α → Option σ} {G : σ → α → Prop} {s t : σ} {a : α}
    (hg : G s a) (h : step s a = some t) : Run step G s [a] t :=
  (Run.nil.snoc hg h : Run step G s ([] ++ [a]) t)

/-- An execution that goes through is a run. -/
theorem run_of_exec {step : σ → α → Option σ} : ∀ {as : List α} {s t : σ},
    exec step s as = some t → Run step NoGuard s as t
  | [], s, t, h => by
      have : s = t := Option.some.inj h
      subst this; exact Run.nil
  | a :: as, s, t, h => by
      simp only [exec] at h
      cases hst : step s a with
      | none => rw [hst] at h; exact absurd h (by simp)
      | some u =>
          rw [hst] at h
          exact Run.trans (Run.one trivial hst) (run_of_exec h)

/-- A check of where an execution ends, as evaluation gives it. -/
theorem exists_of_exec {step : σ → α → Option σ} {p : σ → Bool} {s : σ} {as : List α}
    (h : (exec step s as).any p = true) : ∃ t, exec step s as = some t ∧ p t = true := by
  cases he : exec step s as with
  | none => rw [he] at h; exact absurd h (by simp)
  | some t => rw [he] at h; exact ⟨t, rfl, h⟩

/-- The step function that refuses the steps a check rejects. -/
def checked (g : σ → α → Bool) (step : σ → α → Option σ) : σ → α → Option σ :=
  fun s a => if g s a = true then step s a else none

/-- An execution that goes through with every step checked is a guarded run. -/
theorem run_of_exec_checked {step : σ → α → Option σ} {g : σ → α → Bool} {as : List α} {s t : σ}
    (h : exec (checked g step) s as = some t) : Run step (fun u a => g u a = true) s as t := by
  have hr := run_of_exec h
  clear h
  induction hr with
  | nil => exact Run.nil
  | snoc _ _ hst ih =>
      unfold checked at hst
      split at hst
      · exact Run.snoc ih (by assumption) hst
      · exact absurd hst (by simp)

/--
**Projection.** If every step of one system is, seen through `f`, a run of the
other, then so is every run. `I` is what is known of the states the run passes
through.
-/
theorem Run.project {step : σ → α → Option σ} {G : σ → α → Prop}
    {step' : τ → β → Option τ} {H : τ → β → Prop} {f : σ → τ} {I : σ → Prop}
    {s t : σ} {as : List α} (hr : Run step G s as t) (h0 : I s)
    (hI : ∀ {u v a}, I u → G u a → step u a = some v → I v)
    (hs : ∀ {u v a}, I u → G u a → step u a = some v → ∃ bs, Run step' H (f u) bs (f v)) :
    ∃ bs, Run step' H (f s) bs (f t) := by
  induction hr with
  | nil => exact ⟨[], Run.nil⟩
  | snoc hr' hg hst ih =>
      obtain ⟨bs, hbs⟩ := ih
      obtain ⟨cs, hcs⟩ := hs (hr'.invariant h0 hI) hg hst
      exact ⟨bs ++ cs, hbs.trans hcs⟩

/-! ## What a run costs -/

/-- What the actions of an execution cost, as far as it goes. -/
def tally (step : σ → α → Option σ) (cost : σ → α → Nat) : σ → List α → Nat
  | _, [] => 0
  | s, a :: as => cost s a + ((step s a).map (fun t => tally step cost t as)).getD 0

theorem Run.tally_append {step : σ → α → Option σ} {G : σ → α → Prop} (cost : σ → α → Nat)
    {s t : σ} {as : List α} (hr : Run step G s as t) (bs : List α) :
    tally step cost s (as ++ bs) = tally step cost s as + tally step cost t bs := by
  induction hr generalizing bs with
  | nil => simp [tally]
  | snoc _ _ hst ih =>
      rw [List.append_assoc, ih, ih, Nat.add_assoc]
      congr 1
      simp [tally, hst]

/--
**Amortized cost.** Where no step costs more than it takes from a potential, no run
costs more than the potential there was.
-/
theorem Run.tally_le {step : σ → α → Option σ} {G : σ → α → Prop} {I : σ → Prop}
    (cost : σ → α → Nat) (potential : σ → Nat) {s t : σ} {as : List α}
    (hr : Run step G s as t) (h0 : I s) (hI : ∀ {u v a}, I u → G u a → step u a = some v → I v)
    (hs : ∀ {u v a}, I u → G u a → step u a = some v → potential v + cost u a ≤ potential u) :
    potential t + tally step cost s as ≤ potential s := by
  induction hr with
  | nil => exact Nat.le_refl _
  | snoc hr' hg hst ih =>
      have hstep := hs (hr'.invariant h0 hI) hg hst
      rw [hr'.tally_append]
      simp only [tally, hst, Option.map_some, Option.getD_some]
      omega

end Transition
