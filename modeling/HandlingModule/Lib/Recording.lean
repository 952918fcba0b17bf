import HandlingModule.Lib.CInt

/-!
# Programs that leave a record

A program does things one after another, each of them is recorded, and it ends with a
value or stops before its end. What it has done until it stops stays done. `Returns`
and `Stops` say how a program ends and what it does until then, whatever was done
before it; there is one rule for each way in which programs are put together.
-/

namespace Recording

open CInt

variable {ε α β γ : Type} {as bs : List α} {b : β} {c : γ} {e : ε}

/-- A program that does things of type `α`, and stops early with an `ε`. -/
abbrev Program (ε α β : Type) := EStateM ε (List α) β

/-- Do one thing. -/
def perform (a : α) : Program ε α Unit := modify fun done => done ++ [a]

/-- The program does `as` and ends with `b`. -/
def Returns (p : Program ε α β) (as : List α) (b : β) : Prop :=
  ∀ done, p.run done = .ok b (done ++ as)

/-- The program does `as` and stops with `e`. -/
def Stops (p : Program ε α β) (as : List α) (e : ε) : Prop :=
  ∀ done, p.run done = .error e (done ++ as)

/-! ## How it ends -/

theorem Returns.eq {p : Program ε α β} (h : Returns p as b) {done : List α} {b' : β}
    (hr : p.run [] = .ok b' done) : done = as ∧ b' = b := by
  rw [h []] at hr
  obtain ⟨rfl, rfl⟩ := EStateM.Result.ok.inj hr
  exact ⟨rfl, rfl⟩

theorem Stops.not_returns {p : Program ε α β} (h : Stops p as e) {done : List α} {b' : β} :
    p.run [] ≠ .ok b' done := by
  rw [h []]
  simp

/-! ## How programs are put together -/

theorem returns_pure (b : β) : Returns (pure b : Program ε α β) [] b :=
  fun done => congrArg _ (List.append_nil done).symm

theorem returns_perform (a : α) : Returns (perform a : Program ε α Unit) [a] () := fun _ => rfl

theorem stops_throw (e : ε) : Stops (throw e : Program ε α β) [] e :=
  fun done => congrArg _ (List.append_nil done).symm

theorem Returns.bind {p : Program ε α β} {f : β → Program ε α γ} (hp : Returns p as b)
    (hf : Returns (f b) bs c) : Returns (p >>= f) (as ++ bs) c := by
  intro done
  show EStateM.bind p f done = _
  have hp : p done = _ := hp done
  rw [EStateM.bind, hp, ← List.append_assoc]
  exact hf (done ++ as)

theorem Returns.bind_stops {p : Program ε α β} {f : β → Program ε α γ} (hp : Returns p as b)
    (hf : Stops (f b) bs e) : Stops (p >>= f) (as ++ bs) e := by
  intro done
  show EStateM.bind p f done = _
  have hp : p done = _ := hp done
  rw [EStateM.bind, hp, ← List.append_assoc]
  exact hf (done ++ as)

theorem Stops.bind {p : Program ε α β} (hp : Stops p as e) (f : β → Program ε α γ) :
    Stops (p >>= f) as e := by
  intro done
  show EStateM.bind p f done = _
  have hp : p done = _ := hp done
  rw [EStateM.bind, hp]

/-! ## Repetition -/

theorem Returns.repeated {body : Program ε α Unit} (h : Returns body as ()) (n : Nat) :
    Returns (repeated body n) (List.replicate n as).flatten () := by
  induction n with
  | zero => exact returns_pure ()
  | succ n ih =>
      rw [List.replicate_succ, List.flatten_cons]
      exact h.bind ih

/-- A body that stops is begun once. -/
theorem Stops.repeated {body : Program ε α Unit} (h : Stops body as e) (n : Nat) :
    Stops (repeated body (n + 1)) as e := h.bind _

theorem Returns.countUp {body : Program ε α Unit} (h : Returns body as ()) (n : Int32) :
    Returns (countUp 0 n body) (List.replicate n.toNatClampNeg as).flatten () := by
  rw [countUp_zero]
  exact h.repeated _

theorem Stops.countUp {body : Program ε α Unit} (h : Stops body as e) {n : Int32} (hn : 0 < n) :
    Stops (countUp 0 n body) as e := by
  obtain ⟨k, hk⟩ := Nat.exists_eq_add_one.mpr ((Int32.toNatClampNeg_pos_iff n).mpr hn)
  rw [countUp_zero, hk]
  exact h.repeated k

/-- Without a round the body does not matter. -/
theorem returns_countUp {body : Program ε α Unit} {n : Int32} (hn : n ≤ 0) :
    Returns (CInt.countUp 0 n body) [] () := by
  rw [countUp_zero, Int32.toNatClampNeg_eq_zero_iff.mpr hn]
  exact returns_pure ()

end Recording
