import Mathlib.Algebra.Ring.Int.Defs

/-!
# C's `int`

A 32 bit `int` is an `Int32`. An operation whose exact result is not an `int` is
undefined in C, so it has no result here; where there is one it is the exact one.
`countUp` is the loop that counts an `int` up to a bound. Its counter never overflows,
and the loop is its body, as many times as the bound is away.
-/

namespace CInt

/-! ## Arithmetic -/

/-- An `int` can hold the number. -/
def InRange (z : Int) : Prop := -2 ^ 31 ≤ z ∧ z < 2 ^ 31

instance (z : Int) : Decidable (InRange z) := inferInstanceAs (Decidable (_ ∧ _))

/-- The `int` with this value, if there is one. -/
def check (z : Int) : Option Int32 := if InRange z then some (Int32.ofInt z) else none

def add (a b : Int32) : Option Int32 := check (a.toInt + b.toInt)
def sub (a b : Int32) : Option Int32 := check (a.toInt - b.toInt)
def mul (a b : Int32) : Option Int32 := check (a.toInt * b.toInt)

theorem inRange_toInt (v : Int32) : InRange v.toInt := ⟨v.le_toInt, v.toInt_lt⟩

theorem check_eq_some_iff {z : Int} {v : Int32} : check z = some v ↔ v.toInt = z := by
  unfold check
  constructor
  · intro h
    split at h
    · rename_i hz
      rw [← Option.some.inj h]
      exact Int32.toInt_ofInt_of_le hz.1 hz.2
    · exact absurd h (by simp)
  · rintro rfl
    rw [if_pos (inRange_toInt v), Int32.ofInt_toInt]

theorem exists_toInt {z : Int} (h : InRange z) : ∃ v : Int32, v.toInt = z :=
  ⟨Int32.ofInt z, Int32.toInt_ofInt_of_le h.1 h.2⟩

@[simp] theorem add_eq_some_iff {a b v : Int32} :
    add a b = some v ↔ v.toInt = a.toInt + b.toInt := check_eq_some_iff

@[simp] theorem sub_eq_some_iff {a b v : Int32} :
    sub a b = some v ↔ v.toInt = a.toInt - b.toInt := check_eq_some_iff

@[simp] theorem mul_eq_some_iff {a b v : Int32} :
    mul a b = some v ↔ v.toInt = a.toInt * b.toInt := check_eq_some_iff

/-- The conversion to `unsigned int` keeps a number that is not negative. -/
theorem toNat_toUInt32 {v : Int32} (h : 0 ≤ v.toInt) : (v.toUInt32.toNat : Int) = v.toInt := by
  have h0 : 0 ≤ v := Int32.le_iff_toInt_le.mpr h
  rw [Int32.toNat_toUInt32_of_le h0, Int32.cast_toNatClampNeg v h0]

/-- A negative number comes out 2³² larger. -/
theorem toNat_toUInt32_of_neg {v : Int32} (h : v.toInt < 0) :
    (v.toUInt32.toNat : Int) = v.toInt + 2 ^ 32 := by
  have hdef : v.toInt = v.toBitVec.toInt := rfl
  have hcases := v.toBitVec.toInt_eq_toNat_cond
  rw [← hdef, Int32.toNat_toBitVec] at hcases
  have hlt := v.toUInt32.toNat_lt
  split at hcases <;> omega

/-- The conversion keeps the order of two numbers, unless their signs differ. -/
theorem toUInt32_le_iff {a b : Int32} (h : a.toInt ≤ b.toInt) :
    a.toUInt32 ≤ b.toUInt32 ↔ (0 ≤ b.toInt → 0 ≤ a.toInt) := by
  rw [UInt32.le_iff_toNat_le]
  have ha := a.toUInt32.toNat_lt
  by_cases hna : a.toInt < 0
  · have hva := toNat_toUInt32_of_neg hna
    by_cases hnb : b.toInt < 0
    · have hvb := toNat_toUInt32_of_neg hnb
      omega
    · -- the smaller of the two is now the larger
      have hvb := toNat_toUInt32 (Int.not_lt.mp hnb)
      have hlo := a.le_toInt
      have hhi := b.toInt_lt
      omega
  · have hva := toNat_toUInt32 (Int.not_lt.mp hna)
    have hvb := toNat_toUInt32 (Int.le_trans (Int.not_lt.mp hna) h)
    omega

/-! ## Counting -/

section Count

variable {m : Type → Type} [Monad m]

/-- `n` times the same. -/
def repeated (body : m Unit) : Nat → m Unit
  | 0 => pure ()
  | n + 1 => do
      body
      repeated body n

/-- Below a bound there is room for one more. -/
theorem toInt_succ {i n : Int32} (h : i < n) : (i + 1).toInt = i.toInt + 1 := by
  have hlt := Int32.lt_iff_toInt_lt.mp h
  have hn := n.toInt_lt
  have hi := i.le_toInt
  have hone : (1 : Int32).toInt = 1 := rfl
  rw [Int32.toInt_add, hone]
  exact Int.bmod_eq_of_le (by omega) (by omega)

/-- `for (int i = ..; i < n; i++)`, with a body that does not look at `i`. -/
def countUp (i n : Int32) (body : m Unit) : m Unit :=
  if h : i < n then do
    body
    countUp (i + 1) n body
  else pure ()
termination_by (n.toInt - i.toInt).toNat
decreasing_by
  have hlt := Int32.lt_iff_toInt_lt.mp h
  rw [toInt_succ h]
  omega

/-- **The loop is its body, as many times as the bound is away.** -/
theorem countUp_eq_repeated (n : Int32) (body : m Unit) (k : Nat) :
    ∀ i : Int32, (n.toInt - i.toInt).toNat = k → countUp i n body = repeated body k := by
  induction k with
  | zero =>
      intro i hk
      have hge : ¬ i < n := by
        rw [Int32.lt_iff_toInt_lt]
        omega
      rw [countUp, dif_neg hge, repeated]
  | succ k ih =>
      intro i hk
      have hlt : i < n := by
        rw [Int32.lt_iff_toInt_lt]
        omega
      rw [countUp, dif_pos hlt, repeated, ih (i + 1) (by rw [toInt_succ hlt]; omega)]

/-- Counted from 0. A bound that is not positive leaves nothing to do. -/
theorem countUp_zero (n : Int32) (body : m Unit) :
    countUp 0 n body = repeated body n.toNatClampNeg := by
  refine countUp_eq_repeated n body _ 0 ?_
  have h0 : (0 : Int32).toInt = 0 := rfl
  rw [h0, Int.sub_zero, Int32.toNat_toInt]

end Count

end CInt
