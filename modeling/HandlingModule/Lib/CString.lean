import Mathlib.Data.List.Basic

/-!
# C strings in arrays

A C string is the part of an array before its first zero byte. `strcmp` reads two
arrays side by side until they differ or both end; on an array without a zero byte
it can run past the end, and then has no value here. Against a literal it never
reads further than the literal's own terminator.
-/

namespace CString

/-- The bytes of a string literal, without its terminator. -/
def bytes (s : String) : List UInt8 := s.toList.map (fun c => UInt8.ofNat c.toNat)

/-- A literal as the compiler stores it. -/
def literal (l : List UInt8) : List UInt8 := l ++ [0]

/-- `strcmp`, or nothing when it reads past the end of an array. -/
def strcmp : List UInt8 → List UInt8 → Option Int
  | x :: xs, y :: ys =>
      if x ≠ y then some ((x.toNat : Int) - y.toNat)
      else if x = 0 then some 0
      else strcmp xs ys
  | _, _ => none

/-- The bytes a pointer walk `while (*string)` visits. -/
def untilNul (l : List UInt8) : List UInt8 := l.takeWhile (fun x => x ≠ 0)

theorem untilNul_literal {l : List UInt8} (h : 0 ∉ l) : untilNul (literal l) = l := by
  unfold untilNul literal
  rw [List.takeWhile_append_of_pos]
  · simp
  · intro x hx
    simp only [ne_eq, decide_eq_true_eq]
    intro h0
    exact h (h0 ▸ hx)

/-- **A comparison with a literal stays inside any array longer than the literal.** -/
theorem strcmp_isSome {l a : List UInt8} (h : l.length < a.length) :
    (strcmp a (literal l)).isSome := by
  induction l generalizing a with
  | nil =>
      cases a with
      | nil => exact absurd h (by simp)
      | cons x a =>
          by_cases hx : x = 0
          · simp [strcmp, literal, hx]
          · simp [strcmp, literal, hx]
  | cons y l ih =>
      cases a with
      | nil => exact absurd h (by simp)
      | cons x a =>
          have := ih (a := a) (by simpa using h)
          simp only [literal, List.cons_append, strcmp] at this ⊢
          split
          · rfl
          · split
            · rfl
            · exact this

/-- **`strcmp` answers zero exactly when the array starts with the terminated literal.** -/
theorem strcmp_literal_eq_zero {l a : List UInt8} (hl : 0 ∉ l) :
    strcmp a (literal l) = some 0 ↔ literal l <+: a := by
  induction l generalizing a with
  | nil =>
      cases a with
      | nil => simp [strcmp, literal]
      | cons x a =>
          by_cases hx : x = 0
          · subst hx; simp [strcmp, literal]
          · have : (x.toNat : Int) - 0 ≠ 0 := by
              intro h0
              exact hx (UInt8.toNat_inj.mp (by simpa using h0))
            simp only [strcmp, literal, List.nil_append]
            rw [if_pos hx]
            simp [Ne.symm hx]
            simpa using this
  | cons y l ih =>
      have hy : y ≠ 0 := fun h0 => hl (by simp [h0])
      have hl' : 0 ∉ l := fun h0 => hl (List.mem_cons_of_mem y h0)
      cases a with
      | nil => simp [strcmp, literal]
      | cons x a =>
          have := ih (a := a) hl'
          simp only [literal, List.cons_append, strcmp] at this ⊢
          by_cases hxy : x = y
          · subst hxy
            rw [if_neg (by simp), if_neg hy, this]
            simp
          · have hne : (x.toNat : Int) - y.toNat ≠ 0 := by
              intro h0
              exact hxy (UInt8.toNat_inj.mp (by omega))
            rw [if_pos hxy]
            simp only [Option.some.injEq, hne, false_iff]
            intro hp
            exact hxy (List.cons_prefix_cons.mp hp).1.symm

end CString
