import Mathlib.Algebra.GroupWithZero.Nat
import Mathlib.Data.List.Basic
import Mathlib.Data.List.Perm.Basic

/-!
# One element of a list replaced

The threads of a process are a list, and a step of one of them replaces one element.
These are the facts such a step needs: which element is found afterwards, and what
becomes of a map, a count and a collection over the list; and of two lists kept in step.
-/

namespace Replace

variable {α β : Type}

/-- Replacing an element by one with the same image. -/
theorem map_set_of_eq {f : α → β} {l : List α} {i : Nat} {x y : α} (hx : l[i]? = some x)
    (hf : f y = f x) : (l.set i y).map f = l.map f := by
  rw [List.map_set, hf]
  refine List.ext_getElem? (fun j => ?_)
  rcases eq_or_ne i j with rfl | hne
  · have hi : i < (l.map f).length := by
      rw [List.length_map]; exact (List.getElem?_eq_some_iff.mp hx).1
    rw [List.getElem?_set_self hi, List.getElem?_map, hx]; rfl
  · rw [List.getElem?_set_ne hne]

/-- Replacing an element exchanges its images. -/
theorem perm_flatMap_set (f : α → List β) {l : List α} {i : Nat} {x : α} (y : α)
    (hx : l[i]? = some x) : (f x ++ (l.set i y).flatMap f).Perm (f y ++ l.flatMap f) := by
  induction l generalizing i with
  | nil => exact absurd hx (by simp)
  | cons z l ih =>
      cases i with
      | zero =>
          have : z = x := by simpa using hx
          subst this
          simp only [List.set_cons_zero, List.flatMap_cons]
          rw [← List.append_assoc, ← List.append_assoc]
          exact List.Perm.append_right _ List.perm_append_comm
      | succ i =>
          have hx : l[i]? = some x := by simpa using hx
          simp only [List.set_cons_succ, List.flatMap_cons]
          -- the head steps aside for the two that are exchanged
          calc f x ++ (f z ++ (l.set i y).flatMap f)
              _ = (f x ++ f z) ++ (l.set i y).flatMap f := (List.append_assoc ..).symm
              _ |>.Perm ((f z ++ f x) ++ (l.set i y).flatMap f) :=
                List.Perm.append_right _ List.perm_append_comm
              _ |>.Perm (f z ++ (f y ++ l.flatMap f)) := by
                rw [List.append_assoc]; exact List.Perm.append_left _ (ih hx)
              _ = (f z ++ f y) ++ l.flatMap f := (List.append_assoc ..).symm
              _ |>.Perm ((f y ++ f z) ++ l.flatMap f) :=
                List.Perm.append_right _ List.perm_append_comm
              _ = f y ++ (f z ++ l.flatMap f) := List.append_assoc ..

/-- What stands around the images of an element stays where it is. -/
theorem flatMap_set_split (f : α → List β) {l : List α} {i : Nat} {x : α} (y : α)
    (hx : l[i]? = some x) : ∃ m n, l.flatMap f = m ++ f x ++ n
      ∧ (l.set i y).flatMap f = m ++ f y ++ n := by
  induction l generalizing i with
  | nil => exact absurd hx (by simp)
  | cons z l ih =>
      cases i with
      | zero =>
          have : z = x := by simpa using hx
          subst this
          exact ⟨[], l.flatMap f, rfl, rfl⟩
      | succ i =>
          obtain ⟨m, n, hl, hset⟩ := ih (by simpa using hx : l[i]? = some x)
          refine ⟨f z ++ m, n, ?_, ?_⟩
          · rw [List.flatMap_cons, hl, List.append_assoc, List.append_assoc, List.append_assoc]
          · rw [List.set_cons_succ, List.flatMap_cons, hset, List.append_assoc, List.append_assoc,
              List.append_assoc]

/-- Replacing an element by one with the same images. -/
theorem flatMap_set_of_eq {f : α → List β} {l : List α} {i : Nat} {x y : α} (hx : l[i]? = some x)
    (hf : f y = f x) : (l.set i y).flatMap f = l.flatMap f := by
  rw [List.flatMap_def, List.flatMap_def, map_set_of_eq hx hf]

theorem filterMap_set_of_eq {f : α → Option β} {l : List α} {i : Nat} {x y : α}
    (hx : l[i]? = some x) (hf : f y = f x) : (l.set i y).filterMap f = l.filterMap f := by
  have hmap : ∀ m : List α, m.filterMap f = (m.map f).filterMap id := by
    intro m
    rw [List.filterMap_map]; rfl
  rw [hmap, hmap, map_set_of_eq hx hf]

/-- An element that is selected now, and was not before, with nothing selected behind it. -/
theorem filterMap_of_last {f f' : α → Option β} {l : List α} {i : Nat} {x : α} (hx : l[i]? = some x)
    (hfx : f x = none) (hbefore : ∀ j y, j < i → l[j]? = some y → f' y = f y)
    (hafter : ∀ j y, i < j → l[j]? = some y → f y = none ∧ f' y = none) :
    l.filterMap f' = l.filterMap f ++ (f' x).toList := by
  induction l generalizing i with
  | nil => exact absurd hx (by simp)
  | cons z l ih =>
      cases i with
      | zero =>
          have : z = x := by simpa using hx
          subst this
          have hnone : ∀ y ∈ l, f y = none ∧ f' y = none := by
            intro y hy
            obtain ⟨j, hj⟩ := List.mem_iff_getElem?.mp hy
            exact hafter (j + 1) y (by omega) hj
          have h0 : l.filterMap f = [] := List.filterMap_eq_nil_iff.mpr (fun y hy => (hnone y hy).1)
          have h1 : l.filterMap f' = [] := List.filterMap_eq_nil_iff.mpr (fun y hy => (hnone y hy).2)
          rw [List.filterMap_cons, List.filterMap_cons, hfx, h0, h1]
          cases f' z <;> rfl
      | succ i =>
          have hz : f' z = f z := hbefore 0 z (by omega) rfl
          have htail := ih hx (fun j y hj => hbefore (j + 1) y (by omega))
            (fun j y hj => hafter (j + 1) y (by omega))
          rw [List.filterMap_cons, List.filterMap_cons, hz, htail]
          cases f z <;> rfl

/-- When one element alone has images, they are all there is. -/
theorem flatMap_of_sole {f : α → List β} {l : List α} {i : Nat} {x : α} (hx : l[i]? = some x)
    (hs : ∀ j z, j ≠ i → l[j]? = some z → f z = []) : l.flatMap f = f x := by
  induction l generalizing i with
  | nil => exact absurd hx (by simp)
  | cons z l ih =>
      rw [List.flatMap_cons]
      cases i with
      | zero =>
          have : z = x := by simpa using hx
          subst this
          have hrest : l.flatMap f = [] := by
            refine List.flatMap_eq_nil_iff.mpr ?_
            intro y hy
            obtain ⟨j, hj⟩ := List.mem_iff_getElem?.mp hy
            exact hs (j + 1) y (by omega) hj
          rw [hrest, List.append_nil]
      | succ i =>
          rw [hs 0 z (by omega) rfl, List.nil_append]
          exact ih hx (fun j y hne hj => hs (j + 1) y (by omega) hj)

theorem flatMap_set_of_sole {f : α → List β} {l : List α} {i : Nat} {x : α} (y : α)
    (hx : l[i]? = some x) (hs : ∀ j z, j ≠ i → l[j]? = some z → f z = []) :
    (l.set i y).flatMap f = f y := by
  refine flatMap_of_sole (List.getElem?_set_self (List.getElem?_eq_some_iff.mp hx).1) ?_
  intro j z hne hz
  rw [List.getElem?_set_ne hne.symm] at hz
  exact hs j z hne hz

/-- After a replacement an element is the new one or as before. -/
theorem getElem?_set_cases {l : List α} {i j : Nat} {x y z : α} (hx : l[i]? = some x)
    (h : (l.set i y)[j]? = some z) : (j = i ∧ z = y) ∨ (j ≠ i ∧ l[j]? = some z) := by
  have hi : i < l.length := (List.getElem?_eq_some_iff.mp hx).1
  rcases eq_or_ne j i with rfl | hne
  · rw [List.getElem?_set_self hi] at h
    exact Or.inl ⟨rfl, (Option.some.inj h).symm⟩
  · rw [List.getElem?_set_ne hne.symm] at h
    exact Or.inr ⟨hne, h⟩

/-- After one more at the end an element is as before or the new one. -/
theorem getElem?_snoc_cases {l : List α} {j : Nat} {y z : α} (h : (l ++ [y])[j]? = some z) :
    l[j]? = some z ∨ (j = l.length ∧ z = y) := by
  rcases Nat.lt_or_ge j l.length with hj | hj
  · rw [List.getElem?_append_left hj] at h; exact Or.inl h
  · rw [List.getElem?_append_right hj] at h
    have h1 := (List.getElem?_eq_some_iff.mp h).1
    simp only [List.length_singleton] at h1
    have h0 : j - l.length = 0 := by omega
    rw [h0] at h
    exact Or.inr ⟨by omega, (Option.some.inj h).symm⟩

/-- Replacing an element exchanges what it counts for. -/
theorem countP_set_add (p : α → Bool) {l : List α} {i : Nat} {x : α} (y : α)
    (hx : l[i]? = some x) :
    (l.set i y).countP p + (if p x = true then 1 else 0)
      = l.countP p + (if p y = true then 1 else 0) := by
  obtain ⟨hi, hget⟩ := List.getElem?_eq_some_iff.mp hx
  rw [List.countP_set hi, hget]
  by_cases hp : p x = true
  · have hpos : 0 < l.countP p := List.countP_pos_iff.mpr ⟨x, List.mem_of_getElem? hx, hp⟩
    rw [if_pos hp]
    omega
  · rw [if_neg hp]
    omega

/-- Replacing an element exchanges what it adds to a sum. -/
theorem sum_map_set (f : α → Nat) {l : List α} {i : Nat} {x : α} (y : α) (hx : l[i]? = some x) :
    ((l.set i y).map f).sum + f x = (l.map f).sum + f y := by
  induction l generalizing i with
  | nil => exact absurd hx (by simp)
  | cons z l ih =>
      cases i with
      | zero =>
          have : z = x := by simpa using hx
          subst this
          simp only [List.set_cons_zero, List.map_cons, List.sum_cons]
          omega
      | succ i =>
          have h := ih (by simpa using hx : l[i]? = some x)
          simp only [List.set_cons_succ, List.map_cons, List.sum_cons]
          omega

/-- What is selected comes first when nothing selected is behind something that is not. -/
theorem filter_prefix_of_pairwise {p : α → Bool} {l : List α}
    (h : l.Pairwise (fun x y => p y = true → p x = true)) : l.filter p <+: l := by
  induction l with
  | nil => exact List.prefix_refl []
  | cons x l ih =>
      obtain ⟨hx, hl⟩ := List.pairwise_cons.mp h
      by_cases hp : p x = true
      · rw [List.filter_cons_of_pos hp]
        exact List.cons_prefix_cons.mpr ⟨rfl, ih hl⟩
      · have hnil : l.filter p = [] :=
          List.filter_eq_nil_iff.mpr (fun y hy hpy => hp (hx y hy hpy))
        rw [List.filter_cons_of_neg hp, hnil]
        exact List.nil_prefix

/-! ## Two lists in step -/

theorem forall₂_getElem?_right {R : α → β → Prop} {l : List α} {m : List β}
    (h : List.Forall₂ R l m) {n : Nat} {b : β} (hb : m[n]? = some b) :
    ∃ a, l[n]? = some a ∧ R a b := by
  induction h generalizing n with
  | nil => exact absurd hb (by simp)
  | @cons a b' _ _ hab _ ih =>
      cases n with
      | zero =>
          have : b' = b := by simpa using hb
          subst this
          exact ⟨a, rfl, hab⟩
      | succ n => exact ih (by simpa using hb)

theorem forall₂_getElem?_left {R : α → β → Prop} {l : List α} {m : List β}
    (h : List.Forall₂ R l m) {n : Nat} {a : α} (ha : l[n]? = some a) :
    ∃ b, m[n]? = some b ∧ R a b := by
  obtain ⟨b, hb, hr⟩ := forall₂_getElem?_right h.flip ha
  exact ⟨b, hb, hr⟩

/-- Images on one side are distinct if those they determine on the other side are. -/
theorem nodup_map_of_forall₂ {γ ε : Type} {R : α → β → Prop} {f : α → γ} {g : β → ε} {l : List α}
    {m : List β} (h : List.Forall₂ R l m) (hm : (m.map g).Nodup)
    (hfg : ∀ a a' b b', R a b → R a' b' → f a = f a' → g b = g b') : (l.map f).Nodup := by
  induction h with
  | nil => exact List.nodup_nil
  | @cons a b l m hab hlm ih =>
      rw [List.map_cons, List.nodup_cons] at hm ⊢
      refine ⟨?_, ih hm.2⟩
      intro hmem
      obtain ⟨a', ha', hff⟩ := List.mem_map.mp hmem
      obtain ⟨n, hn⟩ := List.mem_iff_getElem?.mp ha'
      obtain ⟨b', hb', hr⟩ := forall₂_getElem?_left hlm hn
      rw [hfg a a' b b' hab hr hff.symm] at hm
      exact hm.1 (List.mem_map_of_mem (List.mem_of_getElem? hb'))

end Replace
