import Mathlib.Data.List.Basic
import Mathlib.Data.String.Basic

/-!
# `std::map` with string keys

The services, their constructors and the members of a JSON object are kept in such maps.
A map is the list of its entries in the order of their keys.
-/

namespace HandlingModule.AIO

variable {α : Type}

/-- `m[key] = value` on a map kept in the order of its keys. -/
def assign : List (String × α) → String → α → List (String × α)
  | [], key, value => [(key, value)]
  | (k, v) :: m, key, value =>
      if key = k then (key, value) :: m
      else if key < k then (key, value) :: (k, v) :: m
      else (k, v) :: assign m key value

theorem lookup_cons_eq (k key : String) (value : α) (m : List (String × α)) :
    ((key, value) :: m).lookup k = if k = key then some value else m.lookup k := by
  rw [List.lookup_cons]
  by_cases hk : k = key
  · rw [if_pos hk, beq_iff_eq.mpr hk]
  · rw [if_neg hk, beq_false_of_ne hk]

theorem lookup_assign (m : List (String × α)) (key : String) (value : α) (k : String) :
    (assign m key value).lookup k = if k = key then some value else m.lookup k := by
  induction m with
  | nil => rw [assign, lookup_cons_eq]
  | cons p m ih =>
      obtain ⟨k', v'⟩ := p
      rw [assign]
      by_cases h1 : key = k'
      · rw [if_pos h1, lookup_cons_eq, lookup_cons_eq, ← h1]
        by_cases hk : k = key
        · rw [if_pos hk, if_pos hk]
        · rw [if_neg hk, if_neg hk, if_neg hk]
      · rw [if_neg h1]
        by_cases h2 : key < k'
        · rw [if_pos h2, lookup_cons_eq]
        · rw [if_neg h2, lookup_cons_eq, lookup_cons_eq, ih]
          by_cases hk : k = k'
          · rw [if_pos hk, if_pos hk, if_neg (fun h => h1 (h.symm.trans hk))]
          · rw [if_neg hk, if_neg hk]

/-- The keys are in order, so each is there once. -/
def Ordered (m : List (String × α)) : Prop := (m.map Prod.fst).Pairwise (· < ·)

theorem mem_assign {m : List (String × α)} {key : String} {value : α}
    {p : String × α} (h : p ∈ assign m key value) : p = (key, value) ∨ p ∈ m := by
  induction m with
  | nil => exact Or.inl (List.mem_singleton.mp h)
  | cons q m ih =>
      rw [assign] at h
      split at h
      · rcases List.mem_cons.mp h with h | h
        · exact Or.inl h
        · exact Or.inr (List.mem_cons_of_mem _ h)
      · split at h
        · rcases List.mem_cons.mp h with h | h
          · exact Or.inl h
          · exact Or.inr h
        · rcases List.mem_cons.mp h with h | h
          · exact Or.inr (h ▸ List.mem_cons_self ..)
          · rcases ih h with h | h
            · exact Or.inl h
            · exact Or.inr (List.mem_cons_of_mem _ h)

theorem ordered_assign {m : List (String × α)} (h : Ordered m) (key : String)
    (value : α) : Ordered (assign m key value) := by
  induction m with
  | nil => exact List.pairwise_singleton _ _
  | cons q m ih =>
      obtain ⟨k, v⟩ := q
      obtain ⟨hhead, htail⟩ := List.pairwise_cons.mp h
      rw [assign]
      split
      · rename_i hk
        exact List.pairwise_cons.mpr ⟨by rw [hk]; exact hhead, htail⟩
      · rename_i hk
        split
        · rename_i hlt
          refine List.pairwise_cons.mpr ⟨?_, h⟩
          intro k' hk'
          rcases List.mem_cons.mp hk' with rfl | hk'
          · exact hlt
          · exact String.lt_trans hlt (hhead k' hk')
        · rename_i hge
          refine List.pairwise_cons.mpr ⟨?_, ih htail⟩
          intro k' hk'
          obtain ⟨p, hp, rfl⟩ := List.mem_map.mp hk'
          rcases mem_assign hp with rfl | hp
          · exact Std.lt_of_le_of_ne (String.not_lt.mp hge) (Ne.symm hk)
          · exact hhead _ (List.mem_map_of_mem hp)

/-- What is behind every key goes to the end. -/
theorem assign_last {m : List (String × α)} {key : String} (value : α) (h : ∀ p ∈ m, p.1 < key) :
    assign m key value = m ++ [(key, value)] := by
  induction m with
  | nil => rfl
  | cons p m ih =>
      have hp := h p (List.mem_cons_self ..)
      rw [assign, if_neg hp.ne', if_neg (not_lt.mpr hp.le), ih fun q hq =>
        h q (List.mem_cons_of_mem _ hq)]
      rfl

/-- Entries in order are assigned one behind the other. -/
theorem foldl_assign_ordered {acc m : List (String × α)} (h : Ordered (acc ++ m)) :
    m.foldl (fun acc p => assign acc p.1 p.2) acc = acc ++ m := by
  induction m generalizing acc with
  | nil => simp
  | cons p m ih =>
      have hkeys := h
      rw [Ordered, List.map_append, List.map_cons] at hkeys
      have hlast : assign acc p.1 p.2 = acc ++ [p] :=
        assign_last p.2 fun q hq => (List.pairwise_append.mp hkeys).2.2 q.1
          (List.mem_map_of_mem hq) p.1 (List.mem_cons_self ..)
      have happend : acc ++ p :: m = acc ++ [p] ++ m := by simp
      rw [List.foldl_cons, hlast, happend]
      rw [happend] at h
      exact ih h

end HandlingModule.AIO
