import Mathlib.Algebra.Ring.Int.Defs
import Mathlib.Data.List.Induction

/-!
# Byte streams framed by brackets

A frame is a string that opens with a bracket and closes it with its last
symbol: the depth is positive after every proper non-empty prefix and zero at the
end. A receiver needs no length field to find such frames, only a counter, but
it also has no way back once the counter is wrong. This file says which frames a
stream contains (`Framed`), gives the scanner that finds them one symbol at a
time (`push`, `scan`), and proves that the two agree on every stream.

The alphabet is arbitrary; `Brackets` only picks two of its symbols.
-/

namespace Framing

/-- The two symbols that open and close a frame. -/
structure Brackets (α : Type) where
  opening : α
  closing : α
  distinct : opening ≠ closing

variable {α : Type} [DecidableEq α] (b : Brackets α)

/-- What one symbol adds to the depth. -/
def weight (x : α) : Int :=
  if x = b.opening then 1 else if x = b.closing then -1 else 0

/-- Opening brackets less closing brackets. -/
def depth (l : List α) : Int := (l.map (weight b)).sum

@[simp] theorem depth_nil : depth b [] = 0 := rfl

@[simp] theorem depth_cons (x : α) (l : List α) : depth b (x :: l) = weight b x + depth b l := by
  simp [depth]

@[simp] theorem depth_append (l m : List α) : depth b (l ++ m) = depth b l + depth b m := by
  simp [depth]

@[simp] theorem weight_opening : weight b b.opening = 1 := if_pos rfl

@[simp] theorem weight_closing : weight b b.closing = -1 := by
  rw [weight, if_neg b.distinct.symm, if_pos rfl]

theorem weight_le (x : α) : weight b x ≤ 1 := by
  unfold weight; split <;> [skip; split] <;> omega

theorem neg_one_le_weight (x : α) : -1 ≤ weight b x := by
  unfold weight; split <;> [skip; split] <;> omega

/-- Only a closing bracket lowers the depth. -/
theorem eq_closing_of_weight_neg {x : α} (h : weight b x < 0) : x = b.closing := by
  unfold weight at h
  split at h
  · omega
  · split at h
    · assumption
    · omega

theorem depth_le_length (l : List α) : depth b l ≤ l.length := by
  induction l with
  | nil => simp
  | cons x l ih =>
      have := weight_le b x
      simp only [depth_cons, List.length_cons]; omega

/-- A frame: opened by its first symbol, closed by its last and not before. -/
structure IsFrame (f : List α) : Prop where
  head : f.head? = some b.opening
  /-- The depth stays positive strictly inside. -/
  inside : ∀ p s, f = p ++ s → p ≠ [] → s ≠ [] → 0 < depth b p
  closed : depth b f = 0

/-- A frame that has been opened and not yet closed. -/
structure IsOpen (q : List α) : Prop where
  head : q.head? = some b.opening
  inside : ∀ p s, q = p ++ s → p ≠ [] → 0 < depth b p

/-- Symbols between frames: anything without an opening bracket. -/
def IsNoise (n : List α) : Prop := b.opening ∉ n

/-- `Framed b s fs`: the stream `s` is the frames `fs`, in order, with noise around them. -/
inductive Framed : List α → List (List α) → Prop where
  | noise {n : List α} : IsNoise b n → Framed n []
  | frame {n f s : List α} {fs : List (List α)} :
      IsNoise b n → IsFrame b f → Framed s fs → Framed (n ++ (f ++ s)) (f :: fs)

theorem IsFrame.ne_nil {b : Brackets α} {f : List α} (h : IsFrame b f) : f ≠ [] := by
  intro h0; have := h.head; rw [h0] at this; exact absurd this (by simp)

theorem IsOpen.ne_nil {b : Brackets α} {q : List α} (h : IsOpen b q) : q ≠ [] := by
  intro h0; have := h.head; rw [h0] at this; exact absurd this (by simp)

theorem IsOpen.depth_pos {b : Brackets α} {q : List α} (h : IsOpen b q) : 0 < depth b q :=
  h.inside q [] (List.append_nil q).symm h.ne_nil

/-- A frame is no longer open once it is closed. -/
theorem IsFrame.not_isOpen {b : Brackets α} {f : List α} (h : IsFrame b f) : ¬ IsOpen b f := by
  intro ho
  have := ho.depth_pos
  have := h.closed
  omega

/-- The proper non-empty prefixes of a frame are open. -/
theorem IsFrame.isOpen_prefix {b : Brackets α} {f p s : List α} (h : IsFrame b f)
    (hf : f = p ++ s) (hp : p ≠ []) (hs : s ≠ []) : IsOpen b p where
  head := by
    have := h.head
    rw [hf] at this
    cases p with
    | nil => exact absurd rfl hp
    | cons x p => simpa using this
  inside := by
    intro p' s' hp' hne
    refine h.inside p' (s' ++ s) ?_ hne ?_
    · rw [hf, hp', List.append_assoc]
    · intro h0; exact hs (List.append_eq_nil_iff.mp h0).2

/-- No proper prefix of a frame is a frame. -/
theorem IsFrame.eq_of_prefix {b : Brackets α} {f p s : List α} (h : IsFrame b f)
    (hf : f = p ++ s) (hp : IsFrame b p) : s = [] := by
  by_contra hs
  exact hp.not_isOpen (h.isOpen_prefix hf hp.ne_nil hs)

/-- A frame ends with a closing bracket. -/
theorem IsFrame.getLast? {b : Brackets α} {f : List α} (h : IsFrame b f) :
    f.getLast? = some b.closing := by
  rcases List.eq_nil_or_concat f with h0 | ⟨q, x, h0⟩
  · exact absurd h0 h.ne_nil
  · rw [List.concat_eq_append] at h0
    have hw : depth b q + weight b x = 0 := by have := h.closed; rw [h0] at this; simpa using this
    have hq : q ≠ [] := by
      intro hq
      have hx : x = b.opening := by have := h.head; rw [h0, hq] at this; simpa using this
      rw [hq, hx, weight_opening] at hw; simp at hw
    have := h.inside q [x] h0 hq (by simp)
    rw [h0, eq_closing_of_weight_neg b (x := x) (by omega)]
    simp

theorem IsOpen.isOpen_prefix {b : Brackets α} {q p s : List α} (h : IsOpen b q)
    (hq : q = p ++ s) (hp : p ≠ []) : IsOpen b p where
  head := by
    have := h.head
    rw [hq] at this
    cases p with
    | nil => exact absurd rfl hp
    | cons x p => simpa using this
  inside := by
    intro p' s' hp' hne
    exact h.inside p' (s' ++ s) (by rw [hq, hp', List.append_assoc]) hne

theorem isOpen_singleton : IsOpen b [b.opening] where
  head := rfl
  inside := by
    intro p s hp hne
    have hl : p = [b.opening] := by
      cases p with
      | nil => exact absurd rfl hne
      | cons x p =>
          obtain ⟨h1, h2⟩ := List.cons_eq_cons.mp hp
          rw [← h1, (List.append_eq_nil_iff.mp h2.symm).1]
    rw [hl]; simp

/-- One more symbol keeps the frame open exactly when the depth stays positive. -/
theorem IsOpen.snoc {b : Brackets α} {q : List α} {x : α} (h : IsOpen b q)
    (hd : 0 < depth b (q ++ [x])) : IsOpen b (q ++ [x]) where
  head := by
    have := h.head
    cases q with
    | nil => exact absurd this (by simp)
    | cons y q => simpa using this
  inside := by
    intro p s hp hne
    rcases List.eq_nil_or_concat s with hs | ⟨s', y, hs⟩
    · subst hs
      rw [List.append_nil] at hp
      rw [← hp]; exact hd
    · subst hs
      rw [List.concat_eq_append, ← List.append_assoc] at hp
      exact h.inside p s' (List.append_inj' hp rfl).1 hne

/-- The symbol that brings the depth to zero completes the frame, and is a closing bracket. -/
theorem IsOpen.complete {b : Brackets α} {q : List α} {x : α} (h : IsOpen b q)
    (hd : depth b (q ++ [x]) = 0) : IsFrame b (q ++ [x]) ∧ x = b.closing := by
  have hq := h.depth_pos
  have hw : depth b q + weight b x = 0 := by simpa using hd
  refine ⟨⟨?_, ?_, hd⟩, eq_closing_of_weight_neg b (by omega)⟩
  · have := h.head
    cases q with
    | nil => exact absurd this (by simp)
    | cons y q => simpa using this
  · intro p s hp hne hs
    rcases List.eq_nil_or_concat s with h0 | ⟨s', y, h0⟩
    · exact absurd h0 hs
    · subst h0
      rw [List.concat_eq_append, ← List.append_assoc] at hp
      exact h.inside p s' (List.append_inj' hp rfl).1 hne

/-- An open frame never goes below depth zero at its next symbol. -/
theorem IsOpen.depth_snoc_nonneg {b : Brackets α} {q : List α} (h : IsOpen b q) (x : α) :
    0 ≤ depth b (q ++ [x]) := by
  have := h.depth_pos
  have := neg_one_le_weight b x
  simp only [depth_append, depth_cons, depth_nil]; omega

/-! ## The scanner -/

/-- One symbol, after the symbols `q` of a frame still open (`[]` between frames). -/
def push (q : List α) (x : α) : List α × Option (List α) :=
  if q = [] ∧ x ≠ b.opening then ([], none)
  else if depth b (q ++ [x]) = 0 then ([], some (q ++ [x]))
  else (q ++ [x], none)

/-- Scan a stream, collecting the frames that close in it. -/
def scan : List α → List α → List α × List (List α)
  | q, [] => (q, [])
  | q, x :: xs => ((scan (push b q x).1 xs).1, (push b q x).2.toList ++ (scan (push b q x).1 xs).2)

/-- What the scanner holds between two symbols: nothing, or an open frame. -/
def Pending (q : List α) : Prop := q = [] ∨ IsOpen b q

/--
**What one symbol can do.** Outside a frame it is noise or opens one; inside it
is kept, and closes the frame when it brings the depth to zero.
-/
theorem push_cases {q : List α} (hq : Pending b q) (x : α) :
    (q = [] ∧ x ≠ b.opening ∧ push b q x = ([], none))
    ∨ (IsOpen b (q ++ [x]) ∧ (x = b.opening ∨ q ≠ []) ∧ push b q x = (q ++ [x], none))
    ∨ (IsFrame b (q ++ [x]) ∧ x = b.closing ∧ q ≠ [] ∧ push b q x = ([], some (q ++ [x]))) := by
  rcases hq with rfl | hq
  · by_cases hx : x = b.opening
    · subst hx
      refine Or.inr (Or.inl ⟨isOpen_singleton b, Or.inl rfl, ?_⟩)
      simp [push]
    · exact Or.inl ⟨rfl, hx, by simp [push, hx]⟩
  · have hne := hq.ne_nil
    -- inside a frame only the new depth counts
    by_cases hd : depth b (q ++ [x]) = 0
    · obtain ⟨hf, hx⟩ := hq.complete hd
      refine Or.inr (Or.inr ⟨hf, hx, hne, ?_⟩)
      rw [push, if_neg (fun h => hne h.1), if_pos hd]
    · have := hq.depth_snoc_nonneg x
      refine Or.inr (Or.inl ⟨hq.snoc (by omega), Or.inr hne, ?_⟩)
      rw [push, if_neg (fun h => hne h.1), if_neg hd]

theorem push_of_isOpen {q : List α} {x : α} (hq : Pending b q) (ho : IsOpen b (q ++ [x])) :
    push b q x = (q ++ [x], none) := by
  rcases push_cases b hq x with ⟨h0, hx, _⟩ | ⟨_, _, hp⟩ | ⟨hf, _, _, _⟩
  · subst h0
    exact absurd (by simpa using ho.head) hx
  · exact hp
  · exact absurd ho hf.not_isOpen

theorem push_of_isFrame {q : List α} {x : α} (hq : Pending b q) (hf : IsFrame b (q ++ [x])) :
    push b q x = ([], some (q ++ [x])) := by
  rcases push_cases b hq x with ⟨h0, hx, _⟩ | ⟨ho, _, _⟩ | ⟨_, _, _, hp⟩
  · subst h0
    exact absurd (by simpa using hf.head) hx
  · exact absurd ho hf.not_isOpen
  · exact hp

theorem push_pending {q : List α} (hq : Pending b q) (x : α) : Pending b (push b q x).1 := by
  rcases push_cases b hq x with ⟨_, _, h⟩ | ⟨ho, _, h⟩ | ⟨_, _, _, h⟩
  · rw [h]; exact Or.inl rfl
  · rw [h]; exact Or.inr ho
  · rw [h]; exact Or.inl rfl

theorem scan_pending {q : List α} (hq : Pending b q) (s : List α) : Pending b (scan b q s).1 := by
  induction s generalizing q with
  | nil => exact hq
  | cons x s ih => exact ih (push_pending b hq x)

theorem scan_append (q s t : List α) :
    scan b q (s ++ t) = ((scan b (scan b q s).1 t).1, (scan b q s).2 ++ (scan b (scan b q s).1 t).2) := by
  induction s generalizing q with
  | nil => rfl
  | cons x s ih => simp only [List.cons_append, scan, ih, List.append_assoc]

theorem scan_snoc (q s : List α) (x : α) :
    scan b q (s ++ [x])
      = ((push b (scan b q s).1 x).1, (scan b q s).2 ++ (push b (scan b q s).1 x).2.toList) := by
  rw [scan_append]; simp [scan]

theorem scan_noise {n : List α} (hn : IsNoise b n) : scan b [] n = ([], []) := by
  induction n with
  | nil => rfl
  | cons x n ih =>
      have hx : x ≠ b.opening := fun h => hn (by simp [h])
      have hn' : IsNoise b n := fun h => hn (List.mem_cons_of_mem x h)
      have hp : push b [] x = ([], none) := by simp [push, hx]
      simp only [scan, hp, ih hn', Option.toList_none, List.append_nil]

/-- An open frame is still in the scanner's hands. -/
theorem scan_open {q : List α} (hq : IsOpen b q) : scan b [] q = (q, []) := by
  induction q using List.reverseRecOn with
  | nil => rfl
  | append_singleton q x ih =>
      rw [scan_snoc]
      by_cases h0 : q = []
      · subst h0
        have hx : x = b.opening := by simpa using hq.head
        simp [scan, push, hx]
      · have ho := hq.isOpen_prefix rfl h0
        rw [ih ho]
        have hd := hq.depth_pos
        have hp : push b q x = (q ++ [x], none) := by
          rw [push, if_neg (fun h => h0 h.1), if_neg (by omega)]
        rw [hp]; rfl

/-- A frame comes out of the scanner whole. -/
theorem scan_frame {f : List α} (hf : IsFrame b f) : scan b [] f = ([], [f]) := by
  rcases List.eq_nil_or_concat f with h0 | ⟨q, x, h0⟩
  · exact absurd h0 hf.ne_nil
  · rw [List.concat_eq_append] at h0
    by_cases hq : q = []
    · subst hq
      have hx : x = b.opening := by have := hf.head; rw [h0] at this; simpa using this
      have hd := hf.closed
      rw [h0, hx] at hd; simp at hd
    · have ho := hf.isOpen_prefix h0 hq (by simp)
      have hp : push b q x = ([], some f) := by
        rw [push, if_neg (fun h => hq h.1), if_pos (h0 ▸ hf.closed), h0]
      rw [h0, scan_snoc, scan_open b ho, hp, ← h0]; rfl

/-- **The scanner finds the frames of a framed stream**, and is between frames at its end. -/
theorem scan_framed {s : List α} {fs : List (List α)} (h : Framed b s fs) :
    scan b [] s = ([], fs) := by
  induction h with
  | noise hn => exact scan_noise b hn
  | frame hn hf _ ih => rw [scan_append, scan_noise b hn, scan_append, scan_frame b hf, ih]; rfl

theorem Framed.snoc_noise {s : List α} {fs : List (List α)} (h : Framed b s fs) {x : α}
    (hx : x ≠ b.opening) : Framed b (s ++ [x]) fs := by
  induction h with
  | noise hn =>
      refine Framed.noise ?_
      intro hm
      rcases List.mem_append.mp hm with h | h
      · exact hn h
      · exact hx (List.mem_singleton.mp h).symm
  | frame hn hf _ ih =>
      rw [List.append_assoc, List.append_assoc]
      exact Framed.frame hn hf ih

theorem Framed.snoc_frame {s f : List α} {fs : List (List α)} (h : Framed b s fs)
    (hf : IsFrame b f) : Framed b (s ++ f) (fs ++ [f]) := by
  induction h with
  | noise hn =>
      have := Framed.frame hn hf (Framed.noise (b := b) (n := []) (by simp [IsNoise]))
      rwa [List.append_nil] at this
  | frame hn hg _ ih =>
      rw [List.append_assoc, List.append_assoc]
      exact Framed.frame hn hg ih

/-- Frames one after another, with nothing between them. -/
theorem framed_flatten {fs : List (List α)} (h : ∀ f ∈ fs, IsFrame b f) : Framed b fs.flatten fs := by
  have hnil : IsNoise b ([] : List α) := by simp [IsNoise]
  induction fs with
  | nil => exact Framed.noise hnil
  | cons f fs ih =>
      have := ih (fun g hg => h g (List.mem_cons_of_mem f hg))
      exact Framed.frame hnil (h f (List.mem_cons_self ..)) this

/--
**Every stream splits at the scanner's position.** What has been scanned is the
frames found so far, with noise around them, followed by the frame still open.
-/
theorem scan_split (s : List α) :
    ∃ s', s = s' ++ (scan b [] s).1 ∧ Framed b s' (scan b [] s).2 := by
  induction s using List.reverseRecOn with
  | nil => exact ⟨[], rfl, Framed.noise (by simp [IsNoise])⟩
  | append_singleton s x ih =>
      obtain ⟨s', hs', hfr⟩ := ih
      have hq : Pending b (scan b [] s).1 := scan_pending b (Or.inl rfl) s
      rw [scan_snoc]
      rcases push_cases b hq x with ⟨h0, hx, hp⟩ | ⟨_, _, hp⟩ | ⟨hf, _, _, hp⟩
      -- noise, a symbol of the open frame, or its last one
      · rw [hp]
        refine ⟨s' ++ [x], ?_, by simpa using hfr.snoc_noise b hx⟩
        rw [hs', h0]; simp
      · rw [hp]
        refine ⟨s', ?_, by simpa using hfr⟩
        rw [← List.append_assoc, ← hs']
      · rw [hp]
        refine ⟨s' ++ ((scan b [] s).1 ++ [x]), ?_, by simpa using hfr.snoc_frame b hf⟩
        rw [List.append_nil, ← List.append_assoc, ← hs']

/-- A string the scanner returns whole is a frame: the check a concrete frame is proved by. -/
theorem isFrame_of_scan {f : List α} (h : scan b [] f = ([], [f])) : IsFrame b f := by
  obtain ⟨s', hs', hfr⟩ := scan_split b f
  rw [h, List.append_nil] at hs'
  rw [h] at hfr
  cases hfr with
  | frame _ hf _ => exact hf

/--
**Whole frames do not close an open one.** Scanning frames inside an open frame
only lengthens it: the counter returns to where it was.
-/
theorem IsOpen.append_frame {b : Brackets α} {q f : List α} (hq : IsOpen b q)
    (hf : IsFrame b f) : IsOpen b (q ++ f) where
  head := by
    have := hq.head
    cases q with
    | nil => exact absurd this (by simp)
    | cons y q => simpa using this
  inside := by
    intro p s hp hne
    rcases List.append_eq_append_iff.mp hp.symm with ⟨m, hm, hs⟩ | ⟨m, hm, hf'⟩
    · exact hq.inside p m hm hne
    · -- the prefix ends inside the inner frame
      have hqd := hq.depth_pos
      rw [hm, depth_append]
      by_cases h1 : m = []
      · subst h1; simpa using hqd
      · by_cases h2 : s = []
        · subst h2
          rw [List.append_nil] at hf'
          rw [← hf', hf.closed]; omega
        · have := hf.inside m s hf' h1 h2; omega

end Framing
