import Mathlib.Data.List.Basic

/-!
# Scanning for the longest token

A scanner is a deterministic automaton with an action at some of its states. It reads as
long as it can, keeps a marker where it last was at a state with an action, and goes
back to the marker when it is stuck. So it finds the longest prefix of its input that
leads to an action, and finds nothing only if there is none (`munch_eq_some_iff`,
`munch_eq_none_iff`).

Whoever uses a scanner knows his tokens by their texts, and a token by what cannot
follow it: `munch_of_stuck` is the rule for that.
-/

namespace Munch

variable {σ α τ : Type}

/-- Where a character leads from a state, and what is to be done at it. -/
structure Automaton (σ α τ : Type) where
  next : σ → α → Option σ
  action : σ → Option τ

/-- What a scanner finds: an action, the text that leads to it, and what is left. -/
structure Match (α τ : Type) where
  action : τ
  text : List α
  rest : List α
  deriving DecidableEq

namespace Automaton

variable (A : Automaton σ α τ)

/-- Where a text leads. -/
def walk : σ → List α → Option σ
  | s, [] => some s
  | s, a :: as => (A.next s a).bind (fun t => walk t as)

/-- The text leads to the action. -/
def Accepts (s : σ) (t : τ) (text : List α) : Prop :=
  ∃ u, A.walk s text = some u ∧ A.action u = some t

/-- The marker, moved if there is something to be done at the state. -/
def mark (s : σ) (text rest : List α) (marker : Option (Match α τ)) : Option (Match α τ) :=
  match A.action s with
  | some t => some ⟨t, text, rest⟩
  | none => marker

/-- Read on from a state, with the text read so far and the marker. -/
def scan (s : σ) (text : List α) (marker : Option (Match α τ)) :
    List α → Option (Match α τ)
  | [] => A.mark s text [] marker
  | a :: rest =>
      match A.next s a with
      | some t => scan t (text ++ [a]) (A.mark s text (a :: rest) marker) rest
      | none => A.mark s text (a :: rest) marker

/-- Scan an input from its beginning. -/
def munch (s : σ) (input : List α) : Option (Match α τ) := A.scan s [] none input

variable {A}

theorem walk_append {s t : σ} {as : List α} (h : A.walk s as = some t) (bs : List α) :
    A.walk s (as ++ bs) = A.walk t bs := by
  induction as generalizing s with
  | nil => rw [Option.some.inj h, List.nil_append]
  | cons a as ih =>
      obtain ⟨u, hu, h⟩ := Option.bind_eq_some_iff.mp h
      rw [List.cons_append, walk, hu, Option.bind_some]
      exact ih h

theorem walk_snoc {s t : σ} {as : List α} (h : A.walk s as = some t) (a : α) :
    A.walk s (as ++ [a]) = A.next t a := by
  rw [walk_append h, walk]
  cases A.next t a <;> rfl

/-- A text leads somewhere only if its beginnings do. -/
theorem walk_isSome_of_append {s u : σ} {as bs : List α} (h : A.walk s (as ++ bs) = some u) :
    ∃ t, A.walk s as = some t ∧ A.walk t bs = some u := by
  induction as generalizing s with
  | nil => exact ⟨s, rfl, h⟩
  | cons a as ih =>
      obtain ⟨v, hv, h⟩ := Option.bind_eq_some_iff.mp h
      obtain ⟨t, ht, hu⟩ := ih h
      exact ⟨t, by rw [walk, hv]; exact ht, hu⟩

theorem Accepts.unique {s : σ} {t t' : τ} {text : List α} (h : A.Accepts s t text)
    (h' : A.Accepts s t' text) : t = t' := by
  obtain ⟨u, hu, ht⟩ := h
  obtain ⟨u', hu', ht'⟩ := h'
  rw [hu] at hu'
  rw [← Option.some.inj hu', ht] at ht'
  exact Option.some.inj ht'

/-! ## What is found -/

/-- The match is the longest beginning of the input that leads to an action. -/
structure Longest (A : Automaton σ α τ) (s : σ) (input : List α) (m : Match α τ) : Prop where
  split : input = m.text ++ m.rest
  accepts : A.Accepts s m.action m.text
  longest : ∀ text rest t, input = text ++ rest → A.Accepts s t text →
    text.length ≤ m.text.length

theorem Longest.unique {s : σ} {input : List α} {m m' : Match α τ} (h : Longest A s input m)
    (h' : Longest A s input m') : m = m' := by
  have hlen : m.text.length = m'.text.length :=
    Nat.le_antisymm (h'.longest _ _ _ h.split h.accepts) (h.longest _ _ _ h'.split h'.accepts)
  obtain ⟨htext, hrest⟩ := List.append_inj (h.split.symm.trans h'.split) hlen
  obtain ⟨t, text, rest⟩ := m
  obtain ⟨t', text', rest'⟩ := m'
  dsimp only at htext hrest
  subst htext hrest
  have hact : t = t' := h.accepts.unique h'.accepts
  rw [hact]

/--
What the marker stands for while the input is being read: no beginning of what has been
read leads to an action and is longer.
-/
structure Marked (A : Automaton σ α τ) (s : σ) (read rest : List α) (marker : Option (Match α τ)) :
    Prop where
  found : ∀ m, marker = some m → read ++ rest = m.text ++ m.rest ∧ A.Accepts s m.action m.text
    ∧ ∀ text t, text <+: read → A.Accepts s t text → text.length ≤ m.text.length
  nothing : marker = none → ∀ text t, text <+: read → ¬ A.Accepts s t text

/-- With the marker moved, the whole of what has been read is taken into account. -/
theorem marked_mark {s u : σ} {read rest : List α} {marker : Option (Match α τ)}
    (hwalk : A.walk s read = some u)
    (hm : ∀ text t, text <+: read → text ≠ read → A.Accepts s t text →
      ∃ m, marker = some m ∧ text.length ≤ m.text.length)
    (hfound : ∀ m, marker = some m → read ++ rest = m.text ++ m.rest ∧ A.Accepts s m.action m.text) :
    Marked A s read rest (A.mark u read rest marker) := by
  unfold mark
  cases hact : A.action u with
  | some t =>
      refine ⟨?_, fun h => absurd h (by simp)⟩
      intro m hmk
      rw [← Option.some.inj hmk]
      exact ⟨rfl, ⟨u, hwalk, hact⟩, fun text t hp _ => hp.length_le⟩
  | none =>
      have hnot : ∀ {text : List α} {t : τ}, A.Accepts s t text → text ≠ read := by
        rintro _ t ⟨v, hv, hact'⟩ rfl
        rw [hwalk] at hv
        rw [← Option.some.inj hv, hact] at hact'
        exact absurd hact' (by simp)
      refine ⟨?_, ?_⟩
      · intro m hmk
        have hmk : marker = some m := hmk
        refine ⟨(hfound m hmk).1, (hfound m hmk).2, fun text t hp ha => ?_⟩
        obtain ⟨m', hm', hle⟩ := hm text t hp (hnot ha) ha
        rw [hmk] at hm'
        rw [Option.some.inj hm']
        exact hle
      · intro hmk text t hp ha
        obtain ⟨m', hm', _⟩ := hm text t hp (hnot ha) ha
        have hmk : marker = none := hmk
        rw [hmk] at hm'
        exact absurd hm' (by simp)

/-- A beginning of one more character. -/
theorem prefix_snoc {text read : List α} {a : α} (h : text <+: read ++ [a]) (hne : text ≠ read ++ [a]) :
    text <+: read := by
  rcases List.prefix_concat_iff.mp h with h | h
  · exact absurd h hne
  · exact h

/-- Stuck: nothing longer leads anywhere. -/
theorem Marked.stuck {s u : σ} {read rest : List α} {marker : Option (Match α τ)}
    (hm : Marked A s read rest marker) (hwalk : A.walk s read = some u)
    (hstuck : ∀ a, rest.head? = some a → A.next u a = none) :
    (∀ m, marker = some m → Longest A s (read ++ rest) m)
      ∧ (marker = none → ∀ text rest' t, read ++ rest = text ++ rest' → ¬ A.Accepts s t text) := by
  have hgrows : ∀ {text rest' : List α} {t : τ}, read ++ rest = text ++ rest' →
      A.Accepts s t text → text <+: read := by
    intro text rest' t heq ⟨v, hv, _⟩
    rcases List.append_eq_append_iff.mp heq with ⟨as, rfl, hr⟩ | ⟨as, rfl, _⟩
    · cases as with
      | nil => exact ⟨[], by simp⟩
      | cons a as =>
          -- the next character leads nowhere
          obtain ⟨w, hw, hv⟩ := walk_isSome_of_append hv
          rw [hwalk] at hw
          rw [← Option.some.inj hw, walk, hstuck a (by rw [hr]; rfl)] at hv
          exact absurd hv (by simp)
    · exact List.prefix_append ..
  refine ⟨?_, ?_⟩
  · intro m hmk
    obtain ⟨hsplit, hacc, hlong⟩ := hm.found m hmk
    exact ⟨hsplit, hacc, fun text rest' t heq ha => hlong text t (hgrows heq ha) ha⟩
  · intro hmk text rest' t heq ha
    exact hm.nothing hmk text t (hgrows heq ha) ha

theorem scan_spec {s u : σ} {read rest : List α} {marker : Option (Match α τ)}
    (hwalk : A.walk s read = some u)
    (hm : ∀ text t, text <+: read → text ≠ read → A.Accepts s t text →
      ∃ m, marker = some m ∧ text.length ≤ m.text.length)
    (hfound : ∀ m, marker = some m → read ++ rest = m.text ++ m.rest ∧ A.Accepts s m.action m.text) :
    (∀ m, A.scan u read marker rest = some m → Longest A s (read ++ rest) m)
      ∧ (A.scan u read marker rest = none →
        ∀ text rest' t, read ++ rest = text ++ rest' → ¬ A.Accepts s t text) := by
  induction rest generalizing u read marker with
  | nil => exact (marked_mark hwalk hm hfound).stuck hwalk (by simp)
  | cons a rest ih =>
      have hmarked := marked_mark hwalk hm hfound
      rw [scan]
      cases hnext : A.next u a with
      | none =>
          refine hmarked.stuck hwalk ?_
          intro b hb
          rw [← Option.some.inj hb]
          exact hnext
      | some v =>
          have hcons : read ++ a :: rest = read ++ [a] ++ rest := by simp
          rw [hcons]
          refine ih ((walk_snoc hwalk a).trans hnext) ?_ ?_
          · intro text t hp hne ha
            have hp := prefix_snoc hp hne
            cases hmk : A.mark u read (a :: rest) marker with
            | none => exact absurd ha (hmarked.nothing hmk text t hp)
            | some m => exact ⟨m, rfl, (hmarked.found m hmk).2.2 text t hp ha⟩
          · intro m hmk
            obtain ⟨hsplit, hacc, _⟩ := hmarked.found m hmk
            exact ⟨hcons ▸ hsplit, hacc⟩

theorem munch_spec (s : σ) (input : List α) :
    (∀ m, A.munch s input = some m → Longest A s input m)
      ∧ (A.munch s input = none →
        ∀ text rest t, input = text ++ rest → ¬ A.Accepts s t text) := by
  have hempty : ∀ text t, text <+: ([] : List α) → text ≠ [] → A.Accepts s t text →
      ∃ m : Match α τ, none = some m ∧ text.length ≤ m.text.length :=
    fun text t hp hne _ => absurd (List.prefix_nil.mp hp) hne
  exact scan_spec rfl hempty (fun m h => absurd h (by simp))

/-- **A scanner finds the longest match.** -/
theorem munch_eq_some_iff {s : σ} {input : List α} {m : Match α τ} :
    A.munch s input = some m ↔ Longest A s input m := by
  have hspec := munch_spec (A := A) s input
  constructor
  · exact hspec.1 m
  · intro h
    cases hmunch : A.munch s input with
    | none => exact absurd h.accepts (hspec.2 hmunch _ _ _ h.split)
    | some m' => rw [(hspec.1 m' hmunch).unique h]

/-- **And nothing only if there is none.** -/
theorem munch_eq_none_iff {s : σ} {input : List α} :
    A.munch s input = none ↔ ∀ text rest t, input = text ++ rest → ¬ A.Accepts s t text := by
  have hspec := munch_spec (A := A) s input
  constructor
  · exact hspec.2
  · intro h
    cases hmunch : A.munch s input with
    | none => rfl
    | some m' => exact absurd (hspec.1 m' hmunch).accepts (h _ _ _ (hspec.1 m' hmunch).split)

/-- A text is found if the scanner is stuck at what follows it. -/
theorem munch_of_stuck {s u : σ} {t : τ} {text rest : List α} (hwalk : A.walk s text = some u)
    (hact : A.action u = some t) (hstuck : ∀ a, rest.head? = some a → A.next u a = none) :
    A.munch s (text ++ rest) = some ⟨t, text, rest⟩ := by
  have hmarked : Marked A s text rest (some ⟨t, text, rest⟩) := by
    refine ⟨?_, fun h => absurd h (by simp)⟩
    intro m hm
    rw [← Option.some.inj hm]
    exact ⟨rfl, ⟨u, hwalk, hact⟩, fun text' t' hp _ => hp.length_le⟩
  exact munch_eq_some_iff.mpr ((hmarked.stuck hwalk hstuck).1 _ rfl)

end Automaton

end Munch
