import Mathlib.Data.List.Induction
import Mathlib.Data.Nat.Find

/-!
# Loops that poll

A reader that waits for a message often has two loops: the outer one tests whether
what it has read is a message, the inner one reads whatever is there and ends when
there is nothing. The test is only made between two runs of the inner loop, so what
the reader ends with depends on how the items came in *batches*, and whether it ends
at all depends on the port.

The port is a function from the number of a question to its answer: an item, or
`none` for "nothing there". Every behaviour is one of these, silence and a stream
without a pause included. The results say which ports make the loop leave, after
how many passes, and with what.
-/

namespace Polling

variable {ρ α : Type}

/-- What a loop does with an item, and the test at its head. -/
structure Loop (ρ α : Type) where
  feed : ρ → α → ρ
  done : ρ → Bool

/-- Where a loop is: at the test, in the inner loop, or out. -/
inductive Pc where
  | head
  | inner
  | left
  deriving DecidableEq

/-- `passes` counts the tests made at the head; `answered` and `heard` record the answers. -/
structure State (ρ α : Type) where
  pc : Pc
  locals : ρ
  passes : Nat
  answered : Nat
  heard : List α

/-- Before the first test. -/
def State.start (r : ρ) : State ρ α := ⟨.head, r, 0, 0, []⟩

namespace Loop

/-- One test, of either loop. -/
def step (L : Loop ρ α) (answers : Nat → Option α) (s : State ρ α) : State ρ α :=
  match s.pc with
  | .head => { s with pc := if L.done s.locals = true then .left else .inner, passes := s.passes + 1 }
  | .inner =>
      match answers s.answered with
      | some x => { s with
          locals := L.feed s.locals x
          answered := s.answered + 1
          heard := s.heard ++ [x] }
      | none => { s with pc := .head, answered := s.answered + 1 }
  | .left => s

/-- The state after `n` tests. -/
def run (L : Loop ρ α) (answers : Nat → Option α) (r : ρ) : Nat → State ρ α
  | 0 => .start r
  | n + 1 => L.step answers (L.run answers r n)

/-! One lemma for each outcome of a test. -/

section

variable {L : Loop ρ α} {answers : Nat → Option α} {s : State ρ α}

theorem step_leave (h : s.pc = .head) (hd : L.done s.locals = true) :
    L.step answers s = { s with pc := .left, passes := s.passes + 1 } := by simp [step, h, hd]

theorem step_enter (h : s.pc = .head) (hd : L.done s.locals = false) :
    L.step answers s = { s with pc := .inner, passes := s.passes + 1 } := by simp [step, h, hd]

theorem step_item {x : α} (h : s.pc = .inner) (hx : answers s.answered = some x) :
    L.step answers s = ⟨.inner, L.feed s.locals x, s.passes, s.answered + 1, s.heard ++ [x]⟩ := by
  simp [step, h, hx]

theorem step_pause (h : s.pc = .inner) (hx : answers s.answered = none) :
    L.step answers s = ⟨.head, s.locals, s.passes, s.answered + 1, s.heard⟩ := by
  simp [step, h, hx]

theorem step_left (h : s.pc = .left) : L.step answers s = s := by simp [step, h]

end

/-- What the items of a list make of the locals. -/
def read (L : Loop ρ α) (r : ρ) (l : List α) : ρ := l.foldl L.feed r

@[simp] theorem read_nil (L : Loop ρ α) (r : ρ) : L.read r [] = r := rfl

theorem read_append (L : Loop ρ α) (r : ρ) (l m : List α) :
    L.read r (l ++ m) = L.read (L.read r l) m := List.foldl_append ..

theorem read_snoc (L : Loop ρ α) (r : ρ) (l : List α) (x : α) :
    L.read r (l ++ [x]) = L.feed (L.read r l) x := by rw [read_append]; rfl

end Loop

/-! ## Batches -/

/-- The answers that deliver batches: the items of each, and then nothing. -/
def polls (bs : List (List α)) : List (Option α) := bs.flatMap (fun b => b.map some ++ [none])

/-- The first `n` answers of a port. -/
def first (answers : Nat → Option α) (n : Nat) : List (Option α) := (List.range n).map answers

/-- The port delivers the batches `bs`, whatever it does after that. -/
def Begins (answers : Nat → Option α) (bs : List (List α)) : Prop :=
  first answers (polls bs).length = polls bs

@[simp] theorem polls_nil : polls ([] : List (List α)) = [] := rfl

@[simp] theorem polls_append (bs cs : List (List α)) : polls (bs ++ cs) = polls bs ++ polls cs := by
  simp [polls]

@[simp] theorem polls_singleton (b : List α) : polls [b] = b.map some ++ [none] := by simp [polls]

@[simp] theorem length_first (answers : Nat → Option α) (n : Nat) :
    (first answers n).length = n := by simp [first]

theorem first_succ (answers : Nat → Option α) (n : Nat) :
    first answers (n + 1) = first answers n ++ [answers n] := by simp [first, List.range_succ]

theorem getElem?_first {answers : Nat → Option α} {n i : Nat} (h : i < n) :
    (first answers n)[i]? = some (answers i) := by simp [first, h]

theorem first_prefix (answers : Nat → Option α) {m n : Nat} (h : m ≤ n) :
    first answers m <+: first answers n := by
  induction n, h using Nat.le_induction with
  | base => exact List.prefix_rfl
  | succ n _ ih => rw [first_succ]; exact ih.trans (List.prefix_append ..)

/-- A port that delivers batches delivers the first of them. -/
theorem Begins.of_append {answers : Nat → Option α} {bs cs : List (List α)}
    (h : Begins answers (bs ++ cs)) : Begins answers bs := by
  unfold Begins at h ⊢
  rw [polls_append] at h
  have hp : first answers (polls bs).length <+: polls bs ++ polls cs := by
    rw [← h]; exact first_prefix answers (by simp)
  exact (List.prefix_of_prefix_length_le hp (List.prefix_append ..) (by simp)).eq_of_length (by simp)

/-- The answers to the polls that find one batch more. -/
theorem Begins.last {answers : Nat → Option α} {bs : List (List α)} {b : List α}
    (h : Begins answers (bs ++ [b])) :
    (∀ i x, b[i]? = some x → answers ((polls bs).length + i) = some x)
      ∧ answers ((polls bs).length + b.length) = none := by
  have hget : ∀ i, i < b.length + 1 →
      some (answers ((polls bs).length + i)) = (b.map some ++ [none])[i]? := by
    intro i hi
    have hlen : (polls bs).length + i < (polls (bs ++ [b])).length := by
      simp only [polls_append, polls_singleton, List.length_append, List.length_map,
        List.length_singleton]
      omega
    rw [← getElem?_first hlen, h, polls_append, polls_singleton,
      List.getElem?_append_right (by omega), Nat.add_sub_cancel_left]
  constructor
  · intro i x hx
    have hi : i < b.length := (List.getElem?_eq_some_iff.mp hx).1
    have := hget i (by omega)
    rw [List.getElem?_append_left (by simpa using hi), List.getElem?_map, hx] at this
    exact Option.some.inj this
  · have := hget b.length (by omega)
    rw [List.getElem?_append_right (by simp)] at this
    simpa using this

/-- Where the pauses are is where the batches end. -/
theorem prefix_of_map_none {b c : List α} {x y : List (Option α)}
    (h : b.map some ++ none :: x <+: c.map some ++ none :: y) : b = c ∧ x <+: y := by
  induction b generalizing c with
  | nil =>
      cases c with
      | nil => exact ⟨rfl, (List.cons_prefix_cons.mp h).2⟩
      | cons z c => exact absurd (List.cons_prefix_cons.mp h).1 (by simp)
  | cons w b ih =>
      cases c with
      | nil => exact absurd (List.cons_prefix_cons.mp h).1 (by simp)
      | cons z c =>
          obtain ⟨hz, h⟩ := List.cons_prefix_cons.mp h
          obtain ⟨rfl, hxy⟩ := ih h
          rw [Option.some.inj hz]
          exact ⟨rfl, hxy⟩

theorem prefix_of_polls {bs cs : List (List α)} (h : polls bs <+: polls cs) : bs <+: cs := by
  induction bs generalizing cs with
  | nil => exact List.nil_prefix
  | cons b bs ih =>
      cases cs with
      | nil =>
          have := List.prefix_nil.mp h
          simp [polls] at this
      | cons c cs =>
          have h : b.map some ++ none :: polls bs <+: c.map some ++ none :: polls cs := by
            simpa [polls] using h
          obtain ⟨rfl, hrest⟩ := prefix_of_map_none h
          exact List.cons_prefix_cons.mpr ⟨rfl, ih hrest⟩

/-- One port, two series of batches: one begins the other. -/
theorem Begins.total {answers : Nat → Option α} {bs cs : List (List α)}
    (hb : Begins answers bs) (hc : Begins answers cs) : bs <+: cs ∨ cs <+: bs := by
  unfold Begins at hb hc
  rcases Nat.le_total (polls bs).length (polls cs).length with hle | hle
  · left
    refine prefix_of_polls ?_
    rw [← hb, ← hc]
    exact first_prefix answers hle
  · right
    refine prefix_of_polls ?_
    rw [← hb, ← hc]
    exact first_prefix answers hle

/-- The port that delivers the batches and then is silent. -/
def deliver (bs : List (List α)) (i : Nat) : Option α := ((polls bs)[i]?).getD none

theorem begins_deliver (bs : List (List α)) : Begins (deliver bs) bs := by
  refine List.ext_getElem? (fun i => ?_)
  rcases Nat.lt_or_ge i (polls bs).length with hi | hi
  · rw [getElem?_first hi, deliver, List.getElem?_eq_getElem hi]; rfl
  · rw [List.getElem?_eq_none (by simpa using hi), List.getElem?_eq_none hi]

/-! ## What a loop has done -/

/--
What a place in the loop says of the batches read and of the items read since: in the
inner loop the test has been made once more than there were polls.
-/
def Pc.At (L : Loop ρ α) (r : ρ) (bs : List (List α)) (cur : List α) (passes : Nat) : Pc → Prop
  | .head => cur = [] ∧ passes = bs.length
  | .inner => passes = bs.length + 1 ∧ L.done (L.read r bs.flatten) = false
  | .left => cur = [] ∧ passes = bs.length + 1 ∧ L.done (L.read r bs.flatten) = true

/-- A state the loop can be in: after the batches `bs`, and `cur` of the next one. -/
structure After (L : Loop ρ α) (answers : Nat → Option α) (r : ρ) (s : State ρ α)
    (bs : List (List α)) (cur : List α) : Prop where
  heard : s.heard = bs.flatten ++ cur
  answers : first answers s.answered = polls bs ++ cur.map some
  locals : s.locals = L.read r s.heard
  /-- The loop had no reason to leave before. -/
  before : ∀ j < bs.length, L.done (L.read r (bs.take j).flatten) = false
  place : s.pc.At L r bs cur s.passes

/-- Where the loop stood after one poll less is where it stands now. -/
theorem take_flatten_snoc {bs : List (List α)} {b : List α} {j : Nat} (h : j < (bs ++ [b]).length) :
    ((bs ++ [b]).take j).flatten = (bs.take j).flatten := by
  rw [List.take_append_of_le_length (by simpa [Nat.lt_succ_iff] using h)]

/-- **Every state is one of these.** -/
theorem after_run (L : Loop ρ α) (answers : Nat → Option α) (r : ρ) (n : Nat) :
    ∃ bs cur, After L answers r (L.run answers r n) bs cur := by
  induction n with
  | zero => exact ⟨[], [], rfl, rfl, rfl, by simp, rfl, rfl⟩
  | succ n ih =>
      obtain ⟨bs, cur, hh, ha, hl, hb, hpc⟩ := ih
      rw [Loop.run]
      cases hs : (L.run answers r n).pc with
      | head =>
          rw [hs] at hpc
          obtain ⟨rfl, hp⟩ := hpc
          have hlb : (L.run answers r n).locals = L.read r bs.flatten := by
            rw [hl, hh, List.append_nil]
          cases hd : L.done (L.run answers r n).locals with
          | true =>
              rw [Loop.step_leave hs hd]
              exact ⟨bs, [], hh, ha, hl, hb, rfl, by rw [← hp], by rw [← hlb]; exact hd⟩
          | false =>
              rw [Loop.step_enter hs hd]
              exact ⟨bs, [], hh, ha, hl, hb, by rw [← hp], by rw [← hlb]; exact hd⟩
      | inner =>
          rw [hs] at hpc
          obtain ⟨hp, hd⟩ := hpc
          cases hx : answers (L.run answers r n).answered with
          | some x =>
              rw [Loop.step_item hs hx]
              refine ⟨bs, cur ++ [x], ?_, ?_, ?_, hb, hp, hd⟩
              · rw [hh, List.append_assoc]
              · rw [first_succ, ha, hx]; simp
              · rw [Loop.read_snoc, hl]
          | none =>
              -- the batch is over, and the test comes next
              rw [Loop.step_pause hs hx]
              refine ⟨bs ++ [cur], [], by rw [hh]; simp, ?_, hl, ?_, rfl, by rw [hp]; simp⟩
              · rw [first_succ, ha, hx]; simp
              · intro j hj
                rw [take_flatten_snoc hj]
                rcases Nat.lt_or_ge j bs.length with hj | hge
                · exact hb j hj
                · rw [List.take_of_length_le hge]; exact hd
      | left =>
          rw [Loop.step_left hs]
          exact ⟨bs, cur, hh, ha, hl, hb, hpc⟩

/-- What is known of a loop that has left. -/
theorem of_left {L : Loop ρ α} {answers : Nat → Option α} {r : ρ} {n : Nat}
    (h : (L.run answers r n).pc = .left) :
    ∃ bs, Begins answers bs ∧ (L.run answers r n).heard = bs.flatten
      ∧ (L.run answers r n).locals = L.read r bs.flatten
      ∧ (L.run answers r n).passes = bs.length + 1 ∧ L.done (L.read r bs.flatten) = true
      ∧ ∀ j < bs.length, L.done (L.read r (bs.take j).flatten) = false := by
  obtain ⟨bs, cur, hh, ha, hl, hb, hpc⟩ := after_run L answers r n
  rw [h] at hpc
  obtain ⟨rfl, hp, hd⟩ := hpc
  rw [List.append_nil] at hh
  rw [List.map_nil, List.append_nil] at ha
  refine ⟨bs, ?_, hh, by rw [hl, hh], hp, hd, hb⟩
  have hlen := congrArg List.length ha
  rw [length_first] at hlen
  rw [Begins, ← hlen]; exact ha

/-! ## What a loop will do -/

/-- A batch is read item by item. -/
theorem run_inner {L : Loop ρ α} {answers : Nat → Option α} {r l : ρ} {n p a : Nat} {h : List α}
    (b : List α) (hn : L.run answers r n = ⟨.inner, l, p, a, h⟩)
    (hb : ∀ i x, b[i]? = some x → answers (a + i) = some x) :
    L.run answers r (n + b.length) = ⟨.inner, L.read l b, p, a + b.length, h ++ b⟩ := by
  induction b using List.reverseRecOn with
  | nil => simpa using hn
  | append_singleton b x ih =>
      have hx : answers (a + b.length) = some x := hb b.length x (by simp)
      have ih := ih (fun i y hy => hb i y (by
        rw [List.getElem?_append_left (List.getElem?_eq_some_iff.mp hy).1]; exact hy))
      rw [List.length_append, List.length_singleton, ← Nat.add_assoc, Loop.run, ih,
        Loop.step_item rfl hx, Loop.read_snoc, List.append_assoc, Nat.add_assoc]

/-- **A port that delivers batches brings the loop back to its test after them.** -/
theorem run_polls {L : Loop ρ α} {answers : Nat → Option α} {r : ρ} {bs : List (List α)}
    (h : Begins answers bs) (hb : ∀ j < bs.length, L.done (L.read r (bs.take j).flatten) = false) :
    ∃ n, L.run answers r n
      = ⟨.head, L.read r bs.flatten, bs.length, (polls bs).length, bs.flatten⟩ := by
  induction bs using List.reverseRecOn with
  | nil => exact ⟨0, rfl⟩
  | append_singleton bs b ih =>
      obtain ⟨hitems, hpause⟩ := h.last
      obtain ⟨n, hn⟩ := ih h.of_append (fun j hj => by
        have hj' : j < (bs ++ [b]).length := by simp; omega
        rw [← take_flatten_snoc hj']; exact hb j hj')
      have hd : L.done (L.read r bs.flatten) = false := by
        have := hb bs.length (by simp)
        rwa [take_flatten_snoc (by simp), List.take_length] at this
      -- one test, the batch, and the answer that ends it
      have htest : L.run answers r (n + 1) = ⟨.inner, L.read r bs.flatten, bs.length + 1,
          (polls bs).length, bs.flatten⟩ := by
        rw [Loop.run, hn, Loop.step_enter rfl hd]
      have hread := run_inner b htest hitems
      refine ⟨n + 1 + b.length + 1, ?_⟩
      rw [Loop.run, hread, Loop.step_pause rfl hpause]
      simp [Loop.read_append, Nat.add_assoc]

/-- The first of the batches at which the test holds is where the loop leaves. -/
theorem exists_left {L : Loop ρ α} {answers : Nat → Option α} {r : ρ} {bs : List (List α)}
    (h : Begins answers bs) (hd : L.done (L.read r bs.flatten) = true) :
    ∃ j ≤ bs.length, (∀ i < j, L.done (L.read r (bs.take i).flatten) = false) ∧ ∃ n,
      L.run answers r n = ⟨.left, L.read r (bs.take j).flatten, j + 1, (polls (bs.take j)).length,
        (bs.take j).flatten⟩ := by
  have hex : ∃ j, L.done (L.read r (bs.take j).flatten) = true :=
    ⟨bs.length, by rw [List.take_length]; exact hd⟩
  have hj : Nat.find hex ≤ bs.length := Nat.find_min' hex (by rw [List.take_length]; exact hd)
  have hbefore : ∀ i < Nat.find hex, L.done (L.read r (bs.take i).flatten) = false := by
    intro i hi
    exact Bool.not_eq_true _ ▸ Nat.find_min hex hi
  have hlen : (bs.take (Nat.find hex)).length = Nat.find hex := List.length_take_of_le hj
  have hbegins : Begins answers (bs.take (Nat.find hex)) := by
    have hsplit := List.take_append_drop (Nat.find hex) bs
    rw [← hsplit] at h
    exact h.of_append
  obtain ⟨n, hn⟩ := run_polls (L := L) (r := r) hbegins (fun i hi => by
    rw [hlen] at hi
    rw [List.take_take, Nat.min_eq_left (Nat.le_of_lt hi)]; exact hbefore i hi)
  refine ⟨Nat.find hex, hj, hbefore, n + 1, ?_⟩
  rw [Loop.run, hn, Loop.step_leave rfl (Nat.find_spec hex)]
  simp only [hlen]

/--
**When a loop leaves in time.** Within `k` passes, exactly when the port delivers
fewer than `k` batches after which the test holds.
-/
theorem leaves_iff {L : Loop ρ α} {answers : Nat → Option α} {r : ρ} {k : Nat} :
    (∃ n, (L.run answers r n).pc = .left ∧ (L.run answers r n).passes ≤ k)
      ↔ ∃ bs, bs.length < k ∧ Begins answers bs ∧ L.done (L.read r bs.flatten) = true := by
  constructor
  · rintro ⟨n, hleft, hp⟩
    obtain ⟨bs, hbegins, _, _, hpass, hd, _⟩ := of_left hleft
    exact ⟨bs, by omega, hbegins, hd⟩
  · rintro ⟨bs, hlen, hbegins, hd⟩
    obtain ⟨j, hj, _, n, hn⟩ := exists_left hbegins hd
    exact ⟨n, by rw [hn], by rw [hn]; show j + 1 ≤ k; omega⟩

end Polling
