import HandlingModule.Serial.HandlingService
import Mathlib.Data.List.Induction

/-!
# What the reading loop has collected

`sw`, `reply` and `countMSG` are determined by the bytes read so far: the reply is
everything from the first opening brace on, and the counter is its depth. `countMSG` is an
`Int` without bounds here and an `int` in the source; the two are the same for fewer than
2 ^ 31 braces. On a text that is noise and then one frame, the exit test therefore succeeds
at the end of the text and nowhere before it.
-/

namespace HandlingModule.Serial

open Firmware Framing

/-- The loop body over several bytes. -/
def Reader.feedAll (r : Reader) (l : List Byte) : Reader := l.foldl Reader.feed r

theorem Reader.feedAll_snoc (r : Reader) (l : List Byte) (x : Byte) :
    r.feedAll (l ++ [x]) = (r.feedAll l).feed x := by simp [Reader.feedAll]

/-- The part of a byte sequence the loop keeps. -/
def kept (l : List Byte) : List Byte := l.dropWhile (fun x => x ≠ openBrace)

theorem kept_snoc (l : List Byte) (x : Byte) :
    kept (l ++ [x]) = if kept l = [] then (if x = openBrace then [x] else []) else kept l ++ [x] := by
  unfold kept
  rw [List.dropWhile_append]
  by_cases h : l.dropWhile (fun x => decide (x ≠ openBrace)) = []
  · rw [h, if_pos rfl]
    by_cases hx : x = openBrace
    · rw [if_pos hx]; simp [hx]
    · rw [if_neg hx]; simp [hx]
  · rw [if_neg h, if_neg (fun h0 => h (List.isEmpty_iff.mp h0))]

theorem kept_noise {n : List Byte} (hn : IsNoise braces n) : kept n = [] := by
  induction n with
  | nil => rfl
  | cons x n ih =>
      have hx : x ≠ openBrace := fun h => hn (by rw [h]; exact List.mem_cons_self ..)
      rw [kept, List.dropWhile_cons_of_pos (by simp [hx])]
      exact ih (fun h => hn (List.mem_cons_of_mem x h))

theorem kept_noise_append {n l : List Byte} (hn : IsNoise braces n) (hl : l.head? = some openBrace) :
    kept (n ++ l) = l := by
  have h0 := kept_noise hn
  unfold kept at h0 ⊢
  rw [List.dropWhile_append, h0]
  cases l with
  | nil => exact absurd hl (by simp)
  | cons x l =>
      have : x = openBrace := by simpa using hl
      simp [this]

/-- The amount the loop counts for a byte is its weight. -/
theorem weight_eq_count (x : Byte) :
    weight braces x = (if x = openBrace then 1 else 0) - (if x = closeBrace then 1 else 0) := by
  by_cases h1 : x = openBrace
  · have : x ≠ closeBrace := by rw [h1]; decide
    rw [weight, if_pos (show x = braces.opening from h1), if_pos h1, if_neg this]; rfl
  · rw [weight, if_neg (show ¬ x = braces.opening from h1), if_neg h1]
    by_cases h2 : x = closeBrace
    · rw [if_pos (show x = braces.closing from h2), if_pos h2]; rfl
    · rw [if_neg (show ¬ x = braces.closing from h2), if_neg h2]; rfl

/-- **The reader's locals, from the bytes read.** -/
theorem reader_spec (h : List Byte) :
    (Reader.fresh.feedAll h).reply = kept h
      ∧ (Reader.fresh.feedAll h).countMSG = depth braces (kept h)
      ∧ ((Reader.fresh.feedAll h).sw = true ↔ kept h ≠ []) := by
  induction h using List.reverseRecOn with
  | nil => exact ⟨rfl, rfl, by simp [Reader.feedAll, Reader.fresh, kept]⟩
  | append_singleton h x ih =>
      obtain ⟨h1, h2, h3⟩ := ih
      rw [Reader.feedAll_snoc, kept_snoc]
      by_cases hk : kept h = []
      -- nothing kept so far: an opening brace starts the reply, any other byte is dropped
      · have hsw : ¬ (Reader.fresh.feedAll h).sw = true := fun hs => h3.mp hs hk
        by_cases hx : x = openBrace
        · have hc : x ≠ closeBrace := by rw [hx]; decide
          have hw := weight_eq_count x
          have hf : (Reader.fresh.feedAll h).feed x = _ := if_pos (Or.inr hx)
          rw [hf, if_pos hk]
          refine ⟨?_, ?_, by simp [hx]⟩
          · show (Reader.fresh.feedAll h).reply ++ [x] = _
            rw [if_pos hx, h1, hk]; rfl
          · show (Reader.fresh.feedAll h).countMSG + _ - _ = _
            rw [if_pos (c := x = openBrace) (t := [x]) hx, h2, hk]
            simp only [depth_cons, depth_nil]
            omega
        · have hf : (Reader.fresh.feedAll h).feed x = _ := if_neg (by simp [hsw, hx])
          rw [hf, if_pos hk, if_neg hx]
          exact ⟨h1.trans hk, h2.trans (by rw [hk]), by simp [hsw]⟩
      -- from the first brace on, everything is kept and counted
      · have hsw : (Reader.fresh.feedAll h).sw = true := h3.mpr hk
        have hw := weight_eq_count x
        have hf : (Reader.fresh.feedAll h).feed x = _ := if_pos (Or.inl hsw)
        rw [hf, if_neg hk]
        refine ⟨by rw [h1], ?_, by simp⟩
        simp only [h2, depth_append, depth_cons, depth_nil]
        omega

theorem complete_iff (r : Reader) :
    r.complete = true ↔ r.reply ≠ [] ∧ r.reply.getLast? = some closeBrace ∧ r.countMSG = 0 := by
  simp [Reader.complete, List.length_pos_iff, and_assoc]

/--
**Where the loop may leave.** Reading a text that is noise and one frame, the exit
test holds only once the whole text has been read.
-/
theorem eq_of_complete {n f h t : List Byte} (hn : IsNoise braces n) (hf : IsFrame braces f)
    (ht : h ++ t = n ++ f) (hc : (Reader.fresh.feedAll h).complete = true) : h = n ++ f := by
  obtain ⟨h1, h2, _⟩ := reader_spec h
  obtain ⟨hne, _, hcnt⟩ := (complete_iff _).mp hc
  rw [h1] at hne
  rw [h2] at hcnt
  rcases List.append_eq_append_iff.mp ht with ⟨m, hm, _⟩ | ⟨p, hp, hf'⟩
  · -- still inside the noise
    have : IsNoise braces h := fun hx => hn (by rw [hm]; exact List.mem_append_left _ hx)
    exact absurd (kept_noise this) hne
  · by_cases hp0 : p = []
    · rw [hp, hp0, List.append_nil] at hne
      exact absurd (kept_noise hn) hne
    · by_cases ht0 : t = []
      · rw [ht0, List.append_nil] at hf'
        rw [hp, hf']
      · -- strictly inside the frame the depth is positive
        have ho := hf.isOpen_prefix hf' hp0 ht0
        rw [hp, kept_noise_append hn ho.head] at hcnt
        have := ho.depth_pos
        omega

/-- **The whole text has been read: the loop leaves, and the reply is the frame.** -/
theorem complete_of_text {n f : List Byte} (hn : IsNoise braces n) (hf : IsFrame braces f) :
    (Reader.fresh.feedAll (n ++ f)).complete = true
      ∧ (Reader.fresh.feedAll (n ++ f)).reply = f := by
  obtain ⟨h1, h2, _⟩ := reader_spec (n ++ f)
  have hk := kept_noise_append hn hf.head
  rw [hk] at h1 h2
  refine ⟨(complete_iff _).mpr ⟨?_, ?_, ?_⟩, h1⟩
  · rw [h1]; exact hf.ne_nil
  · rw [h1]; exact hf.getLast?
  · rw [h2]; exact hf.closed

/-! ## What a call knows at each statement -/

/-- Whether the command has been written. -/
def CallPc.wrote : CallPc → Bool
  | .serialOpen | .wiringPiSetup | .serialPuts => false
  | .loop | .serialDataAvail | .serialGetchar => true
  | .returned code => code = 0

/-- The facts that hold at a statement, whoever else uses the line. -/
def CallPc.Facts (c : HandlingCall) : CallPc → Prop
  | .serialOpen => c.opened = [] ∧ c.heard = []
  | .wiringPiSetup => c.opened = [true] ∧ c.heard = []
  | .serialPuts => c.opened = [true, true] ∧ c.heard = []
  | .loop | .serialDataAvail | .serialGetchar => c.opened = [true, true]
  | .returned code =>
      code = 0 ∧ c.opened = [true, true] ∧ c.reader.complete = true
        ∨ code = 1 ∧ false ∈ c.opened ∧ c.heard = []

/-- A call of `handlingService` as the code can have brought it about. -/
structure HandlingCall.Ok (c : HandlingCall) : Prop where
  reader : c.reader = Reader.fresh.feedAll c.heard
  facts : c.pc.Facts c

theorem ok_start (service : Int) : (HandlingCall.start service).Ok := ⟨rfl, rfl, rfl⟩

theorem ok_step {c c' : HandlingCall} {ok : Bool} {w w' : Wire}
    (h : CallStep c ok w c' w') (hc : c.Ok) :
    c'.Ok := by
  obtain ⟨hr, hf⟩ := hc
  cases h with
  | opened pc hpc =>
      refine ⟨hr, ?_⟩
      rcases hpc with ⟨hpc, rfl⟩ | ⟨hpc, rfl⟩
      · rw [hpc] at hf
        obtain ⟨ho, hh⟩ := hf
        cases ok with
        | true => exact ⟨by rw [ho]; rfl, hh⟩
        | false => exact Or.inr ⟨rfl, by rw [ho]; simp, hh⟩
      · rw [hpc] at hf
        obtain ⟨ho, hh⟩ := hf
        cases ok with
        | true => exact ⟨by rw [ho]; rfl, hh⟩
        | false => exact Or.inr ⟨rfl, by rw [ho]; simp, hh⟩
  | serialPuts hpc => rw [hpc] at hf; exact ⟨hr, hf.1⟩
  | leave hpc hcomp => rw [hpc] at hf; exact ⟨hr, Or.inl ⟨rfl, hf, hcomp⟩⟩
  | stay hpc => rw [hpc] at hf; exact ⟨hr, hf⟩
  | nothing hpc => rw [hpc] at hf; exact ⟨hr, hf⟩
  | waiting hpc => rw [hpc] at hf; exact ⟨hr, hf⟩
  | serialGetchar x w' hpc =>
      rw [hpc] at hf
      refine ⟨?_, hf⟩
      show c.reader.feed x = _
      rw [Reader.feedAll_snoc, ← hr]

/-- Before it writes, a call has heard nothing. -/
theorem HandlingCall.Ok.heard_nil {c : HandlingCall} (hc : c.Ok) (hw : c.pc.wrote = false) :
    c.heard = [] := by
  have hf := hc.facts
  cases hpc : c.pc with
  | serialOpen => rw [hpc] at hf; exact hf.2
  | wiringPiSetup => rw [hpc] at hf; exact hf.2
  | serialPuts => rw [hpc] at hf; exact hf.2
  | loop => rw [hpc] at hw; exact absurd hw (by decide)
  | serialDataAvail => rw [hpc] at hw; exact absurd hw (by decide)
  | serialGetchar => rw [hpc] at hw; exact absurd hw (by decide)
  | returned code =>
      rw [hpc] at hf hw
      rcases hf with ⟨h0, _, _⟩ | ⟨_, _, hh⟩
      · rw [h0] at hw; exact absurd hw (by decide)
      · exact hh

/-- The only step that writes is `serialPuts`. -/
theorem CallStep.wrote {c c' : HandlingCall} {ok : Bool} {w w' : Wire}
    (h : CallStep c ok w c' w') :
    c'.pc.wrote = true ↔ c.pc.wrote = true ∨ c.pc = .serialPuts := by
  cases h with
  | opened pc hpc =>
      rcases hpc with ⟨hpc, rfl⟩ | ⟨hpc, rfl⟩ <;> cases ok <;> simp [hpc, CallPc.wrote]
  | serialPuts hpc => simp [hpc, CallPc.wrote]
  | leave hpc => simp [hpc, CallPc.wrote]
  | stay hpc => simp [hpc, CallPc.wrote]
  | nothing hpc => simp [hpc, CallPc.wrote]
  | waiting hpc => simp [hpc, CallPc.wrote]
  | serialGetchar x w' hpc => simp [hpc, CallPc.wrote]

end HandlingModule.Serial
