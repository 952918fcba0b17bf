import HandlingModule.Firmware.Main

/-!
# What the receiver holds

Between two bytes the three globals are determined by one thing: the bytes of the
frame that is still open. `Holds m q` says so, and `isr_spec` is the whole handler
in those terms: a byte takes `q` to where the bracket scanner takes it, and
`messageProcessing` runs exactly when the scanner completes a frame. Everything
about byte streams follows from scanning.

The one thing the scanner does not have is a last byte of `LineBuffer`. `Fits`
says that a stream never asks for more.
-/

namespace HandlingModule.Firmware

open CString Framing

/-! ## What `messageProcessing` answers -/

/-- The program's texts hold no zero byte, so each is its own C string. -/
theorem texts_nul_free :
    0 ∉ openCommand ∧ 0 ∉ closeCommand ∧ 0 ∉ toggleCommand ∧ 0 ∉ actionFinished
      ∧ 0 ∉ errorReply ∧ 0 ∉ toggleText := by decide

theorem isFrame_openCommand : IsFrame braces openCommand := isFrame_of_scan braces (by decide)
theorem isFrame_closeCommand : IsFrame braces closeCommand := isFrame_of_scan braces (by decide)
theorem isFrame_toggleCommand : IsFrame braces toggleCommand := isFrame_of_scan braces (by decide)
theorem isFrame_errorReply : IsFrame braces errorReply := isFrame_of_scan braces (by decide)

set_option maxRecDepth 4000 in
theorem isFrame_actionFinished : IsFrame braces actionFinished :=
  isFrame_of_scan braces (by decide)

/-- Both sweeps of the toggle end before their fuel does. -/
theorem toggle_isSome : toggle.isSome = true := by decide +kernel

/-- What the board does for a command, in terms of the command alone. -/
def answer (f : List Byte) : List Effect :=
  if f = openCommand then
    Effect.moveServo periodo_ (duty (6 / 100)) :: uartSend (literal actionFinished)
  else if f = closeCommand then
    Effect.moveServo periodo_ (duty (9 / 100)) :: uartSend (literal actionFinished)
  else if f = toggleCommand then toggle.getD []
  else uartSend (literal errorReply)

/-- `LineBuffer` holding `f` and nothing else. -/
def padded (f : List Byte) : List Byte := f ++ List.replicate (lineBufferSize - f.length) 0

theorem padded_length {f : List Byte} (h : f.length ≤ lineBufferSize) :
    (padded f).length = lineBufferSize := by
  simp only [padded, List.length_append, List.length_replicate]; omega

/--
**Why `strcmp` decides byte equality here.** A frame may contain zero bytes, but a
command followed by a zero byte is already a closed frame, so it is not the
beginning of a longer one.
-/
theorem literal_prefix_padded {l f : List Byte} (hl : IsFrame braces l)
    (hll : l.length < lineBufferSize) (hl0 : 0 ∉ l) (hf : IsFrame braces f) :
    literal l <+: padded f ↔ f = l := by
  constructor
  · rintro ⟨t, ht⟩
    unfold literal padded at ht
    rcases List.append_eq_append_iff.mp ht with ⟨m, hm, _⟩ | ⟨m, hm, _⟩
    · -- the terminated literal lies inside the frame
      rw [List.append_assoc] at hm
      exact absurd (hf.eq_of_prefix hm hl) (by simp)
    · -- the frame lies inside the terminated literal
      rcases List.append_eq_append_iff.mp hm with ⟨k, hk, hz⟩ | ⟨k, hk, _⟩
      · -- ... reaching into its terminator, which no frame ends with
        by_cases h0 : k = []
        · rw [hk, h0, List.append_nil]
        · exfalso
          exact h0 (hf.eq_of_prefix hk hl)
      · have := hl.eq_of_prefix hk hf
        rw [hk, this, List.append_nil]
  · rintro rfl
    refine ⟨List.replicate (lineBufferSize - f.length - 1) 0, ?_⟩
    have : lineBufferSize - f.length = (lineBufferSize - f.length - 1) + 1 := by omega
    unfold literal padded
    rw [this, List.replicate_succ]
    simp

/-- One comparison of `messageProcessing`, on a buffer that holds a whole frame. -/
theorem strcmp_padded {l f : List Byte} (hl : IsFrame braces l)
    (hll : l.length < lineBufferSize) (hl0 : 0 ∉ l) (hf : IsFrame braces f)
    (hfl : f.length ≤ lineBufferSize) :
    ∃ r, strcmp (padded f) (literal l) = some r ∧ (r = 0 ↔ f = l) := by
  have hsome := strcmp_isSome (l := l) (a := padded f) (by rw [padded_length hfl]; exact hll)
  obtain ⟨r, hr⟩ := Option.isSome_iff_exists.mp hsome
  refine ⟨r, hr, ?_⟩
  rw [← literal_prefix_padded hl hll hl0 hf, ← strcmp_literal_eq_zero hl0, hr]
  simp

/-- **`messageProcessing` on a buffer that holds a whole frame** is `answer` of that frame. -/
theorem messageProcessing_padded {f : List Byte} (hf : IsFrame braces f)
    (hfl : f.length ≤ lineBufferSize) (n : Nat) :
    messageProcessing (padded f) n = some (answer f) := by
  obtain ⟨n1, n2, n3, _⟩ := texts_nul_free
  obtain ⟨r1, h1, e1⟩ := strcmp_padded isFrame_openCommand (by decide) n1 hf hfl
  obtain ⟨r2, h2, e2⟩ := strcmp_padded isFrame_closeCommand (by decide) n2 hf hfl
  obtain ⟨r3, h3, e3⟩ := strcmp_padded isFrame_toggleCommand (by decide) n3 hf hfl
  obtain ⟨t, ht⟩ := Option.isSome_iff_exists.mp toggle_isSome
  simp only [messageProcessing, answer, h1, h2, h3, ht, e1, e2, e3, Option.bind_eq_bind,
    Option.bind_some, Option.getD_some]
  split
  · rfl
  · split
    · rfl
    · split <;> rfl

/-! ## The state between two bytes -/

/-- `m` holds the bytes `q` of a frame still open, and nothing else. -/
structure Holds (m : Mcu) (q : List Byte) : Prop where
  buffer : m.lineBuffer.toList = padded q
  length : m.bufferlength = q.length
  count : (m.bracketsCount : Int) = depth braces q
  pending : Pending braces q
  fits : q.length ≤ lineBufferSize

theorem holds_powerUp : Holds powerUp [] where
  buffer := by simp [powerUp, padded]
  length := rfl
  count := rfl
  pending := Or.inl rfl
  fits := by decide

/-- The call `messageProcessing` gets for a frame. -/
def callOf (f : List Byte) : Call := ⟨padded f, f.length, answer f⟩

/-- Whether the handler stores the byte. -/
def Stored (q : List Byte) (x : Byte) : Prop := x = openBrace ∨ q ≠ []

theorem store_spec {m : Mcu} {q : List Byte} (h : Holds m q) (hq : q.length < lineBufferSize)
    (x : Byte) :
    ∃ m', m.store x = some m' ∧ m'.lineBuffer.toList = padded (q ++ [x])
      ∧ m'.bufferlength = q.length + 1 ∧ m'.bracketsCount = m.bracketsCount := by
  have hm : m.bufferlength < lineBufferSize := by rw [h.length]; exact hq
  refine ⟨_, dif_pos hm, ?_, ?_, rfl⟩
  · have hz : lineBufferSize - q.length = (lineBufferSize - (q ++ [x]).length) + 1 := by
      simp only [List.length_append, List.length_singleton]; omega
    rw [Vector.toList_set, h.buffer, h.length]
    unfold padded
    rw [hz, List.replicate_succ]
    simp
  · show inc16 m.bufferlength = _
    rw [h.length]
    exact inc16_of_lt (by simp only [lineBufferSize] at hq; omega)

theorem store_full {m : Mcu} {q : List Byte} (h : Holds m q) (hq : q.length = lineBufferSize)
    (x : Byte) : m.store x = none := by
  refine dif_neg ?_
  rw [h.length]; omega

/-- A full buffer has no room for one more byte of its frame. -/
theorem isr_full {m : Mcu} {q : List Byte} (h : Holds m q) (hq : q.length = lineBufferSize)
    {x : Byte} (hx : Stored q x) : usci0RxIsr m x = none := by
  have hst := store_full h hq x
  unfold usci0RxIsr
  by_cases h1 : x = openBrace
  · rw [if_pos h1, hst]; rfl
  · have h2 : 0 < m.bufferlength := by
      rw [h.length]
      exact List.length_pos_of_ne_nil (hx.resolve_left h1)
    rw [if_neg h1, if_pos h2, hst]; rfl

/--
**The handler.** With room in the buffer, a byte takes what the receiver holds to
where the scanner takes it, and `messageProcessing` is called for the frame the
scanner completes, if it completes one.
-/
theorem isr_spec {m : Mcu} {q : List Byte} (h : Holds m q) (x : Byte)
    (hroom : Stored q x → q.length < lineBufferSize) :
    ∃ m', usci0RxIsr m x = some (m', (push braces q x).2.map callOf)
      ∧ Holds m' (push braces q x).1 := by
  have hsize : lineBufferSize = 200 := rfl
  have hdl := depth_le_length braces q
  rcases push_cases braces h.pending x with ⟨hq, hx, hp⟩ | ⟨ho, hs, hp⟩ | ⟨hf, hx, hne, hp⟩
  · -- noise: the handler does nothing
    subst hq
    refine ⟨m, ?_, by rw [hp]; exact h⟩
    have hb : ¬ 0 < m.bufferlength := by rw [h.length]; simp
    rw [hp, usci0RxIsr, if_neg (show ¬ x = openBrace from hx), if_neg hb]; rfl
  · -- the byte is kept and the frame stays open
    have hlt : q.length < lineBufferSize := hroom hs
    have hfl : (q ++ [x]).length ≤ lineBufferSize := by
      rw [List.length_append, List.length_singleton]; exact hlt
    obtain ⟨m1, hst, hbuf, hlen, hcnt⟩ := store_spec h hlt x
    have hdq := ho.depth_pos
    have hcount := h.count
    simp only [depth_append, depth_cons, depth_nil] at hdq
    rw [hp, usci0RxIsr, hst]
    by_cases h1 : x = openBrace
    · have hw : weight braces x = 1 := by rw [h1]; exact weight_opening braces
      have hinc : inc16 m1.bracketsCount = m.bracketsCount + 1 := by
        rw [hcnt]; exact inc16_of_lt (by omega)
      rw [if_pos h1]
      refine ⟨_, rfl, ⟨hbuf, by simpa using hlen, ?_, Or.inr ho, hfl⟩⟩
      simp only [hinc, depth_append, depth_cons, depth_nil, hw]
      omega
    · have h2 : 0 < m.bufferlength := by
        rw [h.length]; exact List.length_pos_of_ne_nil (hs.resolve_left h1)
      rw [if_neg h1, if_pos h2]
      by_cases h3 : x = closeBrace
      · have hw : weight braces x = -1 := by rw [h3]; exact weight_closing braces
        have hdec : dec16 m1.bracketsCount = m.bracketsCount - 1 := by
          rw [hcnt]; exact dec16_of_pos (by omega) (by omega)
        have hne : ¬ dec16 m1.bracketsCount = 0 := by rw [hdec]; omega
        simp only [Option.bind_eq_bind, Option.bind_some]
        rw [if_pos h3, if_neg hne]
        refine ⟨_, rfl, ⟨hbuf, by simpa using hlen, ?_, Or.inr ho, hfl⟩⟩
        simp only [hdec, depth_append, depth_cons, depth_nil, hw]
        omega
      · have hw : weight braces x = 0 := by
          rw [weight, if_neg (show ¬ x = braces.opening from h1),
            if_neg (show ¬ x = braces.closing from h3)]
        simp only [Option.bind_eq_bind, Option.bind_some]
        rw [if_neg h3]
        refine ⟨_, rfl, ⟨hbuf, by simpa using hlen, ?_, Or.inr ho, hfl⟩⟩
        simp only [hcnt, depth_append, depth_cons, depth_nil, hw]
        omega
  · -- the byte closes the frame
    have hx' : x = closeBrace := hx
    have hlt : q.length < lineBufferSize := hroom (Or.inr hne)
    obtain ⟨m1, hst, hbuf, hlen, hcnt⟩ := store_spec h hlt x
    have hw : weight braces x = -1 := by rw [hx]; exact weight_closing braces
    have hcount := h.count
    have hcl := hf.closed
    simp only [depth_append, depth_cons, depth_nil, hw] at hcl
    have h1 : ¬ x = openBrace := by rw [hx']; decide
    have h2 : 0 < m.bufferlength := by rw [h.length]; exact List.length_pos_of_ne_nil hne
    have hz : dec16 m1.bracketsCount = 0 := by
      rw [hcnt, dec16_of_pos (by omega) (by omega)]; omega
    have hfl : (q ++ [x]).length ≤ lineBufferSize := by
      rw [List.length_append, List.length_singleton]; exact hlt
    refine ⟨powerUp, ?_, by rw [hp]; exact holds_powerUp⟩
    rw [hp, usci0RxIsr, if_neg h1, if_pos h2, hst]
    simp only [Option.bind_eq_bind, Option.bind_some]
    rw [if_pos hx', if_pos hz, hbuf, messageProcessing_padded hf hfl, hlen, Option.map_some,
      callOf, List.length_append, List.length_singleton]
    rfl

/-! ## Whole streams -/

/-- Scanning `s` from `q` never keeps more bytes than `LineBuffer` has. -/
def Fits : List Byte → List Byte → Prop
  | _, [] => True
  | q, x :: s => (Stored q x → q.length < lineBufferSize) ∧ Fits (push braces q x).1 s

theorem fits_append (q s t : List Byte) :
    Fits q (s ++ t) ↔ Fits q s ∧ Fits (scan braces q s).1 t := by
  induction s generalizing q with
  | nil => simp [Fits, scan]
  | cons x s ih => simp only [List.cons_append, Fits, scan, ih, and_assoc]

/-- **A stream that fits is received as it is scanned.** -/
theorem receive_fits {m : Mcu} {q s : List Byte} (h : Holds m q) (hs : Fits q s) :
    ∃ m', receive m s = some (m', (scan braces q s).2.map callOf)
      ∧ Holds m' (scan braces q s).1 := by
  induction s generalizing m q with
  | nil => exact ⟨m, rfl, h⟩
  | cons x s ih =>
      obtain ⟨hroom, hrest⟩ := hs
      obtain ⟨m1, hisr, h1⟩ := isr_spec h x hroom
      obtain ⟨m2, hrec, h2⟩ := ih h1 hrest
      refine ⟨m2, ?_, h2⟩
      simp only [receive, hisr, hrec, scan, Option.bind_eq_bind, Option.bind_some, List.map_append]
      cases (push braces q x).2 <;> rfl

/-- **A stream is received without a store outside `LineBuffer` exactly when it fits.** -/
theorem receive_isSome_iff {m : Mcu} {q : List Byte} (h : Holds m q) (s : List Byte) :
    (receive m s).isSome ↔ Fits q s := by
  constructor
  · intro hsome
    induction s generalizing m q with
    | nil => trivial
    | cons x s ih =>
        by_cases hroom : Stored q x → q.length < lineBufferSize
        · obtain ⟨m1, hisr, h1⟩ := isr_spec h x hroom
          refine ⟨hroom, ih h1 ?_⟩
          rw [receive, hisr] at hsome
          simp only [Option.bind_eq_bind, Option.bind_some] at hsome
          cases hr : receive m1 s with
          | none => rw [hr] at hsome; exact absurd hsome (by simp)
          | some r => rfl
        -- the byte that finds the buffer full has no result
        · have hst : Stored q x := Classical.byContradiction fun hn => hroom (fun hh => absurd hh hn)
          have hfull : q.length = lineBufferSize := by
            have := h.fits
            have : ¬ q.length < lineBufferSize := fun hh => hroom (fun _ => hh)
            omega
          rw [receive, isr_full h hfull hst] at hsome
          exact absurd hsome (by simp)
  · intro hfits
    obtain ⟨m', hrec, _⟩ := receive_fits h hfits
    rw [hrec]; rfl

/-- What a stream the receiver got through did, read off the scanner. -/
theorem receive_spec {m m' : Mcu} {q s : List Byte} {calls : List Call} (h : Holds m q)
    (hr : receive m s = some (m', calls)) :
    Fits q s ∧ calls = (scan braces q s).2.map callOf ∧ Holds m' (scan braces q s).1 := by
  have hfits := (receive_isSome_iff h s).mp (by rw [hr]; rfl)
  obtain ⟨m1, h1, h2⟩ := receive_fits h hfits
  rw [hr] at h1
  obtain ⟨rfl, rfl⟩ := Prod.mk.inj (Option.some.inj h1)
  exact ⟨hfits, rfl, h2⟩

end HandlingModule.Firmware
