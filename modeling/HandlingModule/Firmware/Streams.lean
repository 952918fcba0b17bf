import HandlingModule.Firmware.Receiver
import Mathlib.Data.List.Forall2

/-!
# The firmware over whole byte streams

Three results about every byte stream since power-up, all read off the scanner:
what a stream of frames of at most 200 bytes is answered with, exactly which
streams keep the receiver inside `LineBuffer`, and after which noise a command is
still understood.

A frame longer than the buffer is not refused, and a frame left open is never
given up: the receiver has no length check and no resynchronisation.
-/

namespace HandlingModule.Firmware

open CString Framing

/-! ## What a call transmits -/

/-- The three texts `messageProcessing` knows. -/
def commands : List (List Byte) := [openCommand, closeCommand, toggleCommand]

@[simp] theorem transmitted_append (es fs : List Effect) :
    transmitted (es ++ fs) = transmitted es ++ transmitted fs := by simp [transmitted]

@[simp] theorem transmitted_moveServo (p q : Rat) (es : List Effect) :
    transmitted (Effect.moveServo p q :: es) = transmitted es := rfl

@[simp] theorem transmitted_transmit (x : Byte) (es : List Effect) :
    transmitted (Effect.transmit x :: es) = x :: transmitted es := rfl

theorem transmitted_uartSend {l : List Byte} (h : 0 ∉ l) :
    transmitted (uartSend (literal l)) = l := by
  rw [uartSend, untilNul_literal h]
  induction l with
  | nil => rfl
  | cons x l ih =>
      have := ih (fun h0 => h (List.mem_cons_of_mem x h0))
      rw [List.map_cons, transmitted_transmit, this]

theorem servoMoves_uartSend (l : List Byte) : servoMoves (uartSend l) = [] := by
  rw [uartSend]
  induction untilNul l with
  | nil => rfl
  | cons x l ih => exact ih

/-- The sweeps say nothing. -/
theorem transmitted_sweepDown : ∀ (fuel : Nat) {j : Rat} {es : List Effect},
    sweepDown fuel j = some es → transmitted es = []
  | 0, _, _, h => by exact absurd h (by simp [sweepDown])
  | fuel + 1, j, es, h => by
      rw [sweepDown] at h
      split at h
      · obtain ⟨es', h', rfl⟩ := Option.map_eq_some_iff.mp h
        rw [transmitted_moveServo]
        exact transmitted_sweepDown fuel h'
      · injection h with h; subst h; rfl

theorem transmitted_sweepUp : ∀ (fuel : Nat) {j : Rat} {es : List Effect},
    sweepUp fuel j = some es → transmitted es = []
  | 0, _, _, h => by exact absurd h (by simp [sweepUp])
  | fuel + 1, j, es, h => by
      rw [sweepUp] at h
      split at h
      · obtain ⟨es', h', rfl⟩ := Option.map_eq_some_iff.mp h
        rw [transmitted_moveServo]
        exact transmitted_sweepUp fuel h'
      · injection h with h; subst h; rfl

theorem transmitted_toggle : transmitted (toggle.getD []) = toggleText ++ actionFinished := by
  obtain ⟨_, _, _, n1, _, n2⟩ := texts_nul_free
  obtain ⟨es, hes⟩ := Option.isSome_iff_exists.mp toggle_isSome
  rw [hes, Option.getD_some]
  unfold toggle at hes
  obtain ⟨down, hd, hes⟩ := Option.bind_eq_some_iff.mp hes
  obtain ⟨up, hu, hes⟩ := Option.bind_eq_some_iff.mp hes
  injection hes with hes
  rw [← hes]
  simp [transmitted_sweepDown _ hd, transmitted_sweepUp _ hu, transmitted_uartSend n1,
    transmitted_uartSend n2]

/-- Everything the board says for a frame, text before the reply included. -/
theorem transmitted_answer (f : List Byte) :
    transmitted (answer f)
      = if f = toggleCommand then toggleText ++ actionFinished
        else if f ∈ commands then actionFinished else errorReply := by
  obtain ⟨_, _, _, n1, n2, _⟩ := texts_nul_free
  unfold answer
  by_cases h1 : f = openCommand
  · have : openCommand ≠ toggleCommand := by decide
    simp [h1, commands, transmitted_uartSend n1, this]
  · by_cases h2 : f = closeCommand
    · have h3 : closeCommand ≠ openCommand := by decide
      have h4 : closeCommand ≠ toggleCommand := by decide
      simp [h2, h3, h4, commands, transmitted_uartSend n1]
    · by_cases h3 : f = toggleCommand
      · have h4 : toggleCommand ≠ openCommand := by decide
        have h5 : toggleCommand ≠ closeCommand := by decide
        simp [h3, h4, h5, transmitted_toggle]
      · simp [h1, h2, h3, commands, transmitted_uartSend n2]

theorem isNoise_toggleText : IsNoise braces toggleText := by unfold IsNoise; decide

/-- Among what a command is answered with there is exactly one frame. -/
theorem framed_answer (f : List Byte) :
    Framed braces (transmitted (answer f)) [if f ∈ commands then actionFinished else errorReply] := by
  have hnil : Framed braces [] [] := Framed.noise (by simp [IsNoise])
  have hn : IsNoise braces [] := by simp [IsNoise]
  rw [transmitted_answer]
  by_cases h1 : f = toggleCommand
  · have h2 : f ∈ commands := by rw [h1]; simp [commands]
    rw [if_pos h1, if_pos h2]
    have := Framed.frame isNoise_toggleText isFrame_actionFinished hnil
    rwa [List.append_nil] at this
  · rw [if_neg h1]
    by_cases h2 : f ∈ commands
    · rw [if_pos h2]
      have := Framed.frame hn isFrame_actionFinished hnil
      rwa [List.append_nil] at this
    · rw [if_neg h2]
      have := Framed.frame hn isFrame_errorReply hnil
      rwa [List.append_nil] at this

theorem answer_of_not_command {f : List Byte} (h : f ∉ commands) :
    answer f = uartSend (literal errorReply) := by
  have h1 : f ≠ openCommand := fun he => h (by simp [he, commands])
  have h2 : f ≠ closeCommand := fun he => h (by simp [he, commands])
  have h3 : f ≠ toggleCommand := fun he => h (by simp [he, commands])
  rw [answer, if_neg h1, if_neg h2, if_neg h3]

/-! ## Requests and replies -/

/-- `c` is the call the frame `f` should lead to. -/
structure Obeys (f : List Byte) (c : Call) : Prop where
  /-- `LineBuffer` holds the frame, then zeros. -/
  string : c.string = f ++ List.replicate (lineBufferSize - f.length) 0
  length : c.length = f.length
  /-- Exactly one reply frame is sent, and it says `DONE` for the three commands only. -/
  reply : ∃ reply, Framed braces (transmitted c.effects) [reply]
    ∧ (reply = actionFinished ↔ f ∈ commands)
  /-- Anything else is answered with `{ERROR}` and does not touch the servo. -/
  refused : f ∉ commands → transmitted c.effects = errorReply ∧ servoMoves c.effects = []

theorem callOf_obeys (f : List Byte) : Obeys f (callOf f) where
  string := rfl
  length := rfl
  reply := by
    refine ⟨_, framed_answer f, ?_⟩
    have hne : errorReply ≠ actionFinished := by decide
    by_cases h : f ∈ commands
    · simp [h]
    · simp [h, hne]
  refused := by
    intro h
    have n : 0 ∉ errorReply := texts_nul_free.2.2.2.2.1
    show transmitted (answer f) = _ ∧ servoMoves (answer f) = _
    rw [answer_of_not_command h]
    exact ⟨transmitted_uartSend n, servoMoves_uartSend _⟩

theorem fits_noise {n : List Byte} (hn : IsNoise braces n) : Fits [] n := by
  induction n with
  | nil => trivial
  | cons x n ih =>
      have hx : x ≠ openBrace := fun h => hn (by rw [h]; exact List.mem_cons_self ..)
      have hp : push braces [] x = ([], none) := if_pos ⟨rfl, hx⟩
      refine ⟨fun _ => by decide, ?_⟩
      rw [hp]
      exact ih (fun h => hn (List.mem_cons_of_mem x h))

theorem fits_open {q : List Byte} (hq : IsOpen braces q) (hl : q.length ≤ lineBufferSize) :
    Fits [] q := by
  induction q using List.reverseRecOn with
  | nil => trivial
  | append_singleton q x ih =>
      have hlt : q.length < lineBufferSize := by
        simp only [List.length_append, List.length_singleton] at hl; omega
      by_cases h0 : q = []
      · subst h0; exact ⟨fun _ => by decide, trivial⟩
      · have ho := hq.isOpen_prefix rfl h0
        refine (fits_append [] q [x]).mpr ⟨ih ho (by omega), ?_⟩
        rw [scan_open braces ho]
        exact ⟨fun _ => hlt, trivial⟩

theorem fits_frame {f : List Byte} (hf : IsFrame braces f) (hl : f.length ≤ lineBufferSize) :
    Fits [] f := by
  rcases List.eq_nil_or_concat f with h0 | ⟨q, x, h0⟩
  · exact absurd h0 hf.ne_nil
  · rw [List.concat_eq_append] at h0
    have hlt : q.length < lineBufferSize := by
      rw [h0] at hl; simp only [List.length_append, List.length_singleton] at hl; omega
    by_cases hq : q = []
    · rw [h0, hq]; exact ⟨fun _ => by decide, trivial⟩
    · have ho := hf.isOpen_prefix h0 hq (by simp)
      rw [h0]
      refine (fits_append [] q [x]).mpr ⟨fits_open ho (by omega), ?_⟩
      rw [scan_open braces ho]
      exact ⟨fun _ => hlt, trivial⟩

theorem fits_framed {s : List Byte} {fs : List (List Byte)} (hs : Framed braces s fs)
    (hl : ∀ f ∈ fs, f.length ≤ lineBufferSize) : Fits [] s := by
  induction hs with
  | noise hn => exact fits_noise hn
  | frame hn hf _ ih =>
      refine (fits_append _ _ _).mpr ⟨fits_noise hn, ?_⟩
      rw [scan_noise braces hn]
      refine (fits_append _ _ _).mpr ⟨fits_frame hf (hl _ (List.mem_cons_self ..)), ?_⟩
      rw [scan_frame braces hf]
      exact ih (fun f hm => hl f (List.mem_cons_of_mem _ hm))

/-- A receiver that holds nothing is as it was at power-up. -/
theorem Holds.eq_powerUp {m : Mcu} (h : Holds m []) : m = powerUp := by
  obtain ⟨hb, hl, hc, _, _⟩ := h
  obtain ⟨buf, len, cnt⟩ := m
  have h1 : buf = Vector.replicate lineBufferSize 0 := by
    apply Vector.toList_inj.mp
    rw [hb, Vector.toList_replicate]; rfl
  have h2 : len = 0 := hl
  have h3 : cnt = 0 := by simpa using hc
  rw [h1, h2, h3]; rfl

/--
**The request/response law.** A stream of frames of at most 200 bytes, with any
noise around them, leads to one call for each frame, in order; each call sees its
own frame in a clean buffer, sends exactly one reply frame, and the receiver ends
as it started.
-/
theorem stream_law {s : List Byte} {fs : List (List Byte)} (hs : Framed braces s fs)
    (hl : ∀ f ∈ fs, f.length ≤ lineBufferSize) :
    ∃ m calls, receive powerUp s = some (m, calls) ∧ List.Forall₂ Obeys fs calls
      ∧ m.bufferlength = 0 ∧ m.bracketsCount = 0
      ∧ m.lineBuffer = Vector.replicate lineBufferSize 0 := by
  obtain ⟨m, hrec, hm⟩ := receive_fits holds_powerUp (fits_framed hs hl)
  rw [scan_framed braces hs] at hrec hm
  refine ⟨m, _, hrec, ?_, ?_⟩
  · rw [List.forall₂_map_right_iff]
    exact List.forall₂_same.mpr (fun f _ => callOf_obeys f)
  · rw [hm.eq_powerUp]; exact ⟨rfl, rfl, rfl⟩

/-- A frame that is no command. -/
def refusedFrame : List Byte := [openBrace, 88, closeBrace]

theorem isFrame_refusedFrame : IsFrame braces refusedFrame := isFrame_of_scan braces (by decide)

/-- An `OPEN` command and a frame that is refused, with noise before, between and behind them. -/
theorem stream_law_open :
    ∃ m calls, receive powerUp ([65] ++ (openCommand ++ ([13, 10] ++ (refusedFrame ++ [66]))))
        = some (m, calls)
      ∧ List.Forall₂ Obeys [openCommand, refusedFrame] calls
      ∧ m.bufferlength = 0 ∧ m.bracketsCount = 0
      ∧ m.lineBuffer = Vector.replicate lineBufferSize 0 := by
  have hbehind : Framed braces [66] [] := .noise (by unfold IsNoise; decide)
  have hbetween : Framed braces ([13, 10] ++ (refusedFrame ++ [66])) [refusedFrame] :=
    .frame (by unfold IsNoise; decide) isFrame_refusedFrame hbehind
  have hframed := Framed.frame (n := [65]) (by unfold IsNoise; decide) isFrame_openCommand hbetween
  exact stream_law hframed (by decide)

/-! ## Staying inside `LineBuffer` -/

/-- The handler's use of its globals is in order when it takes `x`. -/
structure SafeByte (m : Mcu) (x : Byte) : Prop where
  inside : x = openBrace ∨ 0 < m.bufferlength → m.bufferlength < lineBufferSize
  noUnderflow : 0 < m.bufferlength → x = closeBrace → 0 < m.bracketsCount
  noWrap : x = openBrace → m.bracketsCount + 1 < 2 ^ 16

/-- Every byte of the stream finds the handler in order. -/
def SafeStream (s : List Byte) : Prop :=
  ∀ (p : List Byte) (x : Byte) (rest : List Byte) (m : Mcu) (calls : List Call),
    s = p ++ x :: rest → receive powerUp p = some (m, calls) → SafeByte m x

/-- Somewhere a frame is opened that 200 bytes do not close, and another byte follows. -/
def Overlong (s : List Byte) : Prop :=
  ∃ (pre : List Byte) (fs : List (List Byte)) (q : List Byte) (x : Byte) (rest : List Byte),
    s = pre ++ (q ++ x :: rest) ∧ Framed braces pre fs ∧ IsOpen braces q
      ∧ q.length = lineBufferSize

theorem safeByte_iff {m : Mcu} {q : List Byte} (h : Holds m q) (x : Byte) :
    SafeByte m x ↔ (Stored q x → q.length < lineBufferSize) := by
  have hlen := h.length
  have hcnt := h.count
  have hfit := h.fits
  have hsize : lineBufferSize = 200 := rfl
  have hpos : 0 < m.bufferlength ↔ q ≠ [] := by rw [hlen]; exact List.length_pos_iff
  constructor
  · intro hs hst
    rw [← hlen]
    exact hs.inside (hst.imp id hpos.mpr)
  · intro hroom
    refine ⟨fun hst => ?_, fun hb _ => ?_, fun _ => ?_⟩
    · rw [hlen]; exact hroom (hst.imp id hpos.mp)
    · have := (h.pending.resolve_left (hpos.mp hb)).depth_pos
      omega
    · have := depth_le_length braces q
      omega

/-- The first byte that does not fit. -/
theorem exists_not_fits {s : List Byte} (h : ¬ Fits [] s) :
    ∃ p x rest, s = p ++ x :: rest ∧ Fits [] p ∧ Stored (scan braces [] p).1 x
      ∧ (scan braces [] p).1.length = lineBufferSize := by
  induction s using List.reverseRecOn with
  | nil => exact absurd trivial h
  | append_singleton s x ih =>
      -- it is this byte, or one before it
      by_cases hs : Fits [] s
      · obtain ⟨m, _, hm⟩ := receive_fits holds_powerUp hs
        have hnot : ¬ (Stored (scan braces [] s).1 x → (scan braces [] s).1.length < lineBufferSize) :=
          fun hr => h ((fits_append [] s [x]).mpr ⟨hs, hr, trivial⟩)
        obtain ⟨hst, hge⟩ := Classical.not_imp.mp hnot
        have := hm.fits
        exact ⟨s, x, [], rfl, hs, hst, by omega⟩
      · obtain ⟨p, y, rest, hp, h1, h2, h3⟩ := ih hs
        exact ⟨p, y, rest ++ [x], by rw [hp]; simp, h1, h2, h3⟩

theorem not_fits_iff_overlong (s : List Byte) : ¬ Fits [] s ↔ Overlong s := by
  constructor
  · intro h
    obtain ⟨p, x, rest, hs, _, _, hlen⟩ := exists_not_fits h
    obtain ⟨pre, hpre, hfr⟩ := scan_split braces p
    have hpend : Pending braces (scan braces [] p).1 := scan_pending braces (Or.inl rfl) p
    refine ⟨pre, _, (scan braces [] p).1, x, rest, ?_, hfr, hpend.resolve_left ?_, hlen⟩
    · rw [hs, ← List.append_assoc, ← hpre]
    · intro h0; rw [h0] at hlen; exact absurd hlen (by decide)
  · rintro ⟨pre, fs, q, x, rest, hs, hpre, hq, hlen⟩ hfit
    rw [hs, fits_append, scan_framed braces hpre, fits_append, scan_open braces hq] at hfit
    have : q.length < lineBufferSize := hfit.2.2.1 (Or.inr hq.ne_nil)
    omega

theorem safeStream_iff_fits (s : List Byte) : SafeStream s ↔ Fits [] s := by
  constructor
  · intro hsafe
    by_contra hn
    obtain ⟨p, x, rest, hs, hp, hst, hlen⟩ := exists_not_fits hn
    obtain ⟨m, hrec, hm⟩ := receive_fits holds_powerUp hp
    have := (safeByte_iff hm x).mp (hsafe p x rest m _ hs hrec) hst
    omega
  · intro hfit p x rest m calls hs hrec
    obtain ⟨_, _, hm⟩ := receive_spec holds_powerUp hrec
    rw [hs, fits_append] at hfit
    exact (safeByte_iff hm x).mpr hfit.2.1

/--
**Exactly which streams stay inside `LineBuffer`.** All of them, except those that
leave a frame open for 200 bytes and then go on. The counter of open braces is
never the problem.
-/
theorem safeStream_iff (s : List Byte) : SafeStream s ↔ ¬ Overlong s := by
  rw [safeStream_iff_fits, ← not_fits_iff_overlong, not_not]

/-- 201 opening braces store one of them behind the buffer. -/
theorem not_safeStream_braces : ¬ SafeStream (List.replicate 201 openBrace) := by
  rw [safeStream_iff_fits, not_fits_iff_overlong]
  refine ⟨[], [], List.replicate 200 openBrace, openBrace, [], ?_, Framed.noise (by simp [IsNoise]),
    ?_, List.length_replicate⟩
  · rw [← List.replicate_succ']; rfl
  · refine ⟨rfl, ?_⟩
    intro p s hp hne
    have hall : p = List.replicate p.length openBrace := by
      refine List.eq_replicate_iff.mpr ⟨rfl, fun x hx => ?_⟩
      have : x ∈ List.replicate 200 openBrace := by rw [hp]; exact List.mem_append_left _ hx
      exact List.eq_of_mem_replicate this
    have hd : ∀ n : Nat, depth braces (List.replicate n openBrace) = n := by
      intro n
      induction n with
      | zero => rfl
      | succ n ih =>
          have hw : weight braces openBrace = 1 := weight_opening braces
          rw [List.replicate_succ, depth_cons, ih, hw]; omega
    rw [hall, hd]
    have := List.length_pos_of_ne_nil hne
    omega

/-! ## After noise -/

/-- `n` copies of a command, one after another. -/
def copies (n : Nat) (c : List Byte) : List Byte := (List.replicate n c).flatten

theorem copies_succ (n : Nat) (c : List Byte) : copies (n + 1) c = copies n c ++ c := by
  rw [copies, List.replicate_succ', List.flatten_append]; simp [copies]

/-- The `k`-th copy of `c` after `p` is dispatched as that command. -/
def Dispatched (p c : List Byte) (k : Nat) : Prop :=
  ∃ m calls m', receive powerUp (p ++ copies k c) = some (m, calls)
    ∧ receive m c = some (m', [⟨padded c, c.length, answer c⟩])

/-- `n` copies of `c` after `p` stay inside the buffer, and one of them is dispatched. -/
def Recovers (p c : List Byte) (n : Nat) : Prop :=
  (receive powerUp (p ++ copies n c)).isSome ∧ ∃ k, k < n ∧ Dispatched p c k

/-- Copies of a command behind an open frame only lengthen it. -/
theorem isOpen_append_copies {q c : List Byte} (hq : IsOpen braces q) (hc : IsFrame braces c)
    (n : Nat) : IsOpen braces (q ++ copies n c) := by
  induction n with
  | zero => rw [show copies 0 c = [] from rfl, List.append_nil]; exact hq
  | succ n ih => rw [copies_succ, ← List.append_assoc]; exact ih.append_frame hc

theorem scan_copies_of_open {p q c : List Byte} {fs : List (List Byte)}
    (hp : scan braces [] p = (q, fs)) (hq : IsOpen braces q) (hc : IsFrame braces c) (n : Nat) :
    scan braces [] (p ++ copies n c) = (q ++ copies n c, fs) := by
  obtain ⟨pre, hpre, hfr⟩ := scan_split braces p
  rw [hp] at hpre hfr
  rw [hpre, List.append_assoc, scan_append, scan_framed braces hfr,
    scan_open braces (isOpen_append_copies hq hc n), List.append_nil]

/-- No copy is ever dispatched while a frame from before is open. -/
theorem not_dispatched_of_open {p q c : List Byte} {fs : List (List Byte)}
    (hp : scan braces [] p = (q, fs)) (hq : IsOpen braces q) (hc : IsFrame braces c) (k : Nat) :
    ¬ Dispatched p c k := by
  rintro ⟨m, calls, m', hrec, hcall⟩
  obtain ⟨_, _, hm⟩ := receive_spec holds_powerUp hrec
  obtain ⟨_, hcs, _⟩ := receive_spec hm hcall
  have h1 := scan_copies_of_open hp hq hc k
  have h2 := scan_copies_of_open hp hq hc (k + 1)
  rw [copies_succ, ← List.append_assoc, scan_append, h1] at h2
  have h3 : (scan braces (q ++ copies k c) c).2 = [] := by
    have := congrArg Prod.snd h2
    simpa using this
  rw [h1, h3] at hcs
  exact absurd hcs (by simp)

/-- After closed noise the very first copy is dispatched. -/
theorem recovers_of_closed {p c : List Byte} {fs : List (List Byte)}
    (hp : Framed braces p fs) (hrec : (receive powerUp p).isSome)
    (hc : IsFrame braces c) (hl : c.length ≤ lineBufferSize) : Recovers p c 1 := by
  have hfit := (receive_isSome_iff holds_powerUp p).mp hrec
  have hcp : copies 1 c = c := by simp [copies]
  refine ⟨?_, 0, by omega, ?_⟩
  · rw [receive_isSome_iff holds_powerUp, fits_append, scan_framed braces hp, hcp]
    exact ⟨hfit, fits_frame hc hl⟩
  · obtain ⟨m, h1, hm⟩ := receive_fits holds_powerUp hfit
    rw [scan_framed braces hp] at hm
    obtain ⟨m', h2, _⟩ := receive_fits hm (fits_frame hc hl)
    rw [scan_frame braces hc] at h2
    have h0 : p ++ copies 0 c = p := List.append_nil p
    exact ⟨m, _, m', by rw [h0]; exact h1, h2⟩

theorem commands_isFrame {c : List Byte} (hc : c ∈ commands) :
    IsFrame braces c ∧ c.length ≤ lineBufferSize := by
  simp only [commands, List.mem_cons, List.not_mem_nil, or_false] at hc
  rcases hc with rfl | rfl | rfl
  · exact ⟨isFrame_openCommand, by decide⟩
  · exact ⟨isFrame_closeCommand, by decide⟩
  · exact ⟨isFrame_toggleCommand, by decide⟩

/--
**When the receiver recovers.** After a byte sequence received inside the buffer a
command gets through exactly when the sequence left no frame open; there is no way
back from a brace too many.
-/
theorem recovers_iff (p c : List Byte) (hc : c ∈ commands) :
    (∃ n, Recovers p c n)
      ↔ (receive powerUp p).isSome ∧ ∃ fs, Framed braces p fs := by
  obtain ⟨hcf, hcl⟩ := commands_isFrame hc
  constructor
  · rintro ⟨n, hsome, k, _, hk⟩
    have hfit := (receive_isSome_iff holds_powerUp _).mp hsome
    have hp := (receive_isSome_iff holds_powerUp p).mpr ((fits_append [] p _).mp hfit).1
    obtain ⟨pre, hpre, hfr⟩ := scan_split braces p
    have hpend : Pending braces (scan braces [] p).1 := scan_pending braces (Or.inl rfl) p
    -- a frame left open after `p` would never let a copy through
    rcases hpend with h0 | ho
    · rw [h0, List.append_nil] at hpre
      rw [← hpre] at hfr
      exact ⟨hp, _, hfr⟩
    · exact absurd hk (not_dispatched_of_open rfl ho hcf k)
  · rintro ⟨hsome, fs, hp⟩
    exact ⟨1, recovers_of_closed hp hsome hcf hcl⟩

/-- A complete `CLOSE` command in the noise does no harm. -/
theorem recovers_iff_close :
    (∃ n, Recovers closeCommand openCommand n)
      ↔ (receive powerUp closeCommand).isSome ∧ ∃ fs, Framed braces closeCommand fs :=
  recovers_iff closeCommand openCommand (by simp [commands])

/-- One stray opening brace, and no number of `OPEN` commands is ever understood. -/
theorem not_recovers_brace : ¬ ∃ n, Recovers [openBrace] openCommand n := by
  rintro ⟨n, _, k, _, hk⟩
  have hp : scan braces [] [openBrace] = ([openBrace], []) := by decide
  exact not_dispatched_of_open hp (isOpen_singleton braces) isFrame_openCommand k hk

end HandlingModule.Firmware
