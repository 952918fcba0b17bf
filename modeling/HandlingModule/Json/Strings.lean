import Mathlib.Algebra.GroupWithZero.Nat
import HandlingModule.Json.Lexeme

/-!
# The value of a string (`to_unicode`, `get_string`)

`get_string` goes over the bytes between the quotation marks; on the text of a list of
pieces it does what `decode` says for the pieces (`getString_stringText`). A string may
spell a character in several ways, and whichever is chosen, the value is the UTF-8 of the
characters (`decode_spells`). An escape that is half of a surrogate pair is no character:
a high half alone is an error, a low half alone becomes three bytes that are no UTF-8.
-/

namespace HandlingModule.AIO

namespace Lexer

/-- What the lexer and the parser throw, with its text. -/
inductive ParseError where
  | invalidArgument (what : List LexerChar)
  | outOfRange (what : List LexerChar)
  deriving DecidableEq

def missingLowSurrogate : ParseError := .invalidArgument (ascii "missing low surrogate")

def wrongLowSurrogate : ParseError := .invalidArgument (ascii "missing or wrong low surrogate")

def codePointRange : ParseError := .outOfRange (ascii "code points above 0x10FFFF are invalid")

def isHighSurrogate (codepoint : Nat) : Bool := decide (0xD800 ≤ codepoint) && decide (codepoint ≤ 0xDBFF)

def isLowSurrogate (codepoint : Nat) : Bool := decide (0xDC00 ≤ codepoint) && decide (codepoint ≤ 0xDFFF)

/-- The bytes of a code point. -/
def utf8Bytes (codepoint : Nat) : Except ParseError (List LexerChar) :=
  if codepoint < 0x80 then .ok [codepoint.toUInt8]
  else if codepoint ≤ 0x7FF then
    .ok [(0xC0 ||| ((codepoint >>> 6) &&& 0x1F)).toUInt8, (0x80 ||| (codepoint &&& 0x3F)).toUInt8]
  else if codepoint ≤ 0xFFFF then
    .ok [(0xE0 ||| ((codepoint >>> 12) &&& 0x0F)).toUInt8,
      (0x80 ||| ((codepoint >>> 6) &&& 0x3F)).toUInt8, (0x80 ||| (codepoint &&& 0x3F)).toUInt8]
  else if codepoint ≤ 0x10FFFF then
    .ok [(0xF0 ||| ((codepoint >>> 18) &&& 0x07)).toUInt8,
      (0x80 ||| ((codepoint >>> 12) &&& 0x3F)).toUInt8,
      (0x80 ||| ((codepoint >>> 6) &&& 0x3F)).toUInt8, (0x80 ||| (codepoint &&& 0x3F)).toUInt8]
  else .error codePointRange

/-- `to_unicode` -/
def toUnicode (codepoint1 codepoint2 : Nat) : Except ParseError (List LexerChar) :=
  if isHighSurrogate codepoint1 then
    if isLowSurrogate codepoint2 then
      utf8Bytes ((codepoint1 <<< 10) + codepoint2 - 0x35FDC00)
    else .error wrongLowSurrogate
  else utf8Bytes codepoint1

/-- The value of a hexadecimal digit. -/
def hexValue (b : LexerChar) : Nat :=
  if isDigit b then b.toNat - 0x30 else if b ≤ 0x46 then b.toNat - 0x37 else b.toNat - 0x57

/-- `std::strtoul` with base 16, on hexadecimal digits. -/
def strtoul (ds : List LexerChar) : Nat := ds.foldl (fun n d => 16 * n + hexValue d) 0

/-- The escapes with one letter. -/
def unescape (c : LexerChar) : List LexerChar :=
  if c = 't'.toUInt8 then [0x09]
  else if c = 'b'.toUInt8 then [0x08]
  else if c = 'f'.toUInt8 then [0x0C]
  else if c = 'n'.toUInt8 then [0x0A]
  else if c = 'r'.toUInt8 then [0x0D]
  else if c = reverseSolidus then [reverseSolidus]
  else if c = '/'.toUInt8 then ['/'.toUInt8]
  else if c = quotationMark then [quotationMark]
  -- the `switch` has no other case
  else []

/--
The loop of `get_string`, on what is left between the quotation marks, with a bound on
the number of its rounds. Behind what is left stands the closing quotation mark.
-/
def getStringLoop : Nat → List LexerChar → Except ParseError (List LexerChar)
  | 0, _ => .ok []
  | _ + 1, [] => .ok []
  | n + 1, c :: i =>
      if c ≠ reverseSolidus then (getStringLoop n i).map (c :: ·)
      else
        let e := i.headD quotationMark
        let i := i.tail
        if e ≠ 'u'.toUInt8 then (getStringLoop n i).map (unescape e ++ ·)
        else
          let codepoint := strtoul (i.take 4)
          if isHighSurrogate codepoint then
            if (i.drop 4).take 2 ≠ [reverseSolidus, 'u'.toUInt8] then .error missingLowSurrogate
            else do
              let bytes ← toUnicode codepoint (strtoul ((i.drop 6).take 4))
              let value ← getStringLoop n (i.drop 10)
              return bytes ++ value
          else do
            let bytes ← toUnicode codepoint 0
            let value ← getStringLoop n (i.drop 4)
            return bytes ++ value

/-- The bytes between the quotation marks. -/
def betweenQuotes (token_string : List LexerChar) : List LexerChar := token_string.tail.dropLast

/-- `get_string`, on the text of the token. -/
def getString (token_string : List LexerChar) : Except ParseError (List LexerChar) :=
  getStringLoop (betweenQuotes token_string).length (betweenQuotes token_string)

/-! ## Pieces -/

/-- What a piece stands for, and the pieces after it: two of them may go together. -/
def decode : List Piece → Except ParseError (List LexerChar)
  | [] => .ok []
  | .plain b :: ps => (decode ps).map (b :: ·)
  | .escape c :: ps => (decode ps).map (unescape c ++ ·)
  | .unicode h₁ h₂ h₃ h₄ :: ps =>
      let codepoint := strtoul [h₁, h₂, h₃, h₄]
      if isHighSurrogate codepoint then
        match ps with
        | .unicode g₁ g₂ g₃ g₄ :: ps => do
            let bytes ← toUnicode codepoint (strtoul [g₁, g₂, g₃, g₄])
            let value ← decode ps
            return bytes ++ value
        | _ => .error missingLowSurrogate
      else do
        let bytes ← toUnicode codepoint 0
        let value ← decode ps
        return bytes ++ value

theorem isPlain_ne {b : LexerChar} (h : isPlain b = true) : b ≠ reverseSolidus := by
  rintro rfl
  exact absurd h (by decide)

theorem isEscape_ne {c : LexerChar} (h : isEscape c = true) : c ≠ 'u'.toUInt8 := by
  rintro rfl
  exact absurd h (by decide)

theorem getStringLoop_plain {b : LexerChar} (h : isPlain b = true) (n : Nat) (rest : List LexerChar) :
    getStringLoop (n + 1) (b :: rest) = (getStringLoop n rest).map (b :: ·) := by
  rw [getStringLoop, if_pos (isPlain_ne h)]

theorem getStringLoop_escape {c : LexerChar} (h : isEscape c = true) (n : Nat)
    (rest : List LexerChar) :
    getStringLoop (n + 1) (reverseSolidus :: c :: rest)
      = (getStringLoop n rest).map (unescape c ++ ·) := by
  rw [getStringLoop, if_neg (by simp)]
  exact if_pos (isEscape_ne h)

/-- An escape with digits that is followed by the text of other pieces. -/
theorem getStringLoop_unicode (n : Nat) (h₁ h₂ h₃ h₄ : LexerChar) (rest : List LexerChar) :
    getStringLoop (n + 1) (reverseSolidus :: 'u'.toUInt8 :: h₁ :: h₂ :: h₃ :: h₄ :: rest)
      = if isHighSurrogate (strtoul [h₁, h₂, h₃, h₄]) then
          if rest.take 2 ≠ [reverseSolidus, 'u'.toUInt8] then .error missingLowSurrogate
          else do
            let bytes ← toUnicode (strtoul [h₁, h₂, h₃, h₄]) (strtoul ((rest.drop 2).take 4))
            let value ← getStringLoop n (rest.drop 6)
            return bytes ++ value
        else do
          let bytes ← toUnicode (strtoul [h₁, h₂, h₃, h₄]) 0
          let value ← getStringLoop n rest
          return bytes ++ value := by
  rw [getStringLoop, if_neg (by simp)]
  rfl

/-- Only an escape with digits begins with a reverse solidus and a `u`. -/
theorem take_text {p : Piece} (h : p.Ok) (rest : List LexerChar) :
    (p.text ++ rest).take 2 = [reverseSolidus, 'u'.toUInt8]
      ↔ ∃ g₁ g₂ g₃ g₄, p = .unicode g₁ g₂ g₃ g₄ := by
  cases p with
  | plain b =>
      have hb : b ≠ reverseSolidus := isPlain_ne h
      cases rest <;> simp [Piece.text, hb]
  | escape c =>
      have hc : c ≠ 'u'.toUInt8 := isEscape_ne h
      simp [Piece.text, hc]
  | unicode g₁ g₂ g₃ g₄ => simp [Piece.text]

/-- **`get_string` goes by pieces.** -/
theorem getStringLoop_pieces : ∀ {n : Nat} {ps : List Piece}, Pieces ps →
    (ps.flatMap Piece.text).length ≤ n → getStringLoop n (ps.flatMap Piece.text) = decode ps
  | n, [], _, _ => by cases n <;> rfl
  | 0, .plain b :: ps, _, hn => absurd hn (by simp [Piece.text])
  | 0, .escape c :: ps, _, hn => absurd hn (by simp [Piece.text])
  | 0, .unicode h₁ h₂ h₃ h₄ :: ps, _, hn => absurd hn (by simp [Piece.text])
  | n + 1, .plain b :: ps, h, hn => by
      have hb : isPlain b = true := h _ (List.mem_cons_self ..)
      have ih := getStringLoop_pieces (n := n) (fun p hp => h p (List.mem_cons_of_mem _ hp))
        (by simp [Piece.text] at hn ⊢; omega)
      rw [decode, ← ih]
      exact getStringLoop_plain hb n _
  | n + 1, .escape c :: ps, h, hn => by
      have hc : isEscape c = true := h _ (List.mem_cons_self ..)
      have ih := getStringLoop_pieces (n := n) (fun p hp => h p (List.mem_cons_of_mem _ hp))
        (by simp [Piece.text] at hn ⊢; omega)
      rw [decode, ← ih]
      exact getStringLoop_escape hc n _
  | n + 1, .unicode h₁ h₂ h₃ h₄ :: ps, h, hn => by
      have hps : Pieces ps := fun p hp => h p (List.mem_cons_of_mem _ hp)
      have hloop := getStringLoop_unicode n h₁ h₂ h₃ h₄ (ps.flatMap Piece.text)
      rw [List.flatMap_cons]
      refine hloop.trans ?_
      by_cases hhigh : isHighSurrogate (strtoul [h₁, h₂, h₃, h₄]) = true
      · rw [if_pos hhigh]
        cases ps with
        | nil => rw [if_pos (by simp)]; simp only [decode, hhigh, if_true]
        | cons p ps =>
            rw [List.flatMap_cons]
            by_cases hp : ∃ g₁ g₂ g₃ g₄, p = .unicode g₁ g₂ g₃ g₄
            · -- the two escapes go together
              obtain ⟨g₁, g₂, g₃, g₄, rfl⟩ := hp
              have ih := getStringLoop_pieces (n := n)
                (fun p hp => hps p (List.mem_cons_of_mem _ hp))
                (by simp [Piece.text] at hn ⊢; omega)
              rw [if_neg (by simp [Piece.text])]
              simp only [decode, hhigh, if_true, ← ih]
              rfl
            · rw [if_pos (fun h2 => hp ((take_text (hps p (List.mem_cons_self ..)) _).mp h2))]
              cases p with
              | unicode g₁ g₂ g₃ g₄ => exact absurd ⟨_, _, _, _, rfl⟩ hp
              | plain b => simp only [decode, hhigh, if_true]
              | escape c => simp only [decode, hhigh, if_true]
      · have ih := getStringLoop_pieces (n := n) hps (by simp [Piece.text] at hn ⊢; omega)
        rw [if_neg hhigh, ih]
        cases ps with
        | nil => simp [decode, hhigh]
        | cons p ps => cases p <;> simp [decode, hhigh]

theorem betweenQuotes_stringText (ps : List Piece) :
    betweenQuotes (stringText ps) = ps.flatMap Piece.text := by
  rw [betweenQuotes, stringText, List.tail_cons, List.dropLast_concat]

theorem getString_stringText {ps : List Piece} (h : Pieces ps) : getString (stringText ps) = decode ps := by
  rw [getString, betweenQuotes_stringText]
  exact getStringLoop_pieces h (Nat.le_refl _)

/-! ## Characters -/

/-- A few bits under a leading pattern. -/
theorem lead_or (a k s v : Nat) :
    (a <<< k) ||| ((v >>> s) &&& (2 ^ k - 1)) = v / 2 ^ s % 2 ^ k + a <<< k := by
  rw [Nat.and_two_pow_sub_one_eq_mod, Nat.shiftRight_eq_div_pow,
    ← Nat.shiftLeft_add_eq_or_of_lt (Nat.mod_lt _ (Nat.two_pow_pos k)), Nat.add_comm]

theorem toNat_le (c : Char) : c.toNat ≤ 0x10FFFF := by
  rcases c.valid with h | h
  · have h : c.toNat < 0xD800 := h
    omega
  · have h : c.toNat < 0x110000 := h.2
    omega

theorem not_surrogate (c : Char) : c.toNat < 0xD800 ∨ 0xDFFF < c.toNat := by
  rcases c.valid with h | h
  · exact Or.inl h
  · exact Or.inr h.1

/-- The bytes of a character are its UTF-8. -/
theorem utf8Bytes_char (c : Char) : utf8Bytes c.toNat = .ok (String.utf8EncodeChar c) := by
  have hv : c.val.toNat = c.toNat := rfl
  have h6 : 0x80 ||| ((c.toNat >>> 6) &&& 0x3F) = c.toNat / 64 % 0x40 + 0x80 :=
    lead_or 2 6 6 c.toNat
  have h12 : 0x80 ||| ((c.toNat >>> 12) &&& 0x3F) = c.toNat / 4096 % 0x40 + 0x80 :=
    lead_or 2 6 12 c.toNat
  have hlast : 0x80 ||| (c.toNat &&& 0x3F) = c.toNat % 0x40 + 0x80 := by
    simpa using lead_or 2 6 0 c.toNat
  have hC0 : 0xC0 ||| ((c.toNat >>> 6) &&& 0x1F) = c.toNat / 64 % 0x20 + 0xC0 :=
    lead_or 6 5 6 c.toNat
  have hE0 : 0xE0 ||| ((c.toNat >>> 12) &&& 0x0F) = c.toNat / 4096 % 0x10 + 0xE0 :=
    lead_or 14 4 12 c.toNat
  have hF0 : 0xF0 ||| ((c.toNat >>> 18) &&& 0x07) = c.toNat / 262144 % 0x08 + 0xF0 :=
    lead_or 30 3 18 c.toNat
  unfold utf8Bytes String.utf8EncodeChar
  rw [hv, hC0, hE0, hF0, hlast, h6, h12]
  by_cases h1 : c.toNat ≤ 0x7F
  · rw [if_pos (by omega), if_pos h1]
  · rw [if_neg (by omega), if_neg h1]
    by_cases h2 : c.toNat ≤ 0x7FF
    · rw [if_pos h2, if_pos h2]
    · rw [if_neg h2, if_neg h2]
      by_cases h3 : c.toNat ≤ 0xFFFF
      · rw [if_pos h3, if_pos h3]
      · rw [if_neg h3, if_neg h3, if_pos (toNat_le c)]

/-- A character by one escape. -/
theorem toUnicode_char (c : Char) : toUnicode c.toNat 0 = .ok (String.utf8EncodeChar c) := by
  have hnot : ¬ isHighSurrogate c.toNat = true := by
    have := not_surrogate c
    simp only [isHighSurrogate, Bool.and_eq_true, decide_eq_true_eq]
    omega
  rw [toUnicode, if_neg hnot, utf8Bytes_char]

/-- The halves of a character that needs two escapes. -/
def highHalf (c : Char) : Nat := 0xD800 + (c.toNat - 0x10000) / 0x400
def lowHalf (c : Char) : Nat := 0xDC00 + (c.toNat - 0x10000) % 0x400

theorem isHighSurrogate_highHalf {c : Char} : isHighSurrogate (highHalf c) = true := by
  have := toNat_le c
  refine Bool.and_eq_true_iff.mpr ⟨decide_eq_true ?_, decide_eq_true ?_⟩ <;> unfold highHalf <;> omega

/-- And by two. -/
theorem toUnicode_halves {c : Char} (h : 0x10000 ≤ c.toNat) :
    toUnicode (highHalf c) (lowHalf c) = .ok (String.utf8EncodeChar c) := by
  have hlow : isLowSurrogate (lowHalf c) = true := by
    refine Bool.and_eq_true_iff.mpr ⟨decide_eq_true ?_, decide_eq_true ?_⟩ <;> unfold lowHalf <;> omega
  have hpoint : (highHalf c <<< 10) + lowHalf c - 0x35FDC00 = c.toNat := by
    rw [Nat.shiftLeft_eq, highHalf, lowHalf]
    omega
  rw [toUnicode, if_pos isHighSurrogate_highHalf, if_pos hlow, hpoint, utf8Bytes_char]

/-- The pieces spell the characters: as they are, by a letter, by one escape or by two. -/
inductive Spells : List Piece → List Char → Prop where
  | nil : Spells [] []
  | plain {c : Char} {ps : List Piece} {cs : List Char} :
      0x20 ≤ c.toNat → c.toNat ≠ 0x22 → c.toNat ≠ 0x5C → Spells ps cs →
      Spells ((String.utf8EncodeChar c).map Piece.plain ++ ps) (c :: cs)
  | escape {e : LexerChar} {c : Char} {ps : List Piece} {cs : List Char} :
      isEscape e = true → unescape e = String.utf8EncodeChar c → Spells ps cs →
      Spells (.escape e :: ps) (c :: cs)
  | unicode {h₁ h₂ h₃ h₄ : LexerChar} {c : Char} {ps : List Piece} {cs : List Char} :
      (Piece.unicode h₁ h₂ h₃ h₄).Ok → strtoul [h₁, h₂, h₃, h₄] = c.toNat → Spells ps cs →
      Spells (.unicode h₁ h₂ h₃ h₄ :: ps) (c :: cs)
  | pair {h₁ h₂ h₃ h₄ g₁ g₂ g₃ g₄ : LexerChar} {c : Char} {ps : List Piece} {cs : List Char} :
      0x10000 ≤ c.toNat → (Piece.unicode h₁ h₂ h₃ h₄).Ok → (Piece.unicode g₁ g₂ g₃ g₄).Ok →
      strtoul [h₁, h₂, h₃, h₄] = highHalf c → strtoul [g₁, g₂, g₃, g₄] = lowHalf c → Spells ps cs →
      Spells (.unicode h₁ h₂ h₃ h₄ :: .unicode g₁ g₂ g₃ g₄ :: ps) (c :: cs)

theorem isPlain_of_le {b : LexerChar} (h : 0x80 ≤ b.toNat) : isPlain b = true := by
  have hne : ∀ {a : LexerChar}, a.toNat < 0x80 → b ≠ a := by
    rintro a ha rfl
    omega
  simp only [isPlain, Bool.and_eq_true, decide_eq_true_eq, bne_iff_ne, UInt8.le_iff_toNat_le]
  refine ⟨⟨?_, hne (by decide)⟩, hne (by decide)⟩
  have h20 : (0x20 : UInt8).toNat = 32 := rfl
  omega

/-- The bytes of a character above the controls stand for themselves. -/
theorem isPlain_utf8 {c : Char} (hlow : 0x20 ≤ c.toNat) (hq : c.toNat ≠ 0x22) (hr : c.toNat ≠ 0x5C) :
    ∀ b ∈ String.utf8EncodeChar c, isPlain b = true := by
  have hv : c.val.toNat = c.toNat := rfl
  have hmax := toNat_le c
  have hbyte : ∀ n, 0x80 ≤ n → n < 0x100 → isPlain (UInt8.ofNat n) = true := by
    intro n h1 h2
    refine isPlain_of_le ?_
    rw [UInt8.toNat_ofNat', Nat.mod_eq_of_lt h2]
    exact h1
  intro b hb
  unfold String.utf8EncodeChar at hb
  rw [hv] at hb
  dsimp only at hb
  split at hb
  · rename_i h1
    rw [List.mem_singleton.mp hb]
    have hof : (UInt8.ofNat c.toNat).toNat = c.toNat := by
      rw [UInt8.toNat_ofNat', Nat.mod_eq_of_lt (by omega)]
    have hne : ∀ {a : LexerChar}, c.toNat ≠ a.toNat → UInt8.ofNat c.toNat ≠ a := by
      rintro a ha rfl
      exact ha hof.symm
    simp only [isPlain, Bool.and_eq_true, decide_eq_true_eq, bne_iff_ne, UInt8.le_iff_toNat_le, hof]
    exact ⟨⟨hlow, hne hq⟩, hne hr⟩
  · -- the bytes of a longer one have their highest bit set
    obtain ⟨n, h1, h2, rfl⟩ : ∃ n, 0x80 ≤ n ∧ n < 0x100 ∧ b = UInt8.ofNat n := by
      split at hb
      · simp only [List.mem_cons, List.not_mem_nil, or_false] at hb
        rcases hb with rfl | rfl <;> exact ⟨_, by omega, by omega, rfl⟩
      · split at hb
        · simp only [List.mem_cons, List.not_mem_nil, or_false] at hb
          rcases hb with rfl | rfl | rfl <;> exact ⟨_, by omega, by omega, rfl⟩
        · simp only [List.mem_cons, List.not_mem_nil, or_false] at hb
          rcases hb with rfl | rfl | rfl | rfl <;> exact ⟨_, by omega, by omega, rfl⟩
    exact hbyte n h1 h2

theorem decode_plain (bs : List LexerChar) (ps : List Piece) :
    decode (bs.map Piece.plain ++ ps) = (decode ps).map (bs ++ ·) := by
  induction bs with
  | nil => cases h : decode ps <;> simp [Except.map, h]
  | cons b bs ih =>
      rw [List.map_cons, List.cons_append, decode, ih]
      cases decode ps <;> simp [Except.map]

/-- What spells characters is made of pieces, and its value is the bytes of the characters. -/
theorem decode_spells {ps : List Piece} {cs : List Char} (h : Spells ps cs) :
    Pieces ps ∧ decode ps = .ok (cs.flatMap String.utf8EncodeChar) := by
  induction h with
  | nil => exact ⟨fun _ hp => absurd hp List.not_mem_nil, rfl⟩
  | @plain c ps cs hlow hq hr _ ih =>
      refine ⟨?_, by rw [decode_plain, ih.2]; rfl⟩
      intro p hp
      rcases List.mem_append.mp hp with hp | hp
      · obtain ⟨b, hb, rfl⟩ := List.mem_map.mp hp
        exact isPlain_utf8 hlow hq hr b hb
      · exact ih.1 p hp
  | @escape e c ps cs he hc _ ih =>
      refine ⟨?_, by rw [decode, ih.2, hc]; rfl⟩
      intro p hp
      rcases List.mem_cons.mp hp with rfl | hp
      · exact he
      · exact ih.1 p hp
  | @unicode h₁ h₂ h₃ h₄ c ps cs hok hc _ ih =>
      refine ⟨?_, ?_⟩
      · intro p hp
        rcases List.mem_cons.mp hp with rfl | hp
        · exact hok
        · exact ih.1 p hp
      · have hnot : isHighSurrogate c.toNat = false := by
          have := not_surrogate c
          simp only [isHighSurrogate, Bool.and_eq_false_iff, decide_eq_false_iff_not]
          omega
        have hval : decode (.unicode h₁ h₂ h₃ h₄ :: ps)
            = (do
                let bytes ← toUnicode c.toNat 0
                let value ← decode ps
                return bytes ++ value) := by
          cases ps with
          | nil => simp [decode, hc, hnot]
          | cons p ps => cases p <;> simp [decode, hc, hnot]
        rw [hval, toUnicode_char, ih.2]
        rfl
  | @pair h₁ h₂ h₃ h₄ g₁ g₂ g₃ g₄ c ps cs hbig hok hok' hc hc' _ ih =>
      refine ⟨?_, ?_⟩
      · intro p hp
        rcases List.mem_cons.mp hp with rfl | hp
        · exact hok
        · rcases List.mem_cons.mp hp with rfl | hp
          · exact hok'
          · exact ih.1 p hp
      · simp only [decode, hc, hc', isHighSurrogate_highHalf, if_true, toUnicode_halves hbig, ih.2]
        rfl

/--
**A string that spells characters is their UTF-8**, however it spells each of them.
-/
theorem getString_spells {ps : List Piece} {cs : List Char} (h : Spells ps cs) :
    getString (stringText ps) = .ok (cs.flatMap String.utf8EncodeChar) :=
  (getString_stringText (decode_spells h).1).trans (decode_spells h).2

/-- A letter as it is, one by its digits, and a character that needs two escapes. -/
def spelledPieces : List Piece :=
  [.plain 'g'.toUInt8, .unicode '0'.toUInt8 '0'.toUInt8 'E'.toUInt8 '9'.toUInt8,
    .unicode 'd'.toUInt8 '8'.toUInt8 '3'.toUInt8 'd'.toUInt8,
    .unicode 'D'.toUInt8 'E'.toUInt8 '0'.toUInt8 '0'.toUInt8, .escape 'n'.toUInt8]

theorem spells_pieces : Spells spelledPieces ['g', Char.ofNat 0xE9, Char.ofNat 0x1F600, '\n'] := by
  have hok : ∀ p ∈ spelledPieces, p.Ok := by decide
  have hlast : Spells [.escape 'n'.toUInt8] ['\n'] := .escape (by decide) (by decide) .nil
  have hpair : Spells (spelledPieces.drop 2) [Char.ofNat 0x1F600, '\n'] :=
    .pair (by decide) (hok _ (by decide)) (hok _ (by decide)) (by decide) (by decide) hlast
  have hdigits : Spells spelledPieces.tail [Char.ofNat 0xE9, Char.ofNat 0x1F600, '\n'] :=
    .unicode (hok _ (by decide)) (by decide) hpair
  have hg : (0x20 ≤ 'g'.toNat ∧ 'g'.toNat ≠ 0x22) ∧ 'g'.toNat ≠ 0x5C := by decide
  exact .plain hg.1.1 hg.1.2 hg.2 hdigits

theorem getString_spells_pair :
    getString (stringText spelledPieces)
      = .ok (['g', Char.ofNat 0xE9, Char.ofNat 0x1F600, '\n'].flatMap String.utf8EncodeChar) :=
  getString_spells spells_pieces

end Lexer

end HandlingModule.AIO
