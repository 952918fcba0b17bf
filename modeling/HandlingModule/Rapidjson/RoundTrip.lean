import HandlingModule.Json.RoundTrip
import HandlingModule.Rapidjson.Reader

/-!
# What `Writer` writes, `Document::Parse` reads

A value is its own text's value again (`parseDocument_write`): integers of either sign
up to 64 bits, strings of any bytes, and every `double` whose text is read as itself.
-/

namespace HandlingModule.Rapidjson

open HandlingModule.AIO HandlingModule.AIO.Lexer

/-! ## Strings -/

/-- The digits of a control byte. -/
theorem hexDigit_control {c : LexerChar} (h : c < 0x20) :
    ∃ d₁ d₂, hexDigitValue (hexDigit (c >>> 4)) = some d₁
      ∧ hexDigitValue (hexDigit (c &&& 0x0F)) = some d₂ ∧ d₁ <<< 4 + d₂ = c.toUInt32 := by
  have h20 : (0x20 : UInt8).toNat = 0x20 := rfl
  have hlt : c.toNat < 0x20 := by
    rw [UInt8.lt_iff_toNat_lt, h20] at h
    exact h
  have hall : ∀ n < 0x20, hexDigitValue (hexDigit (UInt8.ofNat n >>> 4))
        = some ((UInt8.ofNat n).toUInt32 >>> 4)
      ∧ hexDigitValue (hexDigit (UInt8.ofNat n &&& 0x0F)) = some ((UInt8.ofNat n).toUInt32 &&& 0x0F)
      ∧ ((UInt8.ofNat n).toUInt32 >>> 4) <<< 4 + ((UInt8.ofNat n).toUInt32 &&& 0x0F)
        = (UInt8.ofNat n).toUInt32 := by decide
  obtain ⟨h₁, h₂, h₃⟩ := hall c.toNat hlt
  rw [UInt8.ofNat_toNat] at h₁ h₂ h₃
  exact ⟨_, _, h₁, h₂, h₃⟩

theorem parseHex_digit {c : LexerChar} {d : UInt32} (h : hexDigitValue c = some d) (i : Nat)
    (codepoint : UInt32) (is : Stream) :
    parseHex (i + 1) codepoint (c :: is) = parseHex i (codepoint <<< 4 + d) is := by
  rw [parseHex, take_cons, ok_bind]
  dsimp only
  rw [h]

theorem parseHex4_control {c : LexerChar} (h : c < 0x20) (is : Stream) :
    parseHex4 false (0x30 :: 0x30 :: hexDigit (c >>> 4) :: hexDigit (c &&& 0x0F) :: is)
      = .ok (c.toUInt32, false, is) := by
  obtain ⟨d₁, d₂, h₁, h₂, hsum⟩ := hexDigit_control h
  have hzero : hexDigitValue 0x30 = some 0 := by decide
  have hshift : ((0 : UInt32) <<< 4 + 0) <<< 4 + 0 = 0 := by decide
  have hhead : (0 : UInt32) <<< 4 + d₁ = d₁ := by simp
  rw [parseHex4, parseHex_digit hzero, parseHex_digit hzero, hshift, parseHex_digit h₁, hhead,
    parseHex_digit h₂, hsum]
  rfl

theorem encode_control {c : LexerChar} (h : c < 0x20) :
    encode c.toUInt32 = [c] ∧ ¬ (0xD800 ≤ c.toUInt32 ∧ c.toUInt32 ≤ 0xDBFF) := by
  have h20 : (0x20 : UInt8).toNat = 0x20 := rfl
  have h7F : (0x7F : UInt32).toNat = 0x7F := rfl
  have hD8 : (0xD800 : UInt32).toNat = 0xD800 := rfl
  have hlt : c.toNat < 0x20 := by
    rw [UInt8.lt_iff_toNat_lt, h20] at h
    exact h
  have hval : c.toUInt32.toNat = c.toNat := UInt8.toNat_toUInt32 c
  constructor
  · rw [encode, if_pos]
    · rw [UInt8.toUInt8_toUInt32]
    · rw [UInt32.le_iff_toNat_le, hval, h7F]
      omega
  · rintro ⟨hle, _⟩
    rw [UInt32.le_iff_toNat_le, hval, hD8] at hle
    omega

theorem parseUnicode_control {c : LexerChar} (h : c < 0x20) (is : Stream) :
    parseUnicode false (0x30 :: 0x30 :: hexDigit (c >>> 4) :: hexDigit (c &&& 0x0F) :: is)
      = .ok ([c], false, is) := by
  obtain ⟨hbytes, hsurrogate⟩ := encode_control h
  rw [parseUnicode, parseHex4_control h, ok_bind]
  dsimp only
  rw [if_neg hsurrogate, hbytes]
  rfl

theorem escapeChar_u {c : LexerChar} (h : escapeChar c = some 'u'.toUInt8) : c < 0x20 := by
  unfold escapeChar at h
  repeat (split at h; · first | assumption | exact absurd h (by decide))
  exact absurd h (by simp)

theorem escapeChar_letter {c e : LexerChar} (h : escapeChar c = some e) (he : e ≠ 'u'.toUInt8) :
    unescapeChar e = some c := by
  unfold escapeChar at h
  repeat
    (split at h
     · subst_vars
       rw [← Option.some.inj h]
       first | decide | exact absurd (Option.some.inj h).symm he)
  exact absurd h (by simp)

theorem escapeChar_none {c : LexerChar} (h : escapeChar c = none) :
    c ≠ reverseSolidus ∧ c ≠ quotationMark ∧ ¬ c < 0x20 := by
  unfold escapeChar at h
  repeat (split at h; · exact absurd h (by simp))
  rename_i hcontrol hquote hsolidus
  exact ⟨hsolidus, hquote, hcontrol⟩

theorem parseStringLoop_escape {e b : LexerChar} (h : unescapeChar e = some b) (n : Nat)
    (os : List LexerChar) (is : Stream) :
    parseStringLoop (n + 1) false os (reverseSolidus :: e :: is)
      = parseStringLoop n false (os ++ [b]) is := by
  rw [parseStringLoop, peek_cons, ok_bind, take_cons, ok_bind]
  dsimp only
  rw [if_pos rfl, take_cons, ok_bind]
  dsimp only
  rw [h]

theorem parseStringLoop_unicode {bytes : List LexerChar} {is is' : Stream}
    (h : parseUnicode false is = .ok (bytes, false, is')) (n : Nat) (os : List LexerChar) :
    parseStringLoop (n + 1) false os (reverseSolidus :: 'u'.toUInt8 :: is)
      = parseStringLoop n false (os ++ bytes) is' := by
  have hu : unescapeChar 'u'.toUInt8 = none := by decide
  rw [parseStringLoop, peek_cons, ok_bind, take_cons, ok_bind]
  dsimp only
  rw [if_pos rfl, take_cons, ok_bind]
  dsimp only
  rw [hu]
  dsimp only
  rw [if_pos rfl, h, ok_bind]

theorem parseStringLoop_plain {c : LexerChar} (hsolidus : c ≠ reverseSolidus)
    (hquote : c ≠ quotationMark) (hcontrol : ¬ c < 0x20) (n : Nat) (os : List LexerChar)
    (is : Stream) :
    parseStringLoop (n + 1) false os (c :: is) = parseStringLoop n false (os ++ [c]) is := by
  rw [parseStringLoop, peek_cons, ok_bind, take_cons, ok_bind]
  dsimp only
  rw [if_neg hsolidus, if_neg hquote, if_neg hcontrol]

/-- What is written for a byte is read as the byte. -/
theorem parseStringLoop_writeChar (c : LexerChar) (n : Nat) (os : List LexerChar) (is : Stream) :
    parseStringLoop (n + 1) false os (writeChar c ++ is)
      = parseStringLoop n false (os ++ [c]) is := by
  unfold writeChar
  cases he : escapeChar c with
  | none =>
      obtain ⟨hsolidus, hquote, hcontrol⟩ := escapeChar_none he
      exact parseStringLoop_plain hsolidus hquote hcontrol n os is
  | some e =>
      by_cases hu : e = 'u'.toUInt8
      · subst hu
        exact parseStringLoop_unicode (parseUnicode_control (escapeChar_u he) is) n os
      · dsimp only
        rw [if_neg hu]
        exact parseStringLoop_escape (escapeChar_letter he hu) n os is

theorem parseStringLoop_written (bs : List LexerChar) {n : Nat} (hn : bs.length < n)
    (os : List LexerChar) (is : Stream) :
    parseStringLoop n false os (bs.flatMap writeChar ++ quotationMark :: is)
      = .ok (os ++ bs, is) := by
  induction bs generalizing n os with
  | nil =>
      obtain ⟨n, rfl⟩ : ∃ m, n = m + 1 := ⟨n - 1, by simp at hn; omega⟩
      rw [List.append_nil]
      rfl
  | cons c bs ih =>
      obtain ⟨n, rfl⟩ : ∃ m, n = m + 1 := ⟨n - 1, by simp at hn; omega⟩
      rw [List.flatMap_cons, List.append_assoc, parseStringLoop_writeChar,
        ih (by simp at hn; omega), List.append_assoc]
      rfl

theorem length_writeChar (c : LexerChar) : 1 ≤ (writeChar c).length := by
  unfold writeChar
  cases escapeChar c <;> simp

theorem length_flatMap_writeChar (bs : List LexerChar) :
    bs.length ≤ (bs.flatMap writeChar).length := by
  induction bs with
  | nil => exact Nat.le_refl 0
  | cons c bs ih =>
      have := length_writeChar c
      rw [List.flatMap_cons, List.length_append, List.length_cons]
      omega

/-- Behind its quotation mark, a written string is read as itself. -/
theorem parseString_written {s : String} (hs : Bytes s) (is : Stream) :
    parseString ((ascii s).flatMap writeChar ++ quotationMark :: is) = .ok (s, is) := by
  have hlen := length_flatMap_writeChar (ascii s)
  rw [parseString, parseStringLoop_written (ascii s) (by rw [List.length_append]; omega)]
  show Except.ok (fromBytes ([] ++ ascii s), is) = _
  rw [List.nil_append, fromBytes_ascii hs]

/-! ## Numbers -/

theorem isDigit_toNat {d : LexerChar} (h : isDigit d = true) : d.toNat - 0x30 ≤ 9 := by
  have := (isDigit_iff.mp h).2
  omega

/-- A loop takes all of the digits, or stops in front of one of them. -/
theorem digitLoop_split (limit : Nat) (last : LexerChar) {ds : List LexerChar} (hds : Digits ds)
    (i : Nat) {c : LexerChar} (hc : isDigit c = false) (is : Stream) :
    ∃ ds₁ ds₂, ds = ds₁ ++ ds₂
      ∧ digitLoop limit last i (ds ++ c :: is)
        = (valueFrom i ds₁, !ds₂.isEmpty, ds₂ ++ c :: is) := by
  induction ds generalizing i with
  | nil =>
      refine ⟨[], [], rfl, ?_⟩
      rw [List.nil_append, digitLoop, hc]
      rfl
  | cons d ds ih =>
      have hd := hds d (List.mem_cons_self ..)
      rw [List.cons_append, digitLoop, if_pos hd]
      by_cases hstop : limit ≤ i ∧ (i ≠ limit ∨ last < d)
      · exact ⟨[], d :: ds, rfl, by rw [if_pos hstop]; rfl⟩
      · obtain ⟨ds₁, ds₂, hsplit, hloop⟩ := ih (fun e he => hds e (List.mem_cons_of_mem d he))
          (i * 10 + (d.toNat - 0x30))
        refine ⟨d :: ds₁, ds₂, by rw [hsplit]; rfl, ?_⟩
        rw [if_neg hstop, hloop, Nat.mul_comm]
        rfl

/-- Digits that do not go above the limit are all taken. -/
theorem digitLoop_digits {limit : Nat} {last : LexerChar} (hlast : isDigit last = true)
    {ds : List LexerChar} (hds : Digits ds) {i : Nat}
    (hmax : valueFrom i ds ≤ 10 * limit + (last.toNat - 0x30)) {c : LexerChar}
    (hc : isDigit c = false) (is : Stream) :
    digitLoop limit last i (ds ++ c :: is) = (valueFrom i ds, false, c :: is) := by
  induction ds generalizing i with
  | nil =>
      rw [List.nil_append, digitLoop, hc]
      rfl
  | cons d ds ih =>
      have hd := hds d (List.mem_cons_self ..)
      have hmax : valueFrom (10 * i + (d.toNat - 0x30)) ds ≤ 10 * limit + (last.toNat - 0x30) :=
        hmax
      have hstep := Nat.le_trans (le_valueFrom _ ds) hmax
      have hlast9 := isDigit_toNat hlast
      have hlast0 := (isDigit_iff.mp hlast).1
      have hd0 := (isDigit_iff.mp hd).1
      rw [List.cons_append, digitLoop, if_pos hd, if_neg, Nat.mul_comm]
      · exact ih (fun e he => hds e (List.mem_cons_of_mem d he)) hmax
      · rintro ⟨hle, hor⟩
        rw [UInt8.lt_iff_toNat_lt] at hor
        omega

/-- The greatest number the two loops take, of either sign. -/
def digitsMax (minus : Bool) : Nat := if minus then 9223372036854775808 else 18446744073709551615

/-- **The two loops together take every integer that fits in 64 bits.** -/
theorem parseDigits_digits (minus : Bool) {ds : List LexerChar} (hds : Digits ds) {i : Nat}
    (hmax : valueFrom i ds ≤ digitsMax minus) {c : LexerChar} (hc : isDigit c = false)
    (is : Stream) :
    parseDigits minus i (ds ++ c :: is) = (valueFrom i ds, false, c :: is) := by
  have h8 : isDigit '8'.toUInt8 = true := by decide
  have h5 : isDigit '5'.toUInt8 = true := by decide
  -- what the first loop leaves, if anything, the second takes
  have hsecond : ∀ {limit₁ limit₂ : Nat} {last₁ last₂ : LexerChar}, isDigit last₂ = true →
      valueFrom i ds ≤ 10 * limit₂ + (last₂.toNat - 0x30) →
      (if (digitLoop limit₁ last₁ i (ds ++ c :: is)).2.1 = true then
          digitLoop limit₂ last₂ (digitLoop limit₁ last₁ i (ds ++ c :: is)).1
            (digitLoop limit₁ last₁ i (ds ++ c :: is)).2.2
        else ((digitLoop limit₁ last₁ i (ds ++ c :: is)).1, false,
          (digitLoop limit₁ last₁ i (ds ++ c :: is)).2.2))
        = (valueFrom i ds, false, c :: is) := by
    intro limit₁ limit₂ last₁ last₂ hlast hle
    obtain ⟨ds₁, ds₂, hsplit, hloop⟩ := digitLoop_split limit₁ last₁ hds i hc is
    have hvalue : valueFrom i ds = valueFrom (valueFrom i ds₁) ds₂ := by
      rw [hsplit, valueFrom_append]
    rw [hloop]
    cases ds₂ with
    | nil => rw [hvalue]; rfl
    | cons d ds₂ =>
        have hds₂ : Digits (d :: ds₂) := fun e he =>
          hds e (hsplit ▸ List.mem_append_right ds₁ he)
        rw [hvalue] at hle ⊢
        exact digitLoop_digits hlast hds₂ hle hc is
  cases minus with
  | true => exact hsecond h8 hmax
  | false => exact hsecond h5 hmax

variable (parseDouble : Stream → Except Halt (UInt64 × Stream))

/-- `ParseNumber` behind the sign, where no `double` is needed. -/
theorem parseNumber_int {minus : Bool} {d : LexerChar} (hd : isDigit d = true) {rest is : Stream}
    {i : Nat} {c : LexerChar} (hc : EndsNumber c)
    (hdigits : (if d = '0'.toUInt8 then (0, false, rest)
        else parseDigits minus (d.toNat - 0x30) rest)
      = (i, false, c :: is)) :
    parseNumber parseDouble ((if minus then ['-'.toUInt8] else []) ++ d :: rest)
      = .ok (if minus then .int64 (-(Int64.ofNat i)) else .ofUInt64 (UInt64.ofNat i), c :: is) := by
  obtain ⟨_, hdot, he, hE⟩ := hc
  have hminus : (d == '-'.toUInt8) = false := by
    refine beq_false_of_ne ?_
    rintro rfl
    exact absurd hd (by decide)
  cases minus with
  | true =>
      simp only [if_true, List.cons_append, List.nil_append]
      simp [parseNumber, peek, take, bind, Except.bind, hd, hdigits, hdot, he, hE]
      rfl
  | false =>
      simp only [if_false, List.nil_append, Bool.false_eq_true]
      simp [parseNumber, peek, take, bind, Except.bind, hd, hminus, hdigits, hdot, he, hE]
      rfl

/-- **`ParseNumber` reads every integer that fits in 64 bits.** -/
theorem parseNumber_digits (minus : Bool) {ds : List LexerChar} (hds : IntPart ds)
    (hmax : decimalValue ds ≤ digitsMax minus) {c : LexerChar} (hc : EndsNumber c) (is : Stream) :
    parseNumber parseDouble ((if minus then ['-'.toUInt8] else []) ++ ds ++ c :: is)
      = .ok (if minus then .int64 (-(Int64.ofNat (decimalValue ds)))
          else .ofUInt64 (UInt64.ofNat (decimalValue ds)), c :: is) := by
  rw [List.append_assoc]
  cases hds with
  | zero => exact parseNumber_int parseDouble (by decide) hc (if_pos rfl)
  | @digits d ds hd hne hds =>
      refine parseNumber_int parseDouble hd hc ?_
      have hvalue : decimalValue (d :: ds) = valueFrom (d.toNat - 0x30) ds := by
        show valueFrom (10 * 0 + (d.toNat - 0x30)) ds = _
        rw [Nat.mul_zero, Nat.zero_add]
      rw [if_neg hne, hvalue]
      rw [hvalue] at hmax
      exact parseDigits_digits minus hds hmax hc.1 is

theorem ofUInt64_ofNat {i : Nat} (h : i < 0x8000000000000000) :
    Value.ofUInt64 (UInt64.ofNat i) = .int64 (Int64.ofNat i) := by
  have hlt : UInt64.ofNat i < 0x8000000000000000 := by
    have h63 : (0x8000000000000000 : UInt64).toNat = 0x8000000000000000 := rfl
    rw [UInt64.lt_iff_toNat_lt, UInt64.toNat_ofNat', h63]
    omega
  rw [Value.ofUInt64, if_pos hlt]
  rfl

theorem parseNumber_int64 (n : Int64) {c : LexerChar} (hc : EndsNumber c) (is : Stream) :
    parseNumber parseDouble (Json.integerText n.toInt ++ c :: is) = .ok (.int64 n, c :: is) := by
  obtain ⟨hint, hval⟩ := Json.digits_toString n.toInt.natAbs
  have hmin := n.le_toInt
  have hlt := n.toInt_lt
  unfold Json.integerText
  split
  · have hread := parseNumber_digits parseDouble true hint
      (by rw [hval]; show _ ≤ 9223372036854775808; omega) hc is
    have hneg : -((n.toInt.natAbs : Nat) : Int) = n.toInt := by omega
    have hof : -(Int64.ofNat n.toInt.natAbs) = n := by
      rw [← Int64.ofInt_eq_ofNat, ← Int64.ofInt_neg, hneg, Int64.ofInt_toInt]
    rw [hval, if_pos rfl, if_pos rfl, hof] at hread
    exact hread
  · have hread := parseNumber_digits parseDouble false hint
      (by rw [hval]; show _ ≤ 18446744073709551615; omega) hc is
    have hpos : ((n.toInt.natAbs : Nat) : Int) = n.toInt := by omega
    have hof : Int64.ofNat n.toInt.natAbs = n := by
      rw [← Int64.ofInt_eq_ofNat, hpos, Int64.ofInt_toInt]
    rw [hval, if_neg (by simp), if_neg (by simp), ofUInt64_ofNat (by omega), hof] at hread
    exact hread

theorem parseNumber_uint64 {n : UInt64} (hn : 0x8000000000000000 ≤ n) {c : LexerChar}
    (hc : EndsNumber c) (is : Stream) :
    parseNumber parseDouble (Json.integerText n.toNat ++ c :: is) = .ok (.uint64 n, c :: is) := by
  obtain ⟨hint, hval⟩ := Json.digits_toString n.toNat
  have hlt := n.toNat_lt
  have hread := parseNumber_digits parseDouble false hint
    (by rw [hval]; show _ ≤ 18446744073709551615; omega) hc is
  rw [hval, if_neg (by simp), if_neg (by simp), UInt64.ofNat_toNat, Value.ofUInt64,
    if_neg (UInt64.not_lt.mpr hn)] at hread
  rw [Json.integerText, if_neg (by omega), Int.natAbs_natCast]
  exact hread

/-! ## Values -/

/-- What stands behind a value. -/
inductive Behind : Stream → Prop where
  | mk {c : LexerChar} (is : Stream) :
      c = ','.toUInt8 ∨ c = ']'.toUInt8 ∨ c = 0x7D ∨ c = 0 → Behind (c :: is)

theorem Behind.ends {is : Stream} (h : Behind is) :
    ∃ c rest, is = c :: rest ∧ EndsNumber c ∧ isSpace c = false := by
  cases h with
  | @mk c rest hc =>
      refine ⟨c, rest, rfl, ?_⟩
      rcases hc with rfl | rfl | rfl | rfl <;>
        exact ⟨⟨by decide, by decide, by decide, by decide⟩, by decide⟩

theorem skipWhitespace_cons {c : LexerChar} (h : isSpace c = false) (is : Stream) :
    skipWhitespace (c :: is) = c :: is := by
  rw [skipWhitespace, List.dropWhile_cons_of_neg (by simp [h])]

theorem Behind.skip {is : Stream} (h : Behind is) : skipWhitespace is = is := by
  obtain ⟨c, rest, rfl, _, hspace⟩ := h.ends
  exact skipWhitespace_cons hspace rest

/-- The first character of a number. -/
def BeginsNumber (c : LexerChar) : Prop := c = '-'.toUInt8 ∨ isDigit c = true

/-- The text of a `double` is read as the `double`. -/
structure Rereads (dtoa : UInt64 → List LexerChar)
    (parseDouble : Stream → Except Halt (UInt64 × Stream)) (bits : UInt64) : Prop where
  begins : ∃ c rest, dtoa bits = c :: rest ∧ BeginsNumber c
  read : ∀ is, Behind is → parseNumber parseDouble (dtoa bits ++ is) = .ok (.double bits, is)

/-- A value that can be told from its text, with the `double`s in `P`. -/
inductive Exact (P : UInt64 → Prop) : Value → Prop where
  | null : Exact P .null
  | boolean {b : Bool} : Exact P (.boolean b)
  | int64 {n : Int64} : Exact P (.int64 n)
  /-- Below, it would be an `int64` too. -/
  | uint64 {n : UInt64} : 0x8000000000000000 ≤ n → Exact P (.uint64 n)
  | double {bits : UInt64} : P bits → Exact P (.double bits)
  | string {s : String} : Bytes s → Exact P (.string s)
  | array {vs : List Value} : (∀ v ∈ vs, Exact P v) → Exact P (.array vs)
  | object {ms : List (String × Value)} :
      (∀ m ∈ ms, Bytes m.1) → (∀ m ∈ ms, Exact P m.2) → Exact P (.object ms)

variable {parseDouble} {dtoa : UInt64 → List LexerChar}

theorem parseValue_number {c : LexerChar} (hc : BeginsNumber c) (n : Nat) (is : Stream) :
    parseValue parseDouble (n + 1) (c :: is) = parseNumber parseDouble (c :: is) := by
  have hne : ∀ d : LexerChar, isDigit d = false → d ≠ '-'.toUInt8 → c ≠ d := by
    rintro d hd hdash rfl
    rcases hc with hc | hc
    · exact hdash hc
    · exact absurd hc (by simp [hd])
  rw [parseValue, peek_cons, ok_bind, take_cons, ok_bind]
  dsimp only
  rw [if_neg (hne _ (by decide) (by decide)), if_neg (hne _ (by decide) (by decide)),
    if_neg (hne _ (by decide) (by decide)), if_neg (hne _ (by decide) (by decide)),
    if_neg (hne _ (by decide) (by decide)), if_neg (hne _ (by decide) (by decide))]

theorem begins_integerText (n : Int) :
    ∃ c rest, Json.integerText n = c :: rest ∧ BeginsNumber c := by
  unfold Json.integerText
  split
  · exact ⟨_, _, rfl, Or.inl rfl⟩
  · obtain ⟨hint, _⟩ := Json.digits_toString n.natAbs
    generalize ascii (toString n.natAbs) = ds at hint
    cases hint with
    | zero => exact ⟨_, _, rfl, Or.inr (by decide)⟩
    | digits hd _ _ => exact ⟨_, _, rfl, Or.inr hd⟩

/-- A text begins with something that is no blank, and no bracket that closes. -/
theorem begins_write {v : Value} (h : Exact (Rereads dtoa parseDouble) v) :
    ∃ c rest, write dtoa v = c :: rest ∧ isSpace c = false ∧ c ≠ ']'.toUInt8 ∧ c ≠ 0 := by
  have hnumber : ∀ {w : List LexerChar}, (∃ c rest, w = c :: rest ∧ BeginsNumber c) →
      ∃ c rest, w = c :: rest ∧ isSpace c = false ∧ c ≠ ']'.toUInt8 ∧ c ≠ 0 := by
    rintro w ⟨c, rest, rfl, hc⟩
    refine ⟨c, rest, rfl, ?_⟩
    rcases hc with rfl | hc
    · decide
    · have hne : ∀ d : LexerChar, isDigit d = false → c ≠ d := by
        rintro d hd rfl
        exact absurd hc (by simp [hd])
      have hspace : isSpace c = false := by
        simp [isSpace, hne 0x09 (by decide), hne 0x0A (by decide), hne 0x0D (by decide),
          hne 0x20 (by decide)]
      exact ⟨hspace, hne _ (by decide), hne _ (by decide)⟩
  cases h with
  | null => exact ⟨_, _, rfl, by decide⟩
  | @boolean b => cases b <;> exact ⟨_, _, rfl, by decide⟩
  | int64 => exact hnumber (begins_integerText _)
  | uint64 _ => exact hnumber (begins_integerText _)
  | double hd => exact hnumber hd.begins
  | string _ => exact ⟨_, _, rfl, by decide⟩
  | array _ => exact ⟨_, _, rfl, by decide⟩
  | object _ _ => exact ⟨_, _, rfl, by decide⟩

theorem skipWhitespace_write {v : Value} (h : Exact (Rereads dtoa parseDouble) v) (is : Stream) :
    skipWhitespace (write dtoa v ++ is) = write dtoa v ++ is := by
  obtain ⟨c, rest, hw, hspace, _⟩ := begins_write h
  rw [hw]
  exact skipWhitespace_cons hspace _

/-- What is proved of a value: it is read in front of anything that may stand behind it. -/
def Reads (dtoa : UInt64 → List LexerChar) (parseDouble : Stream → Except Halt (UInt64 × Stream))
    (v : Value) : Prop :=
  ∀ (n : Nat) (is : Stream), 2 * (write dtoa v).length + 1 ≤ n → Behind is →
    parseValue parseDouble n (write dtoa v ++ is) = .ok (v, is)

theorem parseElements_close {n : Nat} {is rest : Stream} {v : Value}
    (hv : parseValue parseDouble n is = .ok (v, ']'.toUInt8 :: rest)) :
    parseElements parseDouble (n + 1) is = .ok ([v], rest) := by
  rw [parseElements, hv, ok_bind]
  dsimp only
  rw [skipWhitespace_cons (by decide), take_cons, ok_bind]
  rfl

theorem parseElements_comma {n : Nat} {is rest is' : Stream} {v : Value} {vs : List Value}
    (hv : parseValue parseDouble n is = .ok (v, ','.toUInt8 :: rest))
    (hvs : parseElements parseDouble n (skipWhitespace rest) = .ok (vs, is')) :
    parseElements parseDouble (n + 1) is = .ok (v :: vs, is') := by
  rw [parseElements, hv, ok_bind]
  dsimp only
  rw [skipWhitespace_cons (by decide), take_cons, ok_bind]
  dsimp only
  rw [if_pos rfl, hvs]
  rfl

theorem parseElements_written {vs : List Value} {v : Value}
    (hexact : ∀ w ∈ v :: vs, Exact (Rereads dtoa parseDouble) w)
    (hreads : ∀ w ∈ v :: vs, Reads dtoa parseDouble w) {n : Nat}
    (hn : 2 * (writeElements dtoa true (v :: vs)).length + 2 ≤ n) (is : Stream) :
    parseElements parseDouble n (writeElements dtoa true (v :: vs) ++ ']'.toUInt8 :: is)
      = .ok (v :: vs, is) := by
  have hv := hreads v (List.mem_cons_self ..)
  obtain ⟨n, rfl⟩ : ∃ m, n = m + 1 := ⟨n - 1, by omega⟩
  induction vs generalizing v n with
  | nil =>
      have htext : writeElements dtoa true [v] = write dtoa v := by simp [writeElements]
      rw [htext] at hn ⊢
      exact parseElements_close (hv _ _ (by omega) (.mk is (by simp)))
  | cons v' vs ih =>
      have htext : writeElements dtoa true (v :: v' :: vs)
          = write dtoa v ++ ','.toUInt8 :: writeElements dtoa true (v' :: vs) := by
        simp [writeElements, ascii]
      have htext' : writeElements dtoa true (v' :: vs)
          = write dtoa v' ++ writeElements dtoa false vs := by
        simp [writeElements]
      rw [htext] at hn ⊢
      rw [List.length_append, List.length_cons] at hn
      obtain ⟨n, rfl⟩ : ∃ m, n = m + 1 := ⟨n - 1, by omega⟩
      have hrest := ih (fun w hw => hexact w (List.mem_cons_of_mem _ hw))
        (fun w hw => hreads w (List.mem_cons_of_mem _ hw)) (hreads v' (by simp)) n (by omega)
      rw [List.append_assoc, List.cons_append]
      refine parseElements_comma (hv _ _ (by omega) (.mk _ (by simp))) ?_
      rw [htext', List.append_assoc, skipWhitespace_write (hexact v' (by simp)),
        ← List.append_assoc, ← htext']
      exact hrest

/-- The text of a member, in front of `is`. -/
def memberText (dtoa : UInt64 → List LexerChar) (m : String × Value) (is : Stream) : Stream :=
  quotationMark :: ((ascii m.1).flatMap writeChar
    ++ quotationMark :: ':'.toUInt8 :: (write dtoa m.2 ++ is))

theorem writeMembers_one (m : String × Value) (is : Stream) :
    writeMembers dtoa true [m] ++ is = memberText dtoa m is := by
  simp [writeMembers, memberText, writeString, ascii]

theorem writeMembers_cons (m m' : String × Value) (ms : List (String × Value)) (is : Stream) :
    writeMembers dtoa true (m :: m' :: ms) ++ is
      = memberText dtoa m (','.toUInt8 :: (writeMembers dtoa true (m' :: ms) ++ is)) := by
  simp [writeMembers, memberText, writeString, ascii]

theorem skipWhitespace_members (m : String × Value) (ms : List (String × Value)) (is : Stream) :
    skipWhitespace (writeMembers dtoa true (m :: ms) ++ is)
      = writeMembers dtoa true (m :: ms) ++ is :=
  skipWhitespace_cons (by decide) _

theorem length_writeMembers (dtoa : UInt64 → List LexerChar) (m : String × Value)
    (ms : List (String × Value)) :
    (write dtoa m.2).length + (writeMembers dtoa true ms).length + 1
      ≤ (writeMembers dtoa true (m :: ms)).length := by
  cases ms with
  | nil =>
      simp [writeMembers, writeString, ascii]
      omega
  | cons m' ms =>
      simp [writeMembers, writeString, ascii]
      omega

theorem parseMembers_close {m : String × Value} (hkey : Bytes m.1)
    (hexact : Exact (Rereads dtoa parseDouble) m.2) {n : Nat} {is : Stream}
    (hv : parseValue parseDouble n (write dtoa m.2 ++ 0x7D :: is) = .ok (m.2, 0x7D :: is)) :
    parseMembers parseDouble (n + 1) (memberText dtoa m (0x7D :: is)) = .ok ([m], is) := by
  rw [parseMembers, memberText, peek_cons, ok_bind, if_neg (by simp), List.drop_one, List.tail_cons,
    parseString_written hkey, ok_bind]
  dsimp only
  rw [skipWhitespace_cons (by decide), take_cons, ok_bind]
  dsimp only
  rw [if_neg (by simp), skipWhitespace_write hexact, hv, ok_bind]
  dsimp only
  rw [skipWhitespace_cons (by decide), take_cons, ok_bind]
  rfl

theorem parseMembers_comma {m : String × Value} (hkey : Bytes m.1)
    (hexact : Exact (Rereads dtoa parseDouble) m.2) {n : Nat} {is is' : Stream}
    {ms : List (String × Value)}
    (hv : parseValue parseDouble n (write dtoa m.2 ++ ','.toUInt8 :: is)
      = .ok (m.2, ','.toUInt8 :: is))
    (hms : parseMembers parseDouble n (skipWhitespace is) = .ok (ms, is')) :
    parseMembers parseDouble (n + 1) (memberText dtoa m (','.toUInt8 :: is))
      = .ok (m :: ms, is') := by
  rw [parseMembers, memberText, peek_cons, ok_bind, if_neg (by simp), List.drop_one, List.tail_cons,
    parseString_written hkey, ok_bind]
  dsimp only
  rw [skipWhitespace_cons (by decide), take_cons, ok_bind]
  dsimp only
  rw [if_neg (by simp), skipWhitespace_write hexact, hv, ok_bind]
  dsimp only
  rw [skipWhitespace_cons (by decide), take_cons, ok_bind]
  dsimp only
  rw [if_pos rfl, hms]
  rfl

theorem parseMembers_written {ms : List (String × Value)} {m : String × Value}
    (hkeys : ∀ m' ∈ m :: ms, Bytes m'.1)
    (hexact : ∀ m' ∈ m :: ms, Exact (Rereads dtoa parseDouble) m'.2)
    (hreads : ∀ m' ∈ m :: ms, Reads dtoa parseDouble m'.2) {n : Nat}
    (hn : 2 * (writeMembers dtoa true (m :: ms)).length + 2 ≤ n) (is : Stream) :
    parseMembers parseDouble n (writeMembers dtoa true (m :: ms) ++ 0x7D :: is)
      = .ok (m :: ms, is) := by
  have hm : m ∈ m :: ms := List.mem_cons_self ..
  have hv := hreads m hm
  have hlen := length_writeMembers dtoa m ms
  obtain ⟨n, rfl⟩ : ∃ m, n = m + 1 := ⟨n - 1, by omega⟩
  induction ms generalizing m n with
  | nil =>
      rw [writeMembers_one]
      exact parseMembers_close (hkeys m hm) (hexact m hm) (hv _ _ (by omega) (.mk is (by simp)))
  | cons m' ms ih =>
      have hm' : m' ∈ m' :: ms := List.mem_cons_self ..
      have hrest := ih (fun w hw => hkeys w (List.mem_cons_of_mem _ hw))
        (fun w hw => hexact w (List.mem_cons_of_mem _ hw))
        (fun w hw => hreads w (List.mem_cons_of_mem _ hw)) hm'
        (hreads m' (List.mem_cons_of_mem _ hm'))
        (length_writeMembers dtoa m' ms)
      have hlen' := length_writeMembers dtoa m' ms
      obtain ⟨n, rfl⟩ : ∃ m, n = m + 1 := ⟨n - 1, by omega⟩
      rw [writeMembers_cons]
      refine parseMembers_comma (hkeys m hm) (hexact m hm) (hv _ _ (by omega) (.mk _ (by simp))) ?_
      rw [skipWhitespace_members]
      exact hrest n (by omega)

theorem reads_number (v : Value)
    (hbegins : ∃ c rest, write dtoa v = c :: rest ∧ BeginsNumber c)
    (hread : ∀ is, Behind is → parseNumber parseDouble (write dtoa v ++ is) = .ok (v, is)) :
    Reads dtoa parseDouble v := by
  intro n is hn hb
  obtain ⟨n, rfl⟩ : ∃ m, n = m + 1 := ⟨n - 1, by omega⟩
  obtain ⟨c, rest, hw, hc⟩ := hbegins
  have hread := hread is hb
  rw [hw, List.cons_append] at hread ⊢
  rw [parseValue_number hc, hread]

theorem parseValue_array {c : LexerChar} (hspace : isSpace c = false) (hc : c ≠ ']'.toUInt8)
    {n : Nat} {is is' : Stream} {vs : List Value}
    (hvs : parseElements parseDouble n (c :: is) = .ok (vs, is')) :
    parseValue parseDouble (n + 1) ('['.toUInt8 :: c :: is) = .ok (.array vs, is') := by
  rw [parseValue, peek_cons, ok_bind, take_cons, ok_bind]
  dsimp only
  rw [if_neg (by decide), if_neg (by decide), if_neg (by decide), if_neg (by decide),
    if_neg (by decide), if_pos rfl, skipWhitespace_cons hspace, peek_cons, ok_bind, if_neg hc, hvs]
  rfl

theorem parseValue_object {n : Nat} {is is' : Stream} {ms : List (String × Value)}
    (hms : parseMembers parseDouble n (quotationMark :: is) = .ok (ms, is')) :
    parseValue parseDouble (n + 1) (0x7B :: quotationMark :: is) = .ok (.object ms, is') := by
  rw [parseValue, peek_cons, ok_bind, take_cons, ok_bind]
  dsimp only
  rw [if_neg (by decide), if_neg (by decide), if_neg (by decide), if_neg (by decide), if_pos rfl,
    skipWhitespace_cons (by decide), peek_cons, ok_bind, if_neg (by decide), hms]
  rfl

theorem parseValue_string {s : String} (hs : Bytes s) (n : Nat) (is : Stream) :
    parseValue parseDouble (n + 1) (writeString s ++ is) = .ok (.string s, is) := by
  have htext : writeString s ++ is
      = quotationMark :: ((ascii s).flatMap writeChar ++ quotationMark :: is) := by
    simp [writeString]
  rw [htext, parseValue, peek_cons, ok_bind, take_cons, ok_bind]
  dsimp only
  rw [if_neg (by decide), if_neg (by decide), if_neg (by decide), if_pos rfl,
    parseString_written hs]
  rfl

/-- **A value is read where it was written.** -/
theorem reads_of_exact {v : Value} (h : Exact (Rereads dtoa parseDouble) v) :
    Reads dtoa parseDouble v := by
  induction h with
  | null =>
      intro n is hn hb
      obtain ⟨n, rfl⟩ : ∃ m, n = m + 1 := ⟨n - 1, by omega⟩
      rfl
  | @boolean b =>
      intro n is hn hb
      obtain ⟨n, rfl⟩ : ∃ m, n = m + 1 := ⟨n - 1, by omega⟩
      cases b <;> rfl
  | @int64 i =>
      refine reads_number (.int64 i) (begins_integerText _) fun is hb => ?_
      obtain ⟨c, rest, rfl, hc, _⟩ := hb.ends
      exact parseNumber_int64 parseDouble i hc rest
  | @uint64 i hi =>
      refine reads_number (.uint64 i) (begins_integerText _) fun is hb => ?_
      obtain ⟨c, rest, rfl, hc, _⟩ := hb.ends
      exact parseNumber_uint64 parseDouble hi hc rest
  | @double bits hd => exact reads_number (.double bits) hd.begins hd.read
  | @string s hs =>
      intro n is hn hb
      obtain ⟨n, rfl⟩ : ∃ m, n = m + 1 := ⟨n - 1, by omega⟩
      exact parseValue_string hs n is
  | @array vs hvs ih =>
      intro n is hn hb
      obtain ⟨n, rfl⟩ : ∃ m, n = m + 1 := ⟨n - 1, by omega⟩
      cases vs with
      | nil => rfl
      | cons v vs =>
          have hlen : 2 * (writeElements dtoa true (v :: vs)).length + 2 ≤ n := by
            have hopen : (ascii "[").length = 1 := rfl
            have hclose : (ascii "]").length = 1 := rfl
            simp only [write, List.length_append] at hn
            omega
          obtain ⟨c, rest, hw, hspace, hbracket, _⟩ := begins_write (hvs v (List.mem_cons_self ..))
          have hhead : writeElements dtoa true (v :: vs) ++ ']'.toUInt8 :: is
              = c :: (rest ++ writeElements dtoa false vs ++ ']'.toUInt8 :: is) := by
            simp [writeElements, hw]
          have htext : write dtoa (.array (v :: vs)) ++ is
              = '['.toUInt8 :: (writeElements dtoa true (v :: vs) ++ ']'.toUInt8 :: is) := by
            simp [write, ascii]
          have hread := parseElements_written hvs ih hlen is
          rw [hhead] at hread
          rw [htext, hhead]
          exact parseValue_array hspace hbracket hread
  | @object ms hkeys hms ih =>
      intro n is hn hb
      obtain ⟨n, rfl⟩ : ∃ m, n = m + 1 := ⟨n - 1, by omega⟩
      cases ms with
      | nil => rfl
      | cons m ms =>
          have hlen : 2 * (writeMembers dtoa true (m :: ms)).length + 2 ≤ n := by
            simp only [write, List.length_append, List.length_cons, List.length_nil] at hn
            omega
          have htext : write dtoa (.object (m :: ms)) ++ is
              = 0x7B :: (writeMembers dtoa true (m :: ms) ++ 0x7D :: is) := by
            simp [write]
          rw [htext]
          exact parseValue_object (parseMembers_written hkeys hms ih hlen is)

theorem parseRoot_write {v : Value} (h : Exact (Rereads dtoa parseDouble) v) :
    parseRoot parseDouble (write dtoa v) = .ok v := by
  have hread := reads_of_exact h (2 * (write dtoa v).length + 4) [0] (by omega) (.mk [] (by simp))
  obtain ⟨c, rest, hw, _, _, hnul⟩ := begins_write h
  have hpeek : peek (write dtoa v ++ [0]) = .ok c := by rw [hw]; rfl
  rw [parseRoot]
  dsimp only
  rw [skipWhitespace_write h, hpeek, ok_bind, if_neg hnul, hread]
  rfl

/--
**What `Writer` writes is what `Document::Parse` reads**, from any value that can be
told from its text.
-/
theorem parseDocument_write {v : Value} (h : Exact (Rereads dtoa parseDouble) v) :
    parseDocument parseDouble (write dtoa v) = some v := by
  rw [parseDocument, parseRoot_write h]

/-- The `double` that is one half. -/
def half : UInt64 := 0x3FE0000000000000

def halfText (_ : UInt64) : List LexerChar := ascii "0.5"

/-- The one `double` that is read here. -/
def parseHalf (is : Stream) : Except Halt (UInt64 × Stream) :=
  if is.take 3 = ascii "0.5" then .ok (half, is.drop 3) else .error .error

/-- The greatest number, a `double`, and a text with characters to escape. -/
def reportValue : Value :=
  .object [("GROUP_ID", .uint64 0xFFFFFFFFFFFFFFFF), ("LEVEL", .double half),
    ("MSG", .array [.string "\"grip\"\n", .null])]

theorem rereads_half : Rereads halfText parseHalf half where
  begins := ⟨'0'.toUInt8, ascii ".5", by decide, Or.inr (by decide)⟩
  read _ _ := rfl

theorem parseDocument_write_report :
    Exact (Rereads halfText parseHalf) reportValue
      ∧ parseDocument parseHalf (write halfText reportValue) = some reportValue := by
  have hexact : Exact (Rereads halfText parseHalf) reportValue := by
    refine .object (by decide) fun m hm => ?_
    simp only [List.mem_cons, List.not_mem_nil, or_false] at hm
    rcases hm with rfl | rfl | rfl
    · exact .uint64 (by decide)
    · exact .double rereads_half
    · refine .array fun v hv => ?_
      simp only [List.mem_cons, List.not_mem_nil, or_false] at hv
      rcases hv with rfl | rfl
      · exact .string (by decide)
      · exact .null
  exact ⟨hexact, parseDocument_write hexact⟩

end HandlingModule.Rapidjson
