import Mathlib.Data.Nat.ModEq
import HandlingModule.AIO.Json
import HandlingModule.Json.Lexeme

/-!
# The value of a number (`get_number`)

Digits are accumulated in 64 bits. A fraction or an exponent makes the number a `double`,
which `std::strtod` reads, and so does an overflow, where it is noticed: the test is
whether the new value is below the old one, and multiplication by ten can go around and
come out above it. A literal that fits is read exactly, and of one that does not, what
is left if the test misses it is its remainder modulo `2 ^ 64` (`getNumber_integer`).

`strtod` is a parameter: the bits of the `double` at the beginning of a text.
-/

namespace HandlingModule.AIO

namespace Lexer

/-- The type of a number, as far as it is known. -/
inductive NumberType where
  | integer
  | unsigned
  | float
  deriving DecidableEq

/-- The loop over the characters of the token behind its sign. -/
def getNumberLoop (max : UInt64) : NumberType → UInt64 → List LexerChar → NumberType × UInt64
  | type, value, [] => (type, value)
  | type, value, c :: rest =>
      if isDigit c = false then
        -- the exponent ends the loop, and the rest is left to `strtod`
        if c = '.'.toUInt8 then getNumberLoop max .float value rest else (.float, value)
      else if type = .float then getNumberLoop max type value rest
      else
        let temp := value * 10 + c.toUInt64 - 0x30
        if temp < value ∨ max < temp then getNumberLoop max .float value rest
        else getNumberLoop max type temp rest

/-- The greatest `number_unsigned_t`. -/
def maxUnsigned : UInt64 := 0xFFFFFFFFFFFFFFFF

/-- One more than the greatest `number_integer_t`. -/
def maxNegative : UInt64 := 0x8000000000000000

variable (strtod : List LexerChar → UInt64)

/-- `get_number`, on the text of the token. -/
def getNumber (token_string : List LexerChar) : Json :=
  let (type, value) :=
    if token_string.head? = some '-'.toUInt8 then
      getNumberLoop maxNegative .integer 0 token_string.tail
    else getNumberLoop maxUnsigned .unsigned 0 token_string
  match type with
  | .unsigned => .unsigned value
  | .integer => .integer (-value.toInt64)
  | .float => .float (strtod token_string)

/-- What digits stand for, behind others that stand for `n`. -/
def valueFrom (n : Nat) (ds : List LexerChar) : Nat :=
  ds.foldl (fun n d => 10 * n + (d.toNat - 0x30)) n

def decimalValue (ds : List LexerChar) : Nat := valueFrom 0 ds

theorem valueFrom_append (n : Nat) (ds es : List LexerChar) :
    valueFrom n (ds ++ es) = valueFrom (valueFrom n ds) es := List.foldl_append ..

theorem le_valueFrom (n : Nat) (ds : List LexerChar) : n ≤ valueFrom n ds := by
  induction ds generalizing n with
  | nil => exact Nat.le_refl n
  | cons d ds ih => exact Nat.le_trans (by omega) (ih (10 * n + (d.toNat - 0x30)))

theorem valueFrom_modEq {k m n : Nat} (h : m ≡ n [MOD k]) (ds : List LexerChar) :
    valueFrom m ds ≡ valueFrom n ds [MOD k] := by
  induction ds generalizing m n with
  | nil => exact h
  | cons d ds ih => exact ih ((h.mul_left 10).add_right _)

theorem isDigit_iff {d : LexerChar} : isDigit d = true ↔ 0x30 ≤ d.toNat ∧ d.toNat ≤ 0x39 := by
  have h30 : (0x30 : UInt8).toNat = 0x30 := rfl
  have h39 : (0x39 : UInt8).toNat = 0x39 := rfl
  rw [isDigit, Bool.and_eq_true, decide_eq_true_eq, decide_eq_true_eq, UInt8.le_iff_toNat_le,
    UInt8.le_iff_toNat_le, h30, h39]

/-- One more digit, in 64 bits. -/
theorem temp_eq {d : LexerChar} (hd : isDigit d = true) (value : UInt64) :
    value * 10 + d.toUInt64 - 0x30 = UInt64.ofNat (10 * value.toNat + (d.toNat - 0x30)) := by
  obtain ⟨h1, h2⟩ := isDigit_iff.mp hd
  refine UInt64.toNat_inj.mp ?_
  rw [UInt64.toNat_sub, UInt64.toNat_add, UInt64.toNat_mul, UInt64.toNat_ofNat', UInt8.toNat_toUInt64]
  have h10 : (10 : UInt64).toNat = 10 := rfl
  have h30 : (0x30 : UInt64).toNat = 0x30 := rfl
  have hv := value.toNat_lt
  rw [h10, h30]
  omega

/-- Digits that fit are accumulated exactly. -/
theorem getNumberLoop_digits (max : UInt64) {type : NumberType} (ht : type ≠ .float)
    {ds : List LexerChar} (hds : Digits ds) (rest : List LexerChar) (value : UInt64)
    (hmax : valueFrom value.toNat ds ≤ max.toNat) :
    getNumberLoop max type value (ds ++ rest)
      = getNumberLoop max type (UInt64.ofNat (valueFrom value.toNat ds)) rest := by
  induction ds generalizing value with
  | nil => simp [valueFrom]
  | cons d ds ih =>
      have hd : isDigit d = true := hds d (List.mem_cons_self ..)
      have hle := le_valueFrom (10 * value.toNat + (d.toNat - 0x30)) ds
      have hmax : valueFrom (10 * value.toNat + (d.toNat - 0x30)) ds ≤ max.toNat := hmax
      have hlt := max.toNat_lt
      have htemp : (UInt64.ofNat (10 * value.toNat + (d.toNat - 0x30))).toNat
          = 10 * value.toNat + (d.toNat - 0x30) := by
        rw [UInt64.toNat_ofNat', Nat.mod_eq_of_lt (by omega)]
      rw [List.cons_append, getNumberLoop, if_neg (by simp [hd]), if_neg ht, temp_eq hd]
      rw [if_neg]
      · rw [ih (fun e he => hds e (List.mem_cons_of_mem d he)) _ (by rw [htemp]; exact hmax), htemp]
        rfl
      · rw [UInt64.lt_iff_toNat_lt, UInt64.lt_iff_toNat_lt, htemp]
        omega

theorem getNumberLoop_float (max value : UInt64) (ds : List LexerChar) :
    (getNumberLoop max .float value ds).1 = .float := by
  induction ds with
  | nil => rfl
  | cons d ds ih =>
      rw [getNumberLoop]
      split
      · split
        · exact ih
        · rfl
      · rw [if_pos rfl]
        exact ih

/-- Digits that are no overflow by the test are accumulated modulo `2 ^ 64`. -/
theorem getNumberLoop_mod (max : UInt64) {type : NumberType} (ht : type ≠ .float)
    {ds : List LexerChar} (hds : Digits ds) (value : UInt64) :
    getNumberLoop max type value ds = (type, UInt64.ofNat (valueFrom value.toNat ds))
      ∨ (getNumberLoop max type value ds).1 = .float := by
  induction ds generalizing value with
  | nil => exact Or.inl (by simp [getNumberLoop, valueFrom])
  | cons d ds ih =>
      have hd : isDigit d = true := hds d (List.mem_cons_self ..)
      have hds : Digits ds := fun e he => hds e (List.mem_cons_of_mem d he)
      rw [getNumberLoop, if_neg (by simp [hd]), if_neg ht, temp_eq hd]
      dsimp only
      split
      · exact Or.inr (getNumberLoop_float ..)
      · have hmod : ∀ n : Nat, UInt64.ofNat (valueFrom (UInt64.ofNat n).toNat ds)
            = UInt64.ofNat (valueFrom n ds) := by
          intro n
          refine UInt64.toNat_inj.mp ?_
          rw [UInt64.toNat_ofNat', UInt64.toNat_ofNat', UInt64.toNat_ofNat']
          exact valueFrom_modEq (Nat.mod_modEq n _) ds
        rcases ih hds (UInt64.ofNat (10 * value.toNat + (d.toNat - 0x30))) with h | h
        · exact Or.inl (h.trans (by rw [hmod]; rfl))
        · exact Or.inr h

/-- Above the greatest value and below `2 ^ 64` an overflow is always noticed. -/
theorem getNumberLoop_over (max : UInt64) {type : NumberType} (ht : type ≠ .float)
    {ds : List LexerChar} (hds : Digits ds) (value : UInt64) (hle : value ≤ max)
    (hover : max.toNat < valueFrom value.toNat ds) (hlt : valueFrom value.toNat ds < 2 ^ 64) :
    (getNumberLoop max type value ds).1 = .float := by
  induction ds generalizing value with
  | nil => exact absurd hover (by rw [UInt64.le_iff_toNat_le] at hle; exact Nat.not_lt.mpr hle)
  | cons d ds ih =>
      have hd : isDigit d = true := hds d (List.mem_cons_self ..)
      have hle' := le_valueFrom (10 * value.toNat + (d.toNat - 0x30)) ds
      have hlt : valueFrom (10 * value.toNat + (d.toNat - 0x30)) ds < 2 ^ 64 := hlt
      have htemp : (UInt64.ofNat (10 * value.toNat + (d.toNat - 0x30))).toNat
          = 10 * value.toNat + (d.toNat - 0x30) := by
        rw [UInt64.toNat_ofNat', Nat.mod_eq_of_lt (by omega)]
      rw [getNumberLoop, if_neg (by simp [hd]), if_neg ht, temp_eq hd]
      dsimp only
      split
      · exact getNumberLoop_float ..
      · rename_i hc
        refine ih (fun e he => hds e (List.mem_cons_of_mem d he)) _ ?_ ?_ ?_
        · exact UInt64.not_lt.mp (not_or.mp hc).2
        · rw [htemp]; exact hover
        · rw [htemp]; exact hlt

/-- The last digit decides whether an overflow is noticed. -/
theorem getNumberLoop_snoc (max : UInt64) {type : NumberType} (ht : type ≠ .float)
    {ds : List LexerChar} (hds : Digits ds) {d : LexerChar} (hd : isDigit d = true)
    (hmax : decimalValue ds ≤ max.toNat) :
    getNumberLoop max type 0 (ds ++ [d])
      = if UInt64.ofNat (decimalValue (ds ++ [d])) < UInt64.ofNat (decimalValue ds)
          ∨ max < UInt64.ofNat (decimalValue (ds ++ [d]))
        then (.float, UInt64.ofNat (decimalValue ds))
        else (type, UInt64.ofNat (decimalValue (ds ++ [d]))) := by
  have hlt := max.toNat_lt
  have hval : (UInt64.ofNat (decimalValue ds)).toNat = decimalValue ds := by
    rw [UInt64.toNat_ofNat', Nat.mod_eq_of_lt (by omega)]
  have htemp : UInt64.ofNat (10 * (UInt64.ofNat (decimalValue ds)).toNat + (d.toNat - 0x30))
      = UInt64.ofNat (decimalValue (ds ++ [d])) := by
    rw [hval, decimalValue, decimalValue, valueFrom_append]
    rfl
  have hexact := getNumberLoop_digits max ht hds [d] 0 hmax
  rw [hexact]
  show getNumberLoop max type (UInt64.ofNat (decimalValue ds)) [d] = _
  rw [getNumberLoop, if_neg (by simp [hd]), if_neg ht, temp_eq hd, htemp]
  rfl

/-! ## Literals -/

theorem IntPart.digits_of {ds : List LexerChar} (h : IntPart ds) : Digits ds := by
  cases h with
  | zero => intro d hd; rw [List.mem_singleton.mp hd]; decide
  | digits hd _ hds =>
      intro e he
      rcases List.mem_cons.mp he with rfl | he
      · exact hd
      · exact hds e he

theorem IntPart.head_ne {ds : List LexerChar} (h : IntPart ds) : ds.head? ≠ some '-'.toUInt8 := by
  intro hhead
  have hmem : '-'.toUInt8 ∈ ds := List.mem_of_mem_head? hhead
  exact absurd (h.digits_of _ hmem) (by decide)

theorem IntPart.ne_nil {ds : List LexerChar} (h : IntPart ds) : ds ≠ [] := by
  cases h <;> simp

/-- An integer literal without a sign, and what it is read as. -/
structure ReadsUnsigned (ds : List LexerChar) : Prop where
  /-- One that fits is read exactly. -/
  exact : decimalValue ds < 2 ^ 64 → getNumber strtod ds = .unsigned (UInt64.ofNat (decimalValue ds))
  /-- One that does not becomes a `double`, or its remainder. -/
  overflow : getNumber strtod ds = .unsigned (UInt64.ofNat (decimalValue ds))
    ∨ getNumber strtod ds = .float (strtod ds)
  /-- Up to twice the range, which of the two. -/
  noticed : 2 ^ 64 ≤ decimalValue ds → decimalValue ds < 2 ^ 65 →
    (getNumber strtod ds = .float (strtod ds)
      ↔ decimalValue ds - 2 ^ 64 < decimalValue ds / 10)

/-- The same with a sign; here nothing goes around up to twice the range. -/
structure ReadsInteger (ds : List LexerChar) : Prop where
  exact : decimalValue ds ≤ 2 ^ 63 →
    getNumber strtod ('-'.toUInt8 :: ds) = .integer (Int64.ofInt (-decimalValue ds))
  overflow : getNumber strtod ('-'.toUInt8 :: ds)
      = .integer (-(UInt64.ofNat (decimalValue ds)).toInt64)
    ∨ getNumber strtod ('-'.toUInt8 :: ds) = .float (strtod ('-'.toUInt8 :: ds))
  noticed : 2 ^ 63 < decimalValue ds → decimalValue ds < 2 ^ 64 →
    getNumber strtod ('-'.toUInt8 :: ds) = .float (strtod ('-'.toUInt8 :: ds))

variable {strtod}

theorem getNumber_unsigned {ds : List LexerChar} (h : IntPart ds) :
    getNumber strtod ds = match getNumberLoop maxUnsigned .unsigned 0 ds with
      | (.unsigned, value) => .unsigned value
      | (.integer, value) => .integer (-value.toInt64)
      | (.float, _) => .float (strtod ds) := by
  rw [getNumber, if_neg h.head_ne]
  cases getNumberLoop maxUnsigned .unsigned 0 ds with
  | mk type value => cases type <;> rfl

theorem getNumber_negative (ds : List LexerChar) :
    getNumber strtod ('-'.toUInt8 :: ds) = match getNumberLoop maxNegative .integer 0 ds with
      | (.unsigned, value) => .unsigned value
      | (.integer, value) => .integer (-value.toInt64)
      | (.float, _) => .float (strtod ('-'.toUInt8 :: ds)) := by
  rw [getNumber, if_pos (List.head?_cons ..), List.tail_cons]
  cases getNumberLoop maxNegative .integer 0 ds with
  | mk type value => cases type <;> rfl

theorem unsigned_ne : NumberType.unsigned ≠ .float := by simp

theorem integer_ne : NumberType.integer ≠ .float := by simp

/-- **Integer literals without a sign.** -/
theorem readsUnsigned {ds : List LexerChar} (h : IntPart ds) : ReadsUnsigned strtod ds := by
  have hmax : maxUnsigned.toNat = 2 ^ 64 - 1 := by decide
  refine ⟨?_, ?_, ?_⟩
  · intro hfit
    have hloop := getNumberLoop_digits maxUnsigned unsigned_ne h.digits_of [] 0
      (by rw [hmax]; show decimalValue ds ≤ _; omega)
    rw [List.append_nil] at hloop
    rw [getNumber_unsigned h, hloop]
    rfl
  · rw [getNumber_unsigned h]
    rcases getNumberLoop_mod maxUnsigned unsigned_ne h.digits_of 0 with hl | hl
    · rw [hl]; exact Or.inl rfl
    · cases hr : getNumberLoop maxUnsigned .unsigned 0 ds with
      | mk type value =>
          rw [hr] at hl
          have hl : type = .float := hl
          rw [hl]
          exact Or.inr rfl
  · intro hbig hsmall
    obtain ⟨es, d, rfl⟩ := (List.eq_nil_or_concat' ds).resolve_left h.ne_nil
    have hds := h.digits_of
    have hes : Digits es := fun e he => hds e (List.mem_append_left _ he)
    have hd : isDigit d = true := hds d (List.mem_append_right _ (List.mem_singleton.mpr rfl))
    obtain ⟨h30, h39⟩ := isDigit_iff.mp hd
    have hval : decimalValue (es ++ [d]) = 10 * decimalValue es + (d.toNat - 0x30) := by
      rw [decimalValue, valueFrom_append]
      rfl
    have hloop := getNumberLoop_snoc maxUnsigned unsigned_ne hes hd
      (by rw [hmax]; omega)
    rw [getNumber_unsigned h, hloop]
    -- the value is what is above the range
    have hnew : (UInt64.ofNat (decimalValue (es ++ [d]))).toNat = decimalValue (es ++ [d]) - 2 ^ 64 := by
      rw [UInt64.toNat_ofNat']; omega
    have hold : (UInt64.ofNat (decimalValue es)).toNat = decimalValue (es ++ [d]) / 10 := by
      rw [UInt64.toNat_ofNat']; omega
    have hnoticed : UInt64.ofNat (decimalValue (es ++ [d])) < UInt64.ofNat (decimalValue es)
        ∨ maxUnsigned < UInt64.ofNat (decimalValue (es ++ [d]))
        ↔ decimalValue (es ++ [d]) - 2 ^ 64 < decimalValue (es ++ [d]) / 10 := by
      rw [UInt64.lt_iff_toNat_lt, UInt64.lt_iff_toNat_lt, hnew, hold, hmax]
      omega
    by_cases hc : UInt64.ofNat (decimalValue (es ++ [d])) < UInt64.ofNat (decimalValue es)
        ∨ maxUnsigned < UInt64.ofNat (decimalValue (es ++ [d]))
    · rw [if_pos hc]
      exact ⟨fun _ => hnoticed.mp hc, fun _ => rfl⟩
    · rw [if_neg hc]
      exact ⟨fun hf => absurd hf (by simp), fun hf => absurd (hnoticed.mpr hf) hc⟩

/-- **Integer literals with a sign.** -/
theorem readsInteger {ds : List LexerChar} (h : IntPart ds) : ReadsInteger strtod ds := by
  have hmax : maxNegative.toNat = 2 ^ 63 := by decide
  refine ⟨?_, ?_, ?_⟩
  · intro hfit
    have hloop := getNumberLoop_digits maxNegative integer_ne h.digits_of [] 0
      (by rw [hmax]; exact hfit)
    rw [List.append_nil] at hloop
    rw [getNumber_negative, hloop]
    show Json.integer (-Int64.ofNat (decimalValue ds)) = _
    rw [Int64.neg_ofNat]
  · rw [getNumber_negative]
    rcases getNumberLoop_mod maxNegative integer_ne h.digits_of 0 with hl | hl
    · rw [hl]; exact Or.inl rfl
    · cases hr : getNumberLoop maxNegative .integer 0 ds with
      | mk type value =>
          rw [hr] at hl
          have hl : type = .float := hl
          rw [hl]
          exact Or.inr rfl
  · intro hbig hsmall
    have hover := getNumberLoop_over maxNegative integer_ne h.digits_of 0 (by decide)
      (by rw [hmax]; exact hbig) hsmall
    rw [getNumber_negative]
    cases hr : getNumberLoop maxNegative .integer 0 ds with
    | mk type value =>
        rw [hr] at hover
        have hover : type = .float := hover
        rw [hover]

/-- A character that is no digit makes the number a `double`. -/
theorem getNumberLoop_nondigit (max : UInt64) (type : NumberType) {ds : List LexerChar}
    {c : LexerChar} (hc : c ∈ ds) (hd : isDigit c = false) (value : UInt64) :
    (getNumberLoop max type value ds).1 = .float := by
  induction ds generalizing type value with
  | nil => exact absurd hc List.not_mem_nil
  | cons d ds ih =>
      rw [getNumberLoop]
      rcases List.mem_cons.mp hc with rfl | hc
      · rw [if_pos hd]
        split
        · exact getNumberLoop_float ..
        · rfl
      · dsimp only
        split
        · split
          · exact getNumberLoop_float ..
          · rfl
        · split
          · exact ih type hc value
          · split
            · exact getNumberLoop_float ..
            · exact ih type hc _

/-- A number with a fraction or an exponent. -/
theorem getNumber_fraction {int rest : List LexerChar} (hi : IntPart int) {c : LexerChar}
    (hc : c ∈ rest) (hd : isDigit c = false) :
    getNumber strtod (int ++ rest) = .float (strtod (int ++ rest))
      ∧ getNumber strtod ('-'.toUInt8 :: (int ++ rest))
        = .float (strtod ('-'.toUInt8 :: (int ++ rest))) := by
  have hmem : c ∈ int ++ rest := List.mem_append_right _ hc
  have hhead : (int ++ rest).head? ≠ some '-'.toUInt8 := by
    rw [List.head?_append_of_ne_nil _ hi.ne_nil]
    exact hi.head_ne
  refine ⟨?_, ?_⟩
  · have hfloat := getNumberLoop_nondigit maxUnsigned .unsigned hmem hd 0
    rw [getNumber, if_neg hhead]
    cases hr : getNumberLoop maxUnsigned .unsigned 0 (int ++ rest) with
    | mk type value =>
        rw [hr] at hfloat
        have hfloat : type = .float := hfloat
        rw [hfloat]
  · have hfloat := getNumberLoop_nondigit maxNegative .integer hmem hd 0
    rw [getNumber_negative]
    cases hr : getNumberLoop maxNegative .integer 0 (int ++ rest) with
    | mk type value =>
        rw [hr] at hfloat
        have hfloat : type = .float := hfloat
        rw [hfloat]

/--
**What an integer literal is read as.** Exactly itself, if it fits, with a sign or
without one. If it does not, it is read as a `double` where the overflow is noticed,
and as its remainder where it is not. Without a sign, up to twice the range, it is noticed
exactly if what is above the range is less than a tenth of the whole, rounded down; with
one it is noticed of every value below `2 ^ 64`, none of which goes around.
-/
theorem getNumber_integer (strtod : List LexerChar → UInt64) {ds : List LexerChar}
    (h : IntPart ds) : ReadsUnsigned strtod ds ∧ ReadsInteger strtod ds :=
  ⟨readsUnsigned h, readsInteger h⟩

/-- One and a half times the range is not noticed. -/
theorem getNumber_integer_wrapped :
    (ReadsUnsigned (fun _ => 0) (ascii "27670116110564327424")
        ∧ ReadsInteger (fun _ => 0) (ascii "27670116110564327424"))
      ∧ getNumber (fun _ => 0) (ascii "27670116110564327424") = .unsigned 0x8000000000000000 := by
  refine ⟨getNumber_integer _ (.digits (by decide) (by decide) ?_), by rfl⟩
  exact List.all_eq_true.mp (by decide)

end Lexer

end HandlingModule.AIO
