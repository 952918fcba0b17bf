import HandlingModule.Json.Dump

/-!
# What is dumped is parsed back

A dumped value is derived by the grammar, whatever the indentation, and so it is what
the parser returns (`parse_dump`). Not everything comes back as it was: an integer
without a sign comes back as unsigned, and a `double` as what its text is read as. A
value that the parser returned has its objects in order and its strings made of bytes,
so it can be dumped (`held_parse`).
-/

namespace HandlingModule.AIO

open Lexer HandlingModule.AIO.Parser

namespace Json

/-! ## Strings -/

/-- The piece a byte is written as. -/
def pieceOf (c : LexerChar) : Piece :=
  match escapeLetter c with
  | some e => .escape e
  | none =>
      if c ≤ 0x1F then .unicode '0'.toUInt8 '0'.toUInt8 (hexify (c >>> 4)) (hexify (c &&& 0x0F))
      else .plain c

theorem text_pieceOf (c : LexerChar) : (pieceOf c).text = escapeByte c := by
  unfold pieceOf escapeByte
  cases escapeLetter c with
  | some e => rfl
  | none => by_cases hc : c ≤ 0x1F <;> simp [hc, Piece.text]

theorem escapeLetter_some {c e : LexerChar} (h : escapeLetter c = some e) :
    isEscape e = true ∧ unescape e = [c] := by
  unfold escapeLetter at h
  repeat (split at h; · subst_vars; rw [← Option.some.inj h]; decide)
  exact absurd h (by simp)

theorem escapeLetter_none {c : LexerChar} (h : escapeLetter c = none) :
    c ≠ quotationMark ∧ c ≠ reverseSolidus := by
  constructor <;> (rintro rfl; exact absurd h (by decide))

/-- A control byte is spelled by its digits. -/
theorem hexify_control {c : LexerChar} (h : c ≤ 0x1F) :
    isHex (hexify (c >>> 4)) = true ∧ isHex (hexify (c &&& 0x0F)) = true
      ∧ toUnicode (strtoul ['0'.toUInt8, '0'.toUInt8, hexify (c >>> 4), hexify (c &&& 0x0F)]) 0
        = .ok [c]
      ∧ isHighSurrogate
          (strtoul ['0'.toUInt8, '0'.toUInt8, hexify (c >>> 4), hexify (c &&& 0x0F)]) = false := by
  have h1F : (0x1F : UInt8).toNat = 0x1F := rfl
  have hlt : c.toNat < 0x20 := by
    rw [UInt8.le_iff_toNat_le, h1F] at h
    omega
  have hall : ∀ n < 0x20, isHex (hexify (UInt8.ofNat n >>> 4)) = true
      ∧ isHex (hexify (UInt8.ofNat n &&& 0x0F)) = true
      ∧ toUnicode (strtoul ['0'.toUInt8, '0'.toUInt8, hexify (UInt8.ofNat n >>> 4),
          hexify (UInt8.ofNat n &&& 0x0F)]) 0 = .ok [UInt8.ofNat n]
      ∧ isHighSurrogate (strtoul ['0'.toUInt8, '0'.toUInt8, hexify (UInt8.ofNat n >>> 4),
          hexify (UInt8.ofNat n &&& 0x0F)]) = false := by decide
  have := hall c.toNat hlt
  rwa [UInt8.ofNat_toNat] at this

theorem pieceOf_ok (c : LexerChar) : (pieceOf c).Ok := by
  unfold pieceOf
  cases he : escapeLetter c with
  | some e => exact (escapeLetter_some he).1
  | none =>
      by_cases hc : c ≤ 0x1F
      · obtain ⟨h1, h2, _⟩ := hexify_control hc
        simp only [hc, if_true]
        exact ⟨by decide, by decide, h1, h2⟩
      · obtain ⟨hq, hr⟩ := escapeLetter_none he
        simp only [hc, if_false]
        have h20 : (0x20 : UInt8) ≤ c := by
          have h1F : (0x1F : UInt8).toNat = 0x1F := rfl
          have h20 : (0x20 : UInt8).toNat = 0x20 := rfl
          rw [UInt8.le_iff_toNat_le] at hc ⊢
          omega
        show isPlain c = true
        simp [isPlain, h20, hq, hr]

theorem decode_pieceOf (c : LexerChar) (ps : List Piece) :
    decode (pieceOf c :: ps) = (decode ps).map (c :: ·) := by
  unfold pieceOf
  cases he : escapeLetter c with
  | some e =>
      rw [decode, (escapeLetter_some he).2]
      rfl
  | none =>
      by_cases hc : c ≤ 0x1F
      · obtain ⟨_, _, huni, hhigh⟩ := hexify_control hc
        simp only [hc, if_true]
        have hval : decode (.unicode '0'.toUInt8 '0'.toUInt8 (hexify (c >>> 4)) (hexify (c &&& 0x0F)) :: ps)
            = (do
                let bytes ← toUnicode (strtoul ['0'.toUInt8, '0'.toUInt8, hexify (c >>> 4),
                  hexify (c &&& 0x0F)]) 0
                let value ← decode ps
                return bytes ++ value) := by
          rw [decode.eq_def]
          dsimp only
          rw [hhigh]
          rfl
        rw [hval, huni]
        cases decode ps <;> rfl
      · simp only [hc, if_false]
        rfl

theorem decode_pieces (bs : List LexerChar) : decode (bs.map pieceOf) = .ok bs := by
  induction bs with
  | nil => rfl
  | cons c bs ih =>
      rw [List.map_cons, decode_pieceOf, ih]
      rfl

theorem stringText_pieces (bs : List LexerChar) :
    stringText (bs.map pieceOf) = [quotationMark] ++ escapeString bs ++ [quotationMark] := by
  rw [stringText, escapeString_eq, List.flatMap_map]
  simp only [text_pieceOf]
  rfl

theorem stringToken_dumped {s : String} (hs : Bytes s) {bs : List LexerChar} (hb : Blank bs) :
    StringToken (bs ++ ([quotationMark] ++ escapeString (ascii s) ++ [quotationMark])) s := by
  have htoken : StringToken (bs ++ stringText ((ascii s).map pieceOf)) (fromBytes (ascii s)) := by
    refine StringToken.mk hb ?_ (decode_pieces _)
    intro p hp
    obtain ⟨c, _, rfl⟩ := List.mem_map.mp hp
    exact pieceOf_ok c
  rwa [stringText_pieces, fromBytes_ascii hs] at htoken

/-! ## Numbers -/

theorem digitChar_eq {d : Nat} (h : d < 10) :
    isDigit d.digitChar.toUInt8 = true ∧ d.digitChar.toUInt8.toNat = 0x30 + d := by
  revert d
  decide

theorem ascii_toString (n : Nat) : ascii (toString n) = (Nat.toDigits 10 n).map Char.toUInt8 := by
  rw [ascii, Nat.toString_eq_ofList_toDigits, String.toList_ofList]

/-- The digits of a number stand for it, and the first of them is not `0` unless it is alone. -/
theorem digits_toString (n : Nat) :
    IntPart (ascii (toString n)) ∧ decimalValue (ascii (toString n)) = n := by
  induction n using Nat.strongRecOn with
  | _ n ih =>
      rw [ascii_toString, Nat.toDigits_eq_if (by omega)]
      split
      · rename_i hn
        obtain ⟨hd, hv⟩ := digitChar_eq hn
        refine ⟨?_, ?_⟩
        · by_cases h0 : n = 0
          · subst h0
            exact .zero
          · refine .digits hd ?_ (fun _ hm => absurd hm List.not_mem_nil)
            intro hz
            rw [hz] at hv
            have : ('0'.toUInt8).toNat = 0x30 := rfl
            omega
        · show 10 * 0 + (n.digitChar.toUInt8.toNat - 0x30) = n
          rw [hv]
          omega
      · rename_i hn
        obtain ⟨hint, hval⟩ := ih (n / 10) (by omega)
        obtain ⟨hd, hv⟩ := digitChar_eq (Nat.mod_lt n (by omega : 0 < 10))
        rw [List.map_append, ← ascii_toString]
        refine ⟨?_, ?_⟩
        · generalize ascii (toString (n / 10)) = w at hint hval
          cases hint with
          | zero =>
              have : decimalValue ['0'.toUInt8] = 0 := rfl
              omega
          | digits hd₀ hne hds => exact .digits hd₀ hne (hds.snoc hd)
        · rw [decimalValue, valueFrom_append]
          rw [decimalValue] at hval
          rw [hval]
          show 10 * (n / 10) + ((n % 10).digitChar.toUInt8.toNat - 0x30) = n
          rw [hv]
          omega

theorem numberText_integer (n : Int) : NumberText (integerText n) := by
  have hint := (digits_toString n.natAbs).1
  unfold integerText
  split
  · have := NumberText.mk (Or.inr rfl) hint .none .none
    simpa using this
  · have := NumberText.mk (Or.inl rfl) hint .none .none
    simpa using this

theorem getNumber_unsignedText (strtod : List LexerChar → UInt64) (n : UInt64) :
    getNumber strtod (integerText n.toNat) = .unsigned n := by
  obtain ⟨hint, hval⟩ := digits_toString n.toNat
  rw [integerText, if_neg (by omega), Int.natAbs_natCast]
  rw [(readsUnsigned hint).exact (by rw [hval]; exact n.toNat_lt), hval, UInt64.ofNat_toNat]

theorem getNumber_integerText (strtod : List LexerChar → UInt64) (n : Int64) :
    getNumber strtod (integerText n.toInt)
      = if n < 0 then .integer n else .unsigned n.toUInt64 := by
  obtain ⟨hint, hval⟩ := digits_toString n.toInt.natAbs
  have hmin := n.le_toInt
  have hmax := n.toInt_lt
  have hzero : (0 : Int64).toInt = 0 := rfl
  by_cases hn : n < 0
  · have hneg : n.toInt < 0 := by
      rw [Int64.lt_iff_toInt_lt, hzero] at hn
      exact hn
    rw [if_pos hn, integerText, if_pos hneg]
    rw [(readsInteger hint).exact (by rw [hval]; omega), hval]
    have : -((n.toInt.natAbs : Nat) : Int) = n.toInt := by omega
    rw [this, Int64.ofInt_toInt]
  · have hpos : ¬ n.toInt < 0 := by
      rw [Int64.lt_iff_toInt_lt, hzero] at hn
      exact hn
    rw [if_neg hn, integerText, if_neg hpos]
    rw [(readsUnsigned hint).exact (by rw [hval]; omega), hval]
    have hof : n = Int64.ofNat n.toInt.natAbs := by
      rw [← Int64.ofInt_eq_ofNat, Int.natAbs_of_nonneg (Int.not_lt.mp hpos), Int64.ofInt_toInt]
    conv_rhs => rw [hof]
    rfl

/-! ## Objects -/

/-- A value as it is held by the library, with the `double`s in `F`. -/
inductive Held (F : UInt64 → Prop) : Json → Prop where
  | null : Held F .null
  | boolean {b : Bool} : Held F (.boolean b)
  | integer {n : Int64} : Held F (.integer n)
  | unsigned {n : UInt64} : Held F (.unsigned n)
  | float {bits : UInt64} : F bits → Held F (.float bits)
  | string {s : String} : Bytes s → Held F (.string s)
  | array {js : List Json} : (∀ j ∈ js, Held F j) → Held F (.array js)
  | object {ms : List (String × Json)} :
      Ordered ms → (∀ m ∈ ms, Bytes m.1) → (∀ m ∈ ms, Held F m.2) → Held F (.object ms)

/-! ## Values -/

variable (strtod : List LexerChar → UInt64) (number : UInt64 → List LexerChar)

mutual

/-- What a value comes back as. -/
def reread : Json → Json
  | .object members => .object (rereadMembers members)
  | .array elements => .array (rereadElements elements)
  | .integer n => if n < 0 then .integer n else .unsigned n.toUInt64
  | .float bits => getNumber strtod (floatText number bits)
  | .string s => .string s
  | .boolean b => .boolean b
  | .unsigned n => .unsigned n
  | .null => .null

def rereadMembers : List (String × Json) → List (String × Json)
  | [] => []
  | (key, value) :: members => (key, reread value) :: rereadMembers members

def rereadElements : List Json → List Json
  | [] => []
  | value :: elements => reread value :: rereadElements elements

end

variable {strtod number} {pretty_print : Bool} {indent_step : UInt32}

theorem map_fst_rereadMembers (members : List (String × Json)) :
    (rereadMembers strtod number members).map Prod.fst = members.map Prod.fst := by
  induction members with
  | nil => rfl
  | cons m members ih => rw [rereadMembers, List.map_cons, List.map_cons, ih]

theorem blank_spaces (indent : UInt32) : Blank (spaces indent) := by
  refine blank_of_spaces fun b hb => ?_
  rw [List.eq_of_mem_replicate hb]
  rfl

theorem blank_newline (pretty_print : Bool) : Blank (newline pretty_print) := by
  cases pretty_print with
  | false => exact .nil
  | true => exact .space rfl .nil

/-- What is proved of a value: it is derived behind any blanks, with any indentation. -/
def Derived (strtod : List LexerChar → UInt64) (number : UInt64 → List LexerChar)
    (pretty_print : Bool) (indent_step : UInt32) (j : Json) : Prop :=
  ∀ (indent : UInt32) (bs : List LexerChar), Blank bs →
    Value strtod (bs ++ dumpTo number pretty_print indent_step indent j) (reread strtod number j)

theorem elements_dumped (indent : UInt32) {js : List Json} {j : Json}
    (h : ∀ i ∈ j :: js, Derived strtod number pretty_print indent_step i)
    {bs : List LexerChar} (hb : Blank bs) :
    Elements strtod (bs ++ dumpElements number pretty_print indent_step indent true (j :: js))
      (rereadElements strtod number (j :: js)) := by
  induction js generalizing j bs with
  | nil =>
      have hvalue := h j (List.mem_cons_self ..) indent _ (hb.append (blank_spaces indent))
      have happend : bs ++ dumpElements number pretty_print indent_step indent true [j]
          = bs ++ spaces indent ++ dumpTo number pretty_print indent_step indent j := by
        simp [dumpElements]
      rw [happend]
      exact .one hvalue
  | cons j' js ih =>
      have hvalue := h j (List.mem_cons_self ..) indent _ (hb.append (blank_spaces indent))
      have hrest := ih (fun i hi => h i (List.mem_cons_of_mem _ hi)) (blank_newline pretty_print)
      have happend : bs ++ dumpElements number pretty_print indent_step indent true (j :: j' :: js)
          = bs ++ spaces indent ++ dumpTo number pretty_print indent_step indent j ++ ascii ","
            ++ (newline pretty_print
              ++ dumpElements number pretty_print indent_step indent true (j' :: js)) := by
        simp [dumpElements]
      rw [happend]
      exact .more hvalue (token_lexeme .valueSeparator) hrest

theorem members_dumped (indent : UInt32) {ms : List (String × Json)} {m : String × Json}
    (hk : ∀ i ∈ m :: ms, Bytes i.1)
    (h : ∀ i ∈ m :: ms, Derived strtod number pretty_print indent_step i.2)
    {bs : List LexerChar} (hb : Blank bs) :
    Members strtod (bs ++ dumpMembers number pretty_print indent_step indent true (m :: ms))
      (rereadMembers strtod number (m :: ms)) := by
  have hspace : Blank (if pretty_print then ascii " " else []) := by
    cases pretty_print with
    | false => exact .nil
    | true => exact .space rfl .nil
  induction ms generalizing m bs with
  | nil =>
      have hkey := stringToken_dumped (hk m (List.mem_cons_self ..)) (hb.append (blank_spaces indent))
      have hvalue := h m (List.mem_cons_self ..) indent _ hspace
      have happend : bs ++ dumpMembers number pretty_print indent_step indent true [m]
          = bs ++ spaces indent ++ ([quotationMark] ++ escapeString (ascii m.1) ++ [quotationMark])
            ++ ascii ":" ++ ((if pretty_print then ascii " " else [])
              ++ dumpTo number pretty_print indent_step indent m.2) := by
        simp [dumpMembers]
      rw [happend]
      exact .one hkey (token_lexeme .nameSeparator) hvalue
  | cons m' ms ih =>
      have hkey := stringToken_dumped (hk m (List.mem_cons_self ..)) (hb.append (blank_spaces indent))
      have hvalue := h m (List.mem_cons_self ..) indent _ hspace
      have hrest := ih (fun i hi => hk i (List.mem_cons_of_mem _ hi))
        (fun i hi => h i (List.mem_cons_of_mem _ hi)) (blank_newline pretty_print)
      have happend : bs ++ dumpMembers number pretty_print indent_step indent true (m :: m' :: ms)
          = bs ++ spaces indent ++ ([quotationMark] ++ escapeString (ascii m.1) ++ [quotationMark])
            ++ ascii ":" ++ ((if pretty_print then ascii " " else [])
              ++ dumpTo number pretty_print indent_step indent m.2) ++ ascii ","
            ++ (newline pretty_print
              ++ dumpMembers number pretty_print indent_step indent true (m' :: ms)) := by
        simp [dumpMembers]
      rw [happend]
      exact .more hkey (token_lexeme .nameSeparator) hvalue (token_lexeme .valueSeparator) hrest

/-- **What is dumped is derived.** -/
theorem derived {j : Json} (h : Held (fun bits => NumberText (floatText number bits)) j) :
    Derived strtod number pretty_print indent_step j := by
  induction h with
  | null => exact fun indent bs hb => .null ⟨hb, .literalNull⟩
  | @boolean b =>
      intro indent bs hb
      cases b with
      | true => exact .true ⟨hb, .literalTrue⟩
      | false => exact .false ⟨hb, .literalFalse⟩
  | @integer n =>
      intro indent bs hb
      have : Value strtod _ _ := .number hb (numberText_integer n.toInt)
      rwa [getNumber_integerText] at this
  | @unsigned n =>
      intro indent bs hb
      have : Value strtod _ _ := .number hb (numberText_integer n.toNat)
      rwa [getNumber_unsignedText] at this
  | float hf => exact fun indent bs hb => .number hb hf
  | string hs => exact fun indent bs hb => .string (stringToken_dumped hs hb)
  | @array js _ ih =>
      intro indent bs hb
      cases js with
      | nil =>
          have hclose : Token .endArray [']'.toUInt8] := token_lexeme .endArray
          have : Value strtod _ _ := .emptyArray ⟨hb, .beginArray⟩ hclose
          rw [List.append_assoc] at this
          exact this
      | cons j js =>
          have hblank := (blank_newline pretty_print).append (blank_spaces indent)
          have := Value.array ⟨hb, .beginArray⟩
            (elements_dumped (if pretty_print then indent + indent_step else indent) ih
              (blank_newline pretty_print)) ⟨hblank, .endArray⟩
          have happend : bs ++ dumpTo number pretty_print indent_step indent (.array (j :: js))
              = bs ++ ['['.toUInt8] ++ (newline pretty_print
                ++ dumpElements number pretty_print indent_step
                  (if pretty_print then indent + indent_step else indent) true (j :: js))
                ++ (newline pretty_print ++ spaces indent ++ [']'.toUInt8]) := by
            simp [dumpTo, ascii]
          rw [happend]
          exact this
  | @object ms hmap hkeys _ ih =>
      intro indent bs hb
      cases ms with
      | nil =>
          have hclose : Token .endObject [0x7D] := token_lexeme .endObject
          have : Value strtod _ _ := .emptyObject ⟨hb, .beginObject⟩ hclose
          rw [List.append_assoc] at this
          exact this
      | cons m ms =>
          have hblank := (blank_newline pretty_print).append (blank_spaces indent)
          have hmembers := members_dumped (if pretty_print then indent + indent_step else indent)
            hkeys ih (blank_newline pretty_print)
          have := Value.object ⟨hb, .beginObject⟩ hmembers ⟨hblank, .endObject⟩
          have happend : bs ++ dumpTo number pretty_print indent_step indent (.object (m :: ms))
              = bs ++ [0x7B] ++ (newline pretty_print
                ++ dumpMembers number pretty_print indent_step
                  (if pretty_print then indent + indent_step else indent) true (m :: ms))
                ++ (newline pretty_print ++ spaces indent ++ [0x7D]) := by
            simp [dumpTo]
          have hordered : Ordered ([] ++ rereadMembers strtod number (m :: ms)) := by
            rw [List.nil_append, Ordered, map_fst_rereadMembers]
            exact hmap
          rw [assignAll, foldl_assign_ordered hordered, List.nil_append] at this
          rw [happend]
          exact this

theorem dump_derived {j : Json} (h : Held (fun bits => NumberText (floatText number bits)) j)
    (indent : Int32) : Text strtod (dump number indent j) (reread strtod number j) := by
  have htext : ∀ {w : List LexerChar}, Value strtod ([] ++ w) (reread strtod number j) →
      Text strtod w (reread strtod number j) := by
    intro w hw
    have := Text.mk hw (.atEnd .nil)
    rwa [List.nil_append, List.append_nil] at this
  unfold dump
  split
  · exact htext (derived h 0 [] .nil)
  · exact htext (derived h 0 [] .nil)

/-! ## What the parser returns -/

/-- The `double`s that are read in number texts. -/
def Spelled (strtod : List LexerChar → UInt64) (bits : UInt64) : Prop :=
  ∃ w, NumberText w ∧ bits = strtod w

theorem held_getNumber {w : List LexerChar} (h : NumberText w) :
    Held (Spelled strtod) (getNumber strtod w) := by
  unfold getNumber
  generalize (if w.head? = some '-'.toUInt8 then getNumberLoop maxNegative .integer 0 w.tail
    else getNumberLoop maxUnsigned .unsigned 0 w) = r
  obtain ⟨type, value⟩ := r
  cases type with
  | integer => exact .integer
  | unsigned => exact .unsigned
  | float => exact .float ⟨w, h, rfl⟩

theorem bytes_stringToken {u : List LexerChar} {s : String} (h : StringToken u s) : Bytes s := by
  cases h with
  | mk _ _ _ => exact bytes_fromBytes _

theorem ordered_assignAll (members : List (String × Json)) : Ordered (assignAll [] members) := by
  have hloop : ∀ {acc : List (String × Json)}, Ordered acc → Ordered (assignAll acc members) := by
    induction members with
    | nil => exact fun h => h
    | cons m members ih => exact fun h => ih (ordered_assign h m.1 m.2)
  exact hloop List.Pairwise.nil

theorem mem_assignAll {acc members : List (String × Json)} {m : String × Json}
    (h : m ∈ assignAll acc members) : m ∈ acc ∨ m ∈ members := by
  induction members generalizing acc with
  | nil => exact Or.inl h
  | cons m' members ih =>
      rcases ih h with h | h
      · rcases mem_assign h with rfl | h
        · exact Or.inr (List.mem_cons_self ..)
        · exact Or.inl h
      · exact Or.inr (List.mem_cons_of_mem _ h)

mutual

theorem held_value {w : List LexerChar} {j : Json} : Value strtod w j → Held (Spelled strtod) j
  | .null _ => .null
  | .true _ => .boolean
  | .false _ => .boolean
  | .string hu => .string (bytes_stringToken hu)
  | .number _ hw => held_getNumber hw
  | .emptyArray _ _ => .array fun _ hj => absurd hj List.not_mem_nil
  | .array _ hw _ => .array (held_elements hw)
  | .emptyObject _ _ => .object List.Pairwise.nil (fun _ hm => absurd hm List.not_mem_nil)
      fun _ hm => absurd hm List.not_mem_nil
  | .object _ hw _ => .object (ordered_assignAll _)
      (fun _ hm => (held_members hw _ ((mem_assignAll hm).resolve_left List.not_mem_nil)).1)
      fun _ hm => (held_members hw _ ((mem_assignAll hm).resolve_left List.not_mem_nil)).2

theorem held_elements {w : List LexerChar} {js : List Json} :
    Elements strtod w js → ∀ j ∈ js, Held (Spelled strtod) j
  | .one hv => fun _ hj => List.mem_singleton.mp hj ▸ held_value hv
  | .more hv _ hws => fun _ hj =>
      (List.mem_cons.mp hj).elim (fun h => h ▸ held_value hv) (held_elements hws _)

theorem held_members {w : List LexerChar} {ms : List (String × Json)} :
    Members strtod w ms → ∀ m ∈ ms, Bytes m.1 ∧ Held (Spelled strtod) m.2
  | .one hk _ hv => fun _ hm =>
      List.mem_singleton.mp hm ▸ ⟨bytes_stringToken hk, held_value hv⟩
  | .more hk _ hv _ hws => fun _ hm =>
      (List.mem_cons.mp hm).elim (fun h => h ▸ ⟨bytes_stringToken hk, held_value hv⟩)
        (held_members hws _)

end

/-- **What the parser returns is held in order**, whatever the text. -/
theorem held_parse {text : List LexerChar} {j : Json} (h : parse strtod text = .ok j) :
    Held (Spelled strtod) j := by
  obtain ⟨hw, _⟩ := parse_eq_ok_iff.mp h
  exact held_value hw

/-! ## Members -/

/-- Of a key that is assigned more than once, the last value stays. -/
theorem lookup_assignAll (acc members : List (String × Json)) (k : String) :
    (assignAll acc members).lookup k = (members.reverse ++ acc).lookup k := by
  induction members generalizing acc with
  | nil => rfl
  | cons m members ih =>
      show (assignAll (assign acc m.1 m.2) members).lookup k = _
      have hcongr : ∀ (pre : List (String × Json)) {l l' : List (String × Json)},
          l.lookup k = l'.lookup k → (pre ++ l).lookup k = (pre ++ l').lookup k := by
        intro pre l l' hl
        rw [List.lookup_append, List.lookup_append, hl]
      rw [ih, List.reverse_cons, List.append_assoc]
      refine hcongr _ ?_
      rw [lookup_assign, List.singleton_append]
      exact (lookup_cons_eq ..).symm

theorem lookup_rereadMembers (members : List (String × Json)) (k : String) :
    (rereadMembers strtod number members).lookup k
      = (members.lookup k).map (reread strtod number) := by
  induction members with
  | nil => rfl
  | cons m members ih =>
      rw [rereadMembers, List.lookup_cons, List.lookup_cons, ih]
      cases hk : k == m.1 <;> rfl

/-- A member comes back as the member of what comes back. -/
theorem member_reread (j : Json) (key : String) :
    (reread strtod number j).member key = reread strtod number (j.member key) := by
  cases j with
  | object members =>
      rw [reread, member, member, lookup_rereadMembers]
      cases members.lookup key with
      | none => simp [reread]
      | some v => rfl
  | integer n =>
      rw [reread]
      split <;> simp [member, reread]
  | float bits =>
      have hnumber : ∀ w, (getNumber strtod w).member key = .null := by
        intro w
        unfold getNumber
        generalize (if w.head? = some '-'.toUInt8 then getNumberLoop maxNegative .integer 0 w.tail
          else getNumberLoop maxUnsigned .unsigned 0 w) = r
        obtain ⟨type, value⟩ := r
        cases type <;> rfl
      rw [reread, hnumber, member, reread]
      intro members h
      exact absurd h (by simp)
  | null | boolean b | string s | unsigned n | array js => simp [reread, member]

/--
**What is dumped is parsed back**, with any indentation: strings, arrays and objects as
they were, and every number as what its digits say.
-/
theorem parse_dump {j : Json} (h : Held (fun bits => NumberText (floatText number bits)) j)
    (indent : Int32) : parse strtod (dump number indent j) = .ok (reread strtod number j) :=
  parse_eq_ok_iff.mpr (dump_derived h indent)

/-- A value with a string to be escaped, an empty array and numbers with and without a sign. -/
def dumpedValue : Json :=
  .object [("COMMAND", .string "a\"\n"), ("PARAMS", .array [.integer (-5), .unsigned 7, .array []])]

theorem held_dumpedValue {F : UInt64 → Prop} : Held F dumpedValue := by
  refine .object (by unfold Ordered; decide) (by decide) ?_
  intro m hm
  simp only [List.mem_cons, List.not_mem_nil, or_false] at hm
  rcases hm with rfl | rfl
  · exact .string (by decide)
  · refine .array fun j hj => ?_
    simp only [List.mem_cons, List.not_mem_nil, or_false] at hj
    rcases hj with rfl | rfl | rfl
    · exact .integer
    · exact .unsigned
    · exact .array fun _ h => absurd h List.not_mem_nil

theorem parse_dump_indented :
    parse (fun _ => 0) (dump (fun _ => []) 2 dumpedValue) = .ok (reread (fun _ => 0) (fun _ => []) dumpedValue) :=
  parse_dump held_dumpedValue 2

/--
**The members of an object**, which may have none. The parser keeps them in the order of their
keys, and of a key that stands in the text more than once it keeps the last value.
-/
theorem parse_object {u w v rest : List LexerChar} {ms : List (String × Json)}
    (hu : Token .beginObject u) (hw : Members strtod w ms ∨ (w = [] ∧ ms = []))
    (hv : Token .endObject v) (hend : Ending rest) :
    ∃ obj, parse strtod (u ++ w ++ v ++ rest) = .ok (.object obj) ∧ Ordered obj
      ∧ ∀ key, obj.lookup key = ms.reverse.lookup key := by
  have hvalue : Value strtod (u ++ w ++ v) (.object (assignAll [] ms)) := by
    rcases hw with hw | ⟨rfl, rfl⟩
    · exact .object hu hw hv
    · rw [List.append_nil]
      exact .emptyObject hu hv
  refine ⟨assignAll [] ms, parse_eq_ok_iff.mpr (.mk hvalue hend), ordered_assignAll ms, ?_⟩
  intro key
  rw [lookup_assignAll, List.append_nil]

theorem letterKey : StringToken (stringText [.plain 'a'.toUInt8]) (fromBytes ['a'.toUInt8]) := by
  refine StringToken.mk .nil ?_ rfl
  intro p hp
  rw [List.mem_singleton.mp hp]
  decide

/-- A key that stands in the text twice. -/
theorem parse_object_twice :
    ∃ obj, parse (fun _ => 0) (ascii "\x7b\"a\":null,\"a\":true\x7d") = .ok (.object obj)
      ∧ Ordered obj ∧ ∀ key, obj.lookup key
        = [(fromBytes ['a'.toUInt8], Json.boolean true), (fromBytes ['a'.toUInt8], Json.null)].lookup
          key := by
  have hmembers := Members.more letterKey (token_lexeme .nameSeparator) (value_null fun _ => 0)
    (token_lexeme .valueSeparator)
    (.one letterKey (token_lexeme .nameSeparator) (.true (token_lexeme .literalTrue)))
  have hobject := parse_object (token_lexeme .beginObject) (Or.inl hmembers)
    (token_lexeme .endObject) (.atEnd .nil)
  have htext : ascii "\x7b\"a\":null,\"a\":true\x7d" = [0x7B]
      ++ (stringText [.plain 'a'.toUInt8] ++ [':'.toUInt8] ++ ascii "null" ++ [','.toUInt8]
        ++ (stringText [.plain 'a'.toUInt8] ++ [':'.toUInt8] ++ ascii "true")) ++ [0x7D] ++ [] := by
    decide
  rw [htext]
  exact hobject

end Json

end HandlingModule.AIO
