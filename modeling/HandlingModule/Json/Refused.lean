import HandlingModule.Json.Accepted

/-!
# What the parser throws

The parser is predictive: what it has read when it throws is the beginning of a JSON
text, and what it throws is about the next token (`refuses`). A string whose escapes
are no characters is the one token that is refused for what is in it.
-/

namespace HandlingModule.AIO

open Lexer

namespace Lexer

/-! ## Surrogates -/

theorem hexValue_lt {b : LexerChar} (h : isHex b = true) : hexValue b < 16 := by
  have h46 : (0x46 : UInt8).toNat = 0x46 := rfl
  have h41 : (0x41 : UInt8).toNat = 0x41 := rfl
  have h61 : (0x61 : UInt8).toNat = 0x61 := rfl
  have h66 : (0x66 : UInt8).toNat = 0x66 := rfl
  unfold hexValue
  split
  · have := isDigit_iff.mp ‹_›
    omega
  · rename_i hd
    simp only [isHex, Bool.or_eq_true, Bool.and_eq_true, decide_eq_true_eq,
      UInt8.le_iff_toNat_le, h41, h46, h61, h66] at h
    have hle : b ≤ 0x46 ↔ b.toNat ≤ 0x46 := by rw [UInt8.le_iff_toNat_le, h46]
    rcases h with (h | h) | h
    · exact absurd h hd
    · rw [if_pos (hle.mpr h.2)]
      omega
    · rw [if_neg (fun hc => absurd (hle.mp hc) (by omega))]
      omega

theorem strtoul_lt {h₁ h₂ h₃ h₄ : LexerChar} (h : (Piece.unicode h₁ h₂ h₃ h₄).Ok) :
    strtoul [h₁, h₂, h₃, h₄] < 0x10000 := by
  have h1 := hexValue_lt h.1
  have h2 := hexValue_lt h.2.1
  have h3 := hexValue_lt h.2.2.1
  have h4 := hexValue_lt h.2.2.2
  simp only [strtoul, List.foldl_cons, List.foldl_nil]
  omega

theorem utf8Bytes_isOk {codepoint : Nat} (h : codepoint ≤ 0x10FFFF) : ∃ bs, utf8Bytes codepoint = .ok bs := by
  unfold utf8Bytes
  split
  · exact ⟨_, rfl⟩
  · split
    · exact ⟨_, rfl⟩
    · split
      · exact ⟨_, rfl⟩
      · exact ⟨_, rfl⟩

/-- Two escapes with digits never go above the greatest code point. -/
theorem toUnicode_error {codepoint1 codepoint2 : Nat} {e : ParseError} (h : codepoint1 < 0x10000)
    (he : toUnicode codepoint1 codepoint2 = .error e) : e = wrongLowSurrogate := by
  have hok : ∀ {n : Nat}, n ≤ 0x10FFFF → utf8Bytes n ≠ .error e := by
    intro n hn hf
    obtain ⟨bs, hbs⟩ := utf8Bytes_isOk hn
    rw [hbs] at hf
    exact absurd hf (by simp)
  unfold toUnicode at he
  split at he
  · rename_i hhigh
    split at he
    · rename_i hlow
      simp only [isHighSurrogate, isLowSurrogate, Bool.and_eq_true, decide_eq_true_eq] at hhigh hlow
      rw [Nat.shiftLeft_eq] at he
      exact absurd he (hok (by omega))
    · exact (Except.error.inj he).symm
  · exact absurd he (hok (by omega))

/-- The errors of `get_string`. -/
def BadSurrogate (e : ParseError) : Prop := e = missingLowSurrogate ∨ e = wrongLowSurrogate

theorem map_error {ε α β : Type} {x : Except ε α} {f : α → β} {e : ε} (h : x.map f = .error e) :
    x = .error e := by
  cases x with
  | error e' => exact congrArg Except.error (Except.error.inj h)
  | ok a => exact absurd h (by simp [Except.map])

theorem decode_error : ∀ {ps : List Piece} {e : ParseError}, Pieces ps → decode ps = .error e →
    BadSurrogate e
  | [], e, _, h => absurd h (by simp [decode])
  | .plain b :: ps, e, hps, h => by
      rw [decode] at h
      exact decode_error (fun p hp => hps p (List.mem_cons_of_mem _ hp)) (map_error h)
  | .escape c :: ps, e, hps, h => by
      rw [decode] at h
      exact decode_error (fun p hp => hps p (List.mem_cons_of_mem _ hp)) (map_error h)
  | .unicode h₁ h₂ h₃ h₄ :: ps, e, hps, h => by
      have hlt := strtoul_lt (hps _ (List.mem_cons_self ..))
      have hps : Pieces ps := fun p hp => hps p (List.mem_cons_of_mem _ hp)
      rw [decode.eq_def] at h
      dsimp only at h
      split at h
      · split at h
        · rcases Parser.bind_eq_error h with h | ⟨bytes, _, h⟩
          · exact Or.inr (toUnicode_error hlt h)
          · rcases Parser.bind_eq_error h with h | ⟨value, _, h⟩
            · exact decode_error (fun p hp => hps p (List.mem_cons_of_mem _ hp)) h
            · exact absurd h (by simp [pure, Except.pure])
        · exact Or.inl (Except.error.inj h).symm
      · rcases Parser.bind_eq_error h with h | ⟨bytes, _, h⟩
        · exact Or.inr (toUnicode_error hlt h)
        · rcases Parser.bind_eq_error h with h | ⟨value, _, h⟩
          · exact decode_error hps h
          · exact absurd h (by simp [pure, Except.pure])

end Lexer

namespace Parser

variable {strtod : List LexerChar → UInt64}

/-- An error that is about the token in the lexer. -/
inductive Blames (l : Lexer) : ParseError → Prop where
  | unexpected : Blames l (.invalidArgument (unexpected l))
  | expected {t : TokenType} : t ≠ l.last_token_type →
      Blames l (.invalidArgument (Parser.unexpected l ++ ascii ("; expected " ++ tokenTypeName t)))
  | surrogate {e : ParseError} : l.last_token_type = .valueString →
      getString l.token_string = .error e → BadSurrogate e → Blames l e

theorem Blames.invalidArgument {l : Lexer} {e : ParseError} (h : Blames l e) :
    ∃ what, e = .invalidArgument what := by
  cases h with
  | unexpected => exact ⟨_, rfl⟩
  | expected _ => exact ⟨_, rfl⟩
  | surrogate _ _ hbad => rcases hbad with rfl | rfl <;> exact ⟨_, rfl⟩

theorem expect_error {t : TokenType} {l : Lexer} {e : ParseError} (h : expect t l = .error e) :
    Blames l e := by
  unfold expect at h
  split at h
  · rename_i hne
    rw [← Except.error.inj h]
    exact .expected hne
  · exact absurd h (by simp)

theorem unexpect_error {t : TokenType} {l : Lexer} {e : ParseError} (h : unexpect t l = .error e) :
    Blames l e := by
  unfold unexpect at h
  split at h
  · rw [← Except.error.inj h]
    exact .unexpected
  · exact absurd h (by simp)

theorem getString_error {input : List LexerChar} {e : ParseError}
    (ht : (Lexer.scan input).last_token_type = .valueString)
    (h : getString (Lexer.scan input).token_string = .error e) : Blames (Lexer.scan input) e := by
  obtain ⟨_, w, _, _, hw, _, hscan⟩ := token_of_scan ht (by simp) (by simp)
  refine .surrogate ht h ?_
  rw [hscan] at h
  cases hw with
  | valueString hps =>
      rw [getString_stringText hps] at h
      exact decode_error hps h

/--
`input` is refused with `e`: up to some place it is the beginning of something that is
derived, and the error is about the token there.
-/
def Refused {α : Type} (Derived : List LexerChar → α → Prop) (input : List LexerChar)
    (e : ParseError) : Prop :=
  ∃ before bad after x, input = before ++ bad ∧ Derived (before ++ after) x
    ∧ Blames (Lexer.scan bad) e

/-- What is refused inside of something else. -/
theorem Refused.inside {α β : Type} {D : List LexerChar → α → Prop} {E : List LexerChar → β → Prop}
    {input : List LexerChar} {e : ParseError} (h : Refused D input e) (pre post : List LexerChar)
    (hin : ∀ {w : List LexerChar} {x : α}, D w x → ∃ y, E (pre ++ w ++ post) y) :
    Refused E (pre ++ input) e := by
  obtain ⟨before, bad, after, x, rfl, hd, hblame⟩ := h
  obtain ⟨y, hy⟩ := hin hd
  refine ⟨pre ++ before, bad, after ++ post, y, (List.append_assoc ..).symm, ?_, hblame⟩
  have happend : pre ++ before ++ (after ++ post) = pre ++ (before ++ after) ++ post := by simp
  rw [happend]
  exact hy

theorem token_lexeme {t : TokenType} {w : List LexerChar} (h : Lexeme t w) : Token t w :=
  Token.mk .nil h

theorem value_null (strtod : List LexerChar → UInt64) : Value strtod (ascii "null") .null :=
  .null (token_lexeme .literalNull)

theorem emptyKey : StringToken (stringText []) (fromBytes []) :=
  StringToken.mk .nil (fun _ hp => absurd hp List.not_mem_nil) rfl

/-- What is refused for its first token. -/
theorem Refused.first {α : Type} {D : List LexerChar → α → Prop} {input w : List LexerChar} {x : α}
    {e : ParseError} (hd : D w x) (h : Blames (Lexer.scan input) e) : Refused D input e :=
  ⟨[], input, w, x, rfl, hd, h⟩

structure Refuses (strtod : List LexerChar → UInt64) (n : Nat) : Prop where
  value : ∀ {input : List LexerChar} {e : ParseError}, 2 * input.length < n →
    parseInternal strtod n (Lexer.scan input) = .error e → Refused (Value strtod) input e
  elements : ∀ {input : List LexerChar} {l : Lexer} {e : ParseError}, 2 * input.length + 1 < n →
    skipSeparator l = Lexer.scan input → parseElements strtod n l = .error e →
    Refused (Elements strtod) input e
  members : ∀ {input : List LexerChar} {acc : List (String × Json)} {l : Lexer} {e : ParseError},
    2 * input.length + 1 < n → skipSeparator l = Lexer.scan input →
    parseMembers strtod n acc l = .error e → Refused (Members strtod) input e

theorem refuses_array {n : Nat} (ih : Refuses strtod n) {input : List LexerChar} {e : ParseError}
    (hn : 2 * input.length < n + 1) (ht : (Lexer.scan input).last_token_type = .beginArray)
    (h : parseInternal strtod (n + 1) (Lexer.scan input) = .error e) :
    Refused (Value strtod) input e := by
  obtain ⟨u, after, hu, rfl, hget⟩ := token_scan ht (by simp) (by simp)
  have hclose : Token .endArray [']'.toUInt8] := token_lexeme .endArray
  by_cases hend : (Lexer.scan after).last_token_type = .endArray
  · rw [parseInternal_emptyArray ht hget hend] at h
    exact absurd h (by simp)
  · have hpos := hu.length_pos
    rw [List.length_append] at hn
    rw [parseInternal_array ht hget hend] at h
    rcases bind_eq_error h with h | ⟨_, hsep, h⟩
    · exact ⟨u, after, _, _, rfl, .emptyArray hu hclose, unexpect_error h⟩
    · have hskip := skipSeparator_ne (unexpect_eq_ok hsep)
      rcases bind_eq_error h with h | ⟨⟨js, l'⟩, hloop, h⟩
      · exact (ih.elements (by omega) hskip h).inside u _ fun hw => ⟨_, .array hu hw hclose⟩
      · obtain ⟨w, rest, rfl, hw, rfl⟩ := (sound n).elements hskip hloop
        rcases bind_eq_error h with h | ⟨_, _, h⟩
        · exact ⟨u ++ w, rest, _, _, by simp, .array hu hw hclose, expect_error h⟩
        · exact absurd h (by simp [pure, Except.pure])

theorem refuses_object {n : Nat} (ih : Refuses strtod n) {input : List LexerChar} {e : ParseError}
    (hn : 2 * input.length < n + 1) (ht : (Lexer.scan input).last_token_type = .beginObject)
    (h : parseInternal strtod (n + 1) (Lexer.scan input) = .error e) :
    Refused (Value strtod) input e := by
  obtain ⟨u, after, hu, rfl, hget⟩ := token_scan ht (by simp) (by simp)
  have hclose : Token .endObject [0x7D] := token_lexeme .endObject
  by_cases hend : (Lexer.scan after).last_token_type = .endObject
  · rw [parseInternal_emptyObject ht hget hend] at h
    exact absurd h (by simp)
  · have hpos := hu.length_pos
    rw [List.length_append] at hn
    rw [parseInternal_object ht hget hend] at h
    rcases bind_eq_error h with h | ⟨_, hsep, h⟩
    · exact ⟨u, after, _, _, rfl, .emptyObject hu hclose, unexpect_error h⟩
    · have hskip := skipSeparator_ne (unexpect_eq_ok hsep)
      rcases bind_eq_error h with h | ⟨⟨ms, l'⟩, hloop, h⟩
      · exact (ih.members (by omega) hskip h).inside u _ fun hw => ⟨_, .object hu hw hclose⟩
      · obtain ⟨w, ms, rest, rfl, hw, rfl, rfl⟩ := (sound n).members hskip hloop
        rcases bind_eq_error h with h | ⟨_, _, h⟩
        · exact ⟨u ++ w, rest, _, _, by simp, .object hu hw hclose, expect_error h⟩
        · exact absurd h (by simp [pure, Except.pure])

theorem refuses_value {n : Nat} (ih : Refuses strtod n) {input : List LexerChar} {e : ParseError}
    (hn : 2 * input.length < n + 1)
    (h : parseInternal strtod (n + 1) (Lexer.scan input) = .error e) :
    Refused (Value strtod) input e := by
  cases ht : (Lexer.scan input).last_token_type with
  | beginArray => exact refuses_array ih hn ht h
  | beginObject => exact refuses_object ih hn ht h
  | literalNull | literalTrue | literalFalse | valueNumber =>
      rw [parseInternal, ht] at h
      exact absurd h (by simp)
  | valueString =>
      rw [parseInternal, ht] at h
      rcases bind_eq_error h with h | ⟨_, _, h⟩
      · exact .first (value_null strtod) (getString_error ht h)
      · exact absurd h (by simp [pure, Except.pure])
  | endArray | endObject | nameSeparator | valueSeparator | parseError | endOfInput =>
      rw [parseInternal, ht] at h
      rw [← Except.error.inj h]
      exact .first (value_null strtod) .unexpected

theorem refuses_elements {n : Nat} (ih : Refuses strtod n) {input : List LexerChar} {l : Lexer}
    {e : ParseError} (hn : 2 * input.length < n) (hl : skipSeparator l = Lexer.scan input)
    (h : parseElements strtod (n + 1) l = .error e) : Refused (Elements strtod) input e := by
  rw [parseElements, hl] at h
  rcases bind_eq_error h with h | ⟨⟨j, l'⟩, hvalue, h⟩
  · exact (ih.value hn h).inside [] [] fun hw => ⟨_, by rw [List.append_nil]; exact .one hw⟩
  · obtain ⟨w, rest, rfl, hw, rfl⟩ := (sound n).value hvalue
    dsimp only at h
    split at h
    · rename_i hsep
      obtain ⟨u, after, hu, rfl, hget⟩ := token_scan hsep (by simp) (by simp)
      have hpos := hu.length_pos
      rw [List.length_append, List.length_append] at hn
      rcases bind_eq_error h with h | ⟨_, _, h⟩
      · have hrest := ih.elements (by omega) ((skipSeparator_eq hsep).trans hget) h
        have hin := hrest.inside (E := Elements strtod) (w ++ u) []
          fun hws => ⟨_, by rw [List.append_nil]; exact .more hw hu hws⟩
        rwa [List.append_assoc] at hin
      · exact absurd h (by simp [pure, Except.pure])
    · exact absurd h (by simp [pure, Except.pure])

theorem refuses_members {n : Nat} (ih : Refuses strtod n) {input : List LexerChar}
    {acc : List (String × Json)} {l : Lexer} {e : ParseError} (hn : 2 * input.length < n)
    (hl : skipSeparator l = Lexer.scan input) (h : parseMembers strtod (n + 1) acc l = .error e) :
    Refused (Members strtod) input e := by
  have hcolon : Token .nameSeparator [':'.toUInt8] := token_lexeme .nameSeparator
  have hfirst := Members.one emptyKey hcolon (value_null strtod)
  rw [parseMembers, hl] at h
  rcases bind_eq_error h with h | ⟨_, hstring, h⟩
  · exact .first hfirst (expect_error h)
  rcases bind_eq_error h with h | ⟨v, hv, h⟩
  · exact .first hfirst (getString_error (expect_eq_ok hstring) h)
  obtain ⟨k, after, hk, rfl, hget⟩ := stringToken_scan (expect_eq_ok hstring) hv
  dsimp only at h
  rw [hget] at h
  rcases bind_eq_error h with h | ⟨_, hname, h⟩
  · exact ⟨k, after, [':'.toUInt8] ++ ascii "null", _, rfl,
      by rw [← List.append_assoc]; exact .one hk hcolon (value_null strtod), expect_error h⟩
  obtain ⟨u, after, hu, rfl, hget'⟩ := token_scan (expect_eq_ok hname) (by simp) (by simp)
  rw [hget'] at h
  rw [List.length_append, List.length_append] at hn
  rcases bind_eq_error h with h | ⟨⟨j, l'⟩, hvalue, h⟩
  · have hin := (ih.value (by omega) h).inside (E := Members strtod) (k ++ u) []
      fun hw => ⟨_, by rw [List.append_nil]; exact .one hk hu hw⟩
    rwa [List.append_assoc] at hin
  obtain ⟨w, rest, rfl, hw, rfl⟩ := (sound n).value hvalue
  dsimp only at h
  split at h
  · rename_i hsep
    obtain ⟨x, after, hx, rfl, hget''⟩ := token_scan hsep (by simp) (by simp)
    have hpos := hx.length_pos
    rw [List.length_append, List.length_append] at hn
    have hrest := ih.members (by omega) ((skipSeparator_eq hsep).trans hget'') h
    have hin := hrest.inside (E := Members strtod) (k ++ u ++ w ++ x) []
      fun hws => ⟨_, by rw [List.append_nil]; exact .more hk hu hw hx hws⟩
    rwa [List.append_assoc, List.append_assoc, List.append_assoc] at hin
  · exact absurd h (by simp [pure, Except.pure])

theorem refuses (n : Nat) : Refuses strtod n := by
  induction n with
  | zero => exact ⟨fun hn => absurd hn (by omega), fun hn => absurd hn (by omega),
      fun hn => absurd hn (by omega)⟩
  | succ n ih =>
      refine ⟨refuses_value ih, ?_, ?_⟩
      · intro input l e hn
        exact refuses_elements ih (Nat.lt_of_succ_lt_succ hn)
      · intro input acc l e hn
        exact refuses_members ih (Nat.lt_of_succ_lt_succ hn)

/-! ## `parse` -/

theorem parse_eq_ok_iff {text : List LexerChar} {j : Json} :
    parse strtod text = .ok j ↔ Text strtod text j := by
  constructor
  · intro h
    obtain ⟨⟨j', l⟩, hvalue, h⟩ := bind_eq_ok h
    obtain ⟨w, rest, rfl, hw, rfl⟩ := (sound _).value hvalue
    obtain ⟨_, hend, h⟩ := bind_eq_ok h
    rw [← Except.ok.inj h]
    exact .mk hw (ending_of_scan (expect_eq_ok hend))
  · rintro @⟨w, rest, _, hw, hend⟩
    have hlen : 2 * w.length ≤ 2 * (w ++ rest).length + 2 := by
      rw [List.length_append]
      omega
    rw [parse, (complete _).value hw hlen hend.follows]
    show (expect _ _ >>= fun _ => _) = _
    rw [expect_self hend.scan]
    rfl

theorem parse_refused {text : List LexerChar} {e : ParseError} (h : parse strtod text = .error e) :
    Refused (Text strtod) text e := by
  rcases bind_eq_error h with h | ⟨⟨j, l⟩, hvalue, h⟩
  · exact ((refuses _).value (by omega) h).inside [] []
      fun hw => ⟨_, .mk hw (.atEnd .nil)⟩
  · obtain ⟨w, rest, rfl, hw, rfl⟩ := (sound _).value hvalue
    rcases bind_eq_error h with h | ⟨_, _, h⟩
    · exact ⟨w, rest, [], _, rfl, .mk hw (.atEnd .nil), expect_error h⟩
    · exact absurd h (by simp [pure, Except.pure])

/--
**The parser decides the grammar.** It returns a value exactly if the grammar derives
the text with that value. Otherwise it throws `std::invalid_argument`, about a token
before which the text could still have become a JSON text.
-/
theorem parse_spec (strtod : List LexerChar → UInt64) (text : List LexerChar) :
    (∀ j, parse strtod text = .ok j ↔ Text strtod text j)
      ∧ ∀ e, parse strtod text = .error e →
        (∃ what, e = .invalidArgument what) ∧ Refused (Text strtod) text e := by
  refine ⟨fun j => parse_eq_ok_iff, fun e he => ?_⟩
  obtain ⟨before, bad, after, j, hsplit, htext, hblame⟩ := parse_refused he
  exact ⟨hblame.invalidArgument, before, bad, after, j, hsplit, htext, hblame⟩

end Parser

end HandlingModule.AIO
