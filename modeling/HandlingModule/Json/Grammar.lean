import HandlingModule.Json.Parse

/-!
# The grammar of JSON, and that it is what `parse` accepts

The grammar derives bytes: blanks may stand before every token, and a value is what its
tokens are, with the members of an object assigned in the order of the text. `parse`
returns a value exactly if the grammar derives it (`parse_eq_ok_iff`); two things it
accepts besides RFC 7159 are byte order marks between tokens and, behind a `NUL`,
anything. In every other case it throws `std::invalid_argument` (`parse_error`).

A derivation says nothing about where the scanner stops, and a number could be two. What
stands behind a value in a derivation is never a byte that goes on with a number
(`Follows`), and that is why the scanner finds the tokens of the derivation.
-/

namespace HandlingModule.AIO

open Lexer

namespace Parser

/-- A token, and the blanks before it. -/
inductive Token (t : TokenType) : List LexerChar → Prop where
  | mk {bs w : List LexerChar} : Blank bs → Lexeme t w → Token t (bs ++ w)

/-- A string that has a value, and the blanks before it. -/
inductive StringToken : List LexerChar → String → Prop where
  | mk {bs v : List LexerChar} {ps : List Piece} :
      Blank bs → Pieces ps → decode ps = .ok v → StringToken (bs ++ stringText ps) (fromBytes v)

/-- The members, after assignments in the order of the text. -/
def assignAll (members new : List (String × Json)) : List (String × Json) :=
  new.foldl (fun members m => assign members m.1 m.2) members

mutual

inductive Value (strtod : List LexerChar → UInt64) : List LexerChar → Json → Prop where
  | null {u : List LexerChar} : Token .literalNull u → Value strtod u .null
  | true {u : List LexerChar} : Token .literalTrue u → Value strtod u (.boolean true)
  | false {u : List LexerChar} : Token .literalFalse u → Value strtod u (.boolean false)
  | string {u : List LexerChar} {s : String} : StringToken u s → Value strtod u (.string s)
  | number {bs w : List LexerChar} :
      Blank bs → NumberText w → Value strtod (bs ++ w) (getNumber strtod w)
  | emptyArray {u v : List LexerChar} :
      Token .beginArray u → Token .endArray v → Value strtod (u ++ v) (.array [])
  | array {u w v : List LexerChar} {js : List Json} :
      Token .beginArray u → Elements strtod w js → Token .endArray v →
      Value strtod (u ++ w ++ v) (.array js)
  | emptyObject {u v : List LexerChar} :
      Token .beginObject u → Token .endObject v → Value strtod (u ++ v) (.object [])
  | object {u w v : List LexerChar} {ms : List (String × Json)} :
      Token .beginObject u → Members strtod w ms → Token .endObject v →
      Value strtod (u ++ w ++ v) (.object (assignAll [] ms))

inductive Elements (strtod : List LexerChar → UInt64) : List LexerChar → List Json → Prop where
  | one {w : List LexerChar} {j : Json} : Value strtod w j → Elements strtod w [j]
  | more {w u ws : List LexerChar} {j : Json} {js : List Json} :
      Value strtod w j → Token .valueSeparator u → Elements strtod ws js →
      Elements strtod (w ++ u ++ ws) (j :: js)

inductive Members (strtod : List LexerChar → UInt64) :
    List LexerChar → List (String × Json) → Prop where
  | one {k u w : List LexerChar} {key : String} {j : Json} :
      StringToken k key → Token .nameSeparator u → Value strtod w j →
      Members strtod (k ++ u ++ w) [(key, j)]
  | more {k u w v ws : List LexerChar} {key : String} {j : Json} {ms : List (String × Json)} :
      StringToken k key → Token .nameSeparator u → Value strtod w j → Token .valueSeparator v →
      Members strtod ws ms → Members strtod (k ++ u ++ w ++ v ++ ws) ((key, j) :: ms)

end

/-- Blanks, and then the end of the text or of what is looked at of it. -/
inductive Ending : List LexerChar → Prop where
  | atEnd {bs : List LexerChar} : Blank bs → Ending bs
  | atNul {bs after : List LexerChar} : Blank bs → Ending (bs ++ 0 :: after)

/-- A JSON text. -/
inductive Text (strtod : List LexerChar → UInt64) : List LexerChar → Json → Prop where
  | mk {w rest : List LexerChar} {j : Json} :
      Value strtod w j → Ending rest → Text strtod (w ++ rest) j

/-! ## What stands behind a value -/

/-- Nothing that goes on with a number. -/
def Follows (rest : List LexerChar) : Prop := ∀ b, rest.head? = some b → EndsNumber b

theorem follows_cons {b : LexerChar} (h : EndsNumber b) (rest : List LexerChar) :
    Follows (b :: rest) := by
  intro c hc
  rw [← Option.some.inj hc]
  exact h

theorem endsNumber_of_space {b : LexerChar} (h : isSpace b = true) : EndsNumber b := by
  simp only [isSpace, Bool.or_eq_true, beq_iff_eq] at h
  unfold EndsNumber
  rcases h with ((rfl | rfl) | rfl) | rfl <;> decide

theorem Follows.blank {bs rest : List LexerChar} (hb : Blank bs) (h : Follows rest) :
    Follows (bs ++ rest) := by
  cases hb with
  | nil => exact h
  | space hs _ => exact follows_cons (endsNumber_of_space hs) _
  | mark _ => exact follows_cons (by unfold EndsNumber; decide) _

theorem Ending.follows {rest : List LexerChar} (h : Ending rest) : Follows rest := by
  cases h with
  | atEnd hb =>
      have := Follows.blank hb (fun b hb => absurd hb (by simp) : Follows [])
      rwa [List.append_nil] at this
  | atNul hb => exact Follows.blank hb (follows_cons (by unfold EndsNumber; decide) _)

/-- The tokens that may stand behind a value. -/
def Closing (t : TokenType) : Prop := t = .endArray ∨ t = .endObject ∨ t = .valueSeparator

theorem Token.follows {t : TokenType} {u : List LexerChar} (h : Token t u) (ht : Closing t)
    (rest : List LexerChar) : Follows (u ++ rest) := by
  obtain ⟨hb, hw⟩ := h
  rw [List.append_assoc]
  refine Follows.blank hb ?_
  rcases ht with rfl | rfl | rfl <;> cases hw <;>
    exact follows_cons (by unfold EndsNumber; decide) _

/-! ## Tokens and the scanner -/

theorem Token.ne_nil {t : TokenType} {u : List LexerChar} (h : Token t u) : u ≠ [] := by
  obtain ⟨_, hw⟩ := h
  exact List.append_ne_nil_of_right_ne_nil _ hw.ne_nil

theorem Token.length_pos {t : TokenType} {u : List LexerChar} (h : Token t u) : 0 < u.length :=
  List.length_pos_iff.mpr h.ne_nil

theorem Token.scan {t : TokenType} {u : List LexerChar} (h : Token t u) (ht : t ≠ .valueNumber)
    (rest : List LexerChar) : ∃ w, scan (u ++ rest) = ⟨t, w, rest⟩ := by
  obtain @⟨bs, w, hb, hw⟩ := h
  refine ⟨w, ?_⟩
  rw [List.append_assoc]
  refine scan_lexeme hb hw ?_
  cases t <;> first | exact absurd rfl ht | trivial

theorem StringToken.token {u : List LexerChar} {s : String} (h : StringToken u s) :
    Token .valueString u := by
  obtain ⟨hb, hps, _⟩ := h
  exact ⟨hb, .valueString hps⟩

theorem StringToken.scan {u : List LexerChar} {s : String} (h : StringToken u s)
    (rest : List LexerChar) :
    ∃ w v, Lexer.scan (u ++ rest) = ⟨.valueString, w, rest⟩ ∧ getString w = .ok v ∧ s = fromBytes v := by
  obtain @⟨bs, v, ps, hb, hps, hv⟩ := h
  refine ⟨stringText ps, v, ?_, (getString_stringText hps).trans hv, rfl⟩
  rw [List.append_assoc]
  exact scan_lexeme hb (.valueString hps) trivial

/-- A token that was found stands at the beginning. -/
theorem token_of_scan {input : List LexerChar} {t : TokenType}
    (h : (Lexer.scan input).last_token_type = t) (hp : t ≠ .parseError) (he : t ≠ .endOfInput) :
    ∃ bs w rest, Blank bs ∧ Lexeme t w ∧ input = bs ++ w ++ rest
      ∧ Lexer.scan input = ⟨t, w, rest⟩ := by
  obtain ⟨bs, hb, ⟨_, hl⟩ | ⟨hsplit, _, hlex⟩⟩ := scan_sound (rfl : Lexer.scan input = _)
  · rw [hl] at h
    exact absurd h.symm he
  · refine ⟨bs, (Lexer.scan input).token_string, (Lexer.scan input).rest, hb, ?_, ?_, ?_⟩
    · rw [← h]
      exact hlex (h ▸ hp)
    · rw [List.append_assoc]
      exact hsplit
    · rw [← h]

theorem ending_of_scan {input : List LexerChar}
    (h : (Lexer.scan input).last_token_type = .endOfInput) : Ending input := by
  obtain ⟨bs, hb, ⟨rfl, _⟩ | ⟨hsplit, _, hlex⟩⟩ := scan_sound (rfl : Lexer.scan input = _)
  · exact .atEnd hb
  · have hlex := hlex (by rw [h]; simp)
    rw [h] at hlex
    rw [hsplit]
    generalize (Lexer.scan input).token_string = w at hlex
    cases hlex with
    | endOfInput => exact .atNul hb

theorem Ending.scan {rest : List LexerChar} (h : Ending rest) :
    (Lexer.scan rest).last_token_type = .endOfInput := by
  cases h with
  | atEnd hb => rw [scan_end hb]
  | @atNul bs after hb =>
      have : Lexer.scan (bs ++ ([0] ++ after)) = _ := scan_lexeme hb .endOfInput trivial
      rw [List.singleton_append] at this
      rw [this]

end Parser

end HandlingModule.AIO
