import Mathlib.Data.List.Basic

/-!
# The tokens of a JSON text

What the comment above `scan` in `json.hpp` calls the regular expressions of the scanner,
as grammars over bytes: blanks, literals, numbers, strings. They say nothing about how
the scanner goes about it.

A string is a list of pieces: bytes that stand for themselves, escapes with one letter,
and escapes with four hexadecimal digits. Any byte from `0x20` on stands for itself,
the quotation mark and the reverse solidus apart; that it is UTF-8 is not asked.
-/

namespace HandlingModule.AIO

/-- `token_type`, less the two values that are never tokens. -/
inductive TokenType where
  | literalTrue
  | literalFalse
  | literalNull
  | valueString
  | valueNumber
  | beginArray
  | beginObject
  | endArray
  | endObject
  | nameSeparator
  | valueSeparator
  | parseError
  | endOfInput
  deriving DecidableEq

namespace Lexer

/-- `lexer_char_t` -/
abbrev LexerChar := UInt8

/-- `"` -/
def quotationMark : LexerChar := 0x22

/-- `\` -/
def reverseSolidus : LexerChar := 0x5C

/-- The bytes with bit 32 in `yybm`. -/
def isSpace (b : LexerChar) : Bool := b == 0x09 || b == 0x0A || b == 0x0D || b == 0x20

/-- The bytes with bit 64 in `yybm`. -/
def isDigit (b : LexerChar) : Bool := decide (0x30 ≤ b) && decide (b ≤ 0x39)

/-- The bytes with bit 128 in `yybm`. -/
def isPlain (b : LexerChar) : Bool :=
  decide (0x20 ≤ b) && b != quotationMark && b != reverseSolidus

def isHex (b : LexerChar) : Bool :=
  isDigit b || (decide (0x41 ≤ b) && decide (b ≤ 0x46)) || (decide (0x61 ≤ b) && decide (b ≤ 0x66))

/-- The letters after a reverse solidus that need no digits. -/
def isEscape (b : LexerChar) : Bool :=
  b == quotationMark || b == reverseSolidus || b == '/'.toUInt8 || b == 'b'.toUInt8
    || b == 'f'.toUInt8 || b == 'n'.toUInt8 || b == 'r'.toUInt8 || b == 't'.toUInt8

/-- The bytes of a text. -/
def ascii (s : String) : List LexerChar := s.toList.map Char.toUInt8

/-! ## Blanks -/

/-- A byte order mark, as UTF-8 has it. -/
def byteOrderMark : List LexerChar := [0xEF, 0xBB, 0xBF]

/-- What may stand between two tokens: spaces and byte order marks. -/
inductive Blank : List LexerChar → Prop where
  | nil : Blank []
  | space {b : LexerChar} {bs : List LexerChar} : isSpace b = true → Blank bs → Blank (b :: bs)
  | mark {bs : List LexerChar} : Blank bs → Blank (byteOrderMark ++ bs)

theorem Blank.append {as bs : List LexerChar} (ha : Blank as) (hb : Blank bs) : Blank (as ++ bs) := by
  induction ha with
  | nil => exact hb
  | space h _ ih => exact .space h ih
  | mark _ ih => rw [List.append_assoc]; exact .mark ih

theorem blank_of_spaces {bs : List LexerChar} (h : ∀ b ∈ bs, isSpace b = true) : Blank bs := by
  induction bs with
  | nil => exact .nil
  | cons b bs ih =>
      exact .space (h b (List.mem_cons_self ..)) (ih fun c hc => h c (List.mem_cons_of_mem b hc))

/-! ## Numbers -/

def Digits (ds : List LexerChar) : Prop := ∀ d ∈ ds, isDigit d = true

/-- `0`, or digits of which the first is not `0`. -/
inductive IntPart : List LexerChar → Prop where
  | zero : IntPart ['0'.toUInt8]
  | digits {d : LexerChar} {ds : List LexerChar} :
      isDigit d = true → d ≠ '0'.toUInt8 → Digits ds → IntPart (d :: ds)

inductive FracPart : List LexerChar → Prop where
  | none : FracPart []
  | some {d : LexerChar} {ds : List LexerChar} :
      isDigit d = true → Digits ds → FracPart ('.'.toUInt8 :: d :: ds)

inductive ExpPart : List LexerChar → Prop where
  | none : ExpPart []
  | unsigned {e d : LexerChar} {ds : List LexerChar} :
      e = 'e'.toUInt8 ∨ e = 'E'.toUInt8 → isDigit d = true → Digits ds → ExpPart (e :: d :: ds)
  | signed {e sign d : LexerChar} {ds : List LexerChar} :
      e = 'e'.toUInt8 ∨ e = 'E'.toUInt8 → sign = '+'.toUInt8 ∨ sign = '-'.toUInt8 →
      isDigit d = true → Digits ds → ExpPart (e :: sign :: d :: ds)

/-- The text of a number: an integer, a fraction and an exponent, with or without a sign. -/
inductive NumberText : List LexerChar → Prop where
  | mk {sign int frac exp : List LexerChar} :
      sign = [] ∨ sign = ['-'.toUInt8] → IntPart int → FracPart frac → ExpPart exp →
      NumberText (sign ++ int ++ frac ++ exp)

/-! ## Strings -/

/-- A piece of a string. -/
inductive Piece where
  | plain (b : LexerChar)
  | escape (c : LexerChar)
  | unicode (h₁ h₂ h₃ h₄ : LexerChar)
  deriving DecidableEq

def Piece.Ok : Piece → Prop
  | .plain b => isPlain b = true
  | .escape c => isEscape c = true
  | .unicode h₁ h₂ h₃ h₄ =>
      isHex h₁ = true ∧ isHex h₂ = true ∧ isHex h₃ = true ∧ isHex h₄ = true

instance : (p : Piece) → Decidable p.Ok
  | .plain b => inferInstanceAs (Decidable (isPlain b = true))
  | .escape c => inferInstanceAs (Decidable (isEscape c = true))
  | .unicode h₁ h₂ h₃ h₄ => inferInstanceAs (Decidable
      (isHex h₁ = true ∧ isHex h₂ = true ∧ isHex h₃ = true ∧ isHex h₄ = true))

def Piece.text : Piece → List LexerChar
  | .plain b => [b]
  | .escape c => [reverseSolidus, c]
  | .unicode h₁ h₂ h₃ h₄ => [reverseSolidus, 'u'.toUInt8, h₁, h₂, h₃, h₄]

/-- The pieces, as they stand in a text. -/
def Pieces (ps : List Piece) : Prop := ∀ p ∈ ps, p.Ok

/-- The text of a string, with its quotation marks. -/
def stringText (ps : List Piece) : List LexerChar :=
  quotationMark :: (ps.flatMap Piece.text ++ [quotationMark])

/-! ## Tokens -/

/-- The texts of a token. -/
inductive Lexeme : TokenType → List LexerChar → Prop where
  | literalTrue : Lexeme .literalTrue (ascii "true")
  | literalFalse : Lexeme .literalFalse (ascii "false")
  | literalNull : Lexeme .literalNull (ascii "null")
  | valueString {ps : List Piece} : Pieces ps → Lexeme .valueString (stringText ps)
  | valueNumber {w : List LexerChar} : NumberText w → Lexeme .valueNumber w
  | beginArray : Lexeme .beginArray ['['.toUInt8]
  | beginObject : Lexeme .beginObject [0x7B]
  | endArray : Lexeme .endArray [']'.toUInt8]
  | endObject : Lexeme .endObject [0x7D]
  | nameSeparator : Lexeme .nameSeparator [':'.toUInt8]
  | valueSeparator : Lexeme .valueSeparator [','.toUInt8]
  /-- A `NUL` ends the text wherever it stands between two tokens. -/
  | endOfInput : Lexeme .endOfInput [0]

theorem Pieces.snoc {ps : List Piece} {p : Piece} (h : Pieces ps) (hp : p.Ok) : Pieces (ps ++ [p]) := by
  intro q hq
  rcases List.mem_append.mp hq with hq | hq
  · exact h q hq
  · rw [List.mem_singleton.mp hq]; exact hp

theorem Digits.snoc {ds : List LexerChar} {d : LexerChar} (h : Digits ds) (hd : isDigit d = true) :
    Digits (ds ++ [d]) := by
  intro e he
  rcases List.mem_append.mp he with he | he
  · exact h e he
  · rw [List.mem_singleton.mp he]; exact hd

theorem IntPart.snoc {d e : LexerChar} {ds : List LexerChar} (h : IntPart (d :: ds))
    (hd : d ≠ '0'.toUInt8) (he : isDigit e = true) : IntPart (d :: ds ++ [e]) := by
  cases h with
  | zero => exact absurd rfl hd
  | digits hdd _ hds => exact .digits hdd hd (hds.snoc he)

end Lexer

end HandlingModule.AIO
