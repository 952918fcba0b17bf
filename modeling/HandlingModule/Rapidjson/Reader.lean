import HandlingModule.Rapidjson.Writer

/-!
# The other JSON library: `GenericReader`, for `Document::Parse<0>`

The stream is a C string, with its `NUL`, and there is nothing to read behind it. An
error leaves the document `null`. A digit that is not hexadecimal is an error that does
not stop `ParseStringToStream`: the string is read on, a second error in it fails the
assertion of `RAPIDJSON_PARSE_ERROR_NORETURN`, and if the digit was the `NUL` the
reading runs out of the text.

The bound of the recursion counts calls and rounds of the loops together. Numbers that
are kept as `double`s are read by a parameter, from their first character on.
-/

namespace HandlingModule.Rapidjson

open HandlingModule.AIO HandlingModule.AIO.Lexer

/-- Why there is no value: a parse error, or an assertion or a read behind the text. -/
inductive Halt where
  | error
  | fault
  deriving DecidableEq

/-- What is left of the string, and its `NUL`. -/
abbrev Stream := List LexerChar

def peek : Stream → Except Halt LexerChar
  | [] => .error .fault
  | c :: _ => .ok c

def take : Stream → Except Halt (LexerChar × Stream)
  | [] => .error .fault
  | c :: is => .ok (c, is)

theorem peek_cons (c : LexerChar) (is : Stream) : peek (c :: is) = .ok c := rfl

theorem take_cons (c : LexerChar) (is : Stream) : take (c :: is) = .ok (c, is) := rfl

theorem ok_bind {α β : Type} (a : α) (f : α → Except Halt β) : (Except.ok a >>= f) = f a := rfl

def skipWhitespace (is : Stream) : Stream := is.dropWhile isSpace

/-- `RAPIDJSON_PARSE_ERROR`; there may be an error already. -/
def parseError {α : Type} (hasParseError : Bool) : Except Halt α :=
  .error (if hasParseError then .fault else .error)

/-- The rest of a literal, one `Take` for each letter. -/
def takeLiteral : List LexerChar → Stream → Except Halt Stream
  | [], is => .ok is
  | e :: expected, is => do
      let (c, is) ← take is
      if c = e then takeLiteral expected is else .error .error

/-! ## Strings -/

/-- A hexadecimal digit. -/
def hexDigitValue (c : LexerChar) : Option UInt32 :=
  if 0x30 ≤ c ∧ c ≤ 0x39 then some (c.toUInt32 - 0x30)
  else if 0x41 ≤ c ∧ c ≤ 0x46 then some (c.toUInt32 - 0x37)
  else if 0x61 ≤ c ∧ c ≤ 0x66 then some (c.toUInt32 - 0x57)
  else none

/-- The loop of `ParseHex4`, which stops behind a character that is no digit. -/
def parseHex : Nat → UInt32 → Stream → Except Halt (Option UInt32 × Stream)
  | 0, codepoint, is => .ok (some codepoint, is)
  | i + 1, codepoint, is => do
      let (c, is) ← take is
      match hexDigitValue c with
      | some d => parseHex i (codepoint <<< 4 + d) is
      | none => .ok (none, is)

/-- `ParseHex4`: the code point, 0 after an error, and whether there is an error now. -/
def parseHex4 (hasParseError : Bool) (is : Stream) : Except Halt (UInt32 × Bool × Stream) := do
  let (codepoint, is) ← parseHex 4 0 is
  match codepoint with
  | some codepoint => return (codepoint, hasParseError, is)
  | none => if hasParseError then .error .fault else return (0, true, is)

/-- A byte of `Encode`: what it starts with, and bits of the code point. -/
def octet (lead bits : UInt32) : LexerChar := (lead ||| bits).toUInt8

/-- `UTF8::Encode` -/
def encode (codepoint : UInt32) : List LexerChar :=
  let tail := fun (shift : UInt32) => octet 0x80 ((codepoint >>> shift) &&& 0x3F)
  if codepoint ≤ 0x7F then [codepoint.toUInt8]
  else if codepoint ≤ 0x7FF then [octet 0xC0 (codepoint >>> 6), tail 0]
  else if codepoint ≤ 0xFFFF then [octet 0xE0 (codepoint >>> 12), tail 6, tail 0]
  else [octet 0xF0 (codepoint >>> 18), tail 12, tail 6, tail 0]

/-- The table `escape` of `ParseStringToStream`. -/
def unescapeChar (e : LexerChar) : Option LexerChar :=
  if e = quotationMark ∨ e = reverseSolidus ∨ e = '/'.toUInt8 then some e
  else if e = 'b'.toUInt8 then some 0x08
  else if e = 'f'.toUInt8 then some 0x0C
  else if e = 'n'.toUInt8 then some 0x0A
  else if e = 'r'.toUInt8 then some 0x0D
  else if e = 't'.toUInt8 then some 0x09
  else none

/-- Behind `\u`: the bytes, and whether there is an error now. -/
def parseUnicode (hasParseError : Bool) (is : Stream) :
    Except Halt (List LexerChar × Bool × Stream) := do
  let (codepoint, hasParseError, is) ← parseHex4 hasParseError is
  if 0xD800 ≤ codepoint ∧ codepoint ≤ 0xDBFF then
    let (c, is) ← take is
    if c ≠ reverseSolidus then parseError hasParseError
    let (c, is) ← take is
    if c ≠ 'u'.toUInt8 then parseError hasParseError
    let (codepoint2, hasParseError, is) ← parseHex4 hasParseError is
    if codepoint2 < 0xDC00 ∨ 0xDFFF < codepoint2 then parseError hasParseError
    return (encode ((((codepoint - 0xD800) <<< 10) ||| (codepoint2 - 0xDC00)) + 0x10000),
      hasParseError, is)
  else return (encode codepoint, hasParseError, is)

/-- The loop of `ParseStringToStream`, with what it has put. -/
def parseStringLoop : Nat → Bool → List LexerChar → Stream → Except Halt (List LexerChar × Stream)
  | 0, _, _, _ => .error .fault
  | n + 1, hasParseError, os, is => do
      let c ← peek is
      let (_, is') ← take is
      if c = reverseSolidus then
        let (e, is) ← take is'
        match unescapeChar e with
        | some b => parseStringLoop n hasParseError (os ++ [b]) is
        | none =>
            if e = 'u'.toUInt8 then
              let (bytes, hasParseError, is) ← parseUnicode hasParseError is
              parseStringLoop n hasParseError (os ++ bytes) is
            else parseError hasParseError
      else if c = quotationMark then
        -- `ParseString` looks whether there was an error
        if hasParseError then .error .error else return (os, is')
      else if c < 0x20 then parseError hasParseError
      else parseStringLoop n hasParseError (os ++ [c]) is'

/-- `ParseString`, behind the quotation mark. -/
def parseString (is : Stream) : Except Halt (String × Stream) := do
  let (bytes, is) ← parseStringLoop (is.length + 1) false [] is
  return (fromBytes bytes, is)

/-! ## Numbers -/

/--
The loops over the digits of an integer: a digit is taken unless the number could get
greater than `10 * limit + last`. The result is the number and whether a digit was left.
-/
def digitLoop (limit : Nat) (last : LexerChar) : Nat → Stream → Nat × Bool × Stream
  | i, [] => (i, false, [])
  | i, c :: is =>
      if isDigit c then
        if limit ≤ i ∧ (i ≠ limit ∨ last < c) then (i, true, c :: is)
        else digitLoop limit last (i * 10 + (c.toNat - 0x30)) is
      else (i, false, c :: is)

/-- The first loop stops in front of what needs more than 32 bits, the second 64. -/
def parseDigits (minus : Bool) (i : Nat) (is : Stream) : Nat × Bool × Stream :=
  let (i, use64bit, is) :=
    if minus then digitLoop 214748364 '8'.toUInt8 i is else digitLoop 429496729 '5'.toUInt8 i is
  if use64bit then
    if minus then digitLoop 0x0CCCCCCCCCCCCCCC '8'.toUInt8 i is
    else digitLoop 0x1999999999999999 '5'.toUInt8 i is
  else (i, false, is)

variable (parseDouble : Stream → Except Halt (UInt64 × Stream))

/-- `ParseNumber` -/
def parseNumber (is : Stream) : Except Halt (Value × Stream) := do
  let start := is
  let c ← peek is
  let minus := c == '-'.toUInt8
  let is := if minus then is.drop 1 else is
  let c ← peek is
  if isDigit c = false then .error .error
  let (_, is) ← take is
  let (i, useDouble, is) :=
    if c = '0'.toUInt8 then (0, false, is) else parseDigits minus (c.toNat - 0x30) is
  let e ← peek is
  if useDouble ∨ e = '.'.toUInt8 ∨ e = 'e'.toUInt8 ∨ e = 'E'.toUInt8 then
    let (bits, is) ← parseDouble start
    return (.double bits, is)
  else if minus then return (.int64 (-(Int64.ofNat i)), is)
  else return (.ofUInt64 (UInt64.ofNat i), is)

/-! ## Values -/

mutual

/-- `ParseValue` -/
def parseValue : Nat → Stream → Except Halt (Value × Stream)
  | 0, _ => .error .fault
  | n + 1, is => do
      let c ← peek is
      let (_, is') ← take is
      if c = 'n'.toUInt8 then return (.null, ← takeLiteral (ascii "ull") is')
      else if c = 't'.toUInt8 then return (.boolean true, ← takeLiteral (ascii "rue") is')
      else if c = 'f'.toUInt8 then return (.boolean false, ← takeLiteral (ascii "alse") is')
      else if c = quotationMark then
        let (s, is) ← parseString is'
        return (.string s, is)
      else if c = 0x7B then
        let is := skipWhitespace is'
        let c ← peek is
        if c = 0x7D then return (.object [], is.drop 1)
        let (members, is) ← parseMembers n is
        return (.object members, is)
      else if c = '['.toUInt8 then
        let is := skipWhitespace is'
        let c ← peek is
        if c = ']'.toUInt8 then return (.array [], is.drop 1)
        let (elements, is) ← parseElements n is
        return (.array elements, is)
      else parseNumber parseDouble is

/-- The loop of `ParseObject`. -/
def parseMembers : Nat → Stream → Except Halt (List (String × Value) × Stream)
  | 0, _ => .error .fault
  | n + 1, is => do
      let c ← peek is
      if c ≠ quotationMark then .error .error
      let (key, is) ← parseString (is.drop 1)
      let (c, is) ← take (skipWhitespace is)
      if c ≠ ':'.toUInt8 then .error .error
      let (value, is) ← parseValue n (skipWhitespace is)
      let (c, is) ← take (skipWhitespace is)
      if c = ','.toUInt8 then
        let (members, is) ← parseMembers n (skipWhitespace is)
        return ((key, value) :: members, is)
      else if c = 0x7D then return ([(key, value)], is)
      else .error .error

/-- The loop of `ParseArray`. -/
def parseElements : Nat → Stream → Except Halt (List Value × Stream)
  | 0, _ => .error .fault
  | n + 1, is => do
      let (value, is) ← parseValue n is
      let (c, is) ← take (skipWhitespace is)
      if c = ','.toUInt8 then
        let (elements, is) ← parseElements n (skipWhitespace is)
        return (value :: elements, is)
      else if c = ']'.toUInt8 then return ([value], is)
      else .error .error

end

/-- `Parse` -/
def parseRoot (text : List LexerChar) : Except Halt Value := do
  let is := skipWhitespace (text ++ [0])
  let c ← peek is
  if c = 0 then .error .error
  let (value, is) ← parseValue parseDouble (2 * text.length + 4) is
  let c ← peek (skipWhitespace is)
  if c ≠ 0 then .error .error
  return value

/-- `Document::Parse`: after an error the document is `null`. -/
def parseDocument (text : List LexerChar) : Option Value :=
  match parseRoot parseDouble text with
  | .ok value => some value
  | .error .error => some .null
  | .error .fault => none

end HandlingModule.Rapidjson
