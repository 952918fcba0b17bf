import HandlingModule.Json.Dump

/-!
# The other JSON library: values and `Writer`

The packets of the socket.io client are made with rapidjson. `Value` is what a
`GenericValue` can hold, and `Writer` prints one without blanks.

How a `double` is printed is a parameter.
-/

namespace HandlingModule.Rapidjson

open HandlingModule.AIO HandlingModule.AIO.Lexer

/--
`rapidjson::Value`. A number is what its flags say: `int64` if `IsInt64`, and `uint64`
if only `IsUint64`. A string is a `std::string`, and an object the list of its members.
-/
inductive Value where
  | null
  | boolean (b : Bool)
  | int64 (n : Int64)
  | uint64 (n : UInt64)
  | double (bits : UInt64)
  | string (s : String)
  | array (elements : List Value)
  | object (members : List (String × Value))

namespace Value

/-- The value of an `unsigned` or a `uint64_t`. -/
def ofUInt64 (n : UInt64) : Value :=
  if n < 0x8000000000000000 then .int64 n.toInt64 else .uint64 n

/-- `GetBool`; nothing where its assertion fails. -/
def getBool : Value → Option Bool
  | .boolean b => some b
  | _ => none

/-- `GetInt`; nothing where its assertion fails. -/
def getInt : Value → Option Int32
  | .int64 n => if -0x80000000 ≤ n ∧ n ≤ 0x7FFFFFFF then some n.toInt32 else none
  | _ => none

end Value

/-- The table `escape` of `WriteString`. -/
def escapeChar (c : LexerChar) : Option LexerChar :=
  if c = 0x08 then some 'b'.toUInt8
  else if c = 0x09 then some 't'.toUInt8
  else if c = 0x0A then some 'n'.toUInt8
  else if c = 0x0C then some 'f'.toUInt8
  else if c = 0x0D then some 'r'.toUInt8
  else if c < 0x20 then some 'u'.toUInt8
  else if c = quotationMark then some quotationMark
  else if c = reverseSolidus then some reverseSolidus
  else none

/-- `hexDigits` -/
def hexDigit (n : UInt8) : LexerChar := if n < 10 then 0x30 + n else 0x37 + n

/-- What `WriteString` puts for a byte. -/
def writeChar (c : LexerChar) : List LexerChar :=
  match escapeChar c with
  | some e =>
      reverseSolidus :: e ::
        if e = 'u'.toUInt8 then ascii "00" ++ [hexDigit (c >>> 4), hexDigit (c &&& 0x0F)] else []
  | none => [c]

/-- `WriteString` -/
def writeString (s : String) : List LexerChar :=
  [quotationMark] ++ (ascii s).flatMap writeChar ++ [quotationMark]

variable (dtoa : UInt64 → List LexerChar)

mutual

/-- `Accept`, with a `Writer` as the handler. -/
def write : Value → List LexerChar
  | .null => ascii "null"
  | .boolean b => if b then ascii "true" else ascii "false"
  | .int64 n => Json.integerText n.toInt
  | .uint64 n => Json.integerText n.toNat
  | .double bits => dtoa bits
  | .string s => writeString s
  | .array elements => ascii "[" ++ writeElements true elements ++ ascii "]"
  | .object members => [0x7B] ++ writeMembers true members ++ [0x7D]

/-- The elements; `Prefix` puts a comma in front of all but the first. -/
def writeElements (first : Bool) : List Value → List LexerChar
  | [] => []
  | value :: elements =>
      (if first then [] else ascii ",") ++ write value ++ writeElements false elements

/-- The members; a comma in front of every other key, a colon in front of a value. -/
def writeMembers (first : Bool) : List (String × Value) → List LexerChar
  | [] => []
  | (key, value) :: members =>
      (if first then [] else ascii ",") ++ writeString key ++ ascii ":" ++ write value
        ++ writeMembers false members

end

end HandlingModule.Rapidjson
