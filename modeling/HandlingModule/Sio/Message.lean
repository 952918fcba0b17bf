import HandlingModule.AIO.StdMap
import HandlingModule.Rapidjson.Writer

/-!
# The messages of the socket.io client (`sio_message.h`, `accept_message`, `from_json`)

A message is sent as a JSON value. What is binary goes into a buffer of its own, with the
frame character in front, and the value has a placeholder with the number of the buffer.
-/

namespace HandlingModule.Sio

open HandlingModule.AIO HandlingModule.AIO.Lexer HandlingModule.Rapidjson

/-- A `message::ptr`; `nullptr` points to no message, and `null` to a `null_message`. -/
inductive Message where
  | nullptr
  | null
  | boolean (b : Bool)
  | integer (n : Int64)
  | double (bits : UInt64)
  | string (s : String)
  | binary (bytes : List LexerChar)
  | array (elements : List Message)
  | object (members : List (String × Message))

/-- `kBIN_PLACE_HOLDER` -/
def binPlaceHolder : String := "_placeholder"

/-- `frame_message`, as the first byte of a buffer. -/
def frameChar : LexerChar := 4

/-- The value of a binary, with the number of its buffer as an `int`. -/
def placeHolder (num : Nat) : Value :=
  .object [(binPlaceHolder, .boolean true), ("num", .int64 (Int32.ofNat num).toInt64)]

mutual

/-- `accept_message`; a null pointer in a message is dereferenced. -/
def acceptMessage (buffers : List (List LexerChar)) :
    Message → Option (Value × List (List LexerChar))
  | .nullptr => none
  | .null => some (.null, buffers)
  | .boolean b => some (.boolean b, buffers)
  | .integer n => some (.int64 n, buffers)
  | .double bits => some (.double bits, buffers)
  | .string s => some (.string s, buffers)
  | .binary bytes => some (placeHolder buffers.length, buffers ++ [frameChar :: bytes])
  | .array elements => do
      let (values, buffers) ← acceptElements buffers elements
      return (.array values, buffers)
  | .object members => do
      let (values, buffers) ← acceptMembers buffers members
      return (.object values, buffers)

/-- The loop of `accept_array_message`. -/
def acceptElements (buffers : List (List LexerChar)) :
    List Message → Option (List Value × List (List LexerChar))
  | [] => some ([], buffers)
  | m :: elements => do
      let (value, buffers) ← acceptMessage buffers m
      let (values, buffers) ← acceptElements buffers elements
      return (value :: values, buffers)

/-- The loop of `accept_object_message`. -/
def acceptMembers (buffers : List (List LexerChar)) :
    List (String × Message) → Option (List (String × Value) × List (List LexerChar))
  | [] => some ([], buffers)
  | (key, m) :: members => do
      let (value, buffers) ← acceptMessage buffers m
      let (values, buffers) ← acceptMembers buffers members
      return ((key, value) :: values, buffers)

end

/--
What `from_json` makes of an object with a placeholder that is true, and nothing of one
without. The accessors assert that the members are there and of their types.
-/
def fromPlaceHolder (buffers : List (List LexerChar)) (members : List (String × Value)) :
    Option (Option Message) :=
  match members.lookup binPlaceHolder with
  | none => some none
  | some value => do
      if ← value.getBool then
        let num ← (← members.lookup "num").getInt
        if 0 ≤ num ∧ num < Int32.ofNat buffers.length then
          return some (.binary (buffers.getD num.toNatClampNeg []))
        else return some .nullptr
      else return none

mutual

/-- `from_json` -/
def fromJson (buffers : List (List LexerChar)) : Value → Option Message
  | .null => some .null
  | .boolean b => some (.boolean b)
  | .int64 n => some (.integer n)
  -- not in the range of `int64_t`, and no `double`
  | .uint64 _ => some .nullptr
  | .double bits => some (.double bits)
  | .string s => some (.string s)
  | .array values => do return .array (← fromElements buffers values)
  | .object values => do
      match ← fromPlaceHolder buffers values with
      | some m => return m
      | none => return .object (← fromMembers buffers [] values)

/-- The loop over the elements of an array. -/
def fromElements (buffers : List (List LexerChar)) : List Value → Option (List Message)
  | [] => some []
  | value :: values => do
      let m ← fromJson buffers value
      let elements ← fromElements buffers values
      return m :: elements

/-- The loop over the members of an object, with those it has assigned. -/
def fromMembers (buffers : List (List LexerChar)) (members : List (String × Message)) :
    List (String × Value) → Option (List (String × Message))
  | [] => some members
  | (key, value) :: values => do
      let m ← fromJson buffers value
      fromMembers buffers (assign members key m) values

end

mutual

/-- The binary parts of a message, in the order in which `accept_message` comes to them. -/
def Message.binaries : Message → List (List LexerChar)
  | .binary bytes => [bytes]
  | .array elements => elementBinaries elements
  | .object members => memberBinaries members
  | _ => []

def elementBinaries : List Message → List (List LexerChar)
  | [] => []
  | m :: elements => m.binaries ++ elementBinaries elements

def memberBinaries : List (String × Message) → List (List LexerChar)
  | [] => []
  | (_, m) :: members => m.binaries ++ memberBinaries members

end

end HandlingModule.Sio
