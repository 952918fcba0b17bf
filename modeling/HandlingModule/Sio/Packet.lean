import HandlingModule.Rapidjson.Reader
import HandlingModule.Sio.Message

/-!
# Packets (`sio_packet.cpp`)

A packet is a text, and for each binary of its message a buffer. `accept` writes them
and `parse` reads the text; `parse` returns whether buffers are still to come, and then
`parse_buffer` takes them one by one. `packet_manager` keeps the packet that waits for
its buffers, and gives every packet that is complete to its callback.

No result stands for an exception of `boost::lexical_cast`, which nobody catches, and
for what `from_json` and the reader assert.
-/

namespace HandlingModule.Sio

open HandlingModule.AIO HandlingModule.AIO.Lexer HandlingModule.Rapidjson

/--
What is used and not modelled: the text of a `double`, both ways, and `lexical_cast`, of
which all that matters is that it reads an integer from its digits.
-/
structure Outside where
  dtoa : UInt64 → List LexerChar
  parseDouble : Stream → Except Halt (UInt64 × Stream)
  castUnsigned : List LexerChar → Option UInt32
  castInt : List LexerChar → Option Int32
  castUnsigned_text : ∀ n : UInt32, castUnsigned (Json.integerText n.toNat) = some n
  castInt_text : ∀ n : Int32, castInt (Json.integerText n.toInt) = some n

/-! ## `std::string` -/

/-- The character at a position, and the `NUL` behind the last one. -/
def charAt (s : List LexerChar) (pos : Nat) : LexerChar := s.getD pos 0

/-- `find_first_of`, from a position on. -/
def findFirstOf (cs : List LexerChar) (s : List LexerChar) (pos : Nat) : Option Nat :=
  ((s.drop pos).findIdx? (cs.contains ·)).map (pos + ·)

/-- `substr(pos, stop - pos)`: the count goes around if `stop` is before `pos`, or is `npos`. -/
def substrTo (s : List LexerChar) (pos : Nat) (stop : Option Nat) : List LexerChar :=
  match stop with
  | some stop => if pos ≤ stop then (s.drop pos).take (stop - pos) else s.drop pos
  | none => s.drop pos

/-! ## `packet` -/

/-- `frame_message`, of the enumeration `frame_type`. -/
def frameMessage : Int32 := 4

/-- The enumeration `type`. -/
def typeConnect : Int32 := 0
def typeDisconnect : Int32 := 1
def typeEvent : Int32 := 2
def typeAck : Int32 := 3
def typeError : Int32 := 4
def typeBinaryEvent : Int32 := 5
def typeBinaryAck : Int32 := 6
def typeMin : Int32 := 0
def typeMax : Int32 := 6
def typeUndetermined : Int32 := 0x10

structure Packet where
  frame : Int32
  type : Int32
  nsp : List LexerChar
  pack_id : Int32
  message : Message
  pending_buffers : Nat
  buffers : List (List LexerChar)

namespace Packet

/-- The constructor of an event or of the answer to one. -/
def ofMessage (nsp : List LexerChar) (msg : Message) (pack_id : Int32) (isAck : Bool) : Packet :=
  { frame := frameMessage
    type := (if isAck then typeAck else typeEvent) ||| typeUndetermined
    nsp := nsp
    pack_id := pack_id
    message := msg
    pending_buffers := 0
    buffers := [] }

/-- The constructor of the other types. -/
def ofType (type : Int32) (nsp : List LexerChar) (msg : Message) : Packet :=
  { frame := frameMessage
    type := type
    nsp := nsp
    pack_id := -1
    message := msg
    pending_buffers := 0
    buffers := [] }

/-- The constructor of a frame that is no message. -/
def ofFrame (frame : Int32) : Packet :=
  { frame := frame
    type := typeUndetermined
    nsp := []
    pack_id := -1
    message := .nullptr
    pending_buffers := 0
    buffers := [] }

/-- The empty constructor; it leaves the frame to `parse`. -/
def empty : Packet := ofFrame 0

def isBinary (p : Packet) : Bool := p.type == typeBinaryEvent || p.type == typeBinaryAck

/-- The number of buffers, of a packet that has any. -/
def countText (buffers : Nat) : List LexerChar :=
  if 0 < buffers then Json.integerText buffers ++ ascii "-" else []

def nspText (p : Packet) (hasMessage : Bool) : List LexerChar :=
  if p.nsp ≠ [] ∧ p.nsp ≠ ascii "/" then
    p.nsp ++ (if hasMessage = true ∨ 0 ≤ p.pack_id then ascii "," else [])
  else []

def idText (p : Packet) : List LexerChar :=
  if 0 ≤ p.pack_id then Json.integerText p.pack_id.toInt else []

/-- Everything in front of the message. -/
def header (p : Packet) (hasMessage : Bool) (buffers : Nat) : List LexerChar :=
  Json.integerText p.type.toInt ++ countText buffers ++ p.nspText hasMessage ++ p.idText

/-- The type of a packet, once it is known whether it has buffers. -/
def determine (p : Packet) (hasBinary : Bool) : Packet :=
  let type := p.type &&& ~~~typeUndetermined
  { p with type :=
      if type = typeEvent then (if hasBinary then typeBinaryEvent else typeEvent)
      else if type = typeAck then (if hasBinary then typeBinaryAck else typeAck)
      else type }

/-- `accept`, from no buffers on: the text, the buffers, and the packet it leaves behind. -/
def accept (o : Outside) (p : Packet) :
    Option (List LexerChar × List (List LexerChar) × Packet) :=
  let frame_char := UInt8.ofInt (p.frame.toInt + 0x30)
  if p.frame ≠ frameMessage then some ([frame_char], [], p)
  else
    match p.message with
    | .nullptr =>
        let p := p.determine false
        some (frame_char :: p.header false 0, [], p)
    | m => do
        let (doc, buffers) ← acceptMessage [] m
        let p := p.determine (!buffers.isEmpty)
        return (frame_char :: p.header true buffers.length ++ write o.dtoa doc, buffers, p)

/-- The number of the packet, between the two positions. -/
def readId (o : Outside) (p : Packet) (payload : List LexerChar) (pos json_pos : Nat) :
    Option Int32 :=
  if pos < json_pos then o.castInt (substrTo payload pos (some json_pos)) else some p.pack_id

/-- What `parse` does from the number of the packet on. -/
def parseMessage (o : Outside) (p : Packet) (payload : List LexerChar) (pos json_pos : Nat) :
    Option (Bool × Packet) := do
  let pack_id ← p.readId o payload pos json_pos
  if p.frame = frameMessage ∧ p.isBinary = true then
    return (true, { p with pack_id := pack_id, buffers := p.buffers ++ [payload.drop json_pos] })
  else
    let doc ← parseDocument o.parseDouble (payload.drop json_pos)
    let message ← fromJson [] doc
    return (false, { p with pack_id := pack_id, message := message })

/-- What `parse` does from the namespace on. -/
def parseNsp (o : Outside) (p : Packet) (payload : List LexerChar) (pos : Nat) :
    Option (Bool × Packet) :=
  match findFirstOf (0x7B :: ascii "[\"/") payload pos with
  | none => some (false, { p with nsp := ascii "/" })
  | some nsp_json_pos =>
      if charAt payload nsp_json_pos = '/'.toUInt8 then
        match findFirstOf (ascii ",") payload 0 with
        | none => some (false, { p with nsp := payload.drop nsp_json_pos })
        | some comma_pos =>
            let p := { p with nsp := substrTo payload nsp_json_pos (some comma_pos) }
            match findFirstOf (ascii "\"[" ++ [0x7B]) payload (comma_pos + 1) with
            | none => some (false, p)
            | some json_pos => parseMessage o p payload (comma_pos + 1) json_pos
      else parseMessage o { p with nsp := ascii "/" } payload pos nsp_json_pos

/-- The number of a character; one from `0x80` on gives no frame and no type in any case. -/
def digitOf (c : LexerChar) : Int32 := Int32.ofInt (c.toNat - 0x30)

/-- `parse`: whether there are buffers to come, and the packet. -/
def parse (o : Outside) (p : Packet) (payload : List LexerChar) : Option (Bool × Packet) :=
  let p := { p with
    frame := digitOf (charAt payload 0)
    message := .nullptr
    pack_id := -1
    buffers := []
    pending_buffers := 0 }
  if p.frame = frameMessage then
    let p := { p with type := digitOf (charAt payload 1) }
    if p.type < typeMin ∨ typeMax < p.type then some (false, p)
    else if p.isBinary then do
      let score_pos := findFirstOf (ascii "-") payload 0
      let pending_buffers ← o.castUnsigned (substrTo payload 2 score_pos)
      -- `npos + 1` is 0
      parseNsp o { p with pending_buffers := pending_buffers.toNat } payload
        (match score_pos with | some score_pos => score_pos + 1 | none => 0)
    else parseNsp o p payload 2
  else parseNsp o p payload 1

/-- `parse_buffer`: whether there are more to come, and the packet. -/
def parseBuffer (o : Outside) (p : Packet) (buf_payload : List LexerChar) :
    Option (Bool × Packet) :=
  if 0 < p.pending_buffers then
    let p := { p with
      buffers := p.buffers ++ [buf_payload.drop 1]
      pending_buffers := p.pending_buffers - 1 }
    if p.pending_buffers = 0 then do
      let doc ← parseDocument o.parseDouble (p.buffers.headD [])
      let message ← fromJson (p.buffers.drop 1) doc
      return (false, { p with message := message, buffers := [] })
    else some (true, p)
  else some (false, p)

end Packet

/-! ## `packet_manager` -/

/-- `is_text_message` -/
def isTextMessage (payload : List LexerChar) : Bool := payload.head? == some '4'.toUInt8

/-- `is_binary_message` -/
def isBinaryMessage (payload : List LexerChar) : Bool := payload.head? == some frameChar

/-- `m_partial_packet`, and what the callback was given. -/
structure PacketManager where
  waiting : Option Packet
  decoded : List Packet

namespace PacketManager

def new : PacketManager := ⟨none, []⟩

/-- The call of the callback. -/
def decode (s : PacketManager) (p : Packet) : PacketManager :=
  { s with decoded := s.decoded ++ [p] }

/-- `put_payload` -/
def putPayload (o : Outside) (s : PacketManager) (payload : List LexerChar) :
    Option PacketManager :=
  if isTextMessage payload then do
    let (more, p) ← Packet.empty.parse o payload
    return if more then { s with waiting := some p } else s.decode p
  else if isBinaryMessage payload then
    match s.waiting with
    | none => some s
    | some p => do
        let (more, p) ← p.parseBuffer o payload
        return if more then { s with waiting := some p } else { s with waiting := none }.decode p
  else do
    let (_, p) ← Packet.empty.parse o payload
    return s.decode p

end PacketManager

/-- `encode`: what is given to the callback, one after the other. -/
def encode (o : Outside) (p : Packet) : Option (List (List LexerChar)) := do
  let (text, buffers, _) ← p.accept o
  return text :: buffers

end HandlingModule.Sio
