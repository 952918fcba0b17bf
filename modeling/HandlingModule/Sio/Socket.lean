import HandlingModule.AIO.StdMap
import HandlingModule.Lib.Transition
import HandlingModule.Sio.Packet

/-!
# A socket (`sio_socket.cpp`)

Any thread may call `emit` and `close`; the network thread takes the packets that have
come, and calls the listeners. They share the packets that wait for the connection, under
`m_packet_mutex`, and the acks and the listeners, under `m_event_mutex`. A step is what a
thread does under one of the two, or one read or write of what is not under any.

`α` are the functions given to `emit`, and `β` the listeners. What a listener does is not
known: it returns at some time with some message for the ack, and what it emits is one of
the calls. The timers are left out; what they do at their end, `on_close`, may come at
any time.
-/

namespace HandlingModule.Sio

open HandlingModule.AIO HandlingModule.AIO.Lexer

/-- `to_array_message`, with the name of an event -/
def toArrayMessage (event_name : String) (msglist : List Message) : Message :=
  .array (.string event_name :: msglist)

/-- `push`, of all messages but null pointers -/
def pushAll (messages : List Message) : List Message :=
  messages.filter fun | .nullptr => false | _ => true

/-- The `event` that a listener is given, with the message for the ack left out. -/
structure Event where
  nsp : List LexerChar
  name : String
  messages : List Message
  need_ack : Bool

/--
Where a thread is in `send_packet`, or in the loop of `on_connected`, which is the same
without a packet of its own.
-/
inductive Sending where
  /-- `NULL_GUARD(m_client)` -/
  | guard (p : Packet)
  | connected (p : Packet)
  /-- The head of the loop. -/
  | front (p : Option Packet)
  | sendFront (front_pack : Packet) (p : Option Packet)
  | send (p : Packet)
  | push (p : Packet)

/-- The packets a thread has in its hands. -/
def Sending.hands : Sending → List Packet
  | .guard p | .connected p | .send p | .push p => [p]
  | .front p => p.toList
  | .sendFront front_pack p => front_pack :: p.toList

inductive CallPc where
  /-- `NULL_GUARD(m_client)` of `emit` -/
  | emit
  /-- `s_global_event_id++`, which is read here and written in the next step. -/
  | eventId
  | increment (pack_id : UInt32)
  | setAck (pack_id : UInt32)
  /-- `NULL_GUARD(m_client)` of `close` -/
  | close
  /-- `if(m_connected)` of `close` -/
  | closeConnected
  | sending (s : Sending)
  | returned

/-- A call of `emit` or of `close`, which has no message. -/
structure Call (α : Type) where
  message : Message
  ack : Option α
  pc : CallPc

inductive NetworkPc where
  | idle
  | sending (s : Sending)
  /-- In a listener, of an event with this number. -/
  | listening (msgId : Int32)
  /-- `on_close`, before `m_connected = false` -/
  | closing
  /-- Before the queue is emptied. -/
  | clearing

/--
The socket, and the threads in it. `faulted` is set when a null pointer has been
dereferenced. What follows it is only recorded: the packets that were made and what
became of them, how many numbers were taken, the acks that were registered, those that
came and those that were called, and the events with their numbers. A packet is `sent` when
it has been handed to the client. `others` are the numbers that threads in other sockets
have read of `s_global_event_id` and not written yet.
-/
structure Socket (α β : Type) where
  client : Bool
  connected : Bool
  nsp : List LexerChar
  acks : List (UInt32 × α)
  event_binding : List (String × β)
  packet_queue : List Packet
  global_event_id : UInt32
  others : List UInt32
  network : NetworkPc
  calls : List (Call α)
  faulted : Bool
  made : List Packet
  sent : List Packet
  dropped : List Packet
  ids : Nat
  registered : List (UInt32 × α)
  acked : List (Int32 × List Message)
  called : List (UInt32 × α × List Message)
  heard : List (Int32 × Event)

inductive SocketAct (α β : Type) where
  | on (event_name : String) (func : β)
  | off (event_name : String)
  | offAll
  | emit (name : String) (msglist : List Message) (ack : Option α)
  | close
  /-- The `i`th call moves on. -/
  | run (i : Nat)
  | onOpen
  | onMessagePacket (p : Packet)
  /-- The listener returns, with the message for the ack. -/
  | listened (ack_message : List Message)
  | onDisconnect
  | onClose
  /-- The network thread moves on. -/
  | network
  /-- A thread in another socket reads `s_global_event_id`. -/
  | otherReads
  /-- The `i`th of them writes it. -/
  | otherWrites (i : Nat)

variable {α β : Type}

/-- A step of the network thread. -/
def SocketAct.ofNetwork : SocketAct α β → Bool
  | .onOpen | .onMessagePacket _ | .listened _ | .onDisconnect | .onClose | .network => true
  | _ => false

/-- A step with which the network thread may leave the connection. -/
def SocketAct.closes : SocketAct α β → Bool
  | .onClose | .onDisconnect => true
  | .onMessagePacket p => p.type == typeDisconnect
  | _ => false

namespace Socket

/-- A socket of a client, before anything has happened to it. -/
def new (nsp : List LexerChar) (global_event_id : UInt32) : Socket α β where
  client := true
  connected := false
  nsp := nsp
  acks := []
  event_binding := []
  packet_queue := []
  global_event_id := global_event_id
  others := []
  network := .idle
  calls := []
  faulted := false
  made := []
  sent := []
  dropped := []
  ids := 0
  registered := []
  acked := []
  called := []
  heard := []

def fault (s : Socket α β) : Socket α β := { s with faulted := true }

/-- `m_client->send(p)`; the pointer may have become null. -/
def clientSend (s : Socket α β) (p : Packet) : Socket α β := { s with sent := s.sent ++ [p] }

/-- One step of `send_packet`; nothing is left of it when it returns. -/
def send (s : Socket α β) : Sending → Socket α β × Option Sending
  | .guard p =>
      if s.client then (s, some (.connected p)) else ({ s with dropped := s.dropped ++ [p] }, none)
  | .connected p => if s.connected then (s, some (.front (some p))) else (s, some (.push p))
  | .front p =>
      match s.packet_queue with
      | [] => (s, p.map .send)
      | front_pack :: packet_queue =>
          ({ s with packet_queue := packet_queue }, some (.sendFront front_pack p))
  | .sendFront front_pack p =>
      if s.client then (s.clientSend front_pack, some (.front p))
      else (s.fault, some (.sendFront front_pack p))
  | .send p => if s.client then (s.clientSend p, none) else (s.fault, some (.send p))
  | .push p => ({ s with packet_queue := s.packet_queue ++ [p] }, none)

/-! ## The calls -/

def setCall (s : Socket α β) (i : Nat) (c : Call α) : Socket α β :=
  { s with calls := s.calls.set i c }

/-- The packet that a call hands to `send_packet`. -/
def callSends (s : Socket α β) (i : Nat) (c : Call α) (p : Packet) : Socket α β :=
  { s with made := s.made ++ [p] }.setCall i { c with pc := .sending (.guard p) }

/-- One step of a call. -/
def run (s : Socket α β) (i : Nat) : Option (Socket α β) := do
  let c ← s.calls[i]?
  match c.pc with
  | .emit =>
      if s.client then
        match c.ack with
        | some _ => return s.setCall i { c with pc := .eventId }
        | none => return s.callSends i c (.ofMessage s.nsp c.message (-1) false)
      else return s.setCall i { c with pc := .returned }
  | .eventId => return s.setCall i { c with pc := .increment s.global_event_id }
  | .increment pack_id =>
      return { s with global_event_id := pack_id + 1, ids := s.ids + 1 }.setCall i
        { c with pc := .setAck pack_id }
  | .setAck pack_id =>
      let ack ← c.ack
      return { s with
        acks := (pack_id, ack) :: s.acks.filter (·.1 != pack_id)
        registered := s.registered ++ [(pack_id, ack)] }.callSends i c
          (.ofMessage s.nsp c.message pack_id.toInt32 false)
  | .close =>
      if s.client then return s.setCall i { c with pc := .closeConnected }
      else return s.setCall i { c with pc := .returned }
  | .closeConnected =>
      if s.connected then return s.callSends i c (.ofType typeDisconnect s.nsp .nullptr)
      else return s.setCall i { c with pc := .returned }
  | .sending sending =>
      let (s, rest) := s.send sending
      return s.setCall i { c with pc := (rest.map .sending).getD .returned }
  | .returned => none

/-! ## The network thread -/

/-- `on_open`: `send_connect` -/
def onOpen (s : Socket α β) : Socket α β :=
  if s.client ∧ s.nsp ≠ ascii "/" then
    let p := Packet.ofType typeConnect s.nsp .nullptr
    { s with made := s.made ++ [p] }.clientSend p
  else s

def onConnected (s : Socket α β) : Socket α β :=
  if s.connected then s else { s with connected := true, network := .sending (.front none) }

def onClose (s : Socket α β) : Socket α β :=
  if s.client then { s with client := false, network := .closing } else s

def onDisconnect (s : Socket α β) : Socket α β :=
  if s.client ∧ s.connected then { s with connected := false, network := .clearing } else s

/-- `ack` -/
def ack (s : Socket α β) (msgId : Int32) (ack_message : List Message) : Socket α β :=
  { s with
    made := s.made ++ [.ofMessage s.nsp (.array ack_message) msgId true]
    network := .sending (.guard (.ofMessage s.nsp (.array ack_message) msgId true)) }

/-- `on_socketio_event`; without a listener the ack is empty. -/
def onSocketioEvent (s : Socket α β) (nsp : List LexerChar) (msgId : Int32) (name : String)
    (message : List Message) : Socket α β :=
  let s := { s with heard := s.heard ++ [(msgId, Event.mk nsp name message (decide (0 ≤ msgId)))] }
  match s.event_binding.lookup name with
  | some _ => { s with network := .listening msgId }
  | none => if 0 ≤ msgId then s.ack msgId [] else s

/-- `on_socketio_ack` -/
def onSocketioAck (s : Socket α β) (msgId : Int32) (message : List Message) : Socket α β :=
  let s := { s with acked := s.acked ++ [(msgId, message)] }
  match s.acks.lookup msgId.toUInt32 with
  | some l => { s with
      acks := s.acks.filter (·.1 != msgId.toUInt32)
      called := s.called ++ [(msgId.toUInt32, l, message)] }
  | none => s

/-- `on_message_packet` -/
def onMessagePacket (s : Socket α β) (p : Packet) : Socket α β :=
  if s.client ∧ p.nsp = s.nsp then
    if p.type = typeConnect then s.onConnected
    else if p.type = typeDisconnect then s.onClose
    else if p.type = typeEvent ∨ p.type = typeBinaryEvent then
      match p.message with
      | .nullptr => s.fault
      | .array (.nullptr :: _) => s.fault
      | .array (.string name :: messages) =>
          s.onSocketioEvent p.nsp p.pack_id name (pushAll messages)
      | _ => s
    else if p.type = typeAck ∨ p.type = typeBinaryAck then
      match p.message with
      | .nullptr => s.fault
      | .array messages => s.onSocketioAck p.pack_id messages
      | m => s.onSocketioAck p.pack_id [m]
    -- of an error only the error listener hears
    else s
  else s

/-- One step of the network thread in what it has begun. -/
def networkStep (s : Socket α β) : Option (Socket α β) :=
  match s.network with
  | .idle => none
  | .sending sending =>
      let (s, rest) := s.send sending
      some { s with network := (rest.map .sending).getD .idle }
  | .listening _ => none
  | .closing => some { s with connected := false, network := .clearing }
  | .clearing => some { s with
      dropped := s.dropped ++ s.packet_queue
      packet_queue := []
      network := .idle }

/-- What the network thread does next when it is through with the last. -/
def idle (s : Socket α β) (next : Socket α β) : Option (Socket α β) :=
  match s.network with
  | .idle => some next
  | _ => none

/-- One step of any thread. -/
def step (s : Socket α β) (a : SocketAct α β) : Option (Socket α β) :=
  if s.faulted then none
  else match a with
  | .on event_name func => some { s with event_binding := assign s.event_binding event_name func }
  | .off event_name => some { s with event_binding := s.event_binding.filter (·.1 != event_name) }
  | .offAll => some { s with event_binding := [] }
  | .emit name msglist ack =>
      some { s with calls := s.calls ++ [⟨toArrayMessage name msglist, ack, .emit⟩] }
  | .close => some { s with calls := s.calls ++ [⟨.nullptr, none, .close⟩] }
  | .run i => s.run i
  | .onOpen => s.idle s.onOpen
  | .onMessagePacket p => s.idle (s.onMessagePacket p)
  | .listened ack_message =>
      match s.network with
      | .listening msgId =>
          some (if 0 ≤ msgId then s.ack msgId ack_message else { s with network := .idle })
      | _ => none
  | .onDisconnect => s.idle s.onDisconnect
  | .onClose => s.idle s.onClose
  | .network => s.networkStep
  | .otherReads => some { s with others := s.others ++ [s.global_event_id] }
  | .otherWrites i =>
      s.others[i]?.map fun pack_id =>
        { s with global_event_id := pack_id + 1, ids := s.ids + 1, others := s.others.eraseIdx i }

/-! ## What a step can do -/

/-- The packet with which a call begins to send, from where it is. -/
inductive CallSends (s : Socket α β) (c : Call α) : Packet → Prop where
  | event : c.pc = .emit → c.ack = none → CallSends s c (.ofMessage s.nsp c.message (-1) false)
  | disconnect : c.pc = .closeConnected → CallSends s c (.ofType typeDisconnect s.nsp .nullptr)

/-- The steps of a call in which it neither has a packet nor is to register an ack. -/
inductive CallMoves : CallPc → CallPc → Prop where
  | eventId : CallMoves .emit .eventId
  | noClient : CallMoves .emit .returned
  | close : CallMoves .close .closeConnected
  | notClosed {pc : CallPc} : pc = .close ∨ pc = .closeConnected → CallMoves pc .returned

/-- How the network thread leaves its rest, with no packet of its own. -/
inductive Leaves (s : Socket α β) (a : SocketAct α β) : Socket α β → Prop where
  | onConnected : s.connected = false →
      Leaves s a { s with connected := true, network := .sending (.front none) }
  | onClose : a.closes = true → s.client = true →
      Leaves s a { s with client := false, network := .closing }
  | onDisconnect : a.closes = true → s.connected = true →
      Leaves s a { s with connected := false, network := .clearing }

/-- An event is heard. -/
def hear (s : Socket α β) (msgId : Int32) (e : Event) : Socket α β :=
  { s with heard := s.heard ++ [(msgId, e)] }

/-- An ack packet is taken. -/
def takeAck (s : Socket α β) (msgId : Int32) (message : List Message) : Socket α β :=
  { s with acked := s.acked ++ [(msgId, message)] }

inductive Step (s : Socket α β) : SocketAct α β → Socket α β → Prop where
  | same {a : SocketAct α β} : Step s a s
  | fault {a : SocketAct α β} : Step s a s.fault
  | bind {a : SocketAct α β} (binding : List (String × β)) :
      Step s a { s with event_binding := binding }
  | call {a : SocketAct α β} (c : Call α) : c.pc = .emit ∨ c.pc = .close →
      Step s a { s with calls := s.calls ++ [c] }
  | otherReads : Step s .otherReads { s with others := s.others ++ [s.global_event_id] }
  | otherWrites {i : Nat} (pack_id : UInt32) : s.others[i]? = some pack_id →
      Step s (.otherWrites i)
        { s with global_event_id := pack_id + 1, ids := s.ids + 1, others := s.others.eraseIdx i }
  | moves {i : Nat} (c : Call α) (pc : CallPc) : s.calls[i]? = some c → CallMoves c.pc pc →
      Step s (.run i) (s.setCall i { c with pc := pc })
  | sends {i : Nat} (c : Call α) (p : Packet) : s.calls[i]? = some c → CallSends s c p →
      Step s (.run i) (s.callSends i c p)
  | eventId {i : Nat} (c : Call α) : s.calls[i]? = some c → c.pc = .eventId →
      Step s (.run i) (s.setCall i { c with pc := .increment s.global_event_id })
  | increment {i : Nat} (c : Call α) (pack_id : UInt32) : s.calls[i]? = some c →
      c.pc = .increment pack_id →
      Step s (.run i) ({ s with global_event_id := pack_id + 1, ids := s.ids + 1 }.setCall i
        { c with pc := .setAck pack_id })
  | setAck {i : Nat} (c : Call α) (pack_id : UInt32) (ack : α) : s.calls[i]? = some c →
      c.pc = .setAck pack_id → c.ack = some ack →
      Step s (.run i) ({ s with
        acks := (pack_id, ack) :: s.acks.filter (·.1 != pack_id)
        registered := s.registered ++ [(pack_id, ack)] }.callSends i c
          (.ofMessage s.nsp c.message pack_id.toInt32 false))
  | sending {i : Nat} (c : Call α) (sending : Sending) : s.calls[i]? = some c →
      c.pc = .sending sending →
      Step s (.run i) ((s.send sending).1.setCall i
        { c with pc := ((s.send sending).2.map .sending).getD .returned })
  | sendConnect {a : SocketAct α β} : a.ofNetwork = true → s.network = .idle →
      Step s a ({ s with made := s.made ++ [Packet.ofType typeConnect s.nsp .nullptr] }.clientSend
        (.ofType typeConnect s.nsp .nullptr))
  | leaves {a : SocketAct α β} {s' : Socket α β} : a.ofNetwork = true → s.network = .idle →
      Leaves s a s' → Step s a s'
  | listens {a : SocketAct α β} (msgId : Int32) (e : Event) : a.ofNetwork = true →
      s.network = .idle →
      e.need_ack = decide (0 ≤ msgId) →
      Step s a { s.hear msgId e with network := .listening msgId }
  | unheard {a : SocketAct α β} (msgId : Int32) (e : Event) : a.ofNetwork = true →
      s.network = .idle → e.need_ack = false → Step s a (s.hear msgId e)
  | answers {a : SocketAct α β} (msgId : Int32) (e : Event) : a.ofNetwork = true →
      s.network = .idle → e.need_ack = true → Step s a ((s.hear msgId e).ack msgId [])
  | acked {a : SocketAct α β} (msgId : Int32) (message : List Message) (l : α) :
      a.ofNetwork = true → s.network = .idle →
      s.acks.lookup msgId.toUInt32 = some l →
      Step s a { s.takeAck msgId message with
        acks := s.acks.filter (·.1 != msgId.toUInt32)
        called := s.called ++ [(msgId.toUInt32, l, message)] }
  | unknown {a : SocketAct α β} (msgId : Int32) (message : List Message) : a.ofNetwork = true →
      s.network = .idle →
      s.acks.lookup msgId.toUInt32 = none → Step s a (s.takeAck msgId message)
  | listened {ack_message : List Message} (msgId : Int32) : s.network = .listening msgId →
      0 ≤ msgId → Step s (.listened ack_message) (s.ack msgId ack_message)
  | ignored {ack_message : List Message} (msgId : Int32) : s.network = .listening msgId →
      ¬ 0 ≤ msgId → Step s (.listened ack_message) { s with network := .idle }
  | networkSending (sending : Sending) : s.network = .sending sending →
      Step s .network { (s.send sending).1 with
        network := ((s.send sending).2.map .sending).getD .idle }
  | closing : s.network = .closing →
      Step s .network { s with connected := false, network := .clearing }
  | clearing : s.network = .clearing →
      Step s .network { s with
        dropped := s.dropped ++ s.packet_queue
        packet_queue := []
        network := .idle }

variable {s s' : Socket α β}

theorem run_cases {i : Nat} (h : s.run i = some s') : Step s (.run i) s' := by
  obtain ⟨c, hc, h⟩ := Option.bind_eq_some_iff.mp h
  cases hpc : c.pc with
  | emit =>
      simp only [hpc] at h
      split at h
      · split at h
        · rename_i hack
          rw [← Option.some.inj h]
          exact .moves c .eventId hc (hpc ▸ .eventId)
        · rename_i hack
          rw [← Option.some.inj h]
          exact .sends c _ hc (.event hpc hack)
      · rw [← Option.some.inj h]
        exact .moves c .returned hc (hpc ▸ .noClient)
  | eventId =>
      simp only [hpc] at h
      rw [← Option.some.inj h]
      exact .eventId c hc hpc
  | increment pack_id =>
      simp only [hpc] at h
      rw [← Option.some.inj h]
      exact .increment c pack_id hc hpc
  | setAck pack_id =>
      simp only [hpc] at h
      obtain ⟨ack, hack, h⟩ := Option.bind_eq_some_iff.mp h
      rw [← Option.some.inj h]
      exact .setAck c pack_id ack hc hpc hack
  | close =>
      simp only [hpc] at h
      split at h
      · rw [← Option.some.inj h]
        exact .moves c .closeConnected hc (hpc ▸ .close)
      · rw [← Option.some.inj h]
        exact .moves c .returned hc (.notClosed (Or.inl hpc))
  | closeConnected =>
      simp only [hpc] at h
      split at h
      · rw [← Option.some.inj h]
        exact .sends c _ hc (.disconnect hpc)
      · rw [← Option.some.inj h]
        exact .moves c .returned hc (.notClosed (Or.inr hpc))
  | sending sending =>
      simp only [hpc] at h
      rw [← Option.some.inj h]
      exact .sending c sending hc hpc
  | returned =>
      simp only [hpc] at h
      exact absurd h (by simp)

theorem onSocketioEvent_cases {a : SocketAct α β} (ha : a.ofNetwork = true)
    (hidle : s.network = .idle) (nsp : List LexerChar) (msgId : Int32) (name : String)
    (message : List Message) :
    Step s a (s.onSocketioEvent nsp msgId name message) := by
  unfold onSocketioEvent
  dsimp only
  split
  · exact .listens msgId _ ha hidle rfl
  · split
    · rename_i hid
      exact .answers msgId _ ha hidle (decide_eq_true hid)
    · rename_i hid
      exact .unheard msgId _ ha hidle (decide_eq_false hid)

theorem onSocketioAck_cases {a : SocketAct α β} (ha : a.ofNetwork = true)
    (hidle : s.network = .idle) (msgId : Int32)
    (message : List Message) : Step s a (s.onSocketioAck msgId message) := by
  unfold onSocketioAck
  dsimp only
  split
  · rename_i l hl
    exact .acked msgId message l ha hidle hl
  · rename_i hl
    exact .unknown msgId message ha hidle hl

theorem onClose_cases {a : SocketAct α β} (ha : a.ofNetwork = true) (hcloses : a.closes = true)
    (hidle : s.network = .idle) : Step s a s.onClose := by
  unfold onClose
  split
  · rename_i hclient
    exact .leaves ha hidle (.onClose hcloses hclient)
  · exact .same

theorem onMessagePacket_cases (hidle : s.network = .idle) (p : Packet) :
    Step s (.onMessagePacket p) (s.onMessagePacket p) := by
  unfold onMessagePacket
  split
  · split
    · unfold onConnected
      split
      · exact .same
      · rename_i hconnected
        exact .leaves rfl hidle (.onConnected (Bool.not_eq_true _ ▸ hconnected))
    · split
      · rename_i htype
        exact onClose_cases rfl (beq_iff_eq.mpr htype) hidle
      · split
        · split
          · exact .fault
          · exact .fault
          · exact onSocketioEvent_cases rfl hidle ..
          · exact .same
        · split
          · split
            · exact .fault
            · exact onSocketioAck_cases rfl hidle ..
            · exact onSocketioAck_cases rfl hidle ..
          · exact .same
  · exact .same

theorem idle_cases {next : Socket α β} (h : s.idle next = some s') :
    s.network = .idle ∧ s' = next := by
  unfold idle at h
  split at h
  · rename_i hidle
    exact ⟨hidle, (Option.some.inj h).symm⟩
  · exact absurd h (by simp)

/-- **Every step is one of these.** -/
theorem step_cases {a : SocketAct α β} (h : s.step a = some s') :
    s.faulted = false ∧ Step s a s' := by
  unfold step at h
  split at h
  · exact absurd h (by simp)
  · rename_i hfaulted
    refine ⟨Bool.not_eq_true _ ▸ hfaulted, ?_⟩
    cases a with
    | on | off | offAll =>
        rw [← Option.some.inj h]
        exact .bind _
    | emit =>
        rw [← Option.some.inj h]
        exact .call _ (Or.inl rfl)
    | close =>
        rw [← Option.some.inj h]
        exact .call _ (Or.inr rfl)
    | run i => exact run_cases h
    | onOpen =>
        obtain ⟨hidle, rfl⟩ := idle_cases h
        unfold onOpen
        split
        · exact .sendConnect rfl hidle
        · exact .same
    | onMessagePacket p =>
        obtain ⟨hidle, rfl⟩ := idle_cases h
        exact onMessagePacket_cases hidle p
    | listened ack_message =>
        dsimp only at h
        split at h
        · rename_i msgId hlistening
          rw [← Option.some.inj h]
          split
          · rename_i hid
            exact .listened msgId hlistening hid
          · rename_i hid
            exact .ignored msgId hlistening hid
        · exact absurd h (by simp)
    | onDisconnect =>
        obtain ⟨hidle, rfl⟩ := idle_cases h
        unfold onDisconnect
        split
        · rename_i hboth
          exact .leaves rfl hidle (.onDisconnect rfl hboth.2)
        · exact .same
    | onClose =>
        obtain ⟨hidle, rfl⟩ := idle_cases h
        exact onClose_cases rfl rfl hidle
    | network =>
        dsimp only at h
        unfold networkStep at h
        split at h
        · exact absurd h (by simp)
        · rename_i sending hsending
          rw [← Option.some.inj h]
          exact .networkSending sending hsending
        · exact absurd h (by simp)
        · rename_i hclosing
          rw [← Option.some.inj h]
          exact .closing hclosing
        · rename_i hclearing
          rw [← Option.some.inj h]
          exact .clearing hclearing
    | otherReads =>
        rw [← Option.some.inj h]
        exact .otherReads
    | otherWrites i =>
        obtain ⟨pack_id, hother, rfl⟩ := Option.map_eq_some_iff.mp h
        exact .otherWrites pack_id hother

end Socket

end HandlingModule.Sio
