import HandlingModule.AIO.Wire
import HandlingModule.Sio.Delivery
import HandlingModule.Sio.Socket

/-!
# What the other side hears

`emit` puts a message into a packet: the name of the event and the text that `dump` made.
The packet becomes a text again, the text goes over the wire, and on the other side
`packet_manager` makes a packet of it. Here all of it is put together: from the members
of a message to the members that are read out of the text that was in the packet.

On the way pings and other frames that are no messages come in between. When the payloads
keep the order of the messages, the other side hears exactly what the module has emitted,
in the order in which it was emitted (`heard_run`).
-/

namespace HandlingModule.AIO

open Serial Transition Lexer HandlingModule.AIO.Parser HandlingModule.Sio HandlingModule.Rapidjson
  Json

variable {δ A : Type} {dev : Device δ A}
variable {strtod : List LexerChar → UInt64} {number : UInt64 → List LexerChar} {o : Outside}

/-- `toString` -/
def CommunicationEvents.toString : CommunicationEvents → String
  | .registration => "REGISTRATION"
  | .registrationReply => "REGISTRATION_REPLY"
  | .workAssignation => "WORK_ASSIGNATION"
  | .workAssignationReply => "WORK_ASSIGNATION_REPLY"
  | .workStatus => "WORK_STATUS"
  | .workStatusReply => "WORK_STATUS_REPLY"
  | .allBegins => "ALL_BEGINS"
  | .actionFinished => "ACTION_FINISHED"

/-- The text that is emitted, `dump` of the message. -/
def Message.text (number : UInt64 → List LexerChar) (m : Message) : String :=
  fromBytes (m.data.dump number (-1))

/-- The packet that `current_socket->emit(toString(event), dump())` makes. -/
def Message.packet (number : UInt64 → List LexerChar) (m : Message) : Packet :=
  .ofMessage (ascii "/") (toArrayMessage m.event.toString [.string (m.text number)]) (-1) false

/-- The name and the text of an event with one text, which is what the listeners take. -/
def eventText (p : Packet) : Option (String × String) :=
  if p.frame = frameMessage then
    match p.message with
    | .array [.string name, .string text] => some (name, text)
    | _ => none
  else none

/-- What is heard of a message. -/
structure Understood (strtod : List LexerChar → UInt64) (number : UInt64 → List LexerChar)
    (m : Message) (e : String × String) : Prop where
  name : e.1 = m.event.toString
  read : ∃ j, parseText strtod e.2 = some j
    ∧ ∀ key, j.member key = (m.data.member key).reread strtod number

/-! ## The packet of a message -/

theorem bytes_toString (event : CommunicationEvents) : Bytes event.toString := by
  cases event <;> decide

theorem sendable_packet (m : Message) : Sendable o (m.packet number) := by
  have hparts : ∀ x ∈ [Sio.Message.string m.event.toString, .string (m.text number)],
      ∃ s, x = .string s ∧ Bytes s := by
    intro x hx
    rcases List.mem_pair.mp hx with rfl | rfl
    · exact ⟨_, rfl, bytes_toString _⟩
    · exact ⟨_, rfl, bytes_fromBytes _⟩
  have htype : (typeEvent ||| typeUndetermined) &&& ~~~typeUndetermined
      ∈ [typeConnect, typeDisconnect, typeEvent, typeAck, typeError] := by decide
  have hcomma : ','.toUInt8 ∉ ascii "/" := by decide
  refine Or.inr ⟨rfl, htype, Or.inr ⟨rfl, hcomma⟩, Or.inl rfl, fun _ => ⟨rfl, .array ?_, .array ?_⟩,
    fun hb => absurd rfl hb⟩
  · intro x hx
    obtain ⟨s, rfl, hs⟩ := hparts x hx
    exact .string hs
  · intro x hx
    obtain ⟨s, rfl, hs⟩ := hparts x hx
    exact .string

theorem eventText_packet (m : Message) :
    eventText (m.packet number).delivered = some (m.event.toString, m.text number) := rfl

/-- Frames that are no messages carry no event. -/
theorem eventText_frame {p : Packet} (h : p.frame ≠ frameMessage) :
    eventText p.delivered = none := by
  have hframe : p.delivered.frame = p.frame := by
    rw [Packet.delivered, if_pos h]
  rw [eventText, hframe, if_neg h]

/-- What is heard of the packets is heard of those with messages. -/
theorem filterMap_delivered (packets : List Packet) :
    (packets.map Packet.delivered).filterMap eventText
      = ((packets.filter (·.frame == frameMessage)).map Packet.delivered).filterMap eventText := by
  induction packets with
  | nil => rfl
  | cons p packets ih =>
      rw [List.map_cons, List.filterMap_cons, List.filter_cons]
      by_cases h : p.frame = frameMessage
      · rw [if_pos (beq_iff_eq.mpr h), List.map_cons, List.filterMap_cons, ih]
      · rw [if_neg (by simpa using h), eventText_frame h]
        exact ih

theorem filterMap_packets (ms : List Message) :
    ((ms.map (Message.packet number)).map Packet.delivered).filterMap eventText
      = ms.map fun m => (m.event.toString, m.text number) := by
  induction ms with
  | nil => rfl
  | cons m ms ih =>
      rw [List.map_cons, List.map_cons, List.filterMap_cons, eventText_packet, ih]
      rfl

/--
**The other side hears what the module has emitted.** In every run with the parser of
`json.hpp`, in which every `double` received can be printed as a number: when the packets
of the messages emitted so far are encoded, and their payloads come in that order with any
frames that are no messages in between, the other side decodes of them exactly these
messages, in the order in which they were emitted, each with the name of its event and a
text that parses to a value with the same members.
-/
theorem heard_run {module_id : String} (hm : Bytes module_id) {d : δ} {as : List (Act A)}
    {w : World δ}
    (hr : Run (World.step (parseText strtod) dev) (Printable strtod number)
      (World.start module_id d) as w)
    {payloads : List (List LexerChar)} {packets : List Packet}
    (h : Interleaved o none payloads packets)
    (hmessages : packets.filter (·.frame == frameMessage)
      = w.channel.emitted.map (Message.packet number)) :
    ∃ s, PacketManager.new.putPayloads o payloads = some s
      ∧ List.Forall₂ (Understood strtod number) w.channel.emitted
        (s.decoded.filterMap eventText) := by
  obtain ⟨s, hs, hdecoded⟩ := decoded_interleaved h .none
  refine ⟨s, hs, ?_⟩
  rw [hdecoded]
  show List.Forall₂ _ _ (([] ++ packets.map Packet.delivered).filterMap eventText)
  rw [List.nil_append, filterMap_delivered, hmessages, filterMap_packets,
    List.forall₂_map_right_iff, List.forall₂_same]
  intro m hmem
  have hread : ReadBack strtod number m (-1) (m.data.reread strtod number) :=
    readBack_of_held ((wired_run hm hr).message (ledger_run hr) hmem) (-1)
  exact ⟨rfl, _, hread.parsed, hread.members⟩

/-- Packets without buffers, one after the other. -/
theorem interleaved_whole {packets : List Packet}
    (h : ∀ p ∈ packets, Sendable o p ∧ p.message.binaries = []) :
    ∃ payloads, Interleaved o none payloads packets := by
  induction packets with
  | nil => exact ⟨[], .stop⟩
  | cons p packets ih =>
      obtain ⟨hp, hb⟩ := h p (List.mem_cons_self ..)
      obtain ⟨payloads, hpayloads⟩ := ih fun q hq => h q (List.mem_cons_of_mem _ hq)
      obtain ⟨text, htext⟩ := encode_sendable hp
      rw [hb] at htext
      exact ⟨text :: payloads, .whole hp htext hpayloads⟩

/-- The reply to an `OPEN-GRIP` is heard, behind a ping. -/
theorem heard_run_open :
    ∃ w payloads s,
      Run (World.step (parseText fun _ => 0) firmware) (Printable (fun _ => 0) fun _ => [])
        (World.start "handling" Board.start) [.receive .workAssignation openPayload, .answer] w
      ∧ (w.channel.emitted.any fun m => m.event == .workAssignationReply) = true
      ∧ Interleaved decimalOutside none payloads
          (Packet.ofFrame 2 :: w.channel.emitted.map (Message.packet fun _ => []))
      ∧ PacketManager.new.putPayloads decimalOutside payloads = some s
      ∧ List.Forall₂ (Understood (fun _ => 0) fun _ => []) w.channel.emitted
          (s.decoded.filterMap eventText) := by
  have hexec : (exec (checked receivesOpen (World.step (parseText fun _ => 0) firmware))
      (World.start "handling" Board.start) [.receive .workAssignation openPayload, .answer]).any
      (fun w => w.channel.emitted.any fun m => m.event == .workAssignationReply) = true := by
    decide +kernel
  obtain ⟨w, hw, hany⟩ := exists_of_exec hexec
  have hr := (run_of_exec_checked hw).weaken fun _ _ h =>
    (printable_of_receivesOpen h : Printable (fun _ => 0) (fun _ => []) _ _)
  have hsendable : ∀ p ∈ Packet.ofFrame 2 :: w.channel.emitted.map (Message.packet fun _ => []),
      Sendable decimalOutside p ∧ p.message.binaries = [] := by
    intro p hp
    rcases List.mem_cons.mp hp with rfl | hp
    · exact ⟨Or.inl ⟨2, by decide, rfl⟩, rfl⟩
    · obtain ⟨m, _, rfl⟩ := List.mem_map.mp hp
      exact ⟨sendable_packet m, rfl⟩
  obtain ⟨payloads, hpayloads⟩ := interleaved_whole hsendable
  have hmessages : (Packet.ofFrame 2 :: w.channel.emitted.map (Message.packet fun _ => [])).filter
      (·.frame == frameMessage) = w.channel.emitted.map (Message.packet fun _ => []) := by
    rw [List.filter_cons, if_neg (by decide)]
    refine List.filter_eq_self.mpr fun p hp => ?_
    obtain ⟨m, _, rfl⟩ := List.mem_map.mp hp
    rfl
  obtain ⟨s, hs, hheard⟩ := heard_run (by decide) hr hpayloads hmessages
  exact ⟨w, payloads, s, hr, hany, hpayloads, hs, hheard⟩

end HandlingModule.AIO
