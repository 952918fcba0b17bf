import HandlingModule.Sio.PacketText

/-!
# Every packet is delivered

What a client sends goes out text and buffers one by one, from several threads: the
network thread pings, and a thread of the module may send between two buffers of
another. `Interleaved` has all the orders in which the packets with buffers do not
overlap. If the messages are clear and the `double`s in them are read back (`MessagePacket`),
then however the payloads come, the other side is given exactly the packets that are
complete, in the order in which they became complete, and each as it was sent
(`delivered_interleaved`).

`put_payload` keeps a single packet that waits, so the text of a second packet with
buffers takes the place of the first, and the order of `Interleaved` is needed.
-/

namespace HandlingModule.Sio

open HandlingModule.AIO HandlingModule.AIO.Lexer HandlingModule.Rapidjson

variable {o : Outside}

/--
The packets that can be delivered as they were sent: a frame alone, or a packet with a
message or without, which must be one of `MessagePacket`.
-/
def Sendable (o : Outside) (p : Packet) : Prop :=
  (∃ frame ∈ [0, 1, 2, 3, 5, 6], p = Packet.ofFrame frame) ∨ MessagePacket o p

/--
`Interleaved o waiting payloads packets`: with the packet that waits, and the payloads of
it that are to come, `payloads` come and complete `packets`.
-/
inductive Interleaved (o : Outside) :
    Option (Packet × List (List LexerChar)) → List (List LexerChar) → List Packet → Prop where
  | stop {waiting : Option (Packet × List (List LexerChar))} : Interleaved o waiting [] []
  /-- A packet without buffers, at any time. -/
  | whole {waiting : Option (Packet × List (List LexerChar))} {p : Packet} {text : List LexerChar}
      {payloads : List (List LexerChar)} {packets : List Packet} :
      Sendable o p → encode o p = some [text] → Interleaved o waiting payloads packets →
      Interleaved o waiting (text :: payloads) (p :: packets)
  /-- The text of one with buffers, when no other waits. -/
  | opening {p : Packet} {text buffer : List LexerChar} {buffers payloads : List (List LexerChar)}
      {packets : List Packet} :
      Sendable o p → encode o p = some (text :: buffer :: buffers) →
      Interleaved o (some (p, buffer :: buffers)) payloads packets →
      Interleaved o none (text :: payloads) packets
  | buffer {p : Packet} {buffer next : List LexerChar} {buffers payloads : List (List LexerChar)}
      {packets : List Packet} :
      Interleaved o (some (p, next :: buffers)) payloads packets →
      Interleaved o (some (p, buffer :: next :: buffers)) (buffer :: payloads) packets
  | last {p : Packet} {buffer : List LexerChar} {payloads : List (List LexerChar)}
      {packets : List Packet} :
      Interleaved o none payloads packets →
      Interleaved o (some (p, [buffer])) (buffer :: payloads) (p :: packets)

/-- What the manager keeps, of a packet of which the first buffers have come. -/
structure Waits (o : Outside) (p : Packet) (json : List LexerChar)
    (got rest : List (List LexerChar)) :
    Prop where
  packet : MessagePacket o p
  binaries : p.message.binaries = got ++ rest
  reads : ∃ v, parseDocument o.parseDouble json = some v
    ∧ fromJson p.message.binaries v = some p.message

/-- The packet that waits is the one whose payloads are to come. -/
inductive Agrees (o : Outside) :
    Option (Packet × List (List LexerChar)) → PacketManager → Prop where
  | none {decoded : List Packet} : Agrees o .none ⟨.none, decoded⟩
  | some {p : Packet} {json : List LexerChar} {got rest : List (List LexerChar)}
      {decoded : List Packet} :
      Waits o p json got rest → rest ≠ [] →
      Agrees o (.some (p, framed rest)) ⟨.some (p.waitingFor json got), decoded⟩

/-! ## One payload -/

/-- What `encode` makes of a packet without buffers is decoded at once. -/
theorem putPayload_whole {p : Packet} {text : List LexerChar} (hp : Sendable o p)
    (h : encode o p = some [text]) (s : PacketManager) :
    s.putPayload o text = some (s.decode p.delivered) := by
  rcases hp with ⟨frame, hframe, rfl⟩ | hp
  · obtain ⟨c, haccept, htext, hbinary, hparse⟩ := parse_frame (o := o) hframe
    obtain rfl : text = [c] := by
      rw [encode, haccept] at h
      exact (List.cons.inj (Option.some.inj h)).1.symm
    rw [PacketManager.putPayload, htext, hbinary, hparse]
    rfl
  · by_cases hb : p.message.binaries = []
    · obtain ⟨text', q, haccept, htext, hparse⟩ := hp.parse_accept hb
      obtain rfl : text = text' := by
        rw [encode, haccept] at h
        exact (List.cons.inj (Option.some.inj h)).1.symm
      rw [PacketManager.putPayload, htext, hparse]
      rfl
    · obtain ⟨text', json, v, q, haccept, -⟩ := hp.parse_accept_binary hb
      rw [encode, haccept] at h
      have hnil := (List.cons.inj (Option.some.inj h)).2
      exact absurd (List.map_eq_nil_iff.mp hnil) hb

/-- The text of one with buffers makes it wait. -/
theorem putPayload_opening {p : Packet} {text buffer : List LexerChar}
    {buffers : List (List LexerChar)}
    (hp : Sendable o p) (h : encode o p = some (text :: buffer :: buffers)) (s : PacketManager) :
    ∃ json, Waits o p json [] p.message.binaries ∧ buffer :: buffers = framed p.message.binaries
      ∧ s.putPayload o text = some ⟨some (p.waitingFor json []), s.decoded⟩ := by
  rcases hp with ⟨frame, hframe, rfl⟩ | hp
  · obtain ⟨c, haccept, -⟩ := parse_frame (o := o) hframe
    rw [encode, haccept] at h
    exact absurd (List.cons.inj (Option.some.inj h)).2.symm (List.cons_ne_nil _ _)
  · by_cases hb : p.message.binaries = []
    · obtain ⟨text', q, haccept, -⟩ := hp.parse_accept hb
      rw [encode, haccept] at h
      exact absurd (List.cons.inj (Option.some.inj h)).2.symm (List.cons_ne_nil _ _)
    · obtain ⟨text', json, v, q, haccept, htext, hparse, hread, hfrom⟩ := hp.parse_accept_binary hb
      rw [encode, haccept] at h
      obtain ⟨rfl, hbuffers⟩ := List.cons.inj (Option.some.inj h)
      refine ⟨json, ⟨hp, rfl, v, hread, hfrom⟩, hbuffers.symm, ?_⟩
      rw [PacketManager.putPayload, htext, hparse]
      rfl

/-- A buffer that is not the last one. -/
theorem putPayload_buffer {p : Packet} {json : List LexerChar} {got rest : List (List LexerChar)}
    {b : List LexerChar} (h : Waits o p json got (b :: rest)) (hrest : rest ≠ [])
    (decoded : List Packet) :
    PacketManager.putPayload o ⟨some (p.waitingFor json got), decoded⟩ (frameChar :: b)
      = some ⟨some (p.waitingFor json (got ++ [b])), decoded⟩ := by
  have htext : isTextMessage (frameChar :: b) = false := rfl
  have hbinary : isBinaryMessage (frameChar :: b) = true := rfl
  rw [PacketManager.putPayload, htext, hbinary]
  dsimp only
  rw [parseBuffer_more json h.binaries hrest]
  rfl

/-- The last one completes the packet. -/
theorem putPayload_last {p : Packet} {json : List LexerChar} {got : List (List LexerChar)}
    {b : List LexerChar} (h : Waits o p json got [b]) (decoded : List Packet) :
    PacketManager.putPayload o ⟨some (p.waitingFor json got), decoded⟩ (frameChar :: b)
      = some ⟨none, decoded ++ [p.delivered]⟩ := by
  obtain ⟨v, hread, hfrom⟩ := h.reads
  have htext : isTextMessage (frameChar :: b) = false := rfl
  have hbinary : isBinaryMessage (frameChar :: b) = true := rfl
  rw [PacketManager.putPayload, htext, hbinary]
  dsimp only
  rw [parseBuffer_last h.packet h.binaries hread hfrom]
  rfl

/-- Every packet is encoded, its text first. -/
theorem encode_sendable {p : Packet} (hp : Sendable o p) :
    ∃ text, encode o p = some (text :: framed p.message.binaries) := by
  rcases hp with ⟨frame, hframe, rfl⟩ | hp
  · obtain ⟨c, haccept, -⟩ := parse_frame (o := o) hframe
    exact ⟨[c], by rw [encode, haccept]; rfl⟩
  · by_cases hb : p.message.binaries = []
    · obtain ⟨text, q, haccept, -⟩ := hp.parse_accept hb
      exact ⟨text, by rw [encode, haccept, hb]; rfl⟩
    · obtain ⟨text, json, v, q, haccept, -⟩ := hp.parse_accept_binary hb
      exact ⟨text, by rw [encode, haccept]; rfl⟩

/-! ## Any number of payloads -/

/-- `put_payload`, of one payload after the other. -/
def PacketManager.putPayloads (o : Outside) (s : PacketManager) (payloads : List (List LexerChar)) :
    Option PacketManager :=
  payloads.foldlM (·.putPayload o ·) s

theorem PacketManager.putPayloads_cons {s t : PacketManager} {payload : List LexerChar}
    (h : s.putPayload o payload = some t) (payloads : List (List LexerChar)) :
    s.putPayloads o (payload :: payloads) = t.putPayloads o payloads := by
  rw [PacketManager.putPayloads, List.foldlM_cons, h]
  rfl

/-- From any state the payloads decode what they complete, behind what has been decoded. -/
theorem decoded_interleaved {waiting : Option (Packet × List (List LexerChar))}
    {payloads : List (List LexerChar)} {packets : List Packet}
    (h : Interleaved o waiting payloads packets) {s : PacketManager} (hs : Agrees o waiting s) :
    ∃ t, s.putPayloads o payloads = some t
      ∧ t.decoded = s.decoded ++ packets.map Packet.delivered := by
  induction h generalizing s with
  | stop => exact ⟨s, rfl, (List.append_nil _).symm⟩
  | @whole waiting p text payloads packets hp hencode _ ih =>
      have hnext : Agrees o waiting (s.decode p.delivered) := by
        cases hs with
        | none => exact .none
        | some hw hrest => exact .some hw hrest
      obtain ⟨t, ht, hdecoded⟩ := ih hnext
      refine ⟨t, by rw [PacketManager.putPayloads_cons (putPayload_whole hp hencode s), ht], ?_⟩
      rw [hdecoded, List.map_cons, PacketManager.decode, List.append_assoc]
      rfl
  | @opening p text buffer buffers payloads packets hp hencode _ ih =>
      obtain ⟨json, hw, hbuffers, hput⟩ := putPayload_opening hp hencode s
      have hne : p.message.binaries ≠ [] := by
        intro hnil
        rw [hnil] at hbuffers
        exact List.cons_ne_nil _ _ hbuffers
      have hnext : Agrees o (some (p, buffer :: buffers))
          ⟨some (p.waitingFor json []), s.decoded⟩ := by
        rw [hbuffers]
        exact .some hw hne
      obtain ⟨t, ht, hdecoded⟩ := ih hnext
      exact ⟨t, by rw [PacketManager.putPayloads_cons hput, ht], hdecoded⟩
  | @buffer p buffer next buffers payloads packets _ ih =>
      generalize hrest : buffer :: next :: buffers = framedRest at hs
      cases hs with
      | @some _ json got rest decoded hw hne =>
          obtain ⟨b, bs, rfl, rfl, hbs⟩ := List.map_eq_cons_iff.mp hrest.symm
          have hbs' : bs ≠ [] := by
            rintro rfl
            exact List.cons_ne_nil _ _ hbs.symm
          have hnext : Waits o p json (got ++ [b]) bs :=
            ⟨hw.packet, by rw [hw.binaries, List.append_assoc]; rfl, hw.reads⟩
          have hagrees : Agrees o (.some (p, next :: buffers))
              ⟨.some (p.waitingFor json (got ++ [b])), decoded⟩ := by
            rw [← hbs]
            exact .some hnext hbs'
          obtain ⟨t, ht, hdecoded⟩ := ih hagrees
          exact ⟨t, by rw [PacketManager.putPayloads_cons (putPayload_buffer hw hbs' decoded), ht],
            hdecoded⟩
  | @last p buffer payloads packets _ ih =>
      generalize hrest : [buffer] = framedRest at hs
      cases hs with
      | @some _ json got rest decoded hw hne =>
          obtain ⟨b, bs, rfl, rfl, hbs⟩ := List.map_eq_cons_iff.mp hrest.symm
          obtain rfl : bs = [] := List.map_eq_nil_iff.mp hbs
          obtain ⟨t, ht, hdecoded⟩ := ih (s := ⟨.none, decoded ++ [p.delivered]⟩) .none
          refine ⟨t, by rw [PacketManager.putPayloads_cons (putPayload_last hw decoded), ht], ?_⟩
          rw [hdecoded, List.map_cons, List.append_assoc]
          rfl

/--
**Every packet is delivered, whatever comes in between.** When the payloads of packets that
are `Sendable` come in any order in which those of each packet keep theirs and no two packets
with buffers overlap, the other side is given exactly the packets that are complete, in
the order of their last payloads, each with the frame, the namespace, the number and the
message with which it was sent.
-/
theorem delivered_interleaved {payloads : List (List LexerChar)} {packets : List Packet}
    (h : Interleaved o none payloads packets) :
    ∃ s, PacketManager.new.putPayloads o payloads = some s
      ∧ s.decoded = packets.map Packet.delivered :=
  decoded_interleaved h .none

/-- The integer that digits stand for, with a sign or without. -/
def decimalInt (text : List LexerChar) : Int :=
  if text.head? = some '-'.toUInt8 then -(decimalValue text.tail : Int) else decimalValue text

theorem decimalInt_integerText (n : Int) : decimalInt (Json.integerText n) = n := by
  obtain ⟨hint, hval⟩ := Json.digits_toString n.natAbs
  unfold Json.integerText decimalInt
  split
  · rw [List.head?_cons, if_pos rfl, List.tail_cons, hval]
    omega
  · rw [if_neg, hval]
    · omega
    · intro hhead
      have := hint.digits_of _ (List.mem_of_mem_head? hhead)
      exact absurd this (by decide)

/-- No `double` is written here, and what is cast is written as an integer. -/
def decimalOutside : Outside where
  dtoa _ := []
  parseDouble _ := .error .error
  castUnsigned text :=
    if 0 ≤ decimalInt text ∧ decimalInt text < 0x100000000 then
      some (UInt32.ofNat (decimalInt text).toNat)
    else none
  castInt text :=
    if -0x80000000 ≤ decimalInt text ∧ decimalInt text < 0x80000000 then
      some (Int32.ofInt (decimalInt text))
    else none
  castUnsigned_text n := by
    have := n.toNat_lt
    rw [decimalInt_integerText, if_pos (by omega), Int.toNat_natCast, UInt32.ofNat_toNat]
  castInt_text n := by
    have := n.le_toInt
    have := n.toInt_lt
    rw [decimalInt_integerText, if_pos (by omega), Int32.ofInt_toInt]

/-- An event with two images, sent with a number. -/
def imagesPacket : Packet :=
  .ofMessage (ascii "/robot") (.array [.string "images", .binary [7, 0], .binary [0x2C]]) 12 false

theorem sendable_imagesPacket : Sendable decimalOutside imagesPacket := by
  refine Or.inr ⟨rfl, by decide, Or.inr (by decide), Or.inr ⟨by decide, nofun⟩,
    fun _ => ⟨rfl, ?_, ?_⟩, fun _ => by decide⟩
  · refine .array fun m hm => ?_
    simp only [List.mem_cons, List.not_mem_nil, or_false] at hm
    rcases hm with rfl | rfl | rfl
    · exact .string (by decide)
    · exact .binary
    · exact .binary
  · refine .array fun m hm => ?_
    simp only [List.mem_cons, List.not_mem_nil, or_false] at hm
    rcases hm with rfl | rfl | rfl
    · exact .string
    · exact .binary
    · exact .binary

/-- The ping of the network thread comes between the two images. -/
theorem delivered_interleaved_ping :
    ∃ text s, encode decimalOutside imagesPacket = some [text, [frameChar, 7, 0], [frameChar, 0x2C]]
      ∧ PacketManager.new.putPayloads decimalOutside
          [text, [frameChar, 7, 0], ascii "2", [frameChar, 0x2C]] = some s
      ∧ s.decoded = [Packet.ofFrame 2, imagesPacket].map Packet.delivered := by
  obtain ⟨text, htext⟩ := encode_sendable sendable_imagesPacket
  have hping : Sendable decimalOutside (Packet.ofFrame 2) := Or.inl ⟨2, by decide, rfl⟩
  obtain ⟨s, hs, hdecoded⟩ := delivered_interleaved
    (.opening sendable_imagesPacket htext (.buffer (.whole hping rfl (.last .stop))))
  exact ⟨text, s, htext, hs, hdecoded⟩

end HandlingModule.Sio
