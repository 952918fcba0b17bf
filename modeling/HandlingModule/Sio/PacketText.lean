import HandlingModule.Sio.Carried
import HandlingModule.Sio.Packet

/-!
# The text of a packet

`parse` finds its way through the text by the first `-`, the first of `{`, `[`, `"` and
`/`, and the first comma. That these are the ones that `accept` put there takes a
namespace that begins with `/` and has no comma, and a message whose value does not
begin with anything else. The client makes only such packets.
-/

namespace HandlingModule.Sio

open HandlingModule.AIO HandlingModule.AIO.Lexer HandlingModule.Rapidjson

/-! ## Positions -/

theorem findFirstOf_append (pre mid post : List LexerChar) {cs : List LexerChar} {c : LexerChar}
    (hmid : ∀ b ∈ mid, cs.contains b = false) (hc : cs.contains c = true) :
    findFirstOf cs (pre ++ (mid ++ c :: post)) pre.length = some (pre.length + mid.length) := by
  have hnone : mid.findIdx? (cs.contains ·) = none := List.findIdx?_eq_none_iff.mpr hmid
  rw [findFirstOf, List.drop_left, List.findIdx?_append, hnone, List.findIdx?_cons, if_pos hc]
  simp

theorem findFirstOf_none (pre : List LexerChar) {cs post : List LexerChar}
    (h : ∀ b ∈ post, cs.contains b = false) :
    findFirstOf cs (pre ++ post) pre.length = none := by
  have hnone : post.findIdx? (cs.contains ·) = none := List.findIdx?_eq_none_iff.mpr h
  rw [findFirstOf, List.drop_left, hnone]
  rfl

theorem substrTo_append (pre mid post : List LexerChar) :
    substrTo (pre ++ (mid ++ post)) pre.length (some (pre.length + mid.length)) = mid := by
  rw [substrTo, if_pos (Nat.le_add_right ..), List.drop_left, Nat.add_sub_cancel_left,
    List.take_left]

theorem charAt_append (pre : List LexerChar) (c : LexerChar) (post : List LexerChar) :
    charAt (pre ++ c :: post) pre.length = c := by
  simp [charAt]

theorem digits_integerText {n : Int} (h : 0 ≤ n) : Digits (Json.integerText n) := by
  rw [Json.integerText, if_neg (by omega)]
  exact (Json.digits_toString n.natAbs).1.digits_of

theorem digits_contains {cs ds : List LexerChar} (hds : Digits ds)
    (hcs : cs.all (!isDigit ·) = true) :
    ∀ b ∈ ds, cs.contains b = false := by
  intro b hb
  refine Bool.eq_false_iff.mpr fun hc => ?_
  have := List.all_eq_true.mp hcs b (List.contains_iff_mem.mp hc)
  rw [hds b hb] at this
  exact absurd this (by simp)

/-! ## What is sent -/

/-- The messages whose values begin with `{`, `[` or `"`. -/
def Message.isText : Message → Bool
  | .string _ | .binary _ | .array _ | .object _ => true
  | _ => false

/-- The namespace as the other side has it. -/
def Packet.nspOf (p : Packet) : List LexerChar := if p.nsp = [] then ascii "/" else p.nsp

/-- The namespaces the client can have. -/
def GoodNsp (nsp : List LexerChar) : Prop :=
  nsp = [] ∨ (nsp.head? = some '/'.toUInt8 ∧ ','.toUInt8 ∉ nsp)

/--
A packet with a frame of a message that the other side can read back: a namespace that has no
comma, a number only with a message, a message whose text can be told from a namespace, which
is clear and has only `double`s that are read back, and binaries only in events and acks.
-/
structure MessagePacket (o : Outside) (p : Packet) : Prop where
  frame : p.frame = frameMessage
  type : p.type &&& ~~~typeUndetermined
    ∈ [typeConnect, typeDisconnect, typeEvent, typeAck, typeError]
  nsp : GoodNsp p.nsp
  pack_id : p.pack_id = -1 ∨ (0 ≤ p.pack_id ∧ p.message ≠ .nullptr)
  message : p.message ≠ .nullptr →
    p.message.isText = true ∧ Formed (Rereads o.dtoa o.parseDouble) p.message ∧ Clear p.message
  binaries : p.message.binaries ≠ [] →
    p.type &&& ~~~typeUndetermined ∈ [typeEvent, typeAck] ∧ p.message.binaries.length < 0x80000000

/-- The packet that the other side has in the end. -/
def Packet.delivered (p : Packet) : Packet :=
  if p.frame ≠ frameMessage then { p with nsp := ascii "/" }
  else
    { p.determine (!p.message.binaries.isEmpty) with
      nsp := p.nspOf
      pending_buffers := 0
      buffers := [] }

/-- The packet whose type and number of buffers have been read. -/
def Packet.opened (type : Int32) (pending_buffers : Nat) : Packet :=
  { Packet.empty with frame := frameMessage, type := type, pending_buffers := pending_buffers }

variable {o : Outside}

/-! ## From the number of the packet on -/

theorem readId_idText {p q : Packet} (h : p.pack_id = -1 ∨ 0 ≤ p.pack_id) (hq : q.pack_id = -1)
    (pre post : List LexerChar) :
    q.readId o (pre ++ (p.idText ++ post)) pre.length (pre.length + p.idText.length)
      = some p.pack_id := by
  rw [Packet.readId, substrTo_append, hq]
  rcases h with h | h
  · have hid : p.idText = [] := by
      rw [Packet.idText, h]
      decide
    rw [hid, h]
    simp
  · have hid : p.idText = Json.integerText p.pack_id.toInt := if_pos h
    have hne : Json.integerText p.pack_id.toInt ≠ [] := by
      obtain ⟨c, rest, hcons, _⟩ := begins_integerText p.pack_id.toInt
      simp [hcons]
    have hpos := List.length_pos_iff.mpr hne
    rw [hid, if_pos (by omega), o.castInt_text]

theorem digits_idText (p : Packet) : Digits p.idText := by
  unfold Packet.idText
  split
  · rename_i h
    exact digits_integerText (by rwa [Int32.le_iff_toInt_le] at h)
  · exact fun d hd => absurd hd List.not_mem_nil

theorem drop_idText (p : Packet) (pre json : List LexerChar) :
    (pre ++ (p.idText ++ json)).drop (pre.length + p.idText.length) = json := by
  rw [← List.append_assoc, ← List.length_append, List.drop_left]

/-- Without buffers to come the message is read at once. -/
theorem parseMessage_text {p q : Packet} (hid : p.pack_id = -1 ∨ 0 ≤ p.pack_id)
    (hq : q.pack_id = -1)
    (hbinary : q.isBinary = false) {m : Message} {v : Value} {json : List LexerChar}
    (hread : parseDocument o.parseDouble json = some v) (hm : fromJson [] v = some m)
    (pre : List LexerChar) :
    q.parseMessage o (pre ++ (p.idText ++ json)) pre.length (pre.length + p.idText.length)
      = some (false, { q with pack_id := p.pack_id, message := m }) := by
  rw [Packet.parseMessage, readId_idText hid hq, drop_idText]
  simp [hbinary, hread, hm]

/-- With buffers to come it is kept. -/
theorem parseMessage_kept {p q : Packet} (hid : p.pack_id = -1 ∨ 0 ≤ p.pack_id)
    (hq : q.pack_id = -1)
    (hframe : q.frame = frameMessage) (hbinary : q.isBinary = true) (pre json : List LexerChar) :
    q.parseMessage o (pre ++ (p.idText ++ json)) pre.length (pre.length + p.idText.length)
      = some (true, { q with pack_id := p.pack_id, buffers := q.buffers ++ [json] }) := by
  rw [Packet.parseMessage, readId_idText hid hq, drop_idText]
  simp [hframe, hbinary]

/-! ## From the namespace on -/

/-- What the text of a value begins with. -/
def BeginsText (json : List LexerChar) : Prop :=
  ∃ c rest, json = c :: rest ∧ (c = 0x7B ∨ c = '['.toUInt8 ∨ c = quotationMark)

theorem begins_text {m : Message} {v : Value} {buffers received : List (List LexerChar)}
    (h : acceptMessage buffers m = some (v, received)) (ht : m.isText = true)
    (dtoa : UInt64 → List LexerChar) : BeginsText (write dtoa v) := by
  cases m with
  | string s =>
      rw [acceptMessage] at h
      rw [← (Prod.mk.inj (Option.some.inj h)).1]
      exact ⟨_, _, rfl, Or.inr (Or.inr rfl)⟩
  | binary bytes =>
      rw [acceptMessage] at h
      rw [← (Prod.mk.inj (Option.some.inj h)).1]
      exact ⟨_, _, rfl, Or.inl rfl⟩
  | array ms =>
      rw [acceptMessage] at h
      obtain ⟨vs, _, h⟩ := Option.bind_eq_some_iff.mp h
      rw [← (Prod.mk.inj (Option.some.inj h)).1]
      exact ⟨_, _, rfl, Or.inr (Or.inl rfl)⟩
  | object ms =>
      rw [acceptMessage] at h
      obtain ⟨vs, _, h⟩ := Option.bind_eq_some_iff.mp h
      rw [← (Prod.mk.inj (Option.some.inj h)).1]
      exact ⟨_, _, rfl, Or.inl rfl⟩
  | nullptr | null | boolean | integer | double => exact absurd ht (by simp [Message.isText])

theorem digits_skip (p : Packet) {cs : List LexerChar} (hcs : cs.all (!isDigit ·) = true) :
    ∀ b ∈ p.idText, cs.contains b = false :=
  digits_contains (digits_idText p) hcs

theorem GoodNsp.cases {nsp : List LexerChar} (h : GoodNsp nsp) :
    (nsp = [] ∨ nsp = ascii "/")
      ∨ ((nsp ≠ [] ∧ nsp ≠ ascii "/") ∧ (∃ rest, nsp = '/'.toUInt8 :: rest)
        ∧ ','.toUInt8 ∉ nsp) := by
  rcases h with h | ⟨hhead, hcomma⟩
  · exact Or.inl (Or.inl h)
  · cases nsp with
    | nil => exact Or.inl (Or.inl rfl)
    | cons c rest =>
        obtain rfl : c = '/'.toUInt8 := Option.some.inj hhead
        by_cases hroot : '/'.toUInt8 :: rest = ascii "/"
        · exact Or.inl (Or.inr hroot)
        · exact Or.inr ⟨⟨by simp, hroot⟩, ⟨rest, rfl⟩, hcomma⟩

/-- In front of a message: `parse` gets to its number, with the namespace. -/
theorem parseNsp_message {p : Packet} (q : Packet) {pre json : List LexerChar}
    (hpre : ','.toUInt8 ∉ pre) (hnsp : GoodNsp p.nsp) (hjson : BeginsText json) :
    ∃ before, pre ++ (p.nspText true ++ (p.idText ++ json)) = before ++ (p.idText ++ json)
      ∧ q.parseNsp o (pre ++ (p.nspText true ++ (p.idText ++ json))) pre.length
        = { q with nsp := p.nspOf }.parseMessage o (before ++ (p.idText ++ json)) before.length
            (before.length + p.idText.length) := by
  obtain ⟨c, rest, rfl, hc⟩ := hjson
  rcases hnsp.cases with hroot | ⟨hne, ⟨path, hpath⟩, hcomma⟩
  · -- no namespace in the text: the first of the four is that of the message
    have htext : p.nspText true = [] := if_neg (by tauto)
    have hof : p.nspOf = ascii "/" := by
      rcases hroot with h | h
      · exact if_pos h
      · rw [Packet.nspOf, h]
        rfl
    have hfind : findFirstOf (0x7B :: ascii "[\"/") (pre ++ (p.idText ++ c :: rest)) pre.length
        = some (pre.length + p.idText.length) :=
      findFirstOf_append pre p.idText rest (digits_skip p (by decide))
        (by rcases hc with rfl | rfl | rfl <;> decide)
    have hchar : charAt (pre ++ (p.idText ++ c :: rest)) (pre.length + p.idText.length)
        ≠ '/'.toUInt8 := by
      rw [← List.append_assoc, ← List.length_append, charAt_append]
      rcases hc with rfl | rfl | rfl <;> decide
    refine ⟨pre, by rw [htext, List.nil_append], ?_⟩
    rw [htext, List.nil_append, Packet.parseNsp, hfind]
    dsimp only
    rw [if_neg hchar, hof]
  · -- the namespace, up to the first comma
    have htext : p.nspText true = p.nsp ++ ascii "," := by
      rw [Packet.nspText, if_pos hne, if_pos (Or.inl rfl)]
    have hof : p.nspOf = p.nsp := if_neg hne.1
    let before := pre ++ p.nsp ++ ascii ","
    let json := c :: rest
    have htake : pre ++ (p.nsp ++ ascii "," ++ (p.idText ++ json))
        = pre ++ (p.nsp ++ ','.toUInt8 :: (p.idText ++ json)) := by
      simp [ascii]
    have hafter : pre ++ (p.nsp ++ ascii "," ++ (p.idText ++ json))
        = before ++ (p.idText ++ json) := by
      simp [before]
    have hlen : pre.length + p.nsp.length + 1 = before.length := by
      simp [before, ascii, Nat.add_assoc]
    have hslash : findFirstOf (0x7B :: ascii "[\"/") (before ++ (p.idText ++ json)) pre.length
        = some pre.length := by
      rw [← hafter, hpath]
      exact findFirstOf_append pre [] _ (by simp) (by decide)
    have hchar : charAt (before ++ (p.idText ++ json)) pre.length = '/'.toUInt8 := by
      rw [← hafter, hpath]
      exact charAt_append ..
    have hcommas : findFirstOf (ascii ",") (before ++ (p.idText ++ json)) 0
        = some (pre.length + p.nsp.length) := by
      have hno : ∀ b ∈ pre ++ p.nsp, (ascii ",").contains b = false := by
        intro b hb
        refine Bool.eq_false_iff.mpr fun hmem => ?_
        obtain rfl : b = ','.toUInt8 := List.mem_singleton.mp (List.contains_iff_mem.mp hmem)
        exact (List.mem_append.mp hb).elim hpre hcomma
      have := findFirstOf_append [] (pre ++ p.nsp) (p.idText ++ json) hno
        (show (ascii ",").contains ','.toUInt8 = true by decide)
      rw [← hafter, htake]
      simpa using this
    have hname : substrTo (before ++ (p.idText ++ json)) pre.length
        (some (pre.length + p.nsp.length))
        = p.nsp := by
      rw [← hafter, htake]
      exact substrTo_append ..
    have hfind : findFirstOf (ascii "\"[" ++ [0x7B]) (before ++ (p.idText ++ json)) before.length
        = some (before.length + p.idText.length) :=
      findFirstOf_append before p.idText rest (digits_skip p (by decide))
        (by rcases hc with rfl | rfl | rfl <;> decide)
    refine ⟨before, by rw [htext, ← hafter], ?_⟩
    rw [htext, show pre ++ (p.nsp ++ ascii "," ++ (p.idText ++ c :: rest))
      = before ++ (p.idText ++ json) from hafter, Packet.parseNsp, hslash]
    dsimp only
    rw [if_pos hchar, hcommas]
    dsimp only
    rw [hname, hlen, hfind, hof]

/-- Without a message the text ends with the namespace. -/
theorem parseNsp_end {p : Packet} (q : Packet) {pre : List LexerChar} (hpre : ','.toUInt8 ∉ pre)
    (hnsp : GoodNsp p.nsp) (hid : p.pack_id = -1) :
    q.parseNsp o (pre ++ (p.nspText false ++ p.idText)) pre.length
      = some (false, { q with nsp := p.nspOf }) := by
  have hno : p.idText = [] := by
    rw [Packet.idText, hid]
    decide
  rw [hno, List.append_nil]
  rcases hnsp.cases with hroot | ⟨hne, ⟨path, hpath⟩, hcomma⟩
  · have htext : p.nspText false = [] := if_neg (by tauto)
    have hof : p.nspOf = ascii "/" := by
      rcases hroot with h | h
      · exact if_pos h
      · rw [Packet.nspOf, h]
        rfl
    rw [htext, Packet.parseNsp, findFirstOf_none pre (by simp), hof]
  · have htext : p.nspText false = p.nsp := by
      rw [Packet.nspText, if_pos hne, if_neg (by rw [hid]; decide), List.append_nil]
    have hof : p.nspOf = p.nsp := if_neg hne.1
    have hslash :
        findFirstOf (0x7B :: ascii "[\"/") (pre ++ p.nsp) pre.length = some pre.length := by
      rw [hpath]
      exact findFirstOf_append pre [] _ (by simp) (by decide)
    have hchar : charAt (pre ++ p.nsp) pre.length = '/'.toUInt8 := by
      rw [hpath]
      exact charAt_append ..
    have hcommas : findFirstOf (ascii ",") (pre ++ p.nsp) 0 = none := by
      refine findFirstOf_none [] fun b hb => Bool.eq_false_iff.mpr fun hmem => ?_
      obtain rfl : b = ','.toUInt8 := List.mem_singleton.mp (List.contains_iff_mem.mp hmem)
      exact (List.mem_append.mp hb).elim hpre hcomma
    rw [htext, Packet.parseNsp, hslash]
    dsimp only
    rw [if_pos hchar, hcommas]
    dsimp only
    rw [List.drop_left, hof]

/-! ## The type and the number of buffers -/

/-- The types that are sent. -/
def sentTypes : List Int32 :=
  [typeConnect, typeDisconnect, typeEvent, typeAck, typeError, typeBinaryEvent, typeBinaryAck]

/-- The first two characters. -/
def typeText (t : Int32) : List LexerChar := '4'.toUInt8 :: Json.integerText t.toInt

theorem typeText_eq {t : Int32} (h : t ∈ sentTypes) :
    ∃ d, typeText t = ['4'.toUInt8, d] ∧ isDigit d = true ∧ Packet.digitOf d = t
      ∧ ¬(t < typeMin ∨ typeMax < t) := by
  simp only [sentTypes, List.mem_cons, List.not_mem_nil, or_false] at h
  rcases h with rfl | rfl | rfl | rfl | rfl | rfl | rfl
  · exact ⟨'0'.toUInt8, by decide, by decide, by decide, by decide⟩
  · exact ⟨'1'.toUInt8, by decide, by decide, by decide, by decide⟩
  · exact ⟨'2'.toUInt8, by decide, by decide, by decide, by decide⟩
  · exact ⟨'3'.toUInt8, by decide, by decide, by decide, by decide⟩
  · exact ⟨'4'.toUInt8, by decide, by decide, by decide, by decide⟩
  · exact ⟨'5'.toUInt8, by decide, by decide, by decide, by decide⟩
  · exact ⟨'6'.toUInt8, by decide, by decide, by decide, by decide⟩

theorem comma_typeText {t : Int32} (h : t ∈ sentTypes) : ','.toUInt8 ∉ typeText t := by
  obtain ⟨d, htext, hdigit, -⟩ := typeText_eq h
  rw [htext]
  intro hmem
  rcases List.mem_pair.mp hmem with hmem | hmem
  · exact absurd hmem (by decide)
  · rw [← hmem] at hdigit
    exact absurd hdigit (by decide)

theorem determine_type {p : Packet} {hasBinary : Bool}
    (h : p.type &&& ~~~typeUndetermined
      ∈ [typeConnect, typeDisconnect, typeEvent, typeAck, typeError])
    (hb : hasBinary = true → p.type &&& ~~~typeUndetermined ∈ [typeEvent, typeAck]) :
    (p.determine hasBinary).type ∈ sentTypes ∧ (p.determine hasBinary).isBinary = hasBinary := by
  rw [Packet.isBinary, Packet.determine]
  dsimp only
  generalize p.type &&& ~~~typeUndetermined = type at h hb
  simp only [List.mem_cons, List.not_mem_nil, or_false] at h
  rcases h with rfl | rfl | rfl | rfl | rfl <;> cases hasBinary
  all_goals first | decide | exact absurd (hb rfl) (by decide)

theorem parse_plain {t : Int32} (ht : t ∈ sentTypes)
    (hbinary : (Packet.opened t 0).isBinary = false)
    (rest : List LexerChar) :
    Packet.empty.parse o (typeText t ++ rest)
      = (Packet.opened t 0).parseNsp o (typeText t ++ rest) (typeText t).length := by
  obtain ⟨d, htext, _, hd, hrange⟩ := typeText_eq ht
  rw [htext]
  have hframe : Packet.digitOf (charAt (['4'.toUInt8, d] ++ rest) 0) = frameMessage := rfl
  have htype : Packet.digitOf (charAt (['4'.toUInt8, d] ++ rest) 1) = t := hd
  unfold Packet.parse
  dsimp only
  rw [hframe, if_pos rfl, htype, if_neg hrange]
  exact if_neg (Bool.eq_false_iff.mp hbinary)

theorem parse_counted {t : Int32} (ht : t ∈ sentTypes) {k : Nat} (hk : 0 < k)
    (hmax : k < 0x80000000)
    (hbinary : (Packet.opened t 0).isBinary = true) (rest : List LexerChar) :
    Packet.empty.parse o (typeText t ++ Packet.countText k ++ rest)
      = (Packet.opened t k).parseNsp o (typeText t ++ Packet.countText k ++ rest)
          (typeText t ++ Packet.countText k).length := by
  obtain ⟨d, htext, hdigit, hd, hrange⟩ := typeText_eq ht
  have hcount : Packet.countText k = Json.integerText k ++ ascii "-" := if_pos hk
  have hdigits : Digits (Json.integerText k) := digits_integerText (Int.natCast_nonneg k)
  have hscore : findFirstOf (ascii "-") (typeText t ++ Packet.countText k ++ rest) 0
      = some (2 + (Json.integerText k).length) := by
    have hno : ∀ b ∈ ['4'.toUInt8, d] ++ Json.integerText k, (ascii "-").contains b = false := by
      refine digits_contains (fun b hb => ?_) (by decide)
      rcases List.mem_append.mp hb with hb | hb
      · rcases List.mem_pair.mp hb with rfl | rfl
        · decide
        · exact hdigit
      · exact hdigits b hb
    have := findFirstOf_append [] (['4'.toUInt8, d] ++ Json.integerText k) rest hno
      (show (ascii "-").contains '-'.toUInt8 = true by decide)
    rw [htext, hcount, List.append_assoc, List.append_assoc, ← List.append_assoc]
    rw [List.length_append, List.nil_append, List.length_nil, Nat.zero_add] at this
    exact this
  have hsub : substrTo (typeText t ++ Packet.countText k ++ rest) 2
      (some (2 + (Json.integerText k).length))
      = Json.integerText k := by
    rw [htext, hcount, List.append_assoc, List.append_assoc]
    exact substrTo_append ['4'.toUInt8, d] _ _
  have hnat : (UInt32.ofNat k).toNat = k :=
    UInt32.toNat_ofNat_of_lt' (Nat.lt_trans hmax (by decide))
  have hcast : o.castUnsigned (Json.integerText k) = some (UInt32.ofNat k) := by
    have := o.castUnsigned_text (UInt32.ofNat k)
    rwa [hnat] at this
  have hlen : 2 + (Json.integerText k).length + 1 = (typeText t ++ Packet.countText k).length := by
    rw [htext, hcount]
    simp [ascii]
    omega
  have hframe : Packet.digitOf (charAt (typeText t ++ Packet.countText k ++ rest) 0)
      = frameMessage := by
    rw [htext]
    rfl
  have htype : Packet.digitOf (charAt (typeText t ++ Packet.countText k ++ rest) 1) = t := by
    rw [htext]
    exact hd
  unfold Packet.parse
  dsimp only
  rw [hframe, if_pos rfl, htype, if_neg hrange]
  refine (if_pos hbinary).trans ?_
  rw [hscore, hsub, hcast]
  show Packet.parseNsp o _ _ (2 + (Json.integerText k).length + 1) = _
  rw [hlen, hnat]
  rfl

/-! ## What is sent arrives -/

/-- A frame that is no message has a text of one character. -/
theorem parse_frame {frame : Int32} (h : frame ∈ [0, 1, 2, 3, 5, 6]) :
    ∃ c, (Packet.ofFrame frame).accept o = some ([c], [], Packet.ofFrame frame)
      ∧ isTextMessage [c] = false ∧ isBinaryMessage [c] = false
      ∧ Packet.empty.parse o [c] = some (false, (Packet.ofFrame frame).delivered) := by
  simp only [List.mem_cons, List.not_mem_nil, or_false] at h
  rcases h with rfl | rfl | rfl | rfl | rfl | rfl
  · exact ⟨'0'.toUInt8, rfl, rfl, rfl, rfl⟩
  · exact ⟨'1'.toUInt8, rfl, rfl, rfl, rfl⟩
  · exact ⟨'2'.toUInt8, rfl, rfl, rfl, rfl⟩
  · exact ⟨'3'.toUInt8, rfl, rfl, rfl, rfl⟩
  · exact ⟨'5'.toUInt8, rfl, rfl, rfl, rfl⟩
  · exact ⟨'6'.toUInt8, rfl, rfl, rfl, rfl⟩

/-- The packet while it waits, with what it keeps of its message and its buffers. -/
def Packet.waitingFor (p : Packet) (json : List LexerChar) (got : List (List LexerChar)) : Packet :=
  { p.delivered with
    message := .nullptr
    pending_buffers := p.message.binaries.length - got.length
    buffers := json :: got }

namespace MessagePacket

variable {p : Packet}

theorem delivered_eq (h : MessagePacket o p) :
    p.delivered
      = { Packet.opened (p.determine (!p.message.binaries.isEmpty)).type 0 with
          nsp := p.nspOf, pack_id := p.pack_id, message := p.message } := by
  rw [Packet.delivered, if_neg (not_not.mpr h.frame)]
  simp [Packet.determine, Packet.opened, Packet.empty, Packet.ofFrame, h.frame]

theorem sent (h : MessagePacket o p) :
    (p.determine (!p.message.binaries.isEmpty)).type ∈ sentTypes
      ∧ (p.determine (!p.message.binaries.isEmpty)).isBinary = !p.message.binaries.isEmpty :=
  determine_type h.type fun hb => (h.binaries (by simpa using hb)).1

theorem countable (h : MessagePacket o p) : p.message.binaries.length < 0x80000000 := by
  by_cases hb : p.message.binaries = []
  · rw [hb]
    decide
  · exact (h.binaries hb).2

theorem pack_id_cases (h : MessagePacket o p) : p.pack_id = -1 ∨ 0 ≤ p.pack_id :=
  h.pack_id.imp_right And.left

/-- The text of a message, and what is read of it. -/
theorem accept_message (h : MessagePacket o p) (hm : p.message ≠ .nullptr) :
    ∃ json v q, p.accept o = some
        ('4'.toUInt8 ::
            (p.determine (!p.message.binaries.isEmpty)).header true p.message.binaries.length
          ++ json, framed p.message.binaries, q)
      ∧ BeginsText json ∧ parseDocument o.parseDouble json = some v
      ∧ fromJson p.message.binaries v = some p.message := by
  obtain ⟨htext, hformed, hclear⟩ := h.message hm
  obtain ⟨v, hv⟩ := sent_of_formed hformed []
  have haccept : acceptMessage [] p.message = some (v, framed p.message.binaries) := hv.accepted
  have harrives : fromJson p.message.binaries v = some p.message :=
    (hv.arrives p.message.binaries ⟨List.prefix_rfl, h.countable⟩).mpr hclear
  have hlen : (framed p.message.binaries).length = p.message.binaries.length := List.length_map _
  have hempty : (framed p.message.binaries).isEmpty = p.message.binaries.isEmpty := by
    cases p.message.binaries <;> rfl
  refine ⟨write o.dtoa v, v, p.determine (!p.message.binaries.isEmpty), ?_,
    begins_text haccept htext _, hv.read, harrives⟩
  unfold Packet.accept
  dsimp only
  rw [if_neg (not_not.mpr h.frame)]
  split
  · rename_i hnull
    exact absurd hnull hm
  · rw [haccept]
    show some _ = _
    rw [hempty, hlen, h.frame]
    rfl

/-- A packet without a message has a text that ends with its namespace. -/
theorem accept_none (h : MessagePacket o p) (hm : p.message = .nullptr) :
    p.accept o
      = some ('4'.toUInt8 :: (p.determine false).header false 0, [], p.determine false) := by
  unfold Packet.accept
  dsimp only
  rw [if_neg (not_not.mpr h.frame), hm, h.frame]
  rfl

/-- Without binaries the packet is read at once. -/
theorem parse_accept (h : MessagePacket o p) (hb : p.message.binaries = []) :
    ∃ text q, p.accept o = some (text, [], q) ∧ isTextMessage text = true
      ∧ Packet.empty.parse o text = some (false, p.delivered) := by
  have hsent := h.sent
  have hdelivered := h.delivered_eq
  have hbinary : (!p.message.binaries.isEmpty) = false := by rw [hb]; rfl
  rw [hbinary] at hsent hdelivered
  have hcomma := comma_typeText hsent.1
  by_cases hm : p.message = .nullptr
  · have hid : p.pack_id = -1 := h.pack_id.resolve_right fun hid => hid.2 hm
    have htext : '4'.toUInt8 :: (p.determine false).header false 0
        = typeText (p.determine false).type ++ (p.nspText false ++ p.idText) := by
      simp [Packet.header, typeText, Packet.countText, Packet.nspText, Packet.idText,
        Packet.determine]
    refine ⟨_, _, h.accept_none hm, rfl, ?_⟩
    rw [htext, parse_plain hsent.1 hsent.2, parseNsp_end _ hcomma h.nsp hid, hdelivered, hid, hm]
    rfl
  · obtain ⟨json, v, q, haccept, hbegins, hread, hfrom⟩ := h.accept_message hm
    rw [hbinary, hb] at haccept
    rw [hb] at hfrom
    have htext : '4'.toUInt8 :: (p.determine false).header true 0 ++ json
        = typeText (p.determine false).type ++ (p.nspText true ++ (p.idText ++ json)) := by
      simp [Packet.header, typeText, Packet.countText, Packet.nspText, Packet.idText,
        Packet.determine]
    refine ⟨_, q, haccept, rfl, ?_⟩
    obtain ⟨before, hbefore, hnsp⟩ :=
      parseNsp_message (o := o) (Packet.opened (p.determine false).type 0)
      hcomma h.nsp hbegins
    show Packet.empty.parse o ('4'.toUInt8 :: (p.determine false).header true 0 ++ json) = _
    rw [htext, parse_plain hsent.1 hsent.2, hnsp, hdelivered]
    exact parseMessage_text (q := { Packet.opened (p.determine false).type 0 with nsp := p.nspOf })
      h.pack_id_cases rfl hsent.2 hread hfrom before

/-- With binaries the packet waits for them. -/
theorem parse_accept_binary (h : MessagePacket o p) (hb : p.message.binaries ≠ []) :
    ∃ text json v q, p.accept o = some (text, framed p.message.binaries, q)
      ∧ isTextMessage text = true
      ∧ Packet.empty.parse o text = some (true, p.waitingFor json [])
      ∧ parseDocument o.parseDouble json = some v
      ∧ fromJson p.message.binaries v = some p.message := by
  have hm : p.message ≠ .nullptr := by
    intro hm
    rw [hm] at hb
    exact hb rfl
  have hcount : 0 < p.message.binaries.length := List.length_pos_iff.mpr hb
  have hsent := h.sent
  have hdelivered := h.delivered_eq
  obtain ⟨json, v, q, haccept, hbegins, hread, hfrom⟩ := h.accept_message hm
  have hbinary : (!p.message.binaries.isEmpty) = true := by simpa using hb
  rw [hbinary] at hsent hdelivered haccept
  let pre := typeText (p.determine true).type ++ Packet.countText p.message.binaries.length
  have hcomma : ','.toUInt8 ∉ pre := by
    intro hmem
    rcases List.mem_append.mp hmem with hmem | hmem
    · exact comma_typeText hsent.1 hmem
    · rw [Packet.countText, if_pos hcount] at hmem
      rcases List.mem_append.mp hmem with hmem | hmem
      · exact absurd (digits_integerText (Int.natCast_nonneg _) _ hmem) (by decide)
      · exact absurd hmem (by decide)
  have htext : '4'.toUInt8 :: (p.determine true).header true p.message.binaries.length ++ json
      = pre ++ (p.nspText true ++ (p.idText ++ json)) := by
    simp [pre, Packet.header, typeText, Packet.nspText, Packet.idText, Packet.determine]
  refine ⟨_, json, v, q, haccept, rfl, ?_, hread, hfrom⟩
  obtain ⟨before, hbefore, hnsp⟩ := parseNsp_message (o := o)
    (Packet.opened (p.determine true).type p.message.binaries.length) hcomma h.nsp hbegins
  show Packet.empty.parse o
      ('4'.toUInt8 :: (p.determine true).header true p.message.binaries.length ++ json) = _
  rw [htext, parse_counted hsent.1 hcount h.countable hsent.2, hnsp, Packet.waitingFor, hdelivered]
  exact parseMessage_kept
    (q := { Packet.opened (p.determine true).type p.message.binaries.length with nsp := p.nspOf })
    h.pack_id_cases rfl rfl hsent.2 before json

end MessagePacket

/-! ## The buffers -/

theorem parseBuffer_pushed {q q' : Packet} {buffer : List LexerChar} (hpos : 0 < q.pending_buffers)
    (hq : q' = { q with
      buffers := q.buffers ++ [buffer.drop 1]
      pending_buffers := q.pending_buffers - 1 })
    (hne : q'.pending_buffers ≠ 0) : q.parseBuffer o buffer = some (true, q') := by
  subst hq
  unfold Packet.parseBuffer
  rw [if_pos hpos]
  exact if_neg hne

theorem parseBuffer_put {q q' : Packet} {buffer : List LexerChar} {v : Value} {m : Message}
    (hpos : 0 < q.pending_buffers)
    (hq : q' = { q with
      buffers := q.buffers ++ [buffer.drop 1]
      pending_buffers := q.pending_buffers - 1 })
    (hzero : q'.pending_buffers = 0)
    (hread : parseDocument o.parseDouble (q'.buffers.headD []) = some v)
    (hfrom : fromJson (q'.buffers.drop 1) v = some m) :
    q.parseBuffer o buffer = some (false, { q' with message := m, buffers := [] }) := by
  subst hq
  unfold Packet.parseBuffer
  rw [if_pos hpos]
  refine (if_pos hzero).trans ?_
  rw [hread]
  show (fromJson _ v).bind _ = _
  rw [hfrom]
  rfl

theorem waitingFor_next (p : Packet) (json : List LexerChar) (got : List (List LexerChar))
    (b : List LexerChar) :
    p.waitingFor json (got ++ [b]) = { p.waitingFor json got with
      buffers := (p.waitingFor json got).buffers ++ [(frameChar :: b).drop 1]
      pending_buffers := (p.waitingFor json got).pending_buffers - 1 } := by
  simp [Packet.waitingFor, Nat.sub_sub]

theorem waitingFor_pending {p : Packet} (json : List LexerChar) {got rest : List (List LexerChar)}
    (h : p.message.binaries = got ++ rest) :
    (p.waitingFor json got).pending_buffers = rest.length := by
  show p.message.binaries.length - got.length = _
  rw [h, List.length_append, Nat.add_sub_cancel_left]

/-- A buffer that is not the last one is kept. -/
theorem parseBuffer_more {p : Packet} (json : List LexerChar) {got rest : List (List LexerChar)}
    {b : List LexerChar} (h : p.message.binaries = got ++ b :: rest) (hrest : rest ≠ []) :
    (p.waitingFor json got).parseBuffer o (frameChar :: b)
      = some (true, p.waitingFor json (got ++ [b])) := by
  have hleft : p.message.binaries = (got ++ [b]) ++ rest := by simp [h]
  refine parseBuffer_pushed ?_ (waitingFor_next p json got b) ?_
  · rw [waitingFor_pending json h]
    exact Nat.succ_pos _
  · rw [waitingFor_pending json hleft]
    exact fun hzero => hrest (List.length_eq_zero_iff.mp hzero)

/-- With the last one the message is put together. -/
theorem parseBuffer_last {p : Packet} {json : List LexerChar} {got : List (List LexerChar)}
    {b : List LexerChar} {v : Value} (hp : MessagePacket o p) (h : p.message.binaries = got ++ [b])
    (hread : parseDocument o.parseDouble json = some v)
    (hfrom : fromJson p.message.binaries v = some p.message) :
    (p.waitingFor json got).parseBuffer o (frameChar :: b) = some (false, p.delivered) := by
  have hall : (p.waitingFor json (got ++ [b])).buffers.drop 1 = p.message.binaries := h.symm
  have hpending :=
    waitingFor_pending json (show p.message.binaries = (got ++ [b]) ++ [] by simp [h])
  rw [parseBuffer_put (by rw [waitingFor_pending json h]; exact Nat.one_pos)
    (waitingFor_next p json got b)
    hpending hread (by rw [hall]; exact hfrom), Packet.waitingFor, hp.delivered_eq]
  simp [Packet.opened, Packet.empty, Packet.ofFrame, h]

end HandlingModule.Sio
