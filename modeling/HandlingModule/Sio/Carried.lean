import HandlingModule.Rapidjson.RoundTrip
import HandlingModule.Sio.Message

/-!
# Messages that arrive as they were sent

`accept_message` numbers the buffers in the order in which it comes to them, and
`from_json` takes them by these numbers, so that a message is the same again however
deep in it its binary parts are.

What spoils it is an object with a key `_placeholder`: unless `false` is behind the key,
it is taken for a binary, or an assertion of the reader fails. A message arrives as it
was sent exactly when there is no such object in it (`fromJson_acceptMessage`).
-/

namespace HandlingModule.Sio

open HandlingModule.AIO HandlingModule.AIO.Lexer HandlingModule.Rapidjson

/-- A message as it is held: maps in order, no null pointer inside, the `double`s in `P`. -/
inductive Formed (P : UInt64 → Prop) : Message → Prop where
  | null : Formed P .null
  | boolean {b : Bool} : Formed P (.boolean b)
  | integer {n : Int64} : Formed P (.integer n)
  | double {bits : UInt64} : P bits → Formed P (.double bits)
  | string {s : String} : Bytes s → Formed P (.string s)
  | binary {bytes : List LexerChar} : Formed P (.binary bytes)
  | array {ms : List Message} : (∀ m ∈ ms, Formed P m) → Formed P (.array ms)
  | object {ms : List (String × Message)} :
      Ordered ms → (∀ m ∈ ms, Bytes m.1) → (∀ m ∈ ms, Formed P m.2) → Formed P (.object ms)

/-- No object that would be taken for a placeholder. -/
def NoPlaceHolder (members : List (String × Message)) : Prop :=
  members.lookup binPlaceHolder = none ∨ members.lookup binPlaceHolder = some (.boolean false)

/-- No such object anywhere in a message. -/
inductive Clear : Message → Prop where
  | null : Clear .null
  | boolean {b : Bool} : Clear (.boolean b)
  | integer {n : Int64} : Clear (.integer n)
  | double {bits : UInt64} : Clear (.double bits)
  | string {s : String} : Clear (.string s)
  | binary {bytes : List LexerChar} : Clear (.binary bytes)
  | array {ms : List Message} : (∀ m ∈ ms, Clear m) → Clear (.array ms)
  | object {ms : List (String × Message)} :
      NoPlaceHolder ms → (∀ m ∈ ms, Clear m.2) → Clear (.object ms)

variable {P : UInt64 → Prop}

/-- The buffers of both sides: those sent begin with the frame character. -/
def framed (binaries : List (List LexerChar)) : List (List LexerChar) :=
  binaries.map (frameChar :: ·)

/-- These are the first of what has been received, and there are not too many for an `int`. -/
def Received (binaries received : List (List LexerChar)) : Prop :=
  binaries <+: received ∧ received.length < 0x80000000

theorem Received.left {as bs received : List (List LexerChar)} (h : Received (as ++ bs) received) :
    Received as received :=
  ⟨(List.prefix_append as bs).trans h.1, h.2⟩

/-- What is said of a message and its value, behind binaries that were there before. -/
structure Sent (P : UInt64 → Prop) (before : List (List LexerChar)) (m : Message) (v : Value) :
    Prop where
  accepted : acceptMessage (framed before) m = some (v, framed (before ++ m.binaries))
  exact : Exact P v
  boolean : ∀ b, v = .boolean b ↔ m = .boolean b
  arrives : ∀ received, Received (before ++ m.binaries) received →
    (fromJson received v = some m ↔ Clear m)

/-! ## Placeholders -/

theorem getInt_ofNat (k : Nat) :
    (Value.int64 (Int32.ofNat k).toInt64).getInt = some (Int32.ofNat k) := by
  have hmin : (-0x80000000 : Int64).toInt = -0x80000000 := rfl
  have hmax : (0x7FFFFFFF : Int64).toInt = 0x7FFFFFFF := rfl
  have hle := (Int32.ofNat k).le_toInt
  have hlt := (Int32.ofNat k).toInt_lt
  rw [Value.getInt, if_pos, Int32.toInt32_toInt64]
  rw [Int64.le_iff_toInt_le, Int64.le_iff_toInt_le, Int32.toInt_toInt64, hmin, hmax]
  omega

theorem toInt_ofNat {k : Nat} (h : k < 0x80000000) : (Int32.ofNat k).toInt = k := by
  rw [← Int32.ofInt_eq_ofNat, Int32.toInt_ofInt_of_le (by omega) (by omega)]

theorem exact_placeHolder (num : Nat) : Exact P (placeHolder num) := by
  have hkeys : Bytes binPlaceHolder ∧ Bytes "num" := by decide
  refine .object ?_ ?_
  · intro m hm
    simp only [List.mem_cons, List.not_mem_nil, or_false] at hm
    rcases hm with rfl | rfl
    · exact hkeys.1
    · exact hkeys.2
  · intro m hm
    simp only [List.mem_cons, List.not_mem_nil, or_false] at hm
    rcases hm with rfl | rfl
    · exact .boolean
    · exact .int64

theorem fromJson_placeHolder {received : List (List LexerChar)} {num : Nat}
    {bytes : List LexerChar} (h : received[num]? = some bytes)
    (hmax : received.length < 0x80000000) :
    fromJson received (placeHolder num) = some (.binary bytes) := by
  obtain ⟨hlt, hget⟩ := List.getElem?_eq_some_iff.mp h
  have hnum := toInt_ofNat (show num < 0x80000000 by omega)
  have hlen := toInt_ofNat hmax
  have hrange : (0 : Int32) ≤ Int32.ofNat num ∧ Int32.ofNat num < Int32.ofNat received.length := by
    have hzero : (0 : Int32).toInt = 0 := rfl
    rw [Int32.le_iff_toInt_le, Int32.lt_iff_toInt_lt, hnum, hlen, hzero]
    omega
  have hindex : (Int32.ofNat num).toNatClampNeg = num := by
    rw [Int32.toNatClampNeg, hnum, Int.toNat_natCast]
  have hplace : fromPlaceHolder received
      [(binPlaceHolder, .boolean true), ("num", .int64 (Int32.ofNat num).toInt64)]
      = some (some (.binary bytes)) := by
    have hlookup : List.lookup "num" [(binPlaceHolder, Value.boolean true),
        ("num", .int64 (Int32.ofNat num).toInt64)] = some (.int64 (Int32.ofNat num).toInt64) := rfl
    rw [fromPlaceHolder, hlookup]
    simp [Value.getBool, getInt_ofNat, hrange, hindex, h]
  rw [placeHolder, fromJson, hplace]
  rfl

/-- The placeholder of a binary stands for it. -/
theorem sent_binary (before : List (List LexerChar)) (bytes : List LexerChar) :
    Sent P before (.binary bytes) (placeHolder before.length) where
  accepted := by
    have hlen : (framed before).length = before.length := List.length_map _
    rw [acceptMessage, hlen, framed, framed, List.map_append, Message.binaries]
    rfl
  exact := exact_placeHolder _
  boolean := fun b => ⟨fun h => absurd h (by simp [placeHolder]), fun h => absurd h (by simp)⟩
  arrives := by
    rintro received ⟨⟨rest, rfl⟩, hmax⟩
    exact iff_of_true (fromJson_placeHolder (by simp [Message.binaries]) hmax) .binary

/-! ## Lists of messages -/

theorem fromElements_cons (received : List (List LexerChar)) (v : Value) (vs : List Value)
    (m : Message) (ms : List Message) :
    fromElements received (v :: vs) = some (m :: ms)
      ↔ fromJson received v = some m ∧ fromElements received vs = some ms := by
  rw [fromElements]
  cases fromJson received v with
  | none => simp
  | some m' => cases fromElements received vs <;> simp

/-- What is said of the elements of an array. -/
structure SentElements (P : UInt64 → Prop) (before : List (List LexerChar)) (ms : List Message)
    (vs : List Value) : Prop where
  accepted : acceptElements (framed before) ms = some (vs, framed (before ++ elementBinaries ms))
  exact : ∀ v ∈ vs, Exact P v
  arrive : ∀ received, Received (before ++ elementBinaries ms) received →
    (fromElements received vs = some ms ↔ ∀ m ∈ ms, Clear m)

theorem sent_elements {ms : List Message}
    (h : ∀ m ∈ ms, ∀ before, ∃ v, Sent P before m v) (before : List (List LexerChar)) :
    ∃ vs, SentElements P before ms vs := by
  induction ms generalizing before with
  | nil =>
      refine ⟨[], ⟨?_, fun v hv => absurd hv List.not_mem_nil, fun received _ => ?_⟩⟩
      · rw [elementBinaries, List.append_nil]
        rfl
      · exact iff_of_true rfl fun m hm => absurd hm List.not_mem_nil
  | cons m ms ih =>
      obtain ⟨v, hv⟩ := h m (List.mem_cons_self ..) before
      obtain ⟨vs, hvs⟩ :=
        ih (fun m' hm' => h m' (List.mem_cons_of_mem _ hm')) (before ++ m.binaries)
      refine ⟨v :: vs, ⟨?_, ?_, ?_⟩⟩
      · rw [acceptElements, hv.accepted]
        simp [hvs.accepted, elementBinaries]
      · exact List.forall_mem_cons.mpr ⟨hv.exact, hvs.exact⟩
      · intro received hr
        rw [elementBinaries, ← List.append_assoc] at hr
        rw [fromElements_cons, hv.arrives received hr.left, hvs.arrive received hr,
          List.forall_mem_cons]

/-- The keys are in order, so what is assigned stays. -/
theorem fromMembers_grows {received : List (List LexerChar)} {vs : List (String × Value)}
    {members result : List (String × Message)}
    (hkeys : (members.map Prod.fst ++ vs.map Prod.fst).Pairwise (· < ·))
    (h : fromMembers received members vs = some result) : members <+: result := by
  induction vs generalizing members with
  | nil =>
      rw [fromMembers] at h
      exact Option.some.inj h ▸ List.prefix_rfl
  | cons v vs ih =>
      obtain ⟨key, v⟩ := v
      rw [fromMembers] at h
      obtain ⟨m, _, h⟩ := Option.bind_eq_some_iff.mp h
      have hlast : assign members key m = members ++ [(key, m)] :=
        assign_last m fun p hp =>
          (List.pairwise_append.mp hkeys).2.2 p.1 (List.mem_map_of_mem hp) key
          (List.mem_cons_self ..)
      rw [hlast] at h
      refine (List.prefix_append members _).trans (ih ?_ h)
      simpa using hkeys

theorem fromMembers_cons {received : List (List LexerChar)} {key : String} {v : Value}
    {vs : List (String × Value)} {members ms : List (String × Message)} {m : Message}
    (hkeys : (members.map Prod.fst ++ key :: vs.map Prod.fst).Pairwise (· < ·)) :
    fromMembers received members ((key, v) :: vs) = some (members ++ (key, m) :: ms)
      ↔ fromJson received v = some m
        ∧ fromMembers received (members ++ [(key, m)]) vs = some (members ++ [(key, m)] ++ ms) := by
  have hlast : ∀ m', assign members key m' = members ++ [(key, m')] := fun m' =>
    assign_last m' fun p hp => (List.pairwise_append.mp hkeys).2.2 p.1 (List.mem_map_of_mem hp) key
      (List.mem_cons_self ..)
  have happend : members ++ (key, m) :: ms = members ++ [(key, m)] ++ ms := by simp
  rw [fromMembers, happend]
  cases hv : fromJson received v with
  | none => simp
  | some m' =>
      simp only [Option.bind_eq_bind, Option.bind_some, hlast, Option.some.injEq]
      constructor
      · intro h
        have hgrows := fromMembers_grows (by simpa using hkeys) h
        have hm : m' = m := by
          rw [List.append_assoc, List.prefix_append_right_inj, List.singleton_append,
            List.cons_prefix_cons] at hgrows
          exact (Prod.mk.inj hgrows.1).2
        subst hm
        exact ⟨rfl, h⟩
      · rintro ⟨rfl, h⟩
        exact h

/-- What is said of the members of an object. -/
structure SentMembers (P : UInt64 → Prop) (before : List (List LexerChar))
    (ms : List (String × Message)) (vs : List (String × Value)) : Prop where
  accepted : acceptMembers (framed before) ms = some (vs, framed (before ++ memberBinaries ms))
  exact : ∀ v ∈ vs, Exact P v.2
  keys : vs.map Prod.fst = ms.map Prod.fst
  booleans : ∀ key b, ms.lookup key = some (.boolean b) ↔ vs.lookup key = some (.boolean b)
  arrive : ∀ received, Received (before ++ memberBinaries ms) received →
    ∀ members, Ordered (members ++ ms) →
    (fromMembers received members vs = some (members ++ ms) ↔ ∀ m ∈ ms, Clear m.2)

theorem sent_members {ms : List (String × Message)}
    (h : ∀ m ∈ ms, ∀ before, ∃ v, Sent P before m.2 v) (before : List (List LexerChar)) :
    ∃ vs, SentMembers P before ms vs := by
  induction ms generalizing before with
  | nil =>
      refine ⟨[], ⟨?_, fun v hv => absurd hv List.not_mem_nil, rfl, fun key b => by simp,
        fun received _ members _ => ?_⟩⟩
      · rw [memberBinaries, List.append_nil]
        rfl
      · rw [List.append_nil]
        exact iff_of_true rfl fun m hm => absurd hm List.not_mem_nil
  | cons m ms ih =>
      obtain ⟨key, m⟩ := m
      obtain ⟨v, hv⟩ := h (key, m) (List.mem_cons_self ..) before
      obtain ⟨vs, hvs⟩ :=
        ih (fun m' hm' => h m' (List.mem_cons_of_mem _ hm')) (before ++ m.binaries)
      refine ⟨(key, v) :: vs, ⟨?_, ?_, ?_, ?_, ?_⟩⟩
      · rw [acceptMembers, hv.accepted]
        simp [hvs.accepted, memberBinaries]
      · exact List.forall_mem_cons.mpr ⟨hv.exact, hvs.exact⟩
      · rw [List.map_cons, List.map_cons, hvs.keys]
      · intro k b
        rw [lookup_cons_eq, lookup_cons_eq]
        split
        · rw [Option.some.injEq, Option.some.injEq]
          exact (hv.boolean b).symm
        · exact hvs.booleans k b
      · intro received hr members hordered
        rw [memberBinaries, ← List.append_assoc] at hr
        have hkeys : (members.map Prod.fst ++ key :: vs.map Prod.fst).Pairwise (· < ·) := by
          rw [hvs.keys]
          simpa [Ordered] using hordered
        have hordered' : Ordered (members ++ [(key, m)] ++ ms) := by simpa using hordered
        rw [fromMembers_cons hkeys, hv.arrives received hr.left, hvs.arrive received hr _ hordered',
          List.forall_mem_cons]

/-! ## Objects -/

theorem lookup_eq_none_iff_of_keys {α β : Type} {ms : List (String × α)} {vs : List (String × β)}
    (h : vs.map Prod.fst = ms.map Prod.fst) (key : String) :
    vs.lookup key = none ↔ ms.lookup key = none := by
  have hkeys : ∀ {γ : Type} (ps : List (String × γ)),
      ps.lookup key = none ↔ key ∉ ps.map Prod.fst := by
    intro γ ps
    rw [List.lookup_eq_none_iff]
    constructor
    · intro h hmem
      obtain ⟨p, hp, rfl⟩ := List.mem_map.mp hmem
      exact absurd (h p hp) (by simp)
    · intro h p hp
      exact bne_iff_ne.mpr fun hkey => h (hkey ▸ List.mem_map_of_mem hp)
  rw [hkeys, hkeys, h]

/-- An object is taken for what it is if it has no placeholder. -/
theorem SentMembers.noPlaceHolder_iff {before : List (List LexerChar)}
    {ms : List (String × Message)} {vs : List (String × Value)} (h : SentMembers P before ms vs)
    (received : List (List LexerChar)) :
    fromPlaceHolder received vs = some none ↔ NoPlaceHolder ms := by
  rw [NoPlaceHolder, h.booleans, ← lookup_eq_none_iff_of_keys h.keys, fromPlaceHolder]
  cases vs.lookup binPlaceHolder with
  | none => simp
  | some v =>
      cases v with
      | boolean b =>
          cases b with
          | false => simp [Value.getBool]
          | true =>
              simp only [Value.getBool, Option.bind_eq_bind, Option.bind_some, if_true,
                reduceCtorEq,
                Option.some.injEq, Value.boolean.injEq, or_self, iff_false, Option.bind_eq_some_iff]
              rintro ⟨value, _, num, _, h⟩
              split at h <;> exact absurd h (by simp)
      | null | int64 | uint64 | double | string | array | object => simp [Value.getBool]

theorem fromPlaceHolder_ne {received : List (List LexerChar)} {vs : List (String × Value)}
    {m : Message} (h : fromPlaceHolder received vs = some (some m)) (ms : List (String × Message)) :
    m ≠ .object ms := by
  rintro rfl
  unfold fromPlaceHolder at h
  split at h
  · exact absurd h (by simp)
  · obtain ⟨b, _, h⟩ := Option.bind_eq_some_iff.mp h
    split at h
    · obtain ⟨value, _, h⟩ := Option.bind_eq_some_iff.mp h
      obtain ⟨num, _, h⟩ := Option.bind_eq_some_iff.mp h
      split at h <;> exact absurd h (by simp)
    · exact absurd h (by simp)

theorem fromJson_object (received : List (List LexerChar)) (vs : List (String × Value))
    (ms : List (String × Message)) :
    fromJson received (.object vs) = some (.object ms)
      ↔ fromPlaceHolder received vs = some none ∧ fromMembers received [] vs = some ms := by
  rw [fromJson]
  cases h : fromPlaceHolder received vs with
  | none => simp
  | some m =>
      cases m with
      | none => cases fromMembers received [] vs <;> simp
      | some m => simp [fromPlaceHolder_ne h ms]

/-- **Every message that is formed is sent, and it arrives if it is clear**, behind any binaries. -/
theorem sent_of_formed {m : Message} (h : Formed P m) (before : List (List LexerChar)) :
    ∃ v, Sent P before m v := by
  have hplain : ∀ (bs : List (List LexerChar)) (m' : Message), m'.binaries = [] →
      framed bs = framed (bs ++ m'.binaries) := by
    intro bs m' hm'
    rw [hm', List.append_nil]
  induction h generalizing before with
  | null => exact ⟨.null, by rw [acceptMessage, ← hplain _ _ rfl], .null, by simp,
      fun _ _ => iff_of_true (by rw [fromJson]) .null⟩
  | @boolean b => exact ⟨.boolean b, by rw [acceptMessage, ← hplain _ _ rfl], .boolean, by simp,
      fun _ _ => iff_of_true (by rw [fromJson]) .boolean⟩
  | @integer n => exact ⟨.int64 n, by rw [acceptMessage, ← hplain _ _ rfl], .int64, by simp,
      fun _ _ => iff_of_true (by rw [fromJson]) .integer⟩
  | @double bits hp => exact ⟨.double bits, by rw [acceptMessage, ← hplain _ _ rfl], .double hp,
      by simp, fun _ _ => iff_of_true (by rw [fromJson]) .double⟩
  | @string s hs => exact ⟨.string s, by rw [acceptMessage, ← hplain _ _ rfl], .string hs, by simp,
      fun _ _ => iff_of_true (by rw [fromJson]) .string⟩
  | @binary bytes => exact ⟨_, sent_binary before bytes⟩
  | @array ms _ ih =>
      obtain ⟨vs, hvs⟩ := sent_elements ih before
      refine ⟨.array vs, ?_, .array hvs.exact, by simp, ?_⟩
      · rw [acceptMessage, hvs.accepted, Message.binaries]
        rfl
      · intro received hr
        rw [Message.binaries] at hr
        have harray : fromJson received (.array vs) = some (.array ms)
            ↔ fromElements received vs = some ms := by
          rw [fromJson]
          cases fromElements received vs <;> simp
        rw [harray, hvs.arrive received hr]
        exact ⟨.array, fun h => by cases h with | array hms => exact hms⟩
  | @object ms hmap hkeys _ ih =>
      obtain ⟨vs, hvs⟩ := sent_members ih before
      have hbytes : ∀ v ∈ vs, Bytes v.1 := by
        intro v hv
        have hmem : v.1 ∈ ms.map Prod.fst := hvs.keys ▸ List.mem_map_of_mem hv
        obtain ⟨m, hm, hkey⟩ := List.mem_map.mp hmem
        exact hkey ▸ hkeys m hm
      refine ⟨.object vs, ?_, .object hbytes hvs.exact, by simp, ?_⟩
      · rw [acceptMessage, hvs.accepted, Message.binaries]
        rfl
      · intro received hr
        rw [Message.binaries] at hr
        have harrive := hvs.arrive received hr [] hmap
        rw [List.nil_append] at harrive
        rw [fromJson_object, hvs.noPlaceHolder_iff, harrive]
        exact ⟨fun h => .object h.1 h.2,
          fun h => by cases h with | object hno hms => exact ⟨hno, hms⟩⟩

variable {dtoa : UInt64 → List LexerChar} {parseDouble : Stream → Except Halt (UInt64 × Stream)}

/-- The text of the value is read as the value. -/
theorem Sent.read {before : List (List LexerChar)} {m : Message} {v : Value}
    (h : Sent (Rereads dtoa parseDouble) before m v) :
    parseDocument parseDouble (write dtoa v) = some v := by
  rw [parseDocument, parseRoot_write h.exact]

/--
**A message arrives as it was sent exactly when it is clear.** Any message that is formed,
its `double`s read back from their texts, is accepted; the text of its value is read as the
value; and with the buffers that were sent, as many as an `int` can number, `from_json` makes
the message of it if no object in it would be taken for a placeholder, and anything else, or
nothing, if one would.
-/
theorem fromJson_acceptMessage {m : Message} (h : Formed (Rereads dtoa parseDouble) m) :
    ∃ v, acceptMessage [] m = some (v, framed m.binaries)
      ∧ parseDocument parseDouble (write dtoa v) = some v
      ∧ (m.binaries.length < 0x80000000 → (fromJson m.binaries v = some m ↔ Clear m)) := by
  obtain ⟨v, hv⟩ := sent_of_formed h []
  exact ⟨v, hv.accepted, hv.read, fun hlen => hv.arrives m.binaries ⟨List.prefix_rfl, hlen⟩⟩

/-- A message with a `double`, a binary below it, and an object that is no placeholder. -/
def nestedMessage : Message :=
  .array [.string "grip", .double half,
    .object [("_placeholder", .boolean false), ("image", .binary [7, 0, 9])]]

theorem formed_nestedMessage : Formed (Rereads halfText parseHalf) nestedMessage := by
  refine .array fun m hm => ?_
  simp only [List.mem_cons, List.not_mem_nil, or_false] at hm
  rcases hm with rfl | rfl | rfl
  · exact .string (by decide)
  · exact .double rereads_half
  · have hordered : ["_placeholder", "image"].Pairwise (· < ·) := by decide
    refine .object hordered (by decide) fun m hm => ?_
    simp only [List.mem_cons, List.not_mem_nil, or_false] at hm
    rcases hm with rfl | rfl
    · exact .boolean
    · exact .binary

theorem fromJson_acceptMessage_nested :
    ∃ v, acceptMessage [] nestedMessage = some (v, framed [[7, 0, 9]])
      ∧ parseDocument parseHalf (write halfText v) = some v
      ∧ ([[7, 0, 9]].length < 0x80000000 →
          (fromJson [[7, 0, 9]] v = some nestedMessage ↔ Clear nestedMessage)) :=
  fromJson_acceptMessage formed_nestedMessage

end HandlingModule.Sio
