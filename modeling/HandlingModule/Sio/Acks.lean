import HandlingModule.Sio.Sending

/-!
# Acks

An event may carry a number, and whoever gets it answers with an ack of that number. On
one side a listener is called, and when it returns the ack goes out; on the other side
`emit` keeps the function it was given under the number until the ack comes.

Every event with a number is answered exactly once, in the order in which the events came
(`answered_run`). Every function given to `emit` is called at most once, by an ack of its
own number, and until then it is there for it (`acks_run`). The numbers are counted in 32
bits, and this holds until they come round. The counter is not under any mutex, and it is
asked that no thread reads it between the read and the write of another; two threads that
read the same number lose one of the two functions (`not_kept_two`).
-/

namespace HandlingModule.Sio

open HandlingModule.AIO HandlingModule.AIO.Lexer Transition Replace

variable {α β : Type}

/-- The packets that `ack` makes, and no other. -/
def Packet.isAck (p : Packet) : Bool := p.type == typeAck ||| typeUndetermined

/-- The packets that `emit` makes. -/
def Packet.isEvent (p : Packet) : Bool := p.type == typeEvent ||| typeUndetermined

/-- The number a call has taken and not yet used. -/
def CallPc.number : CallPc → List UInt32
  | .setAck pack_id => [pack_id]
  | _ => []

/-- The number a call has read, and not yet written what comes after it. -/
def CallPc.pending : CallPc → List UInt32
  | .increment pack_id => [pack_id]
  | _ => []

def CallPc.reads : CallPc → Bool
  | .eventId => true
  | _ => false

namespace Socket

/-! ## Every event is answered once -/

/-- The event whose listener has not returned, if it asks for an ack. -/
def answering (s : Socket α β) : List Int32 :=
  match s.network with
  | .listening msgId => if 0 ≤ msgId then [msgId] else []
  | _ => []

/-- The acks made, and the one to be made, are those of the events with numbers. -/
def Answered (s : Socket α β) : Prop :=
  (s.made.filter Packet.isAck).map Packet.pack_id ++ s.answering
    = (s.heard.filter (·.2.need_ack)).map Prod.fst

section

variable {s s' : Socket α β}

theorem isAck_callSends {c : Call α} {p : Packet} (h : CallSends s c p) : p.isAck = false := by
  cases h <;> rfl

/-- A packet that is no ack changes nothing. -/
theorem Answered.makes (h : Answered s) {t : Socket α β} {p : Packet} (hp : p.isAck = false)
    (hmade : t.made = s.made ++ [p]) (hheard : t.heard = s.heard)
    (hanswering : t.answering = s.answering) :
    Answered t := by
  have hnone : [p].filter Packet.isAck = [] := by simp [hp]
  rw [Answered, hmade, hheard, hanswering, List.filter_append, hnone, List.append_nil]
  exact h

/-- The ack that is made is that of the event. -/
theorem Answered.ack {t : Socket α β} {p : Packet} (hp : p.isAck = true)
    (hmade : t.made = s.made ++ [p]) (hanswering : t.answering = [])
    (h : (s.made.filter Packet.isAck).map Packet.pack_id ++ [p.pack_id]
      = (t.heard.filter (·.2.need_ack)).map Prod.fst) : Answered t := by
  have hone : [p].filter Packet.isAck = [p] := by simp [hp]
  rw [Answered, hmade, hanswering, List.append_nil, List.filter_append, hone, List.map_append]
  exact h

theorem heard_append (heard : List (Int32 × Event)) (msgId : Int32) (e : Event) :
    ((heard ++ [(msgId, e)]).filter (·.2.need_ack)).map Prod.fst
      = (heard.filter (·.2.need_ack)).map Prod.fst ++ if e.need_ack then [msgId] else [] := by
  rw [List.filter_append, List.map_append]
  cases hneed : e.need_ack <;> simp [hneed]

theorem answered_step {a : SocketAct α β} (h : Answered s) (hs : Step s a s') : Answered s' := by
  cases hs with
  | same | fault | bind | otherReads | otherWrites | call | moves | eventId | increment | acked
      | unknown => exact h
  | sends c p hc hsends => exact h.makes (isAck_callSends hsends) rfl rfl rfl
  | setAck c pack_id ack hc hpc hack =>
      exact h.makes (p := .ofMessage s.nsp c.message pack_id.toInt32 false) rfl rfl rfl rfl
  | sending c sending hc hpc =>
      rw [send_frame]
      exact h
  | sendConnect hnet hidle =>
      exact h.makes (p := .ofType typeConnect s.nsp .nullptr) rfl rfl rfl rfl
  | leaves hnet hidle hleaves =>
      have hnone : s.answering = [] := by rw [answering, hidle]
      rw [Answered, hnone] at h
      cases hleaves <;> exact h
  | listens msgId e hnet hidle hneed =>
      have hnone : s.answering = [] := by rw [answering, hidle]
      rw [Answered, hnone, List.append_nil] at h
      show _ ++ (if 0 ≤ msgId then [msgId] else []) = ((s.heard ++ [(msgId, e)]).filter _).map _
      rw [heard_append, ← h, hneed]
      by_cases hid : 0 ≤ msgId
      · rw [if_pos hid, if_pos (decide_eq_true hid)]
        rfl
      · rw [if_neg hid, if_neg (by simpa using hid)]
        rfl
  | unheard msgId e hnet hidle hneed =>
      show _ = ((s.heard ++ [(msgId, e)]).filter _).map _
      rw [heard_append, hneed, if_neg Bool.false_ne_true, List.append_nil]
      exact h
  | answers msgId e hnet hidle hneed =>
      have hnone : s.answering = [] := by rw [answering, hidle]
      rw [Answered, hnone, List.append_nil] at h
      refine Answered.ack (s := s) (p := .ofMessage s.nsp (.array []) msgId true) rfl rfl rfl ?_
      show _ = ((s.heard ++ [(msgId, e)]).filter _).map _
      rw [heard_append, hneed, if_pos rfl, ← h]
      rfl
  | @listened ack_message msgId hlistening hid =>
      have hone : s.answering = [msgId] := by
        rw [answering, hlistening]
        exact if_pos hid
      rw [Answered, hone] at h
      exact Answered.ack (s := s) (p := .ofMessage s.nsp (.array ack_message) msgId true)
        rfl rfl rfl h
  | ignored msgId hlistening hid =>
      have hnone : s.answering = [] := by
        rw [answering, hlistening]
        exact if_neg hid
      rw [Answered, hnone] at h
      exact h
  | networkSending sending hsending =>
      have hnone : s.answering = [] := by rw [answering, hsending]
      rw [Answered, hnone] at h
      rw [send_frame]
      show _ ++ answering
          { s with network := ((s.send sending).2.map NetworkPc.sending).getD .idle } = _
      cases (s.send sending).2 <;> exact h
  | closing hclosing =>
      have hnone : s.answering = [] := by rw [answering, hclosing]
      rw [Answered, hnone] at h
      exact h
  | clearing hclearing =>
      have hnone : s.answering = [] := by rw [answering, hclearing]
      rw [Answered, hnone] at h
      exact h

end

/--
**Every event with a number is answered exactly once.** Whatever the threads do in between,
the acks that were made have the numbers of the events that came with one, in the order in
which they came; only that of the event whose listener has not returned is still to come.
-/
theorem answered_run {nsp : List LexerChar} {id : UInt32} {as : List (SocketAct α β)}
    {t : Socket α β} (hr : Run step NoGuard (Socket.new nsp id) as t) :
    (t.made.filter Packet.isAck).map Packet.pack_id ++ t.answering
      = (t.heard.filter (·.2.need_ack)).map Prod.fst :=
  hr.invariant (I := Answered) rfl fun h _ hst => answered_step h (step_cases hst).2

/-- An event with the number 7, and a packet that is emitted while its listener runs. -/
def looking : List (SocketAct Unit Unit) :=
  [.on "look" (),
    .onMessagePacket
      { Packet.ofMessage (ascii "/") (.array [.string "look"]) 7 false with type := typeEvent },
    .emit "busy" [] none, .run 0, .listened [.string "nothing"]]

theorem answered_run_looking :
    ∃ t : Socket Unit Unit, exec step (Socket.new (ascii "/") 1) looking = some t
      ∧ (t.made.length = 2 ∧ t.heard.length = 1)
      ∧ (t.made.filter Packet.isAck).map Packet.pack_id ++ t.answering
        = (t.heard.filter (·.2.need_ack)).map Prod.fst := by
  have hexec : (exec step (Socket.new (ascii "/") 1) looking).any
      (fun t => t.made.length == 2 && t.heard.length == 1) = true := rfl
  obtain ⟨t, ht, hp⟩ := exists_of_exec hexec
  exact ⟨t, ht, by simpa using hp, answered_run (run_of_exec ht)⟩

/-! ## Every function is called once -/

/-- The numbers that were given to functions, or are about to be. -/
def taken (s : Socket α β) : List UInt32 :=
  s.registered.map Prod.fst ++ s.calls.flatMap (·.pc.number)

/-- The numbers that were read by threads that have not written yet. -/
def pending (s : Socket α β) : List UInt32 := s.calls.flatMap (·.pc.pending) ++ s.others

/-- No thread reads a number between the read and the write of another. -/
def takesAlone (s : Socket α β) : SocketAct α β → Bool
  | .run i => !s.calls[i]?.any (·.pc.reads) || s.pending.isEmpty
  | .otherReads => s.pending.isEmpty
  | _ => true

structure Registered (start : UInt32) (s : Socket α β) : Prop where
  next : s.global_event_id = start + UInt32.ofNat s.ids
  pending : s.pending = [] ∨ s.pending = [s.global_event_id]
  counted : ∀ n ∈ s.taken, ∃ k, k < s.ids ∧ n = start + UInt32.ofNat k
  nodup : s.taken.Nodup
  kept : s.registered.Perm (s.acks ++ s.called.map fun e => (e.1, e.2.1))
  acked : ∀ e ∈ s.called, ∃ msgId, msgId.toUInt32 = e.1 ∧ (msgId, e.2.2) ∈ s.acked
  made : ∀ p ∈ s.made, p.isEvent = true →
    p.pack_id = -1 ∨ p.pack_id.toUInt32 ∈ s.registered.map Prod.fst

section

variable {γ : Type}

theorem filter_absent {l : List (UInt32 × γ)} {k : UInt32} (h : k ∉ l.map Prod.fst) :
    l.filter (·.1 != k) = l := by
  refine List.filter_eq_self.mpr fun p hp => ?_
  rw [bne_iff_ne]
  rintro rfl
  exact h (List.mem_map_of_mem hp)

/-- What is found under a key is taken out with it. -/
theorem perm_lookup {l : List (UInt32 × γ)} {k : UInt32} {v : γ} (h : (l.map Prod.fst).Nodup)
    (hl : l.lookup k = some v) : l.Perm ((k, v) :: l.filter (·.1 != k)) := by
  induction l with
  | nil => exact absurd hl (by simp)
  | cons p l ih =>
      obtain ⟨k', v'⟩ := p
      obtain ⟨hnot, hnodup⟩ := List.nodup_cons.mp h
      rw [List.lookup_cons] at hl
      by_cases hk : k = k'
      · subst hk
        rw [beq_self_eq_true] at hl
        obtain rfl : v' = v := Option.some.inj hl
        rw [List.filter_cons, if_neg (by simp), filter_absent hnot]
      · rw [beq_false_of_ne hk] at hl
        rw [List.filter_cons, if_pos (bne_iff_ne.mpr (Ne.symm hk))]
        exact ((ih hnodup hl).cons _).trans (List.Perm.swap ..)

end

section

variable {s s' : Socket α β} {start : UInt32}

/-- The keys of the acks that wait are those of functions that were registered. -/
theorem Registered.keys (h : Registered start s) : (s.acks.map Prod.fst).Nodup := by
  have hreg : (s.registered.map Prod.fst).Nodup := (List.nodup_append.mp h.nodup).1
  have hperm := h.kept.map Prod.fst
  rw [List.map_append] at hperm
  exact (List.nodup_append.mp (hperm.nodup_iff.mp hreg)).1

/-- A number that has not been taken yet. -/
theorem Registered.fresh (h : Registered start s) (hids : s.ids < 0x100000000) :
    s.global_event_id ∉ s.taken := by
  intro hmem
  obtain ⟨k, hk, hn⟩ := h.counted _ hmem
  rw [h.next] at hn
  have heq : UInt32.ofNat s.ids = UInt32.ofNat k := (UInt32.add_right_inj _).mp hn
  have := congrArg UInt32.toNat heq
  rw [UInt32.toNat_ofNat_of_lt' hids, UInt32.toNat_ofNat_of_lt' (Nat.lt_trans hk hids)] at this
  omega

/-- Steps that leave the numbers alone. -/
theorem Registered.same (h : Registered start s) {t : Socket α β} (made : List Packet)
    (hid : t.global_event_id = s.global_event_id) (hids : t.ids = s.ids)
    (hnumbers : t.taken = s.taken ∧ t.pending = s.pending)
    (hacks : t.acks = s.acks) (hreg : t.registered = s.registered) (hcalled : t.called = s.called)
    (hacked : ∀ e ∈ s.acked, e ∈ t.acked) (hmade : t.made = s.made ++ made)
    (hevents : ∀ p ∈ made, p.isEvent = true → p.pack_id = -1) : Registered start t := by
  obtain ⟨htaken, hpending⟩ := hnumbers
  refine ⟨by rw [hid, hids, h.next], by rw [hpending, hid]; exact h.pending,
    by rw [htaken, hids]; exact h.counted, by rw [htaken]; exact h.nodup,
    by rw [hreg, hacks, hcalled]; exact h.kept, ?_, ?_⟩
  · rw [hcalled]
    intro e he
    obtain ⟨msgId, hmsg, hmem⟩ := h.acked e he
    exact ⟨msgId, hmsg, hacked _ hmem⟩
  · rw [hmade, hreg]
    intro p hp hevent
    rcases List.mem_append.mp hp with hp | hp
    · exact h.made p hp hevent
    · exact Or.inl (hevents p hp hevent)

/-- Steps that make no packet either. -/
theorem Registered.still (h : Registered start s) {t : Socket α β}
    (hid : t.global_event_id = s.global_event_id) (hids : t.ids = s.ids)
    (hnumbers : t.taken = s.taken ∧ t.pending = s.pending) (hacks : t.acks = s.acks)
    (hreg : t.registered = s.registered) (hcalled : t.called = s.called)
    (hacked : ∀ e ∈ s.acked, e ∈ t.acked) (hmade : t.made = s.made) : Registered start t :=
  h.same [] hid hids hnumbers hacks hreg hcalled hacked (by rw [hmade, List.append_nil]) (by simp)

/-- A call moves on, and its number with it. -/
theorem taken_set {i : Nat} {c : Call α} (hc : s.calls[i]? = some c) (pc : CallPc) {t : Socket α β}
    (hcalls : t.calls = s.calls.set i { c with pc := pc }) (hreg : t.registered = s.registered)
    (hnumber : pc.number = c.pc.number) : t.taken = s.taken := by
  have hflat :=
    flatMap_set_of_eq (f := fun c : Call α => c.pc.number) (y := { c with pc := pc }) hc hnumber
  rw [taken, taken, hreg, hcalls, hflat]

theorem pending_set {i : Nat} {c : Call α} (hc : s.calls[i]? = some c) (pc : CallPc)
    {t : Socket α β} (hcalls : t.calls = s.calls.set i { c with pc := pc })
    (hothers : t.others = s.others) (hpending : pc.pending = c.pc.pending) :
    t.pending = s.pending := by
  have hflat :=
    flatMap_set_of_eq (f := fun c : Call α => c.pc.pending) (y := { c with pc := pc }) hc hpending
  rw [pending, pending, hothers, hcalls, hflat]

/-- A call that has no number, before or after. -/
theorem numbers_set {i : Nat} {c : Call α} (hc : s.calls[i]? = some c) (pc : CallPc)
    {t : Socket α β} (hcalls : t.calls = s.calls.set i { c with pc := pc })
    (hreg : t.registered = s.registered) (hothers : t.others = s.others)
    (hfrom : c.pc.number = [] ∧ c.pc.pending = []) (hto : pc.number = [] ∧ pc.pending = []) :
    t.taken = s.taken ∧ t.pending = s.pending :=
  ⟨taken_set hc pc hcalls hreg (hto.1.trans hfrom.1.symm),
    pending_set hc pc hcalls hothers (hto.2.trans hfrom.2.symm)⟩

theorem numbers_moves {pc pc' : CallPc} (h : CallMoves pc pc') :
    (pc.number = [] ∧ pc.pending = []) ∧ pc'.number = [] ∧ pc'.pending = [] := by
  cases h with
  | notClosed h => rcases h with rfl | rfl <;> exact ⟨⟨rfl, rfl⟩, rfl, rfl⟩
  | _ => exact ⟨⟨rfl, rfl⟩, rfl, rfl⟩

theorem numbers_callSends {c : Call α} {p : Packet} (h : CallSends s c p) :
    (c.pc.number = [] ∧ c.pc.pending = []) ∧ (p.isEvent = true → p.pack_id = -1) := by
  cases h with
  | event hpc => rw [hpc]; exact ⟨⟨rfl, rfl⟩, fun _ => rfl⟩
  | disconnect hpc => rw [hpc]; exact ⟨⟨rfl, rfl⟩, fun _ => rfl⟩

/-- An ack is no event. -/
theorem isEvent_ack {nsp : List LexerChar} {msg : Message} {msgId : Int32} {P : Prop}
    (h : (Packet.ofMessage nsp msg msgId true).isEvent = true) : P :=
  absurd h Bool.false_ne_true

theorem numbers_rest (rest : Option Sending) :
    ((rest.map CallPc.sending).getD .returned).number = []
      ∧ ((rest.map CallPc.sending).getD .returned).pending = [] := by
  cases rest <;> exact ⟨rfl, rfl⟩

/-! ### The numbers -/

/-- The number that is written is that which was read, and no other thread has read one. -/
theorem Registered.written (h : Registered start s) {pack_id : UInt32} {rest : List UInt32}
    (hperm : (pack_id :: rest).Perm s.pending) : pack_id = s.global_event_id ∧ rest = [] := by
  rcases h.pending with hnone | hone
  · rw [hnone] at hperm
    exact absurd (List.perm_nil.mp hperm) (List.cons_ne_nil _ _)
  · rw [hone] at hperm
    exact List.cons.inj (List.perm_singleton.mp hperm)

theorem next_succ (h : s.global_event_id = start + UInt32.ofNat s.ids) :
    s.global_event_id + 1 = start + UInt32.ofNat (s.ids + 1) := by
  rw [h, UInt32.ofNat_add, UInt32.add_assoc]
  rfl

theorem registered_eventId (h : Registered start s) {i : Nat} {c : Call α}
    (halone : s.takesAlone (.run i) = true) (hc : s.calls[i]? = some c) (hpc : c.pc = .eventId) :
    Registered start (s.setCall i { c with pc := .increment s.global_event_id }) := by
  have hnone : s.pending = [] := by simpa [takesAlone, hc, hpc, CallPc.reads] using halone
  obtain ⟨hcalls, hothers⟩ := List.append_eq_nil_iff.mp hnone
  have hset := perm_flatMap_set (f := fun c : Call α => c.pc.pending)
    { c with pc := .increment s.global_event_id } hc
  rw [hpc, hcalls] at hset
  have htaken : (s.setCall i { c with pc := .increment s.global_event_id }).taken = s.taken :=
    taken_set hc (.increment s.global_event_id) rfl rfl (by rw [hpc]; rfl)
  refine ⟨h.next, Or.inr ?_, by rw [htaken]; exact h.counted, by rw [htaken]; exact h.nodup,
    h.kept, h.acked, h.made⟩
  show (s.calls.set i _).flatMap (·.pc.pending) ++ s.others = _
  rw [hothers, List.append_nil]
  exact List.perm_singleton.mp hset

theorem registered_increment (h : Registered start s) (hids : s.ids < 0x100000000) {i : Nat}
    {c : Call α} {pack_id : UInt32} (hc : s.calls[i]? = some c)
    (hpc : c.pc = .increment pack_id) :
    Registered start ({ s with global_event_id := pack_id + 1, ids := s.ids + 1 }.setCall i
      { c with pc := .setAck pack_id }) := by
  have hread := perm_flatMap_set (f := fun c : Call α => c.pc.pending)
    { c with pc := .setAck pack_id } hc
  have hset := perm_flatMap_set (f := fun c : Call α => c.pc.number)
    { c with pc := .setAck pack_id } hc
  rw [hpc] at hread hset
  obtain ⟨rfl, hrest⟩ := h.written (hread.append_right s.others)
  have htaken : (s.registered.map Prod.fst
      ++ (s.calls.set i { c with pc := .setAck s.global_event_id }).flatMap (·.pc.number)).Perm
        (s.global_event_id :: s.taken) :=
    (List.Perm.append_left _ hset).trans List.perm_middle
  refine ⟨next_succ h.next, Or.inl hrest, fun n hn => ?_,
    htaken.nodup_iff.mpr (List.nodup_cons.mpr ⟨h.fresh hids, h.nodup⟩),
    h.kept, h.acked, h.made⟩
  rcases List.mem_cons.mp (htaken.mem_iff.mp hn) with rfl | hn
  · exact ⟨s.ids, Nat.lt_succ_self _, h.next⟩
  · obtain ⟨k, hk, hn⟩ := h.counted n hn
    exact ⟨k, Nat.lt_succ_of_lt hk, hn⟩

theorem registered_otherReads (h : Registered start s) (halone : s.pending = []) :
    Registered start { s with others := s.others ++ [s.global_event_id] } := by
  refine ⟨h.next, Or.inr ?_, h.counted, h.nodup, h.kept, h.acked, h.made⟩
  show s.calls.flatMap (·.pc.pending) ++ (s.others ++ [s.global_event_id]) = _
  rw [← List.append_assoc, ← pending, halone, List.nil_append]

theorem registered_otherWrites (h : Registered start s) {i : Nat} {pack_id : UInt32}
    (hother : s.others[i]? = some pack_id) :
    Registered start { s with
      global_event_id := pack_id + 1
      ids := s.ids + 1
      others := s.others.eraseIdx i } := by
  obtain ⟨hi, hget⟩ := List.getElem?_eq_some_iff.mp hother
  have herase : (pack_id :: s.others.eraseIdx i).Perm s.others := by
    rw [← hget]
    exact List.getElem_cons_eraseIdx_perm hi
  obtain ⟨rfl, hrest⟩ := h.written
    (List.perm_middle.symm.trans (List.Perm.append_left (s.calls.flatMap (·.pc.pending)) herase))
  refine ⟨next_succ h.next, Or.inl hrest, fun n hn => ?_, h.nodup, h.kept, h.acked, h.made⟩
  obtain ⟨k, hk, hn⟩ := h.counted n hn
  exact ⟨k, Nat.lt_succ_of_lt hk, hn⟩

/-! ### The functions -/

theorem registered_setAck (h : Registered start s) {i : Nat} {c : Call α} {pack_id : UInt32}
    (ack : α) (hc : s.calls[i]? = some c) (hpc : c.pc = .setAck pack_id) :
    Registered start ({ s with
      acks := (pack_id, ack) :: s.acks.filter (·.1 != pack_id)
      registered := s.registered ++ [(pack_id, ack)] }.callSends i c
        (.ofMessage s.nsp c.message pack_id.toInt32 false)) := by
  let p := Packet.ofMessage s.nsp c.message pack_id.toInt32 false
  have hset :=
    perm_flatMap_set (f := fun c : Call α => c.pc.number) { c with pc := .sending (.guard p) } hc
  rw [hpc] at hset
  have htaken : ((s.registered ++ [(pack_id, ack)]).map Prod.fst
      ++ (s.calls.set i { c with pc := .sending (.guard p) }).flatMap (·.pc.number)).Perm
        s.taken := by
    rw [List.map_append, List.append_assoc]
    exact List.Perm.append_left _ hset
  -- the number is still with the call, so it is under no function yet
  have habsent : pack_id ∉ s.registered.map Prod.fst := by
    have hmem : pack_id ∈ s.calls.flatMap (·.pc.number) :=
      List.mem_flatMap.mpr
        ⟨c, List.mem_of_getElem? hc, by rw [hpc]; exact List.mem_singleton_self _⟩
    exact fun hreg => (List.nodup_append.mp h.nodup).2.2 _ hreg _ hmem rfl
  have hkeys : pack_id ∉ s.acks.map Prod.fst := by
    intro hmem
    refine habsent ((h.kept.map Prod.fst).mem_iff.mpr ?_)
    rw [List.map_append]
    exact List.mem_append_left _ hmem
  have hpending : s.pending = [] ∨ s.pending = [s.global_event_id] := h.pending
  rw [← pending_set (t := s.callSends i c p) hc (.sending (.guard p)) rfl rfl (by rw [hpc]; rfl)]
    at hpending
  refine ⟨h.next, hpending, fun n hn => h.counted n (htaken.mem_iff.mp hn),
    htaken.nodup_iff.mpr h.nodup, ?_, h.acked, ?_⟩
  · show (s.registered ++ [(pack_id, ack)]).Perm
      ((pack_id, ack) :: s.acks.filter (·.1 != pack_id) ++ _)
    rw [filter_absent hkeys]
    exact (List.perm_append_singleton _ _).trans (h.kept.cons _)
  · intro q hq hevent
    rcases List.mem_append.mp hq with hq | hq
    · refine (h.made q hq hevent).imp_right fun hmem => ?_
      show _ ∈ (s.registered ++ [(pack_id, ack)]).map Prod.fst
      rw [List.map_append]
      exact List.mem_append_left _ hmem
    · obtain rfl : q = p := List.mem_singleton.mp hq
      refine Or.inr ?_
      show pack_id.toInt32.toUInt32 ∈ (s.registered ++ [(pack_id, ack)]).map Prod.fst
      rw [UInt32.toUInt32_toInt32, List.map_append]
      exact List.mem_append_right _ (List.mem_singleton_self _)

theorem registered_acked (h : Registered start s) {msgId : Int32} (message : List Message) {l : α}
    (hl : s.acks.lookup msgId.toUInt32 = some l) :
    Registered start { s.takeAck msgId message with
      acks := s.acks.filter (·.1 != msgId.toUInt32)
      called := s.called ++ [(msgId.toUInt32, l, message)] } := by
  have hperm := perm_lookup h.keys hl
  refine ⟨h.next, h.pending, h.counted, h.nodup, ?_, ?_, h.made⟩
  · show s.registered.Perm (s.acks.filter (·.1 != msgId.toUInt32)
      ++ (s.called ++ [(msgId.toUInt32, l, message)]).map fun e => (e.1, e.2.1))
    rw [List.map_append, ← List.append_assoc]
    refine h.kept.trans ((hperm.append_right _).trans ?_)
    exact (List.perm_append_singleton _ _).symm
  · intro e he
    rcases List.mem_append.mp he with he | he
    · obtain ⟨msgId', hmsg, hmem⟩ := h.acked e he
      exact ⟨msgId', hmsg, List.mem_append_left _ hmem⟩
    · obtain rfl := List.mem_singleton.mp he
      exact ⟨msgId, rfl, List.mem_append_right _ (List.mem_singleton_self _)⟩

theorem registered_step {a : SocketAct α β} (h : Registered start s)
    (halone : s.takesAlone a = true) (hids : s'.ids ≤ 0x100000000) (hs : Step s a s') :
    Registered start s' := by
  cases hs with
  | same | fault | bind | listens | unheard | ignored | closing | clearing =>
      exact ⟨h.next, h.pending, h.counted, h.nodup, h.kept, h.acked, h.made⟩
  | call c hpc =>
      have hnil : c.pc.number = [] ∧ c.pc.pending = [] := by
        rcases hpc with hpc | hpc <;> rw [hpc] <;> exact ⟨rfl, rfl⟩
      refine h.still rfl rfl ⟨?_, ?_⟩ rfl rfl rfl (fun _ he => he) rfl
      · simp [taken, hnil.1]
      · simp [pending, hnil.2]
  | otherReads => exact registered_otherReads h (List.isEmpty_iff.mp halone)
  | otherWrites pack_id hother => exact registered_otherWrites h hother
  | moves c pc hc hmoves =>
      obtain ⟨hfrom, hto⟩ := numbers_moves hmoves
      exact h.still rfl rfl (numbers_set hc pc rfl rfl rfl hfrom hto) rfl rfl rfl
        (fun _ he => he) rfl
  | sends c p hc hsends =>
      obtain ⟨hfrom, hevent⟩ := numbers_callSends hsends
      exact h.same [p] rfl rfl
        (numbers_set hc (.sending (.guard p)) rfl rfl rfl hfrom ⟨rfl, rfl⟩) rfl rfl rfl
        (fun _ he => he) rfl (List.forall_mem_singleton.mpr hevent)
  | eventId c hc hpc => exact registered_eventId h halone hc hpc
  | increment c pack_id hc hpc => exact registered_increment h hids hc hpc
  | setAck c pack_id ack hc hpc hack => exact registered_setAck h ack hc hpc
  | sending c sending hc hpc =>
      rw [send_frame]
      exact h.still rfl rfl
        (numbers_set hc _ rfl rfl rfl (by rw [hpc]; exact ⟨rfl, rfl⟩) (numbers_rest _)) rfl rfl rfl
        (fun _ he => he) rfl
  | sendConnect hnet hidle =>
      exact h.same [.ofType typeConnect s.nsp .nullptr] rfl rfl ⟨rfl, rfl⟩ rfl rfl rfl
        (fun _ he => he) rfl (List.forall_mem_singleton.mpr fun _ => rfl)
  | leaves hnet hidle hleaves =>
      cases hleaves <;>
        exact ⟨h.next, h.pending, h.counted, h.nodup, h.kept, h.acked, h.made⟩
  | answers msgId e hnet hidle hneed =>
      exact h.same [.ofMessage s.nsp (.array []) msgId true] rfl rfl ⟨rfl, rfl⟩ rfl rfl rfl
        (fun _ he => he) rfl (List.forall_mem_singleton.mpr isEvent_ack)
  | acked msgId message l hnet hidle hl => exact registered_acked h message hl
  | unknown msgId message hnet hidle hl =>
      exact h.still rfl rfl ⟨rfl, rfl⟩ rfl rfl rfl (fun _ he => List.mem_append_left _ he) rfl
  | @listened ack_message msgId hlistening hid =>
      exact h.same [.ofMessage s.nsp (.array ack_message) msgId true] rfl rfl ⟨rfl, rfl⟩ rfl rfl rfl
        (fun _ he => he) rfl (List.forall_mem_singleton.mpr isEvent_ack)
  | networkSending sending hsending =>
      rw [send_frame]
      exact ⟨h.next, h.pending, h.counted, h.nodup, h.kept, h.acked, h.made⟩

/-- Numbers are only taken. -/
theorem ids_step {a : SocketAct α β} (hs : Step s a s') : s.ids ≤ s'.ids := by
  cases hs with
  | otherWrites | increment => exact Nat.le_succ _
  | sending c sending =>
      have hframe : (s.send sending).1.ids = s.ids := by rw [send_frame]
      exact hframe.ge
  | networkSending sending =>
      have hframe : (s.send sending).1.ids = s.ids := by rw [send_frame]
      exact hframe.ge
  | leaves hnet hidle hleaves => cases hleaves <;> exact Nat.le_refl _
  | _ => exact Nat.le_refl _

end

/--
**Every function given to `emit` is called at most once, and by an ack of its own number.**
In every run in which no thread reads `s_global_event_id` between the read and the write of
another, and as long as the numbers have not come round, those under which functions were
registered are all different; every function registered either waits under its number or
has been called, once; it was called with the message of an ack packet that came with the
number; and every packet emitted with a number has had a function registered for it before.
-/
theorem acks_run {nsp : List LexerChar} {start : UInt32} {as : List (SocketAct α β)}
    {t : Socket α β} (hr : Run step (fun s a => s.takesAlone a = true) (Socket.new nsp start) as t)
    (hids : t.ids ≤ 0x100000000) :
    (t.registered.map Prod.fst).Nodup
      ∧ t.registered.Perm (t.acks ++ t.called.map fun e => (e.1, e.2.1))
      ∧ (∀ e ∈ t.called, ∃ msgId, msgId.toUInt32 = e.1 ∧ (msgId, e.2.2) ∈ t.acked)
      ∧ ∀ p ∈ t.made, p.isEvent = true →
          p.pack_id = -1 ∨ p.pack_id.toUInt32 ∈ t.registered.map Prod.fst := by
  have hstart : Registered start (Socket.new nsp start : Socket α β) :=
    ⟨(UInt32.add_zero _).symm, Or.inl rfl, by simp [taken, Socket.new], List.nodup_nil,
      List.Perm.refl _, by simp [Socket.new], by simp [Socket.new]⟩
  have hreg : t.ids ≤ 0x100000000 → Registered start t :=
    hr.invariant (I := fun s : Socket α β => s.ids ≤ 0x100000000 → Registered start s)
      (fun _ => hstart)
      fun {s s' a} h halone hst hids' =>
        let hstep := (step_cases hst).2
        registered_step (h (Nat.le_trans (ids_step hstep) hids')) halone hids' hstep
  have h := hreg hids
  exact ⟨(List.nodup_append.mp h.nodup).1, h.kept, h.acked, h.made⟩

/-- Two questions, and the answer to the second. -/
def asking : List (SocketAct Unit Unit) :=
  [.emit "first" [] (some ()), .emit "second" [] (some ()),
    .run 0, .run 1, .run 1, .run 1, .run 0, .run 0, .run 1, .run 0,
    .onMessagePacket
      { Packet.ofMessage (ascii "/") (.array [.string "yes"]) 1 true with type := typeAck }]

theorem acks_run_asking :
    ∃ t : Socket Unit Unit,
      exec (checked takesAlone step) (Socket.new (ascii "/") 1) asking = some t
      ∧ (t.called.length = 1 ∧ t.acks.length = 1) ∧ t.ids ≤ 0x100000000
      ∧ (t.registered.map Prod.fst).Nodup
      ∧ t.registered.Perm (t.acks ++ t.called.map fun e => (e.1, e.2.1))
      ∧ (∀ e ∈ t.called, ∃ msgId, msgId.toUInt32 = e.1 ∧ (msgId, e.2.2) ∈ t.acked)
      ∧ ∀ p ∈ t.made, p.isEvent = true →
          p.pack_id = -1 ∨ p.pack_id.toUInt32 ∈ t.registered.map Prod.fst := by
  have hexec : (exec (checked takesAlone step) (Socket.new (ascii "/") 1) asking).any
      (fun t => (t.called.length == 1 && t.acks.length == 1) && t.ids == 2) = true := rfl
  obtain ⟨t, ht, hp⟩ := exists_of_exec hexec
  have hends : (t.called.length = 1 ∧ t.acks.length = 1) ∧ t.ids = 2 := by simpa using hp
  have hids : t.ids ≤ 0x100000000 := by omega
  exact ⟨t, ht, hends.1, hids, acks_run (run_of_exec_checked ht) hids⟩

/--
Two threads that read the same number. The function of the first is replaced under it by
that of the second, and will not be called.
-/
theorem not_kept_two :
    ¬ ∀ (as : List (SocketAct Unit Unit)) (t : Socket Unit Unit),
      Run step NoGuard (Socket.new (ascii "/") 1) as t →
      t.registered.Perm (t.acks ++ t.called.map fun e => (e.1, e.2.1)) := by
  intro hall
  have hexec : (exec step (Socket.new (ascii "/") 1 : Socket Unit Unit)
      [.emit "first" [] (some ()), .emit "second" [] (some ()),
        .run 0, .run 1, .run 0, .run 1, .run 0, .run 1, .run 0, .run 1]).any
      (fun t => t.registered.length == 2 && (t.acks.length == 1 && t.called.length == 0))
        = true := rfl
  obtain ⟨t, ht, hp⟩ := exists_of_exec hexec
  have hends : t.registered.length = 2 ∧ t.acks.length = 1 ∧ t.called.length = 0 := by
    simpa using hp
  have hlen := (hall _ t (run_of_exec ht)).length_eq
  rw [List.length_append, List.length_map] at hlen
  omega

end Socket

end HandlingModule.Sio
