import HandlingModule.Sio.Sending

/-!
# The order of the packets

While several threads send at a time, one may overtake another. Here no two are sending at a
time, in `send_packet` or in the loop of `on_connected`; what they do beside that, the taking
of a number, of an ack or of an event, the closing of the connection, may fall anywhere. Then
the client is handed the packets in the order in which they were made, but for the connect
packets, which do not wait; and when the socket is connected and nobody is sending, nothing
has been left behind in the queue (`inOrder_run`).
-/

namespace HandlingModule.Sio

open HandlingModule.AIO HandlingModule.AIO.Lexer Transition Replace

variable {α β : Type}

/-- The sending a thread is in. -/
def CallPc.sendings : CallPc → List Sending
  | .sending s => [s]
  | _ => []

def NetworkPc.sendings : NetworkPc → List Sending
  | .sending s => [s]
  | _ => []

namespace Sending

/-- What a thread has taken from the queue. -/
def before : Sending → List Packet
  | .sendFront front_pack _ => [front_pack]
  | _ => []

/-- Its own packet. -/
def behind : Sending → List Packet
  | .guard p | .connected p | .send p | .push p => [p]
  | .front p | .sendFront _ p => p.toList

/-- In the loop over the queue. -/
def loops : Sending → Bool
  | .front _ | .sendFront .. => true
  | _ => false

/-- Behind the loop. -/
def sends : Sending → Bool
  | .send _ => true
  | _ => false

def pushes : Sending → Bool
  | .push _ => true
  | _ => false

end Sending

/-- But for the connect packets. -/
def queued (packets : List Packet) : List Packet := packets.filter (·.type != typeConnect)

namespace Socket

/-- The sendings that are under way. -/
def sendings (s : Socket α β) : List Sending :=
  s.network.sendings ++ s.calls.flatMap (·.pc.sendings)

/-- The step does not lead to two threads that are sending. -/
def apart (s : Socket α β) (a : SocketAct α β) : Bool :=
  (s.step a).all fun t => t.sendings.length ≤ 1

/-- What has been sent, is sent and waits is in the order in which it was made. -/
structure InOrder (s : Socket α β) (sendings : List Sending) : Prop where
  order : (queued (s.sent ++ sendings.flatMap Sending.before ++ s.packet_queue
    ++ sendings.flatMap Sending.behind)).Sublist s.made
  drained : s.connected = true → s.packet_queue = [] ∨ ∃ x ∈ sendings, x.loops = true
  last : ∀ x ∈ sendings, x.sends = true → s.packet_queue = []
  pushed : ∀ x ∈ sendings, x.pushes = true → s.connected = false

theorem inOrder_nil (s : Socket α β) : InOrder s [] ↔
    (queued (s.sent ++ s.packet_queue)).Sublist s.made
      ∧ (s.connected = true → s.packet_queue = []) := by
  constructor
  · rintro ⟨horder, hdrained, -, -⟩
    rw [List.flatMap_nil, List.flatMap_nil, List.append_nil, List.append_nil] at horder
    exact ⟨horder, fun hc => (hdrained hc).resolve_right (by simp)⟩
  · rintro ⟨horder, hdrained⟩
    refine ⟨?_, fun hc => Or.inl (hdrained hc), by simp, by simp⟩
    rw [List.flatMap_nil, List.flatMap_nil, List.append_nil, List.append_nil]
    exact horder

theorem inOrder_one (s : Socket α β) (x : Sending) : InOrder s [x] ↔
    (queued (s.sent ++ x.before ++ s.packet_queue ++ x.behind)).Sublist s.made
      ∧ (s.connected = true → s.packet_queue = [] ∨ x.loops = true)
      ∧ (x.sends = true → s.packet_queue = []) ∧ (x.pushes = true → s.connected = false) := by
  constructor
  · rintro ⟨horder, hdrained, hlast, hpushed⟩
    rw [List.flatMap_singleton, List.flatMap_singleton] at horder
    have hx := List.mem_singleton_self x
    refine ⟨horder, fun hc => ?_, hlast x hx, hpushed x hx⟩
    simpa using hdrained hc
  · rintro ⟨horder, hdrained, hlast, hpushed⟩
    refine ⟨?_, fun hc => by simpa using hdrained hc, by simpa using hlast, by simpa using hpushed⟩
    rw [List.flatMap_singleton, List.flatMap_singleton]
    exact horder

/-! ## One step of sending -/

/-- For what is said of sendings of another kind. -/
theorem vacuous {P : Prop} (h : false = true) : P := absurd h Bool.false_ne_true

theorem InOrder.send {s : Socket α β} {x : Sending} (h : InOrder s [x]) :
    InOrder (s.send x).1 (s.send x).2.toList := by
  obtain ⟨horder, hdrained, hlast, hpushed⟩ := (inOrder_one s x).mp h
  cases x with
  | guard p =>
      have hempty : s.connected = true → s.packet_queue = [] :=
        fun hc => (hdrained hc).resolve_right Bool.false_ne_true
      unfold Socket.send
      dsimp only
      split
      · exact (inOrder_one s (.connected p)).mpr ⟨horder, hdrained, vacuous, vacuous⟩
      · refine (inOrder_nil _).mpr ⟨List.Sublist.trans (List.Sublist.filter _ ?_) horder, hempty⟩
        show (s.sent ++ s.packet_queue).Sublist (s.sent ++ [] ++ s.packet_queue ++ [p])
        rw [List.append_nil]
        exact List.sublist_append_left ..
  | connected p =>
      unfold Socket.send
      dsimp only
      split
      · exact (inOrder_one s (.front (some p))).mpr ⟨horder, fun _ => Or.inr rfl, vacuous, vacuous⟩
      · rename_i hconnected
        exact (inOrder_one s (.push p)).mpr
          ⟨horder, fun hc => absurd hc hconnected, vacuous,
            fun _ => Bool.not_eq_true _ ▸ hconnected⟩
  | front p =>
      unfold Socket.send
      dsimp only
      split
      · rename_i hempty
        cases p with
        | none =>
            refine (inOrder_nil s).mpr ⟨?_, fun _ => hempty⟩
            simpa [Sending.before, Sending.behind] using horder
        | some p =>
            exact (inOrder_one s (.send p)).mpr
              ⟨horder, fun _ => Or.inl hempty, fun _ => hempty, vacuous⟩
      · rename_i front_pack packet_queue hqueue
        refine (inOrder_one _ (.sendFront front_pack p)).mpr
          ⟨?_, fun _ => Or.inr rfl, vacuous, vacuous⟩
        rw [hqueue] at horder
        simpa [Sending.before, Sending.behind] using horder
  | sendFront front_pack p =>
      unfold Socket.send
      dsimp only
      split
      · refine (inOrder_one _ (.front p)).mpr ⟨?_, fun _ => Or.inr rfl, vacuous, vacuous⟩
        simpa [Sending.before, Sending.behind, clientSend] using horder
      · exact (inOrder_one _ (.sendFront front_pack p)).mpr ⟨horder, hdrained, vacuous, vacuous⟩
  | send p =>
      have hempty := hlast rfl
      unfold Socket.send
      dsimp only
      split
      · refine (inOrder_nil _).mpr ⟨?_, fun _ => hempty⟩
        rw [hempty] at horder
        simpa [Sending.before, Sending.behind, clientSend, hempty] using horder
      · exact (inOrder_one _ (.send p)).mpr ⟨horder, hdrained, hlast, vacuous⟩
  | push p =>
      refine (inOrder_nil _).mpr ⟨?_, fun hc => ?_⟩
      · simpa [Socket.send, Sending.before, Sending.behind] using horder
      · have hconnected := hpushed rfl
        exact absurd hc (by rw [send_frame]; simp [hconnected])

/-! ## Any step -/

section

variable {s s' t : Socket α β}

/-- One thread goes on, and what the others send stays as it is. -/
def Goes (s t : Socket α β) (old new : List Sending) : Prop :=
  ∃ m n, s.sendings = m ++ old ++ n ∧ t.sendings = m ++ new ++ n

theorem Goes.call {i : Nat} {c : Call α} (hc : s.calls[i]? = some c) (pc : CallPc)
    (hcalls : t.calls = s.calls.set i { c with pc := pc }) (hnetwork : t.network = s.network) :
    Goes s t c.pc.sendings pc.sendings := by
  obtain ⟨m, n, hold, hnew⟩ :=
    flatMap_set_split (fun c : Call α => c.pc.sendings) { c with pc := pc } hc
  refine ⟨s.network.sendings ++ m, n, ?_, ?_⟩
  · rw [sendings, hold, List.append_assoc, List.append_assoc, List.append_assoc]
  · rw [sendings, hcalls, hnetwork, hnew, List.append_assoc, List.append_assoc, List.append_assoc]

theorem Goes.network (hcalls : t.calls = s.calls) :
    Goes s t s.network.sendings t.network.sendings := by
  refine ⟨[], s.calls.flatMap (·.pc.sendings), rfl, ?_⟩
  rw [sendings, hcalls]
  rfl

/-- It was not sending and is not. -/
theorem Goes.same (h : Goes s t [] []) : t.sendings = s.sendings := by
  obtain ⟨m, n, hs, ht⟩ := h
  rw [hs, ht]

/-- One sending at most, and so no other. -/
theorem sole_of_length {x : Sending} {m n : List Sending} (h : (m ++ [x] ++ n).length ≤ 1) :
    m = [] ∧ n = [] := by
  rw [List.length_append, List.length_append, List.length_singleton] at h
  exact ⟨List.eq_nil_of_length_eq_zero (by omega), List.eq_nil_of_length_eq_zero (by omega)⟩

/-- It begins to send, and no other is at it. -/
theorem Goes.begins {x : Sending} (h : Goes s t [] [x]) (hone : t.sendings.length ≤ 1) :
    s.sendings = [] ∧ t.sendings = [x] := by
  obtain ⟨m, n, hs, ht⟩ := h
  rw [ht] at hone
  obtain ⟨rfl, rfl⟩ := sole_of_length hone
  exact ⟨hs, ht⟩

/-- It was sending, and no other was. -/
theorem Goes.sole {x : Sending} {new : List Sending} (h : Goes s t [x] new)
    (hone : s.sendings.length ≤ 1) : s.sendings = [x] ∧ t.sendings = new := by
  obtain ⟨m, n, hs, ht⟩ := h
  rw [hs] at hone
  obtain ⟨rfl, rfl⟩ := sole_of_length hone
  rw [List.nil_append, List.append_nil] at hs ht
  exact ⟨hs, ht⟩

/-- It is said of what is made, sent and waits, and of the connection. -/
theorem InOrder.congr {sendings : List Sending} (h : InOrder s sendings)
    (hsent : t.sent = s.sent) (hqueue : t.packet_queue = s.packet_queue)
    (hconnected : t.connected = s.connected) (hmade : t.made = s.made) :
    InOrder t sendings := by
  obtain ⟨horder, hdrained, hlast, hpushed⟩ := h
  refine ⟨?_, ?_, ?_, ?_⟩
  · rwa [hsent, hqueue, hmade]
  · rwa [hconnected, hqueue]
  · rwa [hqueue]
  · rwa [hconnected]

theorem InOrder.same (h : InOrder s s.sendings) (hgoes : Goes s t [] [])
    (hsent : t.sent = s.sent) (hqueue : t.packet_queue = s.packet_queue)
    (hconnected : t.connected = s.connected) (hmade : t.made = s.made) :
    InOrder t t.sendings := by
  rw [hgoes.same]
  exact h.congr hsent hqueue hconnected hmade

/-- A packet is made and its sending begins. -/
theorem InOrder.begins (h : InOrder s s.sendings) {p : Packet} (hgoes : Goes s t [] [.guard p])
    (hone : t.sendings.length ≤ 1) (hsent : t.sent = s.sent)
    (hqueue : t.packet_queue = s.packet_queue) (hconnected : t.connected = s.connected)
    (hmade : t.made = s.made ++ [p]) : InOrder t t.sendings := by
  obtain ⟨hs, ht⟩ := hgoes.begins hone
  rw [hs] at h
  obtain ⟨horder, hdrained⟩ := (inOrder_nil s).mp h
  rw [ht]
  refine (inOrder_one t _).mpr ⟨?_, ?_, vacuous, vacuous⟩
  · show (queued (t.sent ++ [] ++ t.packet_queue ++ [p])).Sublist t.made
    rw [hsent, hqueue, hmade, List.append_nil, queued, List.filter_append]
    exact horder.append List.filter_sublist
  · rw [hconnected, hqueue]
    exact fun hc => Or.inl (hdrained hc)

/-- One step of the thread that is sending. -/
theorem InOrder.sends (h : InOrder s s.sendings) (hone : s.sendings.length ≤ 1) {x : Sending}
    (hgoes : Goes s t [x] (s.send x).2.toList) (hsent : t.sent = (s.send x).1.sent)
    (hqueue : t.packet_queue = (s.send x).1.packet_queue)
    (hconnected : t.connected = (s.send x).1.connected) (hmade : t.made = (s.send x).1.made) :
    InOrder t t.sendings := by
  obtain ⟨hs, ht⟩ := hgoes.sole hone
  rw [hs] at h
  rw [ht]
  exact (InOrder.send h).congr hsent hqueue hconnected hmade

theorem callMoves_sendings {pc pc' : CallPc} (h : CallMoves pc pc') :
    pc.sendings = [] ∧ pc'.sendings = [] := by
  cases h with
  | notClosed h => rcases h with rfl | rfl <;> exact ⟨rfl, rfl⟩
  | _ => exact ⟨rfl, rfl⟩

theorem callSends_sendings {c : Call α} {p : Packet} (h : CallSends s c p) :
    c.pc.sendings = [] := by
  cases h with
  | event hpc | disconnect hpc => rw [hpc]; rfl

theorem sendings_rest (rest : Option Sending) :
    ((rest.map CallPc.sending).getD .returned).sendings = rest.toList
      ∧ ((rest.map NetworkPc.sending).getD .idle).sendings = rest.toList := by
  cases rest <;> exact ⟨rfl, rfl⟩

/-- Where the thread goes when it was not sending. -/
theorem Goes.of_call {i : Nat} {c : Call α} (hc : s.calls[i]? = some c)
    (hnil : c.pc.sendings = []) (pc : CallPc)
    (hcalls : t.calls = s.calls.set i { c with pc := pc }) (hnetwork : t.network = s.network) :
    Goes s t [] pc.sendings := by
  have := Goes.call hc pc hcalls hnetwork
  rwa [hnil] at this

theorem Goes.of_network (hnil : s.network.sendings = []) (hcalls : t.calls = s.calls) :
    Goes s t [] t.network.sendings := by
  have := Goes.network hcalls
  rwa [hnil] at this

theorem inOrder_step {a : SocketAct α β} (h : InOrder s s.sendings)
    (hone : s.sendings.length ≤ 1) (hs : Step s a s') (hone' : s'.sendings.length ≤ 1) :
    InOrder s' s'.sendings := by
  cases hs with
  | same | fault | bind | otherReads | otherWrites | unheard | acked | unknown =>
      exact ⟨h.order, h.drained, h.last, h.pushed⟩
  | call c hpc =>
      have hnil : c.pc.sendings = [] := by rcases hpc with hpc | hpc <;> rw [hpc] <;> rfl
      have hsame : sendings { s with calls := s.calls ++ [c] } = s.sendings := by
        simp [sendings, hnil]
      rw [hsame]
      exact ⟨h.order, h.drained, h.last, h.pushed⟩
  | moves c pc hc hmoves =>
      obtain ⟨hfrom, hto⟩ := callMoves_sendings hmoves
      have hgoes : Goes s (s.setCall _ { c with pc := pc }) [] pc.sendings :=
        .of_call hc hfrom pc rfl rfl
      rw [hto] at hgoes
      exact h.same hgoes rfl rfl rfl rfl
  | sends c p hc hsends =>
      exact h.begins (.of_call hc (callSends_sendings hsends) (.sending (.guard p)) rfl rfl)
        hone' rfl rfl rfl rfl
  | eventId c hc hpc =>
      have hnil : c.pc.sendings = [] := by rw [hpc]; rfl
      exact h.same (.of_call hc hnil (.increment s.global_event_id) rfl rfl) rfl rfl rfl rfl
  | increment c pack_id hc hpc =>
      have hnil : c.pc.sendings = [] := by rw [hpc]; rfl
      exact h.same (.of_call hc hnil (.setAck pack_id) rfl rfl) rfl rfl rfl rfl
  | setAck c pack_id ack hc hpc hack =>
      have hnil : c.pc.sendings = [] := by rw [hpc]; rfl
      exact h.begins (.of_call hc hnil (.sending (.guard _)) rfl rfl) hone' rfl rfl rfl rfl
  | @sending i c sending hc hpc =>
      have hframe := send_frame s sending
      have hgoes : Goes s ((s.send sending).1.setCall i
          { c with pc := ((s.send sending).2.map .sending).getD .returned })
          c.pc.sendings (((s.send sending).2.map CallPc.sending).getD .returned).sendings := by
        refine .call hc _ ?_ ?_
        · rw [hframe]
          rfl
        · rw [hframe]
          rfl
      rw [hpc, (sendings_rest _).1] at hgoes
      exact h.sends hone hgoes rfl rfl rfl rfl
  | sendConnect hnet hidle =>
      -- the connect packets are left out
      have hsame : queued (s.sent ++ [Packet.ofType typeConnect s.nsp .nullptr]
          ++ s.sendings.flatMap Sending.before ++ s.packet_queue
          ++ s.sendings.flatMap Sending.behind)
          = queued (s.sent ++ s.sendings.flatMap Sending.before ++ s.packet_queue
            ++ s.sendings.flatMap Sending.behind) := by
        simp [queued, Packet.ofType]
      refine ⟨?_, h.drained, h.last, h.pushed⟩
      show (queued (s.sent ++ [Packet.ofType typeConnect s.nsp .nullptr]
        ++ s.sendings.flatMap Sending.before ++ s.packet_queue
        ++ s.sendings.flatMap Sending.behind)).Sublist
          (s.made ++ [Packet.ofType typeConnect s.nsp .nullptr])
      rw [hsame]
      exact h.order.trans (List.sublist_append_left ..)
  | leaves hnet hidle hleaves =>
      have hnil : s.network.sendings = [] := by rw [hidle]; rfl
      cases hleaves with
      | onConnected hconnected =>
          have hgoes : Goes s { s with connected := true, network := .sending (.front none) } []
              [.front none] := .of_network hnil rfl
          obtain ⟨hnone, hfront⟩ := hgoes.begins hone'
          rw [hnone] at h
          rw [hfront]
          obtain ⟨horder, hdrained⟩ := (inOrder_nil s).mp h
          refine (inOrder_one _ (.front none)).mpr ⟨?_, fun _ => Or.inr rfl, vacuous, vacuous⟩
          simpa [Sending.before, Sending.behind] using horder
      | onClose =>
          exact h.same (.of_network hnil rfl) rfl rfl rfl rfl
      | onDisconnect =>
          have hgoes : Goes s { s with connected := false, network := .clearing } [] [] :=
            .of_network hnil rfl
          rw [hgoes.same]
          exact ⟨h.order, vacuous, h.last, fun _ _ _ => rfl⟩
  | listens msgId e hnet hidle hneed =>
      have hnil : s.network.sendings = [] := by rw [hidle]; rfl
      exact h.same (.of_network hnil rfl) rfl rfl rfl rfl
  | answers msgId e hnet hidle hneed =>
      have hnil : s.network.sendings = [] := by rw [hidle]; rfl
      exact h.begins (p := .ofMessage s.nsp (.array []) msgId true) (.of_network hnil rfl)
        hone' rfl rfl rfl rfl
  | @listened ack_message msgId hlistening hid =>
      have hnil : s.network.sendings = [] := by rw [hlistening]; rfl
      exact h.begins (p := .ofMessage s.nsp (.array ack_message) msgId true)
        (.of_network hnil rfl) hone' rfl rfl rfl rfl
  | ignored msgId hlistening hid =>
      have hnil : s.network.sendings = [] := by rw [hlistening]; rfl
      exact h.same (.of_network hnil rfl) rfl rfl rfl rfl
  | networkSending sending hsending =>
      have hframe := send_frame s sending
      have hgoes : Goes s { (s.send sending).1 with
          network := ((s.send sending).2.map .sending).getD .idle } s.network.sendings
          (((s.send sending).2.map NetworkPc.sending).getD .idle).sendings := by
        refine .network ?_
        rw [hframe]
      rw [hsending, (sendings_rest _).2] at hgoes
      exact h.sends hone hgoes rfl rfl rfl rfl
  | closing hclosing =>
      have hnil : s.network.sendings = [] := by rw [hclosing]; rfl
      have hgoes : Goes s { s with connected := false, network := .clearing } [] [] :=
        .of_network hnil rfl
      rw [hgoes.same]
      exact ⟨h.order, vacuous, h.last, fun _ _ _ => rfl⟩
  | clearing hclearing =>
      have hnil : s.network.sendings = [] := by rw [hclearing]; rfl
      have hgoes : Goes s { s with
          dropped := s.dropped ++ s.packet_queue
          packet_queue := []
          network := .idle } [] [] := .of_network hnil rfl
      rw [hgoes.same]
      refine ⟨List.Sublist.trans (List.Sublist.filter _ ?_) h.order, fun _ => Or.inl rfl,
        fun _ _ _ => rfl, h.pushed⟩
      refine List.Sublist.append ?_ (List.Sublist.refl _)
      rw [List.append_nil]
      exact List.sublist_append_left ..

end

theorem hands_of_sendings {s : Socket α β} (h : s.sendings = []) : s.hands = [] := by
  obtain ⟨hnetwork, hcalls⟩ := List.append_eq_nil_iff.mp h
  have hnet : s.network.hands = [] := by
    cases hpc : s.network with
    | sending => rw [hpc] at hnetwork; exact absurd hnetwork (by simp [NetworkPc.sendings])
    | _ => rfl
  have hall : s.calls.flatMap (·.pc.hands) = [] := by
    rw [List.flatMap_eq_nil_iff] at hcalls ⊢
    intro c hc
    have hnone := hcalls c hc
    cases hpc : c.pc with
    | sending => rw [hpc] at hnone; exact absurd hnone (by simp [CallPc.sendings])
    | _ => rfl
  rw [hands, hnet, hall]
  rfl

theorem queued_queued (packets : List Packet) : queued (queued packets) = queued packets := by
  simp [queued]

/--
**The packets are sent in order, and all of them.** In every run in which no two threads send
at a time, what the client was handed is in the order in which it was made, the connect packets
left out. If the socket has been neither closed nor disconnected, then whenever nobody is
sending, what was made is what was sent followed by the queue; and the queue is empty if the
socket is connected.
-/
theorem inOrder_run {nsp : List LexerChar} {id : UInt32} {as : List (SocketAct α β)}
    {t : Socket α β} (hr : Run step (fun s a => s.apart a = true) (Socket.new nsp id) as t) :
    (queued t.sent).Sublist (queued t.made)
      ∧ ((∀ a ∈ as, a.closes = false) → t.sendings = [] →
          queued t.made = queued (t.sent ++ t.packet_queue)
            ∧ (t.connected = true → t.packet_queue = [])) := by
  obtain ⟨horder, -⟩ : InOrder t t.sendings ∧ t.sendings.length ≤ 1 := by
    refine hr.invariant
      (I := fun s : Socket α β => InOrder s s.sendings ∧ s.sendings.length ≤ 1) ?_ ?_
    · exact ⟨(inOrder_nil _).mpr ⟨List.Sublist.refl _, fun _ => rfl⟩, Nat.zero_le 1⟩
    · intro s s' a hi ha hst
      rw [apart, hst] at ha
      have hone : s'.sendings.length ≤ 1 := of_decide_eq_true ha
      exact ⟨inOrder_step hi.1 hi.2 (step_cases hst).2 hone, hone⟩
  have hsub : (queued (t.sent ++ t.sendings.flatMap Sending.before ++ t.packet_queue
      ++ t.sendings.flatMap Sending.behind)).Sublist (queued t.made) := by
    have := horder.order.filter (·.type != typeConnect)
    rwa [← queued, queued_queued] at this
  refine ⟨List.Sublist.trans (List.Sublist.filter _ ?_) hsub, fun has hnone => ?_⟩
  · rw [List.append_assoc, List.append_assoc]
    exact List.sublist_append_left ..
  · have hfree : Run step NoGuard (Socket.new nsp id) as t := hr.weaken fun _ _ _ => trivial
    have hperm : Kept t := hfree.invariant (I := Kept) (List.Perm.refl _) fun hk _ hst =>
      kept_step hk (step_cases hst).2
    rw [Kept, (open_run hfree (open_new nsp id) has).dropped, hands_of_sendings hnone,
      List.append_nil, List.append_nil] at hperm
    rw [hnone, List.flatMap_nil, List.flatMap_nil, List.append_nil, List.append_nil] at hsub
    rw [hnone] at horder
    -- in the same order and of the same length
    have hlen : (queued (t.sent ++ t.packet_queue)).length = (queued t.made).length :=
      (hperm.filter _).length_eq.symm
    exact ⟨(hsub.eq_of_length hlen).symm, ((inOrder_nil t).mp horder).2⟩

/--
The second call takes its number while the first packet is on its way to the queue. The first
waits for the connection, and is sent before the second.
-/
def oneByOne : List (SocketAct Unit Unit) :=
  [.emit "first" [] none, .run 0, .emit "second" [] (some ()), .run 1, .run 0, .run 1, .run 0,
    .run 1, .run 0, .onMessagePacket (.ofType typeConnect (ascii "/") .nullptr), .network,
    .network, .network, .run 1, .run 1, .run 1, .run 1, .run 1]

theorem inOrder_run_oneByOne :
    ∃ t : Socket Unit Unit, exec (checked apart step) (Socket.new (ascii "/") 1) oneByOne = some t
      ∧ (t.sent.length = 2 ∧ t.connected = true ∧ t.sendings.isEmpty = true)
      ∧ (queued t.sent).Sublist (queued t.made)
      ∧ ((∀ a ∈ oneByOne, a.closes = false) → t.sendings = [] →
          queued t.made = queued (t.sent ++ t.packet_queue)
            ∧ (t.connected = true → t.packet_queue = [])) := by
  have hexec : (exec (checked apart step) (Socket.new (ascii "/") 1) oneByOne).any
      (fun t => t.sent.length == 2 && (t.connected && t.sendings.isEmpty)) = true := rfl
  obtain ⟨t, ht, hp⟩ := exists_of_exec hexec
  exact ⟨t, ht, by simpa using hp, inOrder_run (run_of_exec_checked ht)⟩

end Socket

end HandlingModule.Sio
