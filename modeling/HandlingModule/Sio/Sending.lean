import HandlingModule.Lib.Replace
import HandlingModule.Sio.Socket

/-!
# What becomes of a packet

`emit` hands a packet to `send_packet`, and from there it goes to the client at once or waits
for the connection in the queue, which whoever finds the socket connected empties before it sends
its own. Several threads may be at it at a time, and the network thread empties the queue
as well. However they take turns, no packet is sent twice, and none is lost that is not
dropped where the socket is closed or disconnected (`packets_run`).
-/

namespace HandlingModule.Sio

open HandlingModule.AIO HandlingModule.AIO.Lexer Transition Replace

variable {α β : Type}

def CallPc.hands : CallPc → List Packet
  | .sending s => s.hands
  | _ => []

def NetworkPc.hands : NetworkPc → List Packet
  | .sending s => s.hands
  | _ => []

namespace Socket

/-- The packets that are on their way through the threads. -/
def hands (s : Socket α β) : List Packet := s.network.hands ++ s.calls.flatMap (·.pc.hands)

/-- Each packet that was made is in one place. -/
def Kept (s : Socket α β) : Prop :=
  s.made.Perm (s.sent ++ s.packet_queue ++ s.dropped ++ s.hands)

/-! ## One step of sending -/

/-- What is left to send, when there is something. -/
def leftHands (rest : Option Sending) : List Packet := (rest.map Sending.hands).getD []

theorem send_frame (s : Socket α β) (sending : Sending) :
    (s.send sending).1 = { s with
      packet_queue := (s.send sending).1.packet_queue
      sent := (s.send sending).1.sent
      dropped := (s.send sending).1.dropped
      faulted := (s.send sending).1.faulted } := by
  cases sending with
  | guard p | connected p | sendFront front_pack p | send p =>
      unfold send
      dsimp only
      split <;> rfl
  | front p =>
      unfold send
      dsimp only
      split <;> rfl
  | push p => rfl

/-- It only moves packets. -/
theorem send_perm (s : Socket α β) (sending : Sending) :
    ((s.send sending).1.sent ++ (s.send sending).1.packet_queue ++ (s.send sending).1.dropped
        ++ leftHands (s.send sending).2).Perm
      (s.sent ++ s.packet_queue ++ s.dropped ++ sending.hands) := by
  classical
  refine List.perm_iff_count.mpr fun q => ?_
  cases sending with
  | guard p =>
      unfold send
      dsimp only
      split
      · rfl
      · simp [leftHands, Sending.hands, List.count_append]
  | connected p =>
      unfold send
      dsimp only
      split <;> rfl
  | front p =>
      unfold send
      dsimp only
      split
      · rename_i hempty
        rw [hempty]
        cases p <;> rfl
      · rename_i front_pack packet_queue hqueue
        rw [hqueue]
        simp [leftHands, Sending.hands, List.count_append, List.count_cons]
        omega
  | sendFront front_pack p =>
      unfold send
      dsimp only
      split
      · simp [leftHands, Sending.hands, clientSend, List.count_append, List.count_cons]
        omega
      · rfl
  | send p =>
      unfold send
      dsimp only
      split
      · simp [leftHands, Sending.hands, clientSend, List.count_append, List.count_cons]
        omega
      · rfl
  | push p =>
      simp [send, leftHands, Sending.hands, List.count_append, List.count_cons]

/-! ## Any step -/

section

variable {s s' : Socket α β}

theorem kept_iff (s : Socket α β) : Kept s ↔
    (s.made).Perm (s.network.hands ++ (s.calls.flatMap (·.pc.hands)
      ++ (s.sent ++ s.packet_queue ++ s.dropped))) := by
  have : (s.sent ++ s.packet_queue ++ s.dropped ++ s.hands).Perm
      (s.network.hands
        ++ (s.calls.flatMap (·.pc.hands) ++ (s.sent ++ s.packet_queue ++ s.dropped))) := by
    rw [hands, ← List.append_assoc s.network.hands]
    exact List.perm_append_comm
  exact ⟨fun h => h.trans this, fun h => h.trans this.symm⟩

/-- A call changes its place, the network thread stays. -/
theorem Kept.call (h : Kept s) {i : Nat} {c : Call α} (hc : s.calls[i]? = some c) (pc : CallPc)
    (made : List Packet) {t : Socket α β} (hcalls : t.calls = s.calls.set i { c with pc := pc })
    (hnetwork : t.network = s.network) (hmade : t.made = s.made ++ made)
    (hmoved : (pc.hands ++ (t.sent ++ t.packet_queue ++ t.dropped)).Perm
      (c.pc.hands ++ (s.sent ++ s.packet_queue ++ s.dropped) ++ made)) : Kept t := by
  classical
  rw [kept_iff] at h ⊢
  have hset := perm_flatMap_set (f := fun c : Call α => c.pc.hands) { c with pc := pc } hc
  refine List.perm_iff_count.mpr fun q => ?_
  have h1 := List.perm_iff_count.mp h q
  have h2 := List.perm_iff_count.mp hset q
  have h3 := List.perm_iff_count.mp hmoved q
  rw [hmade, hnetwork, hcalls]
  simp only [List.count_append] at h1 h2 h3 ⊢
  omega

/-- The network thread changes its place, the calls stay. -/
theorem Kept.networks (h : Kept s) (made : List Packet) {t : Socket α β}
    (hcalls : t.calls = s.calls) (hmade : t.made = s.made ++ made)
    (hmoved : (t.network.hands ++ (t.sent ++ t.packet_queue ++ t.dropped)).Perm
      (s.network.hands ++ (s.sent ++ s.packet_queue ++ s.dropped) ++ made)) : Kept t := by
  classical
  rw [kept_iff] at h ⊢
  refine List.perm_iff_count.mpr fun q => ?_
  have h1 := List.perm_iff_count.mp h q
  have h3 := List.perm_iff_count.mp hmoved q
  rw [hmade, hcalls]
  simp only [List.count_append] at h1 h3 ⊢
  omega

theorem callMoves_hands {pc pc' : CallPc} (h : CallMoves pc pc') :
    pc.hands = [] ∧ pc'.hands = [] := by
  cases h with
  | notClosed h => rcases h with rfl | rfl <;> exact ⟨rfl, rfl⟩
  | _ => exact ⟨rfl, rfl⟩

theorem callSends_hands {c : Call α} {p : Packet} (h : CallSends s c p) : c.pc.hands = [] := by
  cases h with
  | event hpc | disconnect hpc => rw [hpc]; rfl

theorem hands_rest (rest : Option Sending) :
    (((rest.map CallPc.sending).getD .returned).hands = leftHands rest)
      ∧ ((rest.map NetworkPc.sending).getD .idle).hands = leftHands rest := by
  cases rest <;> exact ⟨rfl, rfl⟩

theorem kept_step {a : SocketAct α β} (h : Kept s) (hs : Step s a s') : Kept s' := by
  cases hs with
  | same | fault | bind | otherReads | otherWrites => exact h
  | call c hpc =>
      have hnil : c.pc.hands = [] := by rcases hpc with hpc | hpc <;> rw [hpc] <;> rfl
      show s.made.Perm (_ ++ _ ++ _ ++ (_ ++ (s.calls ++ [c]).flatMap (·.pc.hands)))
      rw [List.flatMap_append, List.flatMap_singleton, hnil, List.append_nil]
      exact h
  | moves c pc hc hmoves =>
      obtain ⟨hfrom, hto⟩ := callMoves_hands hmoves
      refine h.call hc pc [] rfl rfl (List.append_nil _).symm ?_
      rw [hfrom, hto, List.append_nil]
      exact List.Perm.refl _
  | sends c p hc hsends =>
      refine h.call hc (.sending (.guard p)) [p] rfl rfl rfl ?_
      rw [callSends_hands hsends]
      exact List.perm_append_comm
  | eventId c hc hpc =>
      refine h.call hc (.increment s.global_event_id) [] rfl rfl (List.append_nil _).symm ?_
      rw [hpc, List.append_nil]
      exact List.Perm.refl _
  | increment c pack_id hc hpc =>
      refine h.call hc (.setAck pack_id) [] rfl rfl (List.append_nil _).symm ?_
      rw [hpc, List.append_nil]
      exact List.Perm.refl _
  | setAck c pack_id ack hc hpc hack =>
      let p := Packet.ofMessage s.nsp c.message pack_id.toInt32 false
      refine h.call hc (.sending (.guard p)) [p] rfl rfl rfl ?_
      rw [hpc]
      exact List.perm_append_comm
  | sending c sending hc hpc =>
      have hframe := send_frame s sending
      refine h.call hc (((s.send sending).2.map .sending).getD .returned) [] ?_ ?_ ?_ ?_
      · rw [hframe]
        rfl
      · rw [hframe]
        rfl
      · rw [hframe, List.append_nil]
        rfl
      · rw [(hands_rest _).1, List.append_nil, hpc]
        exact List.perm_append_comm.trans ((send_perm s sending).trans List.perm_append_comm)
  | sendConnect ha hidle =>
      let p := Packet.ofType typeConnect s.nsp .nullptr
      refine h.networks [p] rfl rfl ?_
      show (s.network.hands ++ ((s.sent ++ [p]) ++ s.packet_queue ++ s.dropped)).Perm _
      rw [List.append_assoc s.network.hands]
      refine List.Perm.append_left _ ?_
      rw [List.append_assoc s.sent, List.append_assoc, List.append_assoc s.sent,
        List.append_assoc s.sent]
      refine List.Perm.append_left _ ?_
      rw [List.append_assoc]
      exact List.perm_append_comm
  | leaves ha hidle hleaves =>
      refine h.networks [] ?_ ?_ ?_
      · cases hleaves <;> rfl
      · cases hleaves <;> exact (List.append_nil _).symm
      · rw [hidle, List.append_nil]
        cases hleaves <;> exact List.Perm.refl _
  | listens msgId e ha hidle hneed =>
      refine h.networks [] rfl (List.append_nil _).symm ?_
      rw [hidle, List.append_nil]
      exact List.Perm.refl _
  | unheard msgId e ha hidle hneed => exact h
  | answers msgId e ha hidle hneed =>
      refine h.networks [.ofMessage s.nsp (.array []) msgId true] rfl rfl ?_
      rw [hidle]
      exact List.perm_append_comm
  | acked msgId message l ha hidle hl => exact h
  | unknown msgId message ha hidle hl => exact h
  | @listened ack_message msgId hlistening hid =>
      refine h.networks [.ofMessage s.nsp (.array ack_message) msgId true] rfl rfl ?_
      rw [hlistening]
      exact List.perm_append_comm
  | ignored msgId hlistening hid =>
      refine h.networks [] rfl (List.append_nil _).symm ?_
      rw [hlistening, List.append_nil]
      exact List.Perm.refl _
  | networkSending sending hsending =>
      have hframe := send_frame s sending
      refine h.networks [] ?_ ?_ ?_
      · rw [hframe]
      · rw [hframe, List.append_nil]
      · rw [(hands_rest _).2, List.append_nil, hsending]
        exact List.perm_append_comm.trans ((send_perm s sending).trans List.perm_append_comm)
  | closing hclosing =>
      refine h.networks [] rfl (List.append_nil _).symm ?_
      rw [hclosing, List.append_nil]
      exact List.Perm.refl _
  | clearing hclearing =>
      refine h.networks [] rfl (List.append_nil _).symm ?_
      rw [hclearing]
      show (s.sent ++ [] ++ (s.dropped ++ s.packet_queue)).Perm
          (s.sent ++ s.packet_queue ++ s.dropped ++ [])
      rw [List.append_nil, List.append_nil, List.append_assoc]
      exact List.Perm.append_left _ List.perm_append_comm

/-! ## What is dropped -/

/-- The socket has not been left, nor is it about to be. -/
structure Open (s : Socket α β) : Prop where
  client : s.client = true
  dropped : s.dropped = []
  network : s.network ≠ .closing ∧ s.network ≠ .clearing

theorem open_new (nsp : List LexerChar) (id : UInt32) : Open (Socket.new nsp id : Socket α β) :=
  ⟨rfl, rfl, nofun, nofun⟩

theorem Open.send (h : Open s) (sending : Sending) :
    (s.send sending).1.client = true ∧ (s.send sending).1.dropped = [] := by
  refine ⟨by rw [send_frame]; exact h.client, ?_⟩
  cases sending with
  | guard p =>
      unfold Socket.send
      dsimp only
      rw [if_pos h.client]
      exact h.dropped
  | connected p | sendFront front_pack p | send p =>
      unfold Socket.send
      dsimp only
      split <;> exact h.dropped
  | front p =>
      unfold Socket.send
      dsimp only
      split <;> exact h.dropped
  | push p => exact h.dropped

theorem rest_open (rest : Option Sending) :
    (rest.map NetworkPc.sending).getD .idle ≠ .closing
      ∧ (rest.map NetworkPc.sending).getD .idle ≠ .clearing := by
  cases rest <;> exact ⟨nofun, nofun⟩

theorem open_step {a : SocketAct α β} (h : Open s) (ha : a.closes = false) (hs : Step s a s') :
    Open s' := by
  cases hs with
  | same | fault | bind | otherReads | otherWrites | call | moves | sends | eventId | increment
      | setAck | sendConnect | unheard | acked | unknown => exact ⟨h.client, h.dropped, h.network⟩
  | sending c sending hc hpc =>
      obtain ⟨hclient, hdropped⟩ := h.send sending
      refine ⟨hclient, hdropped, ?_⟩
      show (s.send sending).1.network ≠ _ ∧ (s.send sending).1.network ≠ _
      rw [send_frame]
      exact h.network
  | leaves hnet hidle hleaves =>
      cases hleaves with
      | onConnected => exact ⟨h.client, h.dropped, nofun, nofun⟩
      | onClose hcloses | onDisconnect hcloses => exact absurd hcloses (by simp [ha])
  | listens | answers | listened | ignored => exact ⟨h.client, h.dropped, nofun, nofun⟩
  | networkSending sending hsending =>
      obtain ⟨hclient, hdropped⟩ := h.send sending
      exact ⟨hclient, hdropped, rest_open _⟩
  | closing hclosing => exact absurd hclosing h.network.1
  | clearing hclearing => exact absurd hclearing h.network.2

end

/-- What is asked of a run for nothing to be dropped in it. -/
theorem open_run {s t : Socket α β} {as : List (SocketAct α β)} (hr : Run step NoGuard s as t)
    (h : Open s) (has : ∀ a ∈ as, a.closes = false) : Open t := by
  induction hr with
  | nil => exact h
  | snoc _ _ hst ih =>
      refine open_step (ih fun a ha => has a (List.mem_append_left _ ha)) ?_ (step_cases hst).2
      exact has _ (List.mem_append_right _ (List.mem_singleton_self _))

/--
**No packet is lost or sent twice.** Whatever the threads do, and however they take turns,
every packet that was made has been sent once, or waits in the queue, or is in the hands
of one thread, or was dropped; and none is dropped as long as the socket is neither closed
nor disconnected.
-/
theorem packets_run {nsp : List LexerChar} {id : UInt32} {as : List (SocketAct α β)}
    {t : Socket α β} (hr : Run step NoGuard (Socket.new nsp id) as t) :
    t.made.Perm (t.sent ++ t.packet_queue ++ t.dropped ++ t.hands)
      ∧ ((∀ a ∈ as, a.closes = false) → t.dropped = []) := by
  refine ⟨?_, fun has => (open_run hr (open_new nsp id) has).dropped⟩
  exact hr.invariant (I := Kept) (List.Perm.refl _) fun hk _ hst => kept_step hk (step_cases hst).2

/-- A packet made before the connection, one after it, and what the queue has in between. -/
def connecting : List (SocketAct Unit Unit) :=
  [.emit "first" [] none, .run 0, .run 0, .run 0, .emit "second" [] (some ()), .run 0,
    .onMessagePacket (.ofType typeConnect (ascii "/") .nullptr), .run 1, .run 1, .run 1, .network,
    .run 1, .run 1, .run 1, .network, .run 1, .run 1]

theorem packets_run_connecting :
    ∃ t : Socket Unit Unit, exec step (Socket.new (ascii "/") 1) connecting = some t
      ∧ (t.sent.length = 2 ∧ t.packet_queue.isEmpty = true)
      ∧ t.made.Perm (t.sent ++ t.packet_queue ++ t.dropped ++ t.hands)
      ∧ ((∀ a ∈ connecting, a.closes = false) → t.dropped = []) := by
  have hexec : (exec step (Socket.new (ascii "/") 1 : Socket Unit Unit) connecting).any
      (fun t => t.sent.length == 2 && t.packet_queue.isEmpty) = true := rfl
  obtain ⟨t, ht, hp⟩ := exists_of_exec hexec
  exact ⟨t, ht, by simpa using hp, packets_run (run_of_exec ht)⟩

end Socket

end HandlingModule.Sio
