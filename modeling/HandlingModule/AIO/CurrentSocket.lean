import HandlingModule.AIO.CommunicationChannel
import Mathlib.Data.List.Flatten

/-!
# The socket the module emits on (`socket::impl`, `client_impl`)

What is emitted while the socket is not connected waits in the socket's queue, and a drop
empties the queue of a connected socket. No mutex is held from the test of `m_connected`
to the push, nor over the sends, so the network thread may connect or drop the socket
while another thread is in `emit`. What is handed to the client goes on the connection at
once in the network thread; from the others it waits for the network thread.

The packets are messages here, of one socket and without acks.
-/

namespace HandlingModule.AIO

/-- A reply, or a report. -/
def Message.isReply (m : Message) : Bool :=
  match m.event with
  | .workAssignationReply | .workStatusReply | .actionFinished => true
  | _ => false

def Message.isRegistration (m : Message) : Bool := m.event == .registration

/-! ## `socket::impl` -/

/-- The threads that emit. -/
inductive Emitter where
  | main
  | network
  | consumer (i : Nat)
  deriving DecidableEq

/-- Where a thread is in `emit`, or the network thread in what the server or the client calls. -/
inductive SocketPc where
  /-- `NULL_GUARD(m_client)` -/
  | guard (m : Message)
  /-- `if(m_connected)` of `send_packet` -/
  | connected (m : Message)
  /-- The head of the loop of `send_packet`, or of `on_connected`, which has no own packet. -/
  | front (m : Option Message)
  | sendFront (front_pack : Message) (m : Option Message)
  | send (m : Message)
  | push (m : Message)
  | returned
  /-- `on_close`, before `m_connected = false` -/
  | closing
  /-- Before the queue is emptied. -/
  | clearing

/-- The packets a thread has in its hands. -/
def SocketPc.hands : SocketPc → List Message
  | .guard m | .connected m | .send m | .push m => [m]
  | .front m => m.toList
  | .sendFront front_pack m => front_pack :: m.toList
  | .returned | .closing | .clearing => []

def SocketPc.isReturned : SocketPc → Bool
  | .returned => true
  | _ => false

/--
`client` says that `m_client` is not null, `opened` that `m_con_state` is `con_opened`;
`tasks` are the calls of `send_impl` that wait for the network thread, and `faulted` is set
when the null pointer has been used. `opens` and `sent` are records: how often the
connection was opened, and every packet that went on it, with the number of the connection.
-/
structure Socket where
  client : Bool
  opened : Bool
  connected : Bool
  queue : List Message
  threads : List (Emitter × SocketPc)
  tasks : List Message
  faulted : Bool
  opens : Nat
  sent : List (Nat × Message)

namespace Socket

def new : Socket := ⟨true, false, false, [], [], [], false, 0, []⟩

def pc (s : Socket) (e : Emitter) : Option SocketPc := s.threads.lookup e

/-- The thread has left the socket. -/
def leave (s : Socket) (e : Emitter) : Socket :=
  { s with threads := s.threads.filter (·.1 != e) }

def setPc (s : Socket) (e : Emitter) (pc : SocketPc) : Socket :=
  { s with threads := (e, pc) :: s.threads.filter (·.1 != e) }

/-- `emit`; the packet is made of the message. -/
def emit (s : Socket) (e : Emitter) (m : Message) : Socket := s.setPc e (.guard m)

/-- `send_impl`; without a connection the payload is lost. -/
def sendImpl (s : Socket) (m : Message) : Socket :=
  if s.opened then { s with sent := s.sent ++ [(s.opens, m)] } else s

/-- `m_client->send(p)`: `send_impl` is called in the network thread and posted elsewhere. -/
def clientSend (s : Socket) (e : Emitter) (m : Message) : Socket :=
  if e = .network then s.sendImpl m else { s with tasks := s.tasks ++ [m] }

/-- One step of a thread that is in the socket. -/
def advance (s : Socket) (e : Emitter) : SocketPc → Option Socket
  | .guard m => some (s.setPc e (if s.client then .connected m else .returned))
  | .connected m => some (s.setPc e (if s.connected then .front (some m) else .push m))
  | .front m =>
      match s.queue with
      | [] => some (m.elim (s.leave e) (fun m => s.setPc e (.send m)))
      | front_pack :: queue => some ({ s with queue := queue }.setPc e (.sendFront front_pack m))
  | .sendFront front_pack m =>
      if s.client then some ((s.clientSend e front_pack).setPc e (.front m))
      else some { s with faulted := true }
  | .send m =>
      if s.client then some ((s.clientSend e m).setPc e .returned)
      else some { s with faulted := true }
  | .push m => some ({ s with queue := s.queue ++ [m] }.setPc e .returned)
  | .closing => some ({ s with connected := false }.setPc e .clearing)
  | .clearing => some ({ s with queue := [] }.leave e)
  | .returned => none

/-- A `send_impl` that was posted. -/
def runTask (s : Socket) : Option Socket :=
  match s.tasks with
  | [] => none
  | m :: tasks => some ({ s with tasks := tasks }.sendImpl m)

/-- `client_impl::socket`: a socket that was closed has been removed, and another is made. -/
def socket (s : Socket) : Socket :=
  match s.pc .network with
  | none => { s with client := true }
  | some _ => s

/-- `client_impl::on_open`; `on_open` of the socket sends nothing, its namespace is `/`. -/
def onOpen (s : Socket) : Socket := { s with opened := true, opens := s.opens + 1 }

/-- `on_connected`, when the server's `CONNECT` packet has come. -/
def onConnected (s : Socket) : Socket :=
  if s.connected then s else { s with connected := true }.setPc .network (.front none)

/-- `on_close` of the socket, when the server's `DISCONNECT` packet has come. -/
def onClose (s : Socket) : Socket := { s with client := false }.setPc .network .closing

/-- `client_impl::on_close`, with `on_disconnect` of the socket. -/
def onDisconnect (s : Socket) : Socket :=
  if s.client ∧ s.connected then
    { s with opened := false, connected := false }.setPc .network .clearing
  else { s with opened := false }

/-! ### What a step does with the packets -/

/-- Everything there is of packets. -/
def packets (s : Socket) : List Message :=
  s.sent.map Prod.snd ++ s.tasks ++ s.queue ++ s.threads.flatMap (·.2.hands)

def count (p : Message → Bool) (s : Socket) : Nat := s.packets.countP p

/-- A step that makes no packet: one may be sent on the connection there is, some may be lost. -/
structure Moves (s t : Socket) : Prop where
  opens : t.opens = s.opens
  sent : t.sent = s.sent ∨ ∃ m, t.sent = s.sent ++ [(s.opens, m)]
  count : ∀ p, t.count p ≤ s.count p

theorem Moves.refl (s : Socket) : Moves s s := ⟨rfl, Or.inl rfl, fun _ => Nat.le_refl _⟩

section

variable {s t : Socket} {e : Emitter} (p : Message → Bool)

/-- What the threads have in their hands. -/
def held (threads : List (Emitter × SocketPc)) : Nat :=
  (threads.flatMap (·.2.hands)).countP p

theorem count_eq (s : Socket) : s.count p
    = (s.sent.map Prod.snd).countP p + s.tasks.countP p + s.queue.countP p + held p s.threads := by
  rw [count, packets, List.countP_append, List.countP_append, List.countP_append]
  rfl

theorem held_cons (e : Emitter) (pc : SocketPc) (threads : List (Emitter × SocketPc)) :
    held p ((e, pc) :: threads) = pc.hands.countP p + held p threads := by
  rw [held, List.flatMap_cons, List.countP_append]
  rfl

theorem held_filter_le (e : Emitter) (threads : List (Emitter × SocketPc)) :
    held p (threads.filter (·.1 != e)) ≤ held p threads :=
  (List.filter_sublist.flatMap _).countP_le

/-- The others and the thread hold what they hold. -/
theorem held_lookup {pc : SocketPc} {threads : List (Emitter × SocketPc)}
    (h : threads.lookup e = some pc) :
    pc.hands.countP p + held p (threads.filter (·.1 != e)) ≤ held p threads := by
  induction threads with
  | nil => exact absurd h (by simp)
  | cons th threads ih =>
      obtain ⟨e', pc'⟩ := th
      rw [List.lookup_cons] at h
      by_cases he : e = e'
      · subst he
        rw [beq_self_eq_true] at h
        obtain rfl : pc' = pc := Option.some.inj h
        rw [List.filter_cons, if_neg (by simp), held_cons]
        exact Nat.add_le_add_left (held_filter_le p e threads) _
      · rw [beq_false_of_ne he] at h
        have hrest := ih h
        rw [List.filter_cons, if_pos (bne_iff_ne.mpr (Ne.symm he)), held_cons, held_cons]
        omega

/-- A thread goes on with what it has. -/
theorem held_setPc {pc pc' : SocketPc} (h : s.pc e = some pc) :
    held p (s.setPc e pc').threads + pc.hands.countP p
      ≤ held p s.threads + pc'.hands.countP p := by
  have hlookup := held_lookup p h
  rw [setPc, held_cons]
  omega

end

section

variable {s t : Socket} {e : Emitter}

theorem leave_moves (s : Socket) (e : Emitter) : Moves s (s.leave e) := by
  refine ⟨rfl, Or.inl rfl, fun p => ?_⟩
  rw [count_eq, count_eq]
  exact Nat.add_le_add_left (held_filter_le p e s.threads) _

theorem count_emit (p : Message → Bool) (s : Socket) (e : Emitter) (m : Message) :
    (s.emit e m).count p ≤ s.count p + if p m = true then 1 else 0 := by
  have hheld : held p (s.emit e m).threads
      ≤ held p s.threads + if p m = true then 1 else 0 := by
    rw [emit, setPc, held_cons]
    have hrest := held_filter_le p e s.threads
    have hone : (SocketPc.guard m).hands.countP p = if p m = true then 1 else 0 :=
      List.countP_singleton ..
    omega
  rw [count_eq, count_eq]
  show _ + _ + _ + held p (s.emit e m).threads ≤ _
  exact (Nat.add_le_add_left hheld _).trans_eq (Nat.add_assoc ..).symm

/-- The packet that is handed over is sent, or posted, or lost. -/
theorem clientSend_moves (s : Socket) (e : Emitter) (m : Message) :
    (s.clientSend e m).opens = s.opens
      ∧ ((s.clientSend e m).sent = s.sent ∨ (s.clientSend e m).sent = s.sent ++ [(s.opens, m)])
      ∧ (s.clientSend e m).queue = s.queue ∧ (s.clientSend e m).threads = s.threads
      ∧ ∀ p, ((s.clientSend e m).sent.map Prod.snd).countP p + (s.clientSend e m).tasks.countP p
          ≤ (s.sent.map Prod.snd).countP p + s.tasks.countP p + [m].countP p := by
  unfold clientSend sendImpl
  split
  · split
    · refine ⟨rfl, Or.inr rfl, rfl, rfl, fun p => ?_⟩
      simp only [List.map_append, List.countP_append, List.map_cons, List.map_nil]
      omega
    · exact ⟨rfl, Or.inl rfl, rfl, rfl, fun p => Nat.le_add_right _ _⟩
  · refine ⟨rfl, Or.inl rfl, rfl, rfl, fun p => ?_⟩
    simp only [List.countP_append]
    omega

theorem clientSend_setPc_moves {pc pc' : SocketPc} (h : s.pc e = some pc) (m : Message)
    (hhands : pc.hands = m :: pc'.hands) : Moves s ((s.clientSend e m).setPc e pc') := by
  obtain ⟨hopens, hsent, hqueue, hthreads, hcount⟩ := clientSend_moves s e m
  refine ⟨hopens, hsent.imp_right fun h => ⟨m, h⟩, fun p => ?_⟩
  have hpc : (s.clientSend e m).pc e = some pc := by rw [Socket.pc, hthreads]; exact h
  have hheld : held p ((s.clientSend e m).setPc e pc').threads + pc.hands.countP p
      ≤ held p (s.clientSend e m).threads + pc'.hands.countP p := held_setPc p hpc
  have hle := hcount p
  rw [hthreads, hhands, List.countP_cons] at hheld
  rw [List.countP_singleton] at hle
  rw [count_eq, count_eq]
  show _ + _ + (s.clientSend e m).queue.countP p + _ ≤ _
  rw [hqueue]
  show ((s.clientSend e m).sent.map Prod.snd).countP p + (s.clientSend e m).tasks.countP p
    + _ + _ ≤ _
  omega

/-- A thread goes on, and the queue may have changed with it. -/
theorem setPc_moves {pc pc' : SocketPc} (h : s.pc e = some pc) (u : Socket)
    (hopens : u.opens = s.opens) (hsent : u.sent = s.sent) (htasks : u.tasks = s.tasks)
    (hthreads : u.threads = s.threads)
    (hhands : ∀ p, u.queue.countP p + pc'.hands.countP p ≤ s.queue.countP p + pc.hands.countP p) :
    Moves s (u.setPc e pc') := by
  refine ⟨hopens, Or.inl hsent, fun p => ?_⟩
  have hpc : u.pc e = some pc := by rw [Socket.pc, hthreads]; exact h
  have hheld : held p (u.setPc e pc').threads + pc.hands.countP p
      ≤ held p u.threads + pc'.hands.countP p := held_setPc p hpc
  have hle := hhands p
  rw [hthreads] at hheld
  rw [count_eq, count_eq]
  show (u.sent.map Prod.snd).countP p + u.tasks.countP p + u.queue.countP p + _ ≤ _
  rw [hsent, htasks]
  omega

theorem advance_moves {pc : SocketPc} (h : s.pc e = some pc) (hs : s.advance e pc = some t) :
    Moves s t := by
  cases pc with
  | guard m =>
      rw [← Option.some.inj hs]
      refine setPc_moves h s rfl rfl rfl rfl fun p => Nat.add_le_add_left ?_ _
      split
      · exact Nat.le_refl _
      · exact Nat.zero_le _
  | connected m =>
      rw [← Option.some.inj hs]
      refine setPc_moves h s rfl rfl rfl rfl fun p => Nat.add_le_add_left ?_ _
      split <;> exact Nat.le_refl _
  | front m =>
      unfold advance at hs
      dsimp only at hs
      split at hs
      · rw [← Option.some.inj hs]
        cases m with
        | none => exact leave_moves s e
        | some m => exact setPc_moves h s rfl rfl rfl rfl fun p => Nat.le_refl _
      · rename_i front_pack queue hqueue
        rw [← Option.some.inj hs]
        refine setPc_moves h { s with queue := queue } rfl rfl rfl rfl fun p => ?_
        show queue.countP p + (front_pack :: m.toList).countP p ≤ _
        rw [hqueue, SocketPc.hands, List.countP_cons, List.countP_cons]
        omega
  | sendFront front_pack m =>
      unfold advance at hs
      dsimp only at hs
      split at hs
      · rw [← Option.some.inj hs]
        exact clientSend_setPc_moves h front_pack rfl
      · rw [← Option.some.inj hs]
        exact ⟨rfl, Or.inl rfl, fun _ => Nat.le_refl _⟩
  | send m =>
      unfold advance at hs
      dsimp only at hs
      split at hs
      · rw [← Option.some.inj hs]
        exact clientSend_setPc_moves h m rfl
      · rw [← Option.some.inj hs]
        exact ⟨rfl, Or.inl rfl, fun _ => Nat.le_refl _⟩
  | push m =>
      rw [← Option.some.inj hs]
      refine setPc_moves h { s with queue := s.queue ++ [m] } rfl rfl rfl rfl fun p => ?_
      rw [List.countP_append]
      exact Nat.le_refl _
  | closing =>
      rw [← Option.some.inj hs]
      exact setPc_moves h { s with connected := false } rfl rfl rfl rfl fun _ => Nat.le_refl _
  | clearing =>
      rw [← Option.some.inj hs]
      refine ⟨rfl, Or.inl rfl, fun p => ?_⟩
      have hrest := held_filter_le p e s.threads
      rw [count_eq, count_eq]
      show (s.sent.map Prod.snd).countP p + s.tasks.countP p + ([] : List Message).countP p
        + held p (s.threads.filter (·.1 != e)) ≤ _
      rw [List.countP_nil]
      omega
  | returned => exact absurd hs (by simp [advance])

theorem sendImpl_moves {m : Message} {tasks : List Message} (h : s.tasks = m :: tasks) :
    Moves s ({ s with tasks := tasks }.sendImpl m) := by
  have htasks : ∀ p, s.tasks.countP p = tasks.countP p + if p m = true then 1 else 0 := by
    intro p
    rw [h, List.countP_cons]
  unfold sendImpl
  split
  · refine ⟨rfl, Or.inr ⟨m, rfl⟩, fun p => ?_⟩
    rw [count_eq, count_eq, htasks]
    simp only [List.map_append, List.countP_append, List.map_cons, List.map_nil,
      List.countP_singleton]
    omega
  · refine ⟨rfl, Or.inl rfl, fun p => ?_⟩
    rw [count_eq, count_eq, htasks]
    dsimp only
    omega

theorem runTask_moves (h : s.runTask = some t) : Moves s t := by
  unfold runTask at h
  split at h
  · exact absurd h (by simp)
  · rename_i m tasks htasks
    rw [← Option.some.inj h]
    exact sendImpl_moves htasks

/-- The network thread goes into the socket with no packet. -/
theorem setPc_network_moves (s u : Socket) (pc : SocketPc) (hpc : pc.hands = [])
    (hopens : u.opens = s.opens) (hpackets : u.packets = s.packets) (hsent : u.sent = s.sent) :
    Moves s (u.setPc .network pc) := by
  refine ⟨hopens, Or.inl hsent, fun p => ?_⟩
  have hrest := held_filter_le p .network u.threads
  have hcount : u.count p = s.count p := by rw [count, count, hpackets]
  have hheld : held p (u.setPc .network pc).threads ≤ held p u.threads := by
    rw [setPc, held_cons, hpc, List.countP_nil, Nat.zero_add]
    exact hrest
  rw [← hcount, count_eq, count_eq]
  exact Nat.add_le_add_left hheld _

theorem socket_moves (s : Socket) : Moves s s.socket ∧ s.socket.sent = s.sent := by
  unfold socket
  split
  · exact ⟨⟨rfl, Or.inl rfl, fun _ => Nat.le_refl _⟩, rfl⟩
  · exact ⟨Moves.refl s, rfl⟩

theorem onConnected_moves (s : Socket) : Moves s s.onConnected := by
  unfold onConnected
  split
  · exact Moves.refl s
  · exact setPc_network_moves s { s with connected := true } _ rfl rfl rfl rfl

theorem onClose_moves (s : Socket) : Moves s s.onClose :=
  setPc_network_moves s { s with client := false } _ rfl rfl rfl rfl

theorem onDisconnect_moves (s : Socket) : Moves s s.onDisconnect := by
  unfold onDisconnect
  split
  · exact setPc_network_moves s { s with opened := false, connected := false } _ rfl rfl rfl rfl
  · exact ⟨rfl, Or.inl rfl, fun _ => Nat.le_refl _⟩

end

end Socket

end HandlingModule.AIO
