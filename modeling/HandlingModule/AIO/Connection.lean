import HandlingModule.AIO.CurrentSocket
import HandlingModule.AIO.ExactlyOnce

/-!
# The connection under the channel (`CommunicationChannel::start`, the socket.io client)

The client opens the connection, and opens it again by itself when it has dropped. The
network thread does so between the events it handles, and so does what the server sends
about the socket. An attempt to connect that fails changes nothing here.

`Session` is the world with the socket, the client and the main thread. A thread that
emits stays in the socket until it is through with its packet, and keeps what mutex it
holds.
-/

namespace HandlingModule.AIO

open Serial Transition

variable {δ A : Type} {parse : String → Option Json} {dev : Device δ A}

/-! ## The session -/

/-- The statement the main thread has reached in `start`, after `h.connect(url)`. -/
inductive MainPc where
  | getConnectFinished
  | wait
  | bindEvents
  | subscription
  /-- In the `emit` of `subscription`. -/
  | emitting
  | started
  deriving DecidableEq

/-- The listeners of the events are there. -/
def MainPc.bound : MainPc → Bool
  | .subscription | .emitting | .started => true
  | _ => false

/-- The `REGISTRATION` has been made. -/
def MainPc.registers : MainPc → Bool
  | .emitting | .started => true
  | _ => false

/-- A listener of the client that the network thread is in. -/
inductive ClientPc where
  | idle
  | openListener
  | closeListener
  deriving DecidableEq

/-- The process. -/
structure Session (δ : Type) where
  world : World δ
  current_socket : Socket
  main : MainPc
  client : ClientPc
  connect_finished : Bool
  module_info : Json
  running : Bool

/--
A step of the connection, of the main thread, or of the rest. `emit` begins the `emit` of
the thread that takes the step `a`, `send` is a step of a thread in it, and `world` goes on
when it has returned.
-/
inductive SessionAct (A : Type) where
  | opened
  | openListener
  | connected
  | disconnected
  | dropped
  | closed
  | closeListener
  | sendImpl
  | start
  | emit (a : Act A)
  | send (e : Emitter)
  | world (a : Act A)

def NetworkPc.isIdle : NetworkPc → Bool
  | .idle => true
  | _ => false

/-- The thread whose next step is `a`, and what it is about to emit. -/
def World.emits (w : World δ) : Act A → Option (Emitter × Message)
  | .answer =>
      match w.network with
      | .answering m => some (.network, m)
      | _ => none
  | .consumeService i _ => do
      let c ← w.consumers[i]?
      match c.pc with
      | .emit reply_info => some (.consumer i, ⟨.actionFinished, reply_info⟩)
      | _ => none
  | _ => none

namespace Session

/-- Before anything is connected; `Module::start` has put the module's id into its information. -/
def start (module_id : String) (d : δ) : Session δ :=
  let w := World.start module_id d
  { world := { w with channel := { w.channel with emitted := [] } }
    current_socket := Socket.new
    main := .getConnectFinished
    client := .idle
    connect_finished := false
    module_info := w.channel.services.moduleInfo module_id
    running := true }

def alive (s : Session δ) : Bool := s.running && !s.current_socket.faulted

/-- The network thread is at nothing, and takes what comes next. -/
def idle (s : Session δ) : Bool :=
  s.alive && s.world.network.isIdle && s.client == .idle && (s.current_socket.pc .network).isNone

/-- The socket at the opening: the client makes one, but `start` keeps the one it has got. -/
def onOpen (s : Session δ) : Socket :=
  (if s.main.bound then s.current_socket else s.current_socket.socket).onOpen

/-- An event is heard on an open connection once `bind_events` is done. -/
def hears (s : Session δ) : Act A → Bool
  | .receive _ _ => s.idle && s.main.bound && s.current_socket.opened && s.current_socket.client
  | _ => true

/-- The thread is through with its `emit`. -/
def hasReturned (s : Session δ) (e : Emitter) : Bool :=
  (s.current_socket.pc e).any SocketPc.isReturned

/-- `CommunicationChannel::start`, one statement. -/
def startStep (s : Session δ) : Option (Session δ) :=
  match s.main with
  | .getConnectFinished =>
      if s.world.channel.mutex = true then none
      else some { s with main := if s.connect_finished then .bindEvents else .wait }
  -- a condition variable may wake by itself
  | .wait => if s.world.channel.mutex = true then none else some { s with main := .bindEvents }
  | .bindEvents => some { s with
      main := .subscription
      current_socket := s.current_socket.socket }
  | .subscription => some { s with
      main := .emitting
      current_socket := s.current_socket.emit .main ⟨.registration, s.module_info⟩ }
  | .emitting =>
      if s.hasReturned .main then
        some { s with main := .started, current_socket := s.current_socket.leave .main }
      else none
  | .started => none

/-- The thread begins to emit. -/
def emitStep (s : Session δ) (a : Act A) : Option (Session δ) := do
  let (e, m) ← s.world.emits a
  if (s.current_socket.pc e).isNone then
    return { s with current_socket := s.current_socket.emit e m }
  else none

/-- A step of the rest; one that emits has to be through with it. -/
def worldStep (parse : String → Option Json) (dev : Device δ A) (s : Session δ) (a : Act A) :
    Option (Session δ) :=
  match s.world.emits a with
  | none => (s.world.step parse dev a).map fun w => { s with world := w }
  | some (e, _) =>
      if s.hasReturned e then
        (s.world.step parse dev a).map fun w =>
          { s with world := w, current_socket := s.current_socket.leave e }
      else none

/-- One step of the process. -/
def step (parse : String → Option Json) (dev : Device δ A) (s : Session δ) :
    SessionAct A → Option (Session δ)
  | .opened =>
      if s.idle && !s.current_socket.opened then
        some { s with current_socket := s.onOpen, client := .openListener }
      else none
  -- the listener of the opening takes the channel's mutex
  | .openListener =>
      if s.alive && s.client == .openListener && !s.world.channel.mutex then
        some { s with client := .idle, connect_finished := true }
      else none
  | .connected =>
      if s.idle && s.current_socket.opened && s.current_socket.client then
        some { s with current_socket := s.current_socket.onConnected }
      else none
  | .disconnected =>
      if s.idle && s.current_socket.opened && s.current_socket.client then
        some { s with current_socket := s.current_socket.onClose }
      else none
  -- closed with any code but `normal`: the client opens it again, and no listener hears of it
  | .dropped =>
      if s.idle && s.current_socket.opened then
        some { s with current_socket := s.current_socket.onDisconnect }
      else none
  -- closed with `normal`
  | .closed =>
      if s.idle && s.current_socket.opened then
        some { s with current_socket := s.current_socket.onDisconnect, client := .closeListener }
      else none
  -- the listener of the closing ends the process
  | .closeListener =>
      if s.alive && s.client == .closeListener && (s.current_socket.pc .network).isNone then
        some { s with running := false }
      else none
  | .sendImpl =>
      if s.idle then s.current_socket.runTask.map fun c => { s with current_socket := c } else none
  | .start => if s.alive then s.startStep else none
  | .emit a => if s.alive then s.emitStep a else none
  | .send e =>
      if s.alive then
        ((s.current_socket.pc e).bind (s.current_socket.advance e)).map fun c =>
          { s with current_socket := c }
      else none
  | .world a => if s.alive && s.hears a then s.worldStep parse dev a else none

/-! ## What a step can do -/

/-- The steps of the process, one constructor for each outcome. -/
inductive Step (parse : String → Option Json) (dev : Device δ A) (s : Session δ) :
    SessionAct A → Session δ → Prop where
  | opened (c : Socket) :
      s.current_socket.Moves c → c.sent = s.current_socket.sent →
      Step parse dev s .opened { s with current_socket := c.onOpen, client := .openListener }
  | socket {a : SessionAct A} {s' : Session δ} :
      s.current_socket.Moves s'.current_socket → s'.world = s.world → s'.main = s.main →
      Step parse dev s a s'
  | moved (pc : MainPc) (c : Socket) :
      s.main.registers = false → pc.registers = false → s.current_socket.Moves c →
      Step parse dev s .start { s with main := pc, current_socket := c }
  | subscribed :
      s.main = .subscription →
      Step parse dev s .start { s with
        main := .emitting
        current_socket := s.current_socket.emit .main ⟨.registration, s.module_info⟩ }
  | started :
      s.main = .emitting →
      Step parse dev s .start
        { s with main := .started, current_socket := s.current_socket.leave .main }
  | emits {a : Act A} (e : Emitter) (m : Message) :
      s.world.emits a = some (e, m) →
      Step parse dev s (.emit a) { s with current_socket := s.current_socket.emit e m }
  | world {a : Act A} (w : World δ) (c : Socket) :
      World.Step parse dev s.world a w → s.current_socket.Moves c →
      Step parse dev s (.world a) { s with world := w, current_socket := c }

variable {s s' : Session δ}

/-- Kept or got anew, the socket has the same packets. -/
theorem kept_or_socket (keep : Bool) (c : Socket) :
    c.Moves (if keep then c else c.socket) ∧ (if keep then c else c.socket).sent = c.sent := by
  split
  · exact ⟨Socket.Moves.refl c, rfl⟩
  · exact c.socket_moves

theorem startStep_cases (h : s.startStep = some s') : Step parse dev s .start s' := by
  unfold startStep at h
  cases hpc : s.main with
  | getConnectFinished =>
      simp only [hpc] at h
      obtain ⟨_, h⟩ := Option.ite_none_left_eq_some.mp h
      rw [← Option.some.inj h]
      exact Step.moved _ _ (by rw [hpc]; rfl) (by split <;> rfl) (Socket.Moves.refl _)
  | wait =>
      simp only [hpc] at h
      obtain ⟨_, h⟩ := Option.ite_none_left_eq_some.mp h
      rw [← Option.some.inj h]
      exact Step.moved _ _ (by rw [hpc]; rfl) rfl (Socket.Moves.refl _)
  | bindEvents =>
      simp only [hpc] at h
      rw [← Option.some.inj h]
      exact Step.moved _ _ (by rw [hpc]; rfl) rfl (Socket.socket_moves _).1
  | subscription =>
      simp only [hpc] at h
      rw [← Option.some.inj h]
      exact Step.subscribed hpc
  | emitting =>
      simp only [hpc] at h
      obtain ⟨_, h⟩ := Option.ite_none_right_eq_some.mp h
      rw [← Option.some.inj h]
      exact Step.started hpc
  | started => simp only [hpc] at h; exact absurd h (by simp)

theorem emitStep_cases {a : Act A} (h : s.emitStep a = some s') :
    Step parse dev s (.emit a) s' := by
  obtain ⟨⟨e, m⟩, hemits, h⟩ := Option.bind_eq_some_iff.mp h
  obtain ⟨_, h⟩ := Option.ite_none_right_eq_some.mp h
  rw [← Option.some.inj h]
  exact Step.emits e m hemits

theorem worldStep_cases {a : Act A} (h : s.worldStep parse dev a = some s') :
    Step parse dev s (.world a) s' := by
  unfold worldStep at h
  split at h
  · obtain ⟨w, hw, rfl⟩ := Option.map_eq_some_iff.mp h
    exact Step.world w s.current_socket (World.step_cases hw) (Socket.Moves.refl _)
  · rename_i e m hemits
    obtain ⟨_, h⟩ := Option.ite_none_right_eq_some.mp h
    obtain ⟨w, hw, rfl⟩ := Option.map_eq_some_iff.mp h
    exact Step.world w _ (World.step_cases hw) (Socket.leave_moves _ e)

/-- **Every step is one of these.** -/
theorem step_cases {a : SessionAct A} (h : s.step parse dev a = some s') :
    Step parse dev s a s' := by
  cases a with
  | opened =>
      obtain ⟨_, h⟩ := Option.ite_none_right_eq_some.mp h
      rw [← Option.some.inj h]
      obtain ⟨hmoves, hsame⟩ := kept_or_socket s.main.bound s.current_socket
      exact Step.opened _ hmoves hsame
  | openListener | closeListener =>
      obtain ⟨_, h⟩ := Option.ite_none_right_eq_some.mp h
      rw [← Option.some.inj h]
      exact Step.socket (Socket.Moves.refl _) rfl rfl
  | connected =>
      obtain ⟨_, h⟩ := Option.ite_none_right_eq_some.mp h
      rw [← Option.some.inj h]
      exact Step.socket (Socket.onConnected_moves _) rfl rfl
  | disconnected =>
      obtain ⟨_, h⟩ := Option.ite_none_right_eq_some.mp h
      rw [← Option.some.inj h]
      exact Step.socket (Socket.onClose_moves _) rfl rfl
  | dropped | closed =>
      obtain ⟨_, h⟩ := Option.ite_none_right_eq_some.mp h
      rw [← Option.some.inj h]
      exact Step.socket (Socket.onDisconnect_moves _) rfl rfl
  | sendImpl =>
      obtain ⟨_, h⟩ := Option.ite_none_right_eq_some.mp h
      obtain ⟨c, hc, rfl⟩ := Option.map_eq_some_iff.mp h
      exact Step.socket (Socket.runTask_moves hc) rfl rfl
  | start => exact startStep_cases (Option.ite_none_right_eq_some.mp h).2
  | emit a => exact emitStep_cases (Option.ite_none_right_eq_some.mp h).2
  | send e =>
      obtain ⟨_, h⟩ := Option.ite_none_right_eq_some.mp h
      obtain ⟨c, hc, rfl⟩ := Option.map_eq_some_iff.mp h
      obtain ⟨pc, hpc, hc⟩ := Option.bind_eq_some_iff.mp hc
      exact Step.socket (Socket.advance_moves hpc hc) rfl rfl
  | world a => exact worldStep_cases (Option.ite_none_right_eq_some.mp h).2

end Session

end HandlingModule.AIO
