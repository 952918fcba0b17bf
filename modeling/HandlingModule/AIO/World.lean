import HandlingModule.AIO.Listeners
import HandlingModule.Serial.Line

/-!
# The running module

`World` is everything at once: the network thread with the channel it works on, the
`all_begins` threads, the `consumeService` threads they start, and the serial line
with the device at its far end. `World.step` takes one atomic step of one of them.
No thread is kept from stepping by anything but the channel's mutex, which the
source takes only around a listener and around the `emit` of a report.

A step the code cannot take has no result: `front()` of an empty queue, a `lock`
while the mutex is held.
-/

namespace HandlingModule.AIO

open Serial

variable {δ A : Type}

/-- The network thread, between two atomic steps. -/
inductive NetworkPc where
  | idle
  | answering (m : Message)
  | thrown (e : Exn)

/-- An `ACTION_FINISHED`: the thread that emitted it, the ticket of its command, the message. -/
structure Report where
  consumer : Nat
  ticket : Nat
  data : Json

/-- A command written to the serial port: the group and ticket it was written for, and its code. -/
structure Frame where
  group_id : Int64
  ticket : Nat
  service : Int
  deriving DecidableEq

/-- `reports` and `frames` are records, in the order of the emissions and of the writes. -/
structure World (δ : Type) where
  channel : Channel
  network : NetworkPc
  creators : CreatorMap
  consumers : List Consumer
  line : Line δ
  reports : List Report
  frames : List Frame

/-- One step of one party. -/
inductive Act (A : Type) where
  | receive (event : CommunicationEvents) (payload : String)
  | answer
  | unwind
  | allBegins (i : Nat)
  | consumeService (i : Nat) (ok : Bool)
  | device (a : A)

/-- `HandlingModule::HandlingModule`: `addService(new CloseService()); addService(new OpenService())` -/
def handlingModule : Services × CreatorMap :=
  let (close, creators) := ServiceClass.closeService.create []
  let (open_, creators) := ServiceClass.openService.create creators
  ((Services.new.addService close).addService open_, creators)

/-- The module once `start` has registered it. -/
def World.start (module_id : String) (d : δ) : World δ :=
  let (services, creators) := handlingModule
  { channel :=
      { services := services
        module_id := module_id
        connected := false
        mutex := false
        emitted := [⟨.registration, services.moduleInfo module_id⟩]
        dispatchers := [] }
    network := .idle
    creators := creators
    consumers := []
    line := Line.start d
    reports := []
    frames := [] }

namespace World

/-- The command a thread is writing, if its call of `handlingService` is at `serialPuts`. -/
def writing (w : World δ) (c : Consumer) : List Frame :=
  match c.call.bind (fun k => w.line.calls[k]?) with
  | some hc =>
      if hc.pc = .serialPuts then [⟨c.group_id, c.commandInfo.ticket, hc.service⟩] else []
  | none => []

def setDispatcher (w : World δ) (i : Nat) (d : Dispatcher) : World δ :=
  { w with channel := { w.channel with dispatchers := w.channel.dispatchers.set i d } }

def setServices (w : World δ) (services : Services) : World δ :=
  { w with channel := { w.channel with services := services } }

def setConsumer (w : World δ) (i : Nat) (c : Consumer) : World δ :=
  { w with consumers := w.consumers.set i c }

/-- The network thread handles an event: everything up to the reply, if there is one. -/
def receive (parse : String → Option Json) (w : World δ) (event : CommunicationEvents)
    (payload : String) : Option (World δ) :=
  match w.network, Handler.listener parse event with
  | .idle, some listener =>
      -- the listener's first statement waits for the mutex
      if w.channel.mutex = true then none
      else match (listener payload).run w.channel with
        | .ok none ch => some { w with channel := ch }
        | .ok (some m) ch => some { w with channel := ch, network := .answering m }
        | .error e ch => some { w with channel := ch, network := .thrown e }
  | _, _ => none

/-- The network thread emits the reply and is done with the event. -/
def answer (w : World δ) : Option (World δ) :=
  match w.network with
  | .answering m =>
      match (Handler.answer m).run w.channel with
      | .ok _ ch => some { w with channel := ch, network := .idle }
      | .error e ch => some { w with channel := ch, network := .thrown e }
  | _ => none

/--
Going on after a listener has thrown. Nothing in the module catches the exception,
so the process really ends here; the runs that go on are there so that what is
proved of every run does not rest on that.
-/
def unwind (w : World δ) : Option (World δ) :=
  match w.network with
  | .thrown _ => some { w with network := .idle, channel := { w.channel with mutex := false } }
  | _ => none

/-- `all_begins`, one statement of thread `i`. -/
def allBegins (w : World δ) (i : Nat) : Option (World δ) := do
  let d ← w.channel.dispatchers[i]?
  match d.pc with
  | .setWorking =>
      return (w.setServices (w.channel.services.setWorking true)).setDispatcher i
        { d with pc := .groupId }
  | .groupId =>
      -- the flag is up already, and stays up if the conversion throws
      match d.groupId with
      | .ok group_id => return w.setDispatcher i { d with pc := .isEmptyCommands group_id }
      | .error e => return w.setDispatcher i { d with pc := .thrown e }
  | .isEmptyCommands group_id =>
      -- the test is one step and the pop another
      return w.setDispatcher i { d with
        pc := if w.channel.services.isEmptyCommands group_id then .clearWorking
          else .getNextWork group_id }
  | .getNextWork group_id =>
      let (commandInfo, services) ← w.channel.services.getNextWork group_id
      return (w.setServices services).setDispatcher i { d with pc := .newThread group_id commandInfo }
  | .newThread group_id commandInfo =>
      return { w.setDispatcher i { d with pc := .isEmptyCommands group_id } with
        consumers := w.consumers ++ [Consumer.start group_id commandInfo] }
  | .clearWorking =>
      return (w.setServices (w.channel.services.setWorking false)).setDispatcher i
        { d with pc := .ended }
  | .ended | .thrown _ => none

/-- `consumeService`, one statement of thread `i`. -/
def consumeService (dev : Device δ A) (w : World δ) (i : Nat) (ok : Bool) : Option (World δ) := do
  let c ← w.consumers[i]?
  match c.pc with
  | .createFromString =>
      match c.findService w.creators with
      | .error e => return w.setConsumer i { c with pc := .thrown e }
      -- the source means to report an error here and does not
      | .ok none => return w.setConsumer i { c with pc := .dropped }
      | .ok (some (responsible, creators, command)) =>
          let line ← w.line.step dev (.call responsible.class_.code)
          return { w.setConsumer i { c with
              pc := .execute responsible command
              call := some w.line.calls.length } with
            creators := creators
            line := line }
  | .execute responsible command =>
      -- `execute` is the call of `handlingService`, one statement at a time
      let k ← c.call
      let hc ← w.line.calls[k]?
      match hc.pc with
      | .returned code =>
          match Consumer.reply responsible code command with
          | .ok reply_info => return w.setConsumer i { c with pc := .lock reply_info }
          | .error e => return w.setConsumer i { c with pc := .thrown e }
      | _ =>
          let line ← w.line.step dev (.run k ok)
          return { w with line := line, frames := w.frames ++ w.writing c }
  | .lock reply_info =>
      if w.channel.mutex = true then none
      else return { w.setConsumer i { c with pc := .emit reply_info } with
        channel := { w.channel with mutex := true } }
  | .emit reply_info =>
      return { w.setConsumer i { c with pc := .unlock } with
        channel := { w.channel with
          emitted := w.channel.emitted ++ [⟨.actionFinished, reply_info⟩] }
        reports := w.reports ++ [⟨i, c.commandInfo.ticket, reply_info⟩] }
  | .unlock =>
      return { w.setConsumer i { c with pc := .ended } with
        channel := { w.channel with mutex := false } }
  | .ended | .dropped | .thrown _ => none

/-- One atomic step of the module. -/
def step (parse : String → Option Json) (dev : Device δ A) (w : World δ) : Act A → Option (World δ)
  | .receive event payload => w.receive parse event payload
  | .answer => w.answer
  | .unwind => w.unwind
  | .allBegins i => w.allBegins i
  | .consumeService i ok => w.consumeService dev i ok
  | .device a => do
      let line ← w.line.step dev (.device a)
      return { w with line := line }

/-! ## What a step can do -/

/-- The steps of the module, one constructor for each outcome of an atomic step. -/
inductive Step (parse : String → Option Json) (dev : Device δ A) (w : World δ) :
    Act A → World δ → Prop where
  | received {event : CommunicationEvents} {payload : String} (ch : Channel) :
      w.network = .idle → w.channel.mutex = false →
      Handler.Heard parse w.channel event payload (.ok none ch) →
      Step parse dev w (.receive event payload) { w with channel := ch }
  | replying {event : CommunicationEvents} {payload : String} (m : Message) (ch : Channel) :
      w.network = .idle → w.channel.mutex = false →
      Handler.Heard parse w.channel event payload (.ok (some m) ch) →
      Step parse dev w (.receive event payload) { w with channel := ch, network := .answering m }
  | threw {event : CommunicationEvents} {payload : String} (e : Exn) (ch : Channel) :
      w.network = .idle → w.channel.mutex = false →
      Handler.Heard parse w.channel event payload (.error e ch) →
      Step parse dev w (.receive event payload) { w with channel := ch, network := .thrown e }
  | answered (m : Message) :
      w.network = .answering m →
      Step parse dev w .answer { w with
        network := .idle
        channel := { w.channel with mutex := false, emitted := w.channel.emitted ++ [m] } }
  | unwound (e : Exn) :
      w.network = .thrown e →
      Step parse dev w .unwind { w with
        network := .idle, channel := { w.channel with mutex := false } }
  | workingSet {i : Nat} (d : Dispatcher) :
      w.channel.dispatchers[i]? = some d → d.pc = .setWorking →
      Step parse dev w (.allBegins i)
        ((w.setServices (w.channel.services.setWorking true)).setDispatcher i
          { d with pc := .groupId })
  | grouped {i : Nat} (d : Dispatcher) (group_id : Int64) :
      w.channel.dispatchers[i]? = some d → d.pc = .groupId → d.groupId = .ok group_id →
      Step parse dev w (.allBegins i) (w.setDispatcher i { d with pc := .isEmptyCommands group_id })
  | groupThrew {i : Nat} (d : Dispatcher) (e : Exn) :
      w.channel.dispatchers[i]? = some d → d.pc = .groupId → d.groupId = .error e →
      Step parse dev w (.allBegins i) (w.setDispatcher i { d with pc := .thrown e })
  | drained {i : Nat} (d : Dispatcher) (group_id : Int64) :
      w.channel.dispatchers[i]? = some d → d.pc = .isEmptyCommands group_id →
      w.channel.services.commandsInfo group_id = [] →
      Step parse dev w (.allBegins i) (w.setDispatcher i { d with pc := .clearWorking })
  | found {i : Nat} (d : Dispatcher) (group_id : Int64) :
      w.channel.dispatchers[i]? = some d → d.pc = .isEmptyCommands group_id →
      w.channel.services.commandsInfo group_id ≠ [] →
      Step parse dev w (.allBegins i) (w.setDispatcher i { d with pc := .getNextWork group_id })
  | popped {i : Nat} (d : Dispatcher) (group_id : Int64) (c : CommandInfo) (services : Services) :
      w.channel.dispatchers[i]? = some d → d.pc = .getNextWork group_id →
      w.channel.services.getNextWork group_id = some (c, services) →
      Step parse dev w (.allBegins i)
        ((w.setServices services).setDispatcher i { d with pc := .newThread group_id c })
  | threaded {i : Nat} (d : Dispatcher) (group_id : Int64) (c : CommandInfo) :
      w.channel.dispatchers[i]? = some d → d.pc = .newThread group_id c →
      Step parse dev w (.allBegins i)
        { w.setDispatcher i { d with pc := .isEmptyCommands group_id } with
          consumers := w.consumers ++ [Consumer.start group_id c] }
  | workingCleared {i : Nat} (d : Dispatcher) :
      w.channel.dispatchers[i]? = some d → d.pc = .clearWorking →
      Step parse dev w (.allBegins i)
        ((w.setServices (w.channel.services.setWorking false)).setDispatcher i
          { d with pc := .ended })
  | findThrew {i : Nat} {ok : Bool} (c : Consumer) (e : Exn) :
      w.consumers[i]? = some c → c.pc = .createFromString → c.findService w.creators = .error e →
      Step parse dev w (.consumeService i ok) (w.setConsumer i { c with pc := .thrown e })
  | notFound {i : Nat} {ok : Bool} (c : Consumer) :
      w.consumers[i]? = some c → c.pc = .createFromString → c.findService w.creators = .ok none →
      Step parse dev w (.consumeService i ok) (w.setConsumer i { c with pc := .dropped })
  | called {i : Nat} {ok : Bool} (c : Consumer) (responsible : Service) (creators : CreatorMap)
      (command : Json) (line : Line δ) :
      w.consumers[i]? = some c → c.pc = .createFromString →
      c.findService w.creators = .ok (some (responsible, creators, command)) →
      w.line.step dev (.call responsible.class_.code) = some line →
      Step parse dev w (.consumeService i ok)
        { w.setConsumer i { c with
            pc := .execute responsible command
            call := some w.line.calls.length } with
          creators := creators
          line := line }
  | ran {i : Nat} {ok : Bool} (c : Consumer) (responsible : Service) (command : Json) (k : Nat)
      (hc : HandlingCall) (line : Line δ) :
      w.consumers[i]? = some c → c.pc = .execute responsible command → c.call = some k →
      w.line.calls[k]? = some hc → w.line.step dev (.run k ok) = some line →
      Step parse dev w (.consumeService i ok)
        { w with line := line, frames := w.frames ++ w.writing c }
  | returned {i : Nat} {ok : Bool} (c : Consumer) (responsible : Service) (command : Json) (k : Nat)
      (hc : HandlingCall) (code : Int) (reply_info : Json) :
      w.consumers[i]? = some c → c.pc = .execute responsible command → c.call = some k →
      w.line.calls[k]? = some hc → hc.pc = .returned code →
      Consumer.reply responsible code command = .ok reply_info →
      Step parse dev w (.consumeService i ok) (w.setConsumer i { c with pc := .lock reply_info })
  | replyThrew {i : Nat} {ok : Bool} (c : Consumer) (responsible : Service) (command : Json) (k : Nat)
      (hc : HandlingCall) (code : Int) (e : Exn) :
      w.consumers[i]? = some c → c.pc = .execute responsible command → c.call = some k →
      w.line.calls[k]? = some hc → hc.pc = .returned code →
      Consumer.reply responsible code command = .error e →
      Step parse dev w (.consumeService i ok) (w.setConsumer i { c with pc := .thrown e })
  | locked {i : Nat} {ok : Bool} (c : Consumer) (reply_info : Json) :
      w.consumers[i]? = some c → c.pc = .lock reply_info → w.channel.mutex = false →
      Step parse dev w (.consumeService i ok)
        { w.setConsumer i { c with pc := .emit reply_info } with
          channel := { w.channel with mutex := true } }
  | emitted {i : Nat} {ok : Bool} (c : Consumer) (reply_info : Json) :
      w.consumers[i]? = some c → c.pc = .emit reply_info →
      Step parse dev w (.consumeService i ok)
        { w.setConsumer i { c with pc := .unlock } with
          channel := { w.channel with
            emitted := w.channel.emitted ++ [⟨.actionFinished, reply_info⟩] }
          reports := w.reports ++ [⟨i, c.commandInfo.ticket, reply_info⟩] }
  | unlocked {i : Nat} {ok : Bool} (c : Consumer) :
      w.consumers[i]? = some c → c.pc = .unlock →
      Step parse dev w (.consumeService i ok)
        { w.setConsumer i { c with pc := .ended } with
          channel := { w.channel with mutex := false } }
  | device {a : A} (line : Line δ) :
      w.line.step dev (.device a) = some line →
      Step parse dev w (.device a) { w with line := line }

variable {parse : String → Option Json} {dev : Device δ A} {w w' : World δ}

theorem receive_cases {event : CommunicationEvents} {payload : String}
    (h : w.receive parse event payload = some w') : Step parse dev w (.receive event payload) w' := by
  unfold receive at h
  split at h
  · rename_i l hnet hl
    by_cases hm : w.channel.mutex = true
    · rw [if_pos hm] at h; exact absurd h (by simp)
    · rw [if_neg hm] at h
      have hm : w.channel.mutex = false := Bool.not_eq_true _ ▸ hm
      have hheard := Handler.heard hl payload w.channel
      split at h
      · rename_i ch hr
        rw [hr] at hheard
        rw [← Option.some.inj h]; exact Step.received ch hnet hm hheard
      · rename_i m ch hr
        rw [hr] at hheard
        rw [← Option.some.inj h]; exact Step.replying m ch hnet hm hheard
      · rename_i e ch hr
        rw [hr] at hheard
        rw [← Option.some.inj h]; exact Step.threw e ch hnet hm hheard
  · exact absurd h (by simp)

theorem answer_cases (h : w.answer = some w') : Step parse dev w .answer w' := by
  unfold answer at h
  split at h
  · rename_i m hnet
    rw [← Option.some.inj h]; exact Step.answered m hnet
  · exact absurd h (by simp)

theorem unwind_cases (h : w.unwind = some w') : Step parse dev w .unwind w' := by
  unfold unwind at h
  split at h
  · rename_i e hnet
    rw [← Option.some.inj h]; exact Step.unwound e hnet
  · exact absurd h (by simp)

theorem allBegins_cases {i : Nat} (h : w.allBegins i = some w') :
    Step parse dev w (.allBegins i) w' := by
  obtain ⟨d, hd, h⟩ := Option.bind_eq_some_iff.mp h
  cases hpc : d.pc with
  | setWorking =>
      simp only [hpc] at h
      rw [← Option.some.inj h]; exact Step.workingSet d hd hpc
  | groupId =>
      simp only [hpc] at h
      cases hg : d.groupId with
      | ok group_id =>
          simp only [hg] at h
          rw [← Option.some.inj h]; exact Step.grouped d group_id hd hpc hg
      | error e =>
          simp only [hg] at h
          rw [← Option.some.inj h]; exact Step.groupThrew d e hd hpc hg
  | isEmptyCommands group_id =>
      simp only [hpc, Services.isEmptyCommands] at h
      cases hq : w.channel.services.commandsInfo group_id with
      | nil =>
          simp only [hq, List.isEmpty_nil, if_true] at h
          rw [← Option.some.inj h]; exact Step.drained d group_id hd hpc hq
      | cons c rest =>
          simp only [hq, List.isEmpty_cons, Bool.false_eq_true, if_false] at h
          rw [← Option.some.inj h]; exact Step.found d group_id hd hpc (by simp [hq])
  | getNextWork group_id =>
      simp only [hpc] at h
      obtain ⟨⟨c, services⟩, hn, h⟩ := Option.bind_eq_some_iff.mp h
      rw [← Option.some.inj h]; exact Step.popped d group_id c services hd hpc hn
  | newThread group_id c =>
      simp only [hpc] at h
      rw [← Option.some.inj h]; exact Step.threaded d group_id c hd hpc
  | clearWorking =>
      simp only [hpc] at h
      rw [← Option.some.inj h]; exact Step.workingCleared d hd hpc
  | ended => simp only [hpc] at h; exact absurd h (by simp)
  | thrown e => simp only [hpc] at h; exact absurd h (by simp)

theorem execute_cases {i : Nat} {ok : Bool} {c : Consumer} {responsible : Service} {command : Json}
    (hc : w.consumers[i]? = some c) (hpc : c.pc = .execute responsible command)
    (h : w.consumeService dev i ok = some w') : Step parse dev w (.consumeService i ok) w' := by
  obtain ⟨c', hc', h⟩ := Option.bind_eq_some_iff.mp h
  have : c' = c := Option.some.inj (hc'.symm.trans hc)
  subst this
  simp only [hpc] at h
  -- the call has returned, or it takes one more step
  obtain ⟨k, hk, h⟩ := Option.bind_eq_some_iff.mp h
  obtain ⟨call, hcall, h⟩ := Option.bind_eq_some_iff.mp h
  by_cases hret : ∃ code, call.pc = .returned code
  · obtain ⟨code, hret⟩ := hret
    simp only [hret] at h
    cases hr : Consumer.reply responsible code command with
    | ok reply_info =>
        simp only [hr] at h
        rw [← Option.some.inj h]
        exact Step.returned c' responsible command k call code reply_info hc hpc hk hcall hret hr
    | error e =>
        simp only [hr] at h
        rw [← Option.some.inj h]
        exact Step.replyThrew c' responsible command k call code e hc hpc hk hcall hret hr
  · split at h
    · rename_i code hcode; exact absurd ⟨code, hcode⟩ hret
    · obtain ⟨line, hl, h⟩ := Option.bind_eq_some_iff.mp h
      rw [← Option.some.inj h]
      exact Step.ran c' responsible command k call line hc hpc hk hcall hl

theorem consumeService_cases {i : Nat} {ok : Bool} (h : w.consumeService dev i ok = some w') :
    Step parse dev w (.consumeService i ok) w' := by
  have h0 := h
  obtain ⟨c, hc, h⟩ := Option.bind_eq_some_iff.mp h
  cases hpc : c.pc with
  | execute responsible command => exact execute_cases hc hpc h0
  | createFromString =>
      simp only [hpc] at h
      cases hf : c.findService w.creators with
      | error e =>
          simp only [hf] at h
          rw [← Option.some.inj h]; exact Step.findThrew c e hc hpc hf
      | ok r =>
          cases r with
          | none =>
              simp only [hf] at h
              rw [← Option.some.inj h]; exact Step.notFound c hc hpc hf
          | some r =>
              obtain ⟨responsible, creators, command⟩ := r
              simp only [hf] at h
              obtain ⟨line, hl, h⟩ := Option.bind_eq_some_iff.mp h
              rw [← Option.some.inj h]
              exact Step.called c responsible creators command line hc hpc hf hl
  | lock reply_info =>
      simp only [hpc] at h
      by_cases hm : w.channel.mutex = true
      · rw [if_pos hm] at h; exact absurd h (by simp)
      · rw [if_neg hm] at h
        rw [← Option.some.inj h]
        exact Step.locked c reply_info hc hpc (Bool.not_eq_true _ ▸ hm)
  | emit reply_info =>
      simp only [hpc] at h
      rw [← Option.some.inj h]; exact Step.emitted c reply_info hc hpc
  | unlock =>
      simp only [hpc] at h
      rw [← Option.some.inj h]; exact Step.unlocked c hc hpc
  | ended => simp only [hpc] at h; exact absurd h (by simp)
  | dropped => simp only [hpc] at h; exact absurd h (by simp)
  | thrown e => simp only [hpc] at h; exact absurd h (by simp)

/-- **Every step is one of these.** -/
theorem step_cases {a : Act A} (h : w.step parse dev a = some w') : Step parse dev w a w' := by
  cases a with
  | receive event payload => exact receive_cases h
  | answer => exact answer_cases h
  | unwind => exact unwind_cases h
  | allBegins i => exact allBegins_cases h
  | consumeService i ok => exact consumeService_cases h
  | device a =>
      obtain ⟨line, hl, h⟩ := Option.bind_eq_some_iff.mp h
      rw [← Option.some.inj h]; exact Step.device line hl

end World

/-! ## A session to try things on -/

def openPayload : String := "\x7b\"COMMAND\":\"OPEN-GRIP\",\"COMMAND_ID\":1,\"GROUP_ID\":7\x7d"
def shutPayload : String := "\x7b\"COMMAND\":\"SHUT-GRIP\",\"COMMAND_ID\":2,\"GROUP_ID\":7\x7d"
def beginPayload : String := "\x7b\"GROUP_ID\":7\x7d"

/-- What `json::parse` makes of these three, and of a text that is not JSON. -/
def sessionParse (s : String) : Option Json :=
  if s = openPayload then
    some (.object [("COMMAND", .string "OPEN-GRIP"), ("COMMAND_ID", .unsigned 1), ("GROUP_ID", .unsigned 7)])
  else if s = shutPayload then
    some (.object [("COMMAND", .string "SHUT-GRIP"), ("COMMAND_ID", .unsigned 2), ("GROUP_ID", .unsigned 7)])
  else if s = beginPayload then some (.object [("GROUP_ID", .unsigned 7)])
  else none

/-- `n` times the same step. -/
def times (n : Nat) (a : Act A) : List (Act A) := List.replicate n a

end HandlingModule.AIO
