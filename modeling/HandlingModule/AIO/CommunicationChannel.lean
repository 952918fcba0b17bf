import HandlingModule.AIO.Services

/-!
# The listeners of the channel (`CommunicationChannel.cpp`)

Each listener takes the channel's mutex by hand, parses its payload, does its work
and releases the mutex by hand. It is written here as a program that may throw
(`Handler`): what it had done before the throw stays done, the mutex included.

`WORK_ASSIGNATION` and `WORK_STATUS` end by emitting a reply. Other threads can act
before that, so a listener returns the message it is about to emit and `answer`
emits it. The text parser of the JSON library is the parameter `parse`.
-/

namespace HandlingModule.AIO

/-- The events this module emits or listens to. -/
inductive CommunicationEvents where
  | registration
  | registrationReply
  | workAssignation
  | workAssignationReply
  | workStatus
  | workStatusReply
  | allBegins
  | actionFinished
  deriving DecidableEq

/-- What `emit` sends. -/
structure Message where
  event : CommunicationEvents
  data : Json

/-- The statement an `all_begins` thread has reached, with its locals. -/
inductive DispatchPc where
  | setWorking
  | groupId
  | isEmptyCommands (group_id : Int64)
  | getNextWork (group_id : Int64)
  | newThread (group_id : Int64) (commandInfo : CommandInfo)
  | clearWorking
  | ended
  | thrown (e : Exn)

/-- An `all_begins` thread. -/
structure Dispatcher where
  dataJSON : Json
  pc : DispatchPc

/-- `long group_id = dataJSON["GROUP_ID"]` -/
def Dispatcher.groupId (d : Dispatcher) : Except Exn Int64 := do
  let (group_id, _) ← d.dataJSON.index "GROUP_ID"
  group_id.toLong

/-- The state the listeners work on, with the `all_begins` threads they have started. -/
structure Channel where
  services : Services
  module_id : String
  connected : Bool
  mutex : Bool
  emitted : List Message
  dispatchers : List Dispatcher

/-- A program of the network thread. -/
abbrev Handler := EStateM Exn Channel

namespace Handler

/-- A computation that only may throw. -/
def lift {α : Type} : Except Exn α → Handler α
  | .ok a => pure a
  | .error e => throw e

/-- `l.getLock()->lock()`, at a moment when the mutex is free. -/
def lock : Handler Unit := modify fun ch => { ch with mutex := true }

/-- `l.getLock()->unlock()` -/
def unlock : Handler Unit := modify fun ch => { ch with mutex := false }

/-- `current_socket->emit` -/
def emit (m : Message) : Handler Unit := modify fun ch => { ch with emitted := ch.emitted ++ [m] }

/-- `this->services->assessWork(dataJSON)` -/
def assessWork (dataJSON : Json) : Handler Bool := do
  let ch ← get
  let (verdict, services) ← lift (ch.services.assessWork dataJSON)
  set { ch with services := services }
  return verdict

variable (parse : String → Option Json)

/-- `json::parse(data->get_string())` -/
def parseData (payload : String) : Handler Json :=
  match parse payload with
  | some j => pure j
  | none => throw .invalidArgument

/-- `REGISTRATION_REPLY` -/
def registrationReply (payload : String) : Handler (Option Message) := do
  lock
  -- each of the next three can throw, and then the mutex stays locked
  let dataJSON ← parseData parse payload
  let (module_id, _) ← lift (dataJSON.index "MODULE_ID")
  let module_id ← lift module_id.toStr
  modify fun ch => { ch with module_id := module_id }
  modify fun ch => { ch with connected := true }
  unlock
  return none

/-- The `WORK_ASSIGNATION_REPLY`. -/
def assignationReply (module_id : String) (command_id group_id : Json) (verdict : Bool) : Message :=
  ⟨.workAssignationReply, .object [("COMMAND_ID", command_id), ("GROUP_ID", group_id),
    ("MODULE_ID", .string module_id),
    ("REPLY", .string (if verdict then "ACCEPTED" else "REFUSE"))]⟩

/-- `WORK_ASSIGNATION`, up to its reply. -/
def workAssignation (payload : String) : Handler (Option Message) := do
  lock
  let dataJSON ← parseData parse payload
  let module_id := (← get).module_id
  let (command_id, dataJSON) ← lift (dataJSON.index "COMMAND_ID")
  let (group_id, dataJSON) ← lift (dataJSON.index "GROUP_ID")
  let verdict ← assessWork dataJSON
  return some (assignationReply module_id command_id group_id verdict)

/-- `ALL_BEGINS`: the payload goes to a new thread. -/
def allBegins (payload : String) : Handler (Option Message) := do
  lock
  let dataJSON ← parseData parse payload
  -- `GROUP_ID` is left to the new thread
  modify fun ch => { ch with dispatchers := ch.dispatchers ++ [⟨dataJSON, .setWorking⟩] }
  unlock
  return none

/-- The `WORK_STATUS_REPLY`. The source sets `WORKING` when the flag is down. -/
def statusReply (module_id : String) (command_id group_id : Json) (working : Bool) : Message :=
  ⟨.workStatusReply, .object [("COMMAND_ID", command_id), ("GROUP_ID", group_id),
    ("MODULE_ID", .string module_id), ("MSG", .string ""),
    ("STATUS", .string (if !working then "WORKING" else "ERROR"))]⟩

/-- `WORK_STATUS`, up to its reply. -/
def workStatus (payload : String) : Handler (Option Message) := do
  lock
  let dataJSON ← parseData parse payload
  let module_id := (← get).module_id
  let (command_id, dataJSON) ← lift (dataJSON.index "COMMAND_ID")
  let (group_id, _) ← lift (dataJSON.index "GROUP_ID")
  let working := (← get).services.isWorking
  return some (statusReply module_id command_id group_id working)

/-- What follows in a listener that replies. -/
def answer (m : Message) : Handler Unit := do
  emit m
  unlock

/-- `bind_events`: the listener of an event, if it has one. -/
def listener : CommunicationEvents → Option (String → Handler (Option Message))
  | .registrationReply => some (registrationReply parse)
  | .workAssignation => some (workAssignation parse)
  | .allBegins => some (allBegins parse)
  | .workStatus => some (workStatus parse)
  | _ => none

end Handler

/-! ## `consumeService` -/

/-- The reply `consumeService` builds, from what `execute` returned. -/
def replyInfo (result : Bool) (msg : String) (command_id : Json) : Json :=
  if result = true then
    .object [("COMMAND_ID", command_id), ("ERROR_MESSAGE", .string ""),
      ("FINISH_MESSAGE", .string msg), ("MODULE_ID", .string "handling_module"),
      ("STATUS", .string "DONE")]
  else
    -- `DONE` here too
    .object [("COMMAND_ID", command_id), ("ERROR_MESSAGE", .string msg),
      ("FINISH_MESSAGE", .string ""), ("MODULE_ID", .string "handling_module"),
      ("STATUS", .string "DONE")]

/-- The statement a `consumeService` thread has reached, with its locals. -/
inductive ConsumePc where
  | createFromString
  | execute (responsible : Service) (command : Json)
  | lock (reply_info : Json)
  | emit (reply_info : Json)
  | unlock
  | ended
  | dropped
  | thrown (e : Exn)

/--
A `consumeService` thread. `group_id` and `call` are records: the group its command
was taken from, and the number of the call of `handlingService` it made.
-/
structure Consumer where
  commandInfo : CommandInfo
  group_id : Int64
  pc : ConsumePc
  call : Option Nat

/-- A thread just started. -/
def Consumer.start (group_id : Int64) (commandInfo : CommandInfo) : Consumer :=
  ⟨commandInfo, group_id, .createFromString, none⟩

/--
`Service::createFromString(command["COMMAND"])`, and the argument
`command["PARAMS"]` of the call that follows when there is a service.
-/
def Consumer.findService (c : Consumer) (creators : CreatorMap) :
    Except Exn (Option (Service × CreatorMap × Json)) := do
  let (name, command) ← c.commandInfo.command.index "COMMAND"
  let name ← name.toStr
  match createFromString creators name with
  | none => return none
  | some (responsible, creators) =>
      let (_, command) ← command.index "PARAMS"
      return some (responsible, creators, command)

/-- The reply for a command, once `execute` is back. -/
def Consumer.reply (responsible : Service) (handlingService : Int) (command : Json) :
    Except Exn Json := do
  let (result, msg) := responsible.execute handlingService
  let (command_id, _) ← command.index "COMMAND_ID"
  return replyInfo result msg command_id

/-- A command the module can run: an object that names one of its classes. -/
structure Runnable (c : CommandInfo) (cls : ServiceClass) : Prop where
  object : ∃ members, c.command = .object members
  name : c.command.member "COMMAND" = .string cls.name

/-- A registered class is found, under any order of registrations. -/
theorem findService_of_runnable {c : Consumer} {cls : ServiceClass} {creators : CreatorMap}
    (hr : Runnable c.commandInfo cls) (hcr : creators.lookup cls.name = some cls) :
    ∃ command, c.findService creators
        = .ok (some ((cls.create creators).1, (cls.create creators).2, command))
      ∧ (∃ members, command = .object members)
      ∧ ∀ key, command.member key = c.commandInfo.command.member key := by
  obtain ⟨members, hobj⟩ := hr.object
  have hx1 : c.commandInfo.command.Indexable := by rw [hobj]; trivial
  obtain ⟨v1, j1, h1⟩ : ∃ v j, c.commandInfo.command.index "COMMAND" = .ok (v, j) :=
    Json.index_isOk.mpr hx1
  obtain ⟨hv1, ⟨members1, hj1⟩, hm1⟩ := Json.index_spec h1
  have hx2 : j1.Indexable := by rw [hj1]; trivial
  obtain ⟨v2, j2, h2⟩ : ∃ v j, j1.index "PARAMS" = .ok (v, j) := Json.index_isOk.mpr hx2
  obtain ⟨_, hj2, hm2⟩ := Json.index_spec h2
  refine ⟨j2, ?_, hj2, fun key => (hm2 key).trans (hm1 key)⟩
  rw [hr.name] at hv1
  unfold Consumer.findService
  rw [h1, hv1]
  simp only [bind, Except.bind, Json.toStr, createFromString, hcr, Option.map_some, h2]
  rfl

/-- The reply of a thread: success whatever `handlingService` returned. -/
theorem reply_eq {responsible : Service} {code : Int} {command : Json}
    (hobj : ∃ members, command = .object members) :
    Consumer.reply responsible code command
      = .ok (replyInfo true "" (command.member "COMMAND_ID")) := by
  obtain ⟨members, rfl⟩ := hobj
  obtain ⟨v, j, h⟩ : ∃ v j, (Json.object members).index "COMMAND_ID" = .ok (v, j) :=
    Json.index_isOk.mpr trivial
  unfold Consumer.reply
  rw [h, (Json.index_spec h).1]
  rfl

end HandlingModule.AIO
