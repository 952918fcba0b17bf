import HandlingModule.AIO.Json
import HandlingModule.AIO.StdMap
import Mathlib.Logic.Function.Basic
import Mathlib.Data.List.Nodup

/-!
# Services, and the queues of accepted commands (`Services.cpp`)

A command is accepted when a service of its name has been added; it then waits in
the queue of its group until an `all_begins` thread takes it. `creators` is a second
table, filled by the constructors, from which the thread that runs the command makes
its service.

Two fields are not in the source. `accepted` and `popped` record every push and
every pop, oldest first, and the ticket of a command is its number among the
acceptances: two equal commands are still two.
-/

namespace HandlingModule.AIO

/-! ## The two services -/

/-- The classes derived from `Service` that this module links in. -/
inductive ServiceClass where
  | openService
  | closeService
  deriving DecidableEq

/-- The name a class gives to its objects and registers itself under. -/
def ServiceClass.name : ServiceClass → String
  | .openService => "OPEN-GRIP"
  | .closeService => "SHUT-GRIP"

/-- The argument with which `execute` calls `handlingService`. -/
def ServiceClass.code : ServiceClass → Int
  | .openService => 0
  | .closeService => 1

/-- `Service` -/
structure Service where
  name : String
  params : List String
  interruptible : Bool
  service : Bool
  class_ : ServiceClass

/-- `Service::creators` -/
abbrev CreatorMap := List (String × ServiceClass)

/-- `Service::registerClass` -/
def registerClass (creators : CreatorMap) (name : String) (f : ServiceClass) : CreatorMap :=
  assign creators name f

/-- The default constructor, which also registers the class. -/
def ServiceClass.create (c : ServiceClass) (creators : CreatorMap) : Service × CreatorMap :=
  (⟨c.name, [], false, false, c⟩, registerClass creators c.name c)

/-- `Service::createFromString`; `none` is `NULL`. -/
def createFromString (creators : CreatorMap) (name : String) : Option (Service × CreatorMap) :=
  (creators.lookup name).map fun c => c.create creators

/--
`execute` of both classes, given what `handlingService` returned: the code is
dropped, the result is `true`, and `msg` keeps the empty string it came with.
-/
def Service.execute (_responsible : Service) (_handlingService : Int) : Bool × String := (true, "")

/-- `Service::getInfo` -/
def Service.getInfo (s : Service) : Json :=
  .object [("COMMAND", .string s.name), ("INTERRUPTIBLE", .boolean s.interruptible),
    ("PARAMS", .array (s.params.map Json.string)), ("SERVICE", .boolean s.service)]

/-! ## The queues -/

/-- `CommandInfo`, with the number of its acceptance. -/
structure CommandInfo where
  command : Json
  completed : Bool
  error : Bool
  ticket : Nat

/-- `Services`, without sensor services: this module adds none. -/
structure Services where
  commandsInfo : Int64 → List CommandInfo
  services : List (String × Service)
  working : Bool
  accepted : List (Int64 × CommandInfo)
  popped : List (Int64 × CommandInfo)

namespace Services

/-- `Services()` -/
def new : Services := ⟨fun _ => [], [], false, [], []⟩

/-- `addService` -/
def addService (s : Services) (service : Service) : Services :=
  { s with services := assign s.services service.name service }

/-- `commandsInfo[group_id].push(commandInfo)` -/
def push (s : Services) (group_id : Int64) (commandInfo : CommandInfo) : Services :=
  { s with
    commandsInfo := Function.update s.commandsInfo group_id (s.commandsInfo group_id ++ [commandInfo])
    accepted := s.accepted ++ [(group_id, commandInfo)] }

/-- `assessWork` -/
def assessWork (s : Services) (command : Json) : Except Exn (Bool × Services) := do
  let (name, command) ← command.index "COMMAND"
  let name ← name.toStr
  match s.services.lookup name with
  | some _ =>
      -- the key of `commandsInfo` is converted before anything is pushed
      let (group_id, command) ← command.index "GROUP_ID"
      let group_id ← group_id.toLong
      return (true, s.push group_id ⟨command, false, false, s.accepted.length⟩)
  | none => return (false, s)

/-- `getNextWork`; `front()` and `pop()` of an empty queue are undefined. -/
def getNextWork (s : Services) (group_id : Int64) : Option (CommandInfo × Services) :=
  match s.commandsInfo group_id with
  | [] => none
  | command :: rest =>
      some (command, { s with
        commandsInfo := Function.update s.commandsInfo group_id rest
        popped := s.popped ++ [(group_id, command)] })

/-- `isEmptyCommands` -/
def isEmptyCommands (s : Services) (group_id : Int64) : Bool := (s.commandsInfo group_id).isEmpty

/-- `setWorking` -/
def setWorking (s : Services) (working : Bool) : Services := { s with working := working }

/-- `isWorking` -/
def isWorking (s : Services) : Bool := s.working

/-- `getInfo` -/
def getInfo (s : Services) : Json :=
  .object [("COMMANDS", .array (s.services.map fun p => p.2.getInfo))]

/-- `Module::start` adds the module's id to `getInfo`. -/
def moduleInfo (s : Services) (module_id : String) : Json :=
  match s.getInfo with
  | .object members => .object (assign members "MODULE_ID" (.string module_id))
  | info => info

/-! ## What an operation does -/

/-- What an accepted command holds and where it goes. -/
structure Accepts (s : Services) (command : Json) (group_id : Int64) (c : CommandInfo) : Prop where
  name : ∃ name service, command.member "COMMAND" = .string name
    ∧ s.services.lookup name = some service
  group : (command.member "GROUP_ID").toLong = .ok group_id
  object : ∃ members, c.command = .object members
  same : ∀ key, c.command.member key = command.member key
  ticket : c.ticket = s.accepted.length

/-- Acceptance looks at the members only. -/
theorem Accepts.congr {s : Services} {j j' : Json} {group_id : Int64} {c : CommandInfo}
    (h : Accepts s j group_id c) (hm : ∀ key, j.member key = j'.member key) :
    Accepts s j' group_id c where
  name := by rw [← hm]; exact h.name
  group := by rw [← hm]; exact h.group
  object := h.object
  same := fun key => (h.same key).trans (hm key)
  ticket := h.ticket

/-- **`assessWork`.** It refuses and changes nothing, or accepts and pushes. -/
theorem assessWork_cases {s s' : Services} {command : Json} {verdict : Bool}
    (h : s.assessWork command = .ok (verdict, s')) :
    (verdict = false ∧ s' = s
        ∧ ∃ name, command.member "COMMAND" = .string name ∧ s.services.lookup name = none)
      ∨ ∃ group_id c, verdict = true ∧ Accepts s command group_id c ∧ s' = s.push group_id c := by
  unfold assessWork at h
  cases h1 : command.index "COMMAND" with
  | error e => rw [h1] at h; exact absurd h (by simp [bind, Except.bind])
  | ok p =>
      obtain ⟨nameJson, command1⟩ := p
      obtain ⟨hname, _, hm1⟩ := Json.index_spec h1
      rw [h1] at h
      cases nameJson with
      | string name =>
          cases h2 : s.services.lookup name with
          | none =>
              simp only [bind, Except.bind, Json.toStr, h2, pure, Except.pure, Except.ok.injEq,
                Prod.mk.injEq] at h
              exact Or.inl ⟨h.1.symm, h.2.symm, name, hname.symm, h2⟩
          | some service =>
              simp only [bind, Except.bind, Json.toStr, h2] at h
              cases h3 : command1.index "GROUP_ID" with
              | error e => rw [h3] at h; exact absurd h (by simp)
              | ok q =>
                  obtain ⟨groupJson, command2⟩ := q
                  obtain ⟨hgroup, hobj, hm2⟩ := Json.index_spec h3
                  rw [h3] at h
                  cases h4 : groupJson.toLong with
                  | error e => simp [h4] at h
                  | ok group_id =>
                      simp only [h4, pure, Except.pure, Except.ok.injEq, Prod.mk.injEq] at h
                      refine Or.inr ⟨group_id, _, h.1.symm, ⟨⟨name, service, hname.symm, h2⟩, ?_,
                        hobj, fun key => (hm2 key).trans (hm1 key), rfl⟩, h.2.symm⟩
                      rw [← hm1, ← hgroup]; exact h4
      | null => simp [bind, Except.bind, Json.toStr] at h
      | boolean b => simp [bind, Except.bind, Json.toStr] at h
      | integer n => simp [bind, Except.bind, Json.toStr] at h
      | unsigned n => simp [bind, Except.bind, Json.toStr] at h
      | float bits => simp [bind, Except.bind, Json.toStr] at h
      | array elements => simp [bind, Except.bind, Json.toStr] at h
      | object members => simp [bind, Except.bind, Json.toStr] at h

/-- **When `assessWork` throws**: for want of a name, or of a group for a name it knows. -/
theorem assessWork_error {s : Services} {command : Json} {e : Exn}
    (h : s.assessWork command = .error e) {name : String}
    (hname : command.member "COMMAND" = .string name) :
    (s.services.lookup name).isSome = true
      ∧ ∀ group_id, (command.member "GROUP_ID").toLong ≠ .ok group_id := by
  obtain ⟨v1, j1, h1⟩ : ∃ v j, command.index "COMMAND" = .ok (v, j) :=
    Json.index_isOk.mpr (Json.indexable_of_member hname (by simp))
  obtain ⟨hv1, ⟨members, hobj⟩, hm1⟩ := Json.index_spec h1
  rw [hname] at hv1
  obtain ⟨v2, j2, h2⟩ : ∃ v j, j1.index "GROUP_ID" = .ok (v, j) :=
    Json.index_isOk.mpr (by rw [hobj]; trivial)
  have hv2 := (Json.index_spec h2).1
  rw [hm1] at hv2
  unfold assessWork at h
  rw [h1, hv1] at h
  cases hl : s.services.lookup name with
  | none => simp [bind, Except.bind, Json.toStr, hl, pure, Except.pure] at h
  | some service =>
      refine ⟨rfl, ?_⟩
      intro group_id hg
      rw [hv2] at h2
      simp [bind, Except.bind, Json.toStr, hl, h2, hg, pure, Except.pure] at h

theorem getNextWork_cases {s s' : Services} {group_id : Int64} {c : CommandInfo}
    (h : s.getNextWork group_id = some (c, s')) :
    ∃ rest, s.commandsInfo group_id = c :: rest ∧ s' = { s with
      commandsInfo := Function.update s.commandsInfo group_id rest
      popped := s.popped ++ [(group_id, c)] } := by
  unfold getNextWork at h
  split at h
  · exact absurd h (by simp)
  · rename_i c' rest hq
    obtain ⟨rfl, rfl⟩ := Prod.mk.inj (Option.some.inj h)
    exact ⟨rest, hq, rfl⟩

end Services

/-! ## The accounts of the queues -/

/-- What was recorded for a group, in order. -/
def forGroup (l : List (Int64 × CommandInfo)) (group_id : Int64) : List CommandInfo :=
  (l.filter (fun p => p.1 == group_id)).map Prod.snd

theorem forGroup_append (l m : List (Int64 × CommandInfo)) (group_id : Int64) :
    forGroup (l ++ m) group_id = forGroup l group_id ++ forGroup m group_id := by
  simp [forGroup]

theorem forGroup_snoc (l : List (Int64 × CommandInfo)) (g group_id : Int64) (c : CommandInfo) :
    forGroup (l ++ [(g, c)]) group_id
      = if g = group_id then forGroup l group_id ++ [c] else forGroup l group_id := by
  rw [forGroup_append]
  by_cases hg : g = group_id
  · simp [forGroup, hg]
  · simp [forGroup, hg]

theorem mem_forGroup {l : List (Int64 × CommandInfo)} {group_id : Int64} {c : CommandInfo} :
    c ∈ forGroup l group_id ↔ (group_id, c) ∈ l := by
  unfold forGroup
  constructor
  · intro h
    obtain ⟨⟨g, c'⟩, hm, rfl⟩ := List.mem_map.mp h
    obtain ⟨hm, hg⟩ := List.mem_filter.mp hm
    have : g = group_id := eq_of_beq hg
    rwa [← this]
  · intro h
    exact List.mem_map.mpr ⟨_, List.mem_filter.mpr ⟨h, beq_self_eq_true _⟩, rfl⟩

/-- The queues account for every acceptance: it was popped or it is waiting. -/
structure Accounted (s : Services) : Prop where
  queues : ∀ group_id, forGroup s.accepted group_id
    = forGroup s.popped group_id ++ s.commandsInfo group_id
  tickets : s.accepted.map (fun p => p.2.ticket) = List.range s.accepted.length
  popped_once : (s.popped.map (fun p => p.2.ticket)).Nodup

/-- Two acceptances with one ticket are one. -/
theorem Accounted.unique {s : Services} (h : Accounted s) {p q : Int64 × CommandInfo}
    (hp : p ∈ s.accepted) (hq : q ∈ s.accepted) (ht : p.2.ticket = q.2.ticket) : p = q := by
  have hn : (s.accepted.map (fun p => p.2.ticket)).Nodup := by
    rw [h.tickets]; exact List.nodup_range
  exact List.inj_on_of_nodup_map hn hp hq ht

theorem Accounted.mem_accepted {s : Services} (h : Accounted s) {group_id : Int64}
    {c : CommandInfo} (hc : (group_id, c) ∈ s.popped ∨ c ∈ s.commandsInfo group_id) :
    (group_id, c) ∈ s.accepted := by
  refine mem_forGroup.mp ?_
  rw [h.queues]
  rcases hc with hc | hc
  · exact List.mem_append_left _ (mem_forGroup.mpr hc)
  · exact List.mem_append_right _ hc

theorem accounted_push {s : Services} (h : Accounted s) {group_id : Int64} {c : CommandInfo}
    (hc : c.ticket = s.accepted.length) : Accounted (s.push group_id c) where
  queues := by
    intro g
    show forGroup (s.accepted ++ [(group_id, c)]) g = forGroup s.popped g
      ++ Function.update s.commandsInfo group_id (s.commandsInfo group_id ++ [c]) g
    rw [forGroup_snoc, h.queues]
    rcases eq_or_ne g group_id with rfl | hg
    · rw [if_pos rfl, Function.update_self, List.append_assoc]
    · rw [if_neg hg.symm, Function.update_of_ne hg]
  tickets := by
    show (s.accepted ++ [(group_id, c)]).map _ = List.range (s.accepted ++ [(group_id, c)]).length
    rw [List.map_append, h.tickets, List.length_append, List.length_singleton, List.range_succ]
    simp [hc]
  popped_once := h.popped_once

/-- A command at the head of its queue has not been popped. -/
theorem Accounted.not_popped {s : Services} (h : Accounted s) {group_id : Int64} {c : CommandInfo}
    {rest : List CommandInfo} (hq : s.commandsInfo group_id = c :: rest) :
    c.ticket ∉ s.popped.map (fun p => p.2.ticket) := by
  intro hm
  obtain ⟨⟨g, d⟩, hd, ht⟩ := List.mem_map.mp hm
  have hc : (group_id, c) ∈ s.accepted := h.mem_accepted (Or.inr (by rw [hq]; exact List.mem_cons_self ..))
  have heq := h.unique (h.mem_accepted (Or.inl hd)) hc ht
  obtain ⟨rfl, rfl⟩ := Prod.mk.inj heq
  -- it would be in its group's list of acceptances twice
  have hn : (s.accepted.map (fun p => p.2.ticket)).Nodup := by
    rw [h.tickets]; exact List.nodup_range
  have hsub : ((forGroup s.accepted g).map CommandInfo.ticket).Nodup := by
    unfold forGroup
    rw [List.map_map]
    exact hn.sublist (List.filter_sublist.map _)
  rw [h.queues, hq, List.map_append, List.nodup_append'] at hsub
  refine hsub.2.2 (List.mem_map_of_mem (mem_forGroup.mpr hd)) ?_
  exact List.mem_map_of_mem (List.mem_cons_self ..)

theorem accounted_pop {s s' : Services} (h : Accounted s) {group_id : Int64} {c : CommandInfo}
    (hp : s.getNextWork group_id = some (c, s')) : Accounted s' := by
  obtain ⟨rest, hq, rfl⟩ := Services.getNextWork_cases hp
  refine ⟨?_, h.tickets, ?_⟩
  · intro g
    show forGroup s.accepted g = forGroup (s.popped ++ [(group_id, c)]) g
      ++ Function.update s.commandsInfo group_id rest g
    rw [forGroup_snoc, h.queues]
    rcases eq_or_ne g group_id with rfl | hg
    · rw [if_pos rfl, Function.update_self, hq]; simp
    · rw [if_neg hg.symm, Function.update_of_ne hg]
  · show ((s.popped ++ [(group_id, c)]).map _).Nodup
    rw [List.map_append]
    refine List.nodup_append'.mpr ⟨h.popped_once, List.nodup_singleton _, ?_⟩
    exact List.disjoint_singleton.mpr (h.not_popped hq)

end HandlingModule.AIO
