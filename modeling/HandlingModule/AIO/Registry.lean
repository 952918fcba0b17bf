import HandlingModule.AIO.World

/-!
# Advertised, accepted, executable

Three questions are asked of a name: whether `getInfo` lists it, whether `assessWork`
accepts a command under it, and what `createFromString` makes of it. The first two are
answered from the table of the objects that were added, the third from the table of
the classes that were constructed, and the creators in that table take no arguments:
whatever an object was constructed with, what is made under its name is an object of
the default constructor.
-/

namespace HandlingModule.AIO

open Transition

/-- The constructor with four arguments. -/
def ServiceClass.createNamed (c : ServiceClass) (name : String) (params : List String)
    (interruptible service : Bool) (creators : CreatorMap) : Service × CreatorMap :=
  (⟨name, params, interruptible, service, c⟩, registerClass creators name c)

/--
The tables, and the objects there are. `constructed` and `added` are records: every
construction, those of `createFromString` included, and every `addService`.
-/
structure Registry where
  creators : CreatorMap
  objects : List Service
  services : Services
  constructed : List Service
  added : List Service

/-- What can be done with the tables. -/
inductive RegistryAct where
  | create (c : ServiceClass)
  | createNamed (c : ServiceClass) (name : String) (params : List String)
      (interruptible service : Bool)
  | addService (i : Nat)
  | createFromString (name : String)

def Registry.start : Registry := ⟨[], [], Services.new, [], []⟩

/-- A new object, which has registered its class. -/
def Registry.construct (r : Registry) (p : Service × CreatorMap) : Registry :=
  { r with creators := p.2, objects := r.objects ++ [p.1], constructed := r.constructed ++ [p.1] }

def Registry.step (r : Registry) : RegistryAct → Option Registry
  | .create c => some (r.construct (c.create r.creators))
  | .createNamed c name params interruptible service =>
      some (r.construct (c.createNamed name params interruptible service r.creators))
  | .addService i => do
      let service ← r.objects[i]?
      return { r with services := r.services.addService service, added := r.added ++ [service] }
  | .createFromString name =>
      match AIO.createFromString r.creators name with
      | none => some r
      -- the object is not added, but its constructor registers the class again
      | some (service, creators) =>
          some { r with creators := creators, constructed := r.constructed ++ [service] }

/-- The tables of `HandlingModule::HandlingModule`. -/
example :
    (exec Registry.step Registry.start [.create .closeService, .addService 0, .create .openService,
      .addService 1]).map (fun r => (r.services, r.creators)) = some handlingModule := rfl

/-! ## The three questions -/

/-- The `COMMANDS` of `getInfo`; this module has no sensor services. -/
def Services.commands (s : Services) : List Json :=
  match s.getInfo.member "COMMANDS" with
  | .array commands => commands
  | _ => []

/-- The entry is about a command of this name. -/
def Json.isCommand (name : String) (entry : Json) : Bool :=
  match entry.member "COMMAND" with
  | .string command => command == name
  | _ => false

/-- The entries `getInfo` has under a name. -/
def Registry.advertised (r : Registry) (name : String) : List Json :=
  r.services.commands.filter (Json.isCommand name)

/-- `assessWork` accepts a command of this name, whatever else it holds. -/
def Registry.Accepts (r : Registry) (name : String) : Prop :=
  ∀ (command : Json) (group_id : Int64), command.member "COMMAND" = .string name →
    (command.member "GROUP_ID").toLong = .ok group_id →
    ∃ services, r.services.assessWork command = .ok (true, services)

/-- The three answers agree on a name. -/
structure Registry.Coherent (r : Registry) (name : String) : Prop where
  accepted : (r.advertised name).length = 1 ↔ r.Accepts name
  executable : (r.advertised name).length = 1 → ∃ service creators,
    createFromString r.creators name = some (service, creators) ∧ service.name = name
      ∧ r.advertised name = [service.getInfo]

/-- The last of the objects with a name. -/
def lastOf (name : String) (l : List Service) : Option Service :=
  (l.filter (fun s => s.name == name)).getLast?

theorem lastOf_snoc (name : String) (l : List Service) (s : Service) :
    lastOf name (l ++ [s]) = if name = s.name then some s else lastOf name l := by
  unfold lastOf
  rw [List.filter_append]
  by_cases h : name = s.name
  · rw [if_pos h]; simp [h]
  · rw [if_neg h]; simp [Ne.symm h]

theorem lastOf_mem {name : String} {l : List Service} {s : Service} (h : lastOf name l = some s) :
    s ∈ l ∧ s.name = name := by
  obtain ⟨hm, hs⟩ := List.mem_filter.mp (List.mem_of_getLast? h)
  exact ⟨hm, eq_of_beq hs⟩

theorem lastOf_isSome {name : String} {l : List Service} {s : Service} (hm : s ∈ l)
    (hs : s.name = name) : ∃ t, lastOf name l = some t := by
  have : s ∈ l.filter (fun s => s.name == name) :=
    List.mem_filter.mpr ⟨hm, beq_iff_eq.mpr hs⟩
  exact ⟨_, List.getLast?_eq_some_getLast (List.ne_nil_of_mem this)⟩

/-- What a map in order holds under a key. -/
theorem filter_key {α : Type} {m : List (String × α)} (h : Ordered m) (key : String) :
    m.filter (fun p => p.1 == key) = ((m.lookup key).map (fun v => (key, v))).toList := by
  induction m with
  | nil => rfl
  | cons q m ih =>
      obtain ⟨k, v⟩ := q
      obtain ⟨hhead, htail⟩ := List.pairwise_cons.mp h
      rw [lookup_cons_eq]
      by_cases hk : key = k
      · -- every other key is greater
        have hnone : m.filter (fun p => p.1 == key) = [] := by
          refine List.filter_eq_nil_iff.mpr (fun p hp => ?_)
          have hlt : k < p.1 := hhead _ (List.mem_map_of_mem hp)
          intro heq
          rw [eq_of_beq heq, hk] at hlt
          exact String.lt_irrefl k hlt
        rw [if_pos hk, List.filter_cons_of_pos (by simp [hk]), hnone, hk]
        rfl
      · rw [if_neg hk, List.filter_cons_of_neg (by simp [Ne.symm hk])]
        exact ih htail

/-! ## What the tables hold -/

/-- The tables hold the last object added and the last class constructed under each name. -/
structure Tables (r : Registry) : Prop where
  creators : ∀ name, r.creators.lookup name = (lastOf name r.constructed).map Service.class_
  services : ∀ name, r.services.services.lookup name = lastOf name r.added
  ordered : Ordered r.services.services
  keys : ∀ p ∈ r.services.services, p.2.name = p.1
  objects : ∀ s ∈ r.objects, s ∈ r.constructed
  added : ∀ s ∈ r.added, s ∈ r.constructed

theorem tables_start : Tables Registry.start where
  creators := fun _ => rfl
  services := fun _ => rfl
  ordered := List.Pairwise.nil
  keys := by intro p hp; exact absurd hp (by simp [Registry.start, Services.new])
  objects := by intro s hs; exact absurd hs (by simp [Registry.start])
  added := by intro s hs; exact absurd hs (by simp [Registry.start])

/-- A constructor keeps the table of creators, whoever calls it. -/
theorem Tables.register {r : Registry} (h : Tables r) (s : Service) (name : String) :
    (registerClass r.creators s.name s.class_).lookup name
      = (lastOf name (r.constructed ++ [s])).map Service.class_ := by
  rw [registerClass, lookup_assign, lastOf_snoc, h.creators]
  split <;> rfl

theorem Tables.construct {r : Registry} (h : Tables r) {p : Service × CreatorMap}
    (hp : p.2 = registerClass r.creators p.1.name p.1.class_) : Tables (r.construct p) where
  creators := by
    intro name
    show p.2.lookup name = _
    rw [hp]; exact h.register p.1 name
  services := h.services
  ordered := h.ordered
  keys := h.keys
  objects := by
    intro s hs
    rcases List.mem_append.mp hs with hs | hs
    · exact List.mem_append_left _ (h.objects s hs)
    · exact List.mem_append_right _ hs
  added := fun s hs => List.mem_append_left _ (h.added s hs)

theorem tables_step {r r' : Registry} {a : RegistryAct} (h : r.step a = some r') (ht : Tables r) :
    Tables r' := by
  cases a with
  | create c =>
      rw [← Option.some.inj h]
      exact ht.construct rfl
  | createNamed c name params interruptible service =>
      rw [← Option.some.inj h]
      exact ht.construct rfl
  | addService i =>
      obtain ⟨service, hs, h⟩ := Option.bind_eq_some_iff.mp h
      rw [← Option.some.inj h]
      refine ⟨ht.creators, ?_, ordered_assign ht.ordered _ _, ?_, ht.objects, ?_⟩
      · intro name
        show (assign r.services.services service.name service).lookup name = _
        rw [lookup_assign, lastOf_snoc, ht.services]
      · intro p hp
        rcases mem_assign hp with rfl | hp
        · rfl
        · exact ht.keys p hp
      · intro s hm
        rcases List.mem_append.mp hm with hm | hm
        · exact ht.added s hm
        · rw [List.mem_singleton.mp hm]
          exact ht.objects service (List.mem_of_getElem? hs)
  | createFromString name =>
      cases hc : r.creators.lookup name with
      | none =>
          simp only [Registry.step, createFromString, hc, Option.map_none] at h
          rw [← Option.some.inj h]; exact ht
      | some c =>
          simp only [Registry.step, createFromString, hc, Option.map_some] at h
          rw [← Option.some.inj h]
          exact ⟨fun name' => ht.register (c.create r.creators).1 name', ht.services, ht.ordered,
            ht.keys, fun s hs => List.mem_append_left _ (ht.objects s hs),
            fun s hs => List.mem_append_left _ (ht.added s hs)⟩

theorem tables_run {G : Registry → RegistryAct → Prop} {as : List RegistryAct} {r : Registry}
    (hr : Run Registry.step G Registry.start as r) : Tables r :=
  hr.invariant tables_start (fun ht _ hst => tables_step hst ht)

/-! ## The answers -/

/-- A name is advertised with the object added last under it, and otherwise not at all. -/
theorem Tables.advertised {r : Registry} (h : Tables r) (name : String) :
    r.advertised name = ((lastOf name r.added).map Service.getInfo).toList := by
  have hname : ∀ p ∈ r.services.services,
      Json.isCommand name p.2.getInfo = (p.1 == name) := by
    intro p hp
    rw [← h.keys p hp]; rfl
  have hcommands : r.services.commands = r.services.services.map (fun p => p.2.getInfo) := rfl
  rw [Registry.advertised, hcommands, List.filter_map,
    List.filter_congr (q := fun p => p.1 == name) hname, filter_key h.ordered, h.services]
  cases lastOf name r.added <;> rfl

theorem Tables.length_advertised {r : Registry} (h : Tables r) (name : String) :
    (r.advertised name).length = 1 ↔ ∃ service, lastOf name r.added = some service := by
  rw [h.advertised]
  cases lastOf name r.added <;> simp

/-- A name is accepted when an object was added under it. -/
theorem Tables.accepts_iff {r : Registry} (h : Tables r) (name : String) :
    r.Accepts name ↔ ∃ service, lastOf name r.added = some service := by
  constructor
  · intro hacc
    obtain ⟨services, hok⟩ := hacc (.object [("COMMAND", .string name), ("GROUP_ID", .integer 0)])
      0 rfl rfl
    rcases Services.assessWork_cases hok with ⟨hfalse, _⟩ | ⟨_, _, _, ha, _⟩
    · exact absurd hfalse (by simp)
    · obtain ⟨name', service, hname, hl⟩ := ha.name
      have : name = name' := Json.string.inj hname
      rw [← this, h.services] at hl
      exact ⟨service, hl⟩
  · rintro ⟨service, hl⟩ command group_id hname hgroup
    rw [← h.services] at hl
    cases hok : r.services.assessWork command with
    | error e => exact absurd hgroup ((Services.assessWork_error hok hname).2 group_id)
    | ok p =>
        obtain ⟨verdict, services⟩ := p
        rcases Services.assessWork_cases hok with ⟨_, _, name', hname', hnone⟩ | ⟨_, _, rfl, _⟩
        · rw [hname] at hname'
          rw [← Json.string.inj hname', hl] at hnone
          exact absurd hnone (by simp)
        · exact ⟨services, rfl⟩

/-- What is advertised for an object is what the default constructor makes, or it is not. -/
theorem getInfo_create_iff (added : Service) (c : ServiceClass) (creators : CreatorMap) :
    (c.create creators).1.name = added.name ∧ added.getInfo = (c.create creators).1.getInfo
      ↔ c.name = added.name ∧ added.params = [] ∧ added.interruptible = false
        ∧ added.service = false := by
  have hname : (c.create creators).1.name = c.name := rfl
  rw [hname]
  refine and_congr_right (fun hn => ?_)
  simp [Service.getInfo, ServiceClass.create, hn, and_left_comm]

/-- What `createFromString` makes under a name that is advertised. -/
structure Executable (r : Registry) (name : String) (added constructed : Service) : Prop where
  last_added : lastOf name r.added = some added
  last_constructed : lastOf name r.constructed = some constructed
  advertised : r.advertised name = [added.getInfo]
  created : createFromString r.creators name = some (constructed.class_.create r.creators)

theorem Tables.executable {r : Registry} (h : Tables r) {name : String}
    (hone : (r.advertised name).length = 1) : ∃ added constructed,
      Executable r name added constructed := by
  obtain ⟨added, hadded⟩ := (h.length_advertised name).mp hone
  obtain ⟨hm, hname⟩ := lastOf_mem hadded
  obtain ⟨constructed, hcons⟩ := lastOf_isSome (h.added added hm) hname
  refine ⟨added, constructed, hadded, hcons, ?_, ?_⟩
  · rw [h.advertised, hadded]; rfl
  · rw [createFromString, h.creators, hcons]; rfl

/-- When that is the service advertised. -/
theorem Executable.same_iff {r : Registry} {name : String} {added constructed : Service}
    (h : Executable r name added constructed) {service : Service} {creators : CreatorMap}
    (hc : createFromString r.creators name = some (service, creators)) :
    (service.name = name ∧ r.advertised name = [service.getInfo])
      ↔ constructed.class_.name = name ∧ added.params = [] ∧ added.interruptible = false
        ∧ added.service = false := by
  have hname : added.name = name := (lastOf_mem h.last_added).2
  have hs : constructed.class_.create r.creators = (service, creators) :=
    Option.some.inj (h.created.symm.trans hc)
  have hiff := getInfo_create_iff added constructed.class_ r.creators
  rw [hs, hname] at hiff
  rw [h.advertised, List.singleton_inj]
  exact hiff

/--
**Advertised, accepted, executable.** After any constructions, registrations and calls
of `createFromString`: a name is advertised once exactly if commands under it are
accepted, and then a service is made under it; it is the one advertised exactly if the
class constructed last under the name has that name for its own, and the object added
last under it has no parameters and neither flag.
-/
theorem registry_run {as : List RegistryAct} {r : Registry}
    (hr : Run Registry.step NoGuard Registry.start as r) (name : String) :
    ((r.advertised name).length = 1 ↔ r.Accepts name)
      ∧ ((r.advertised name).length = 1 → ∃ added constructed service creators,
        Executable r name added constructed
          ∧ createFromString r.creators name = some (service, creators)
          ∧ ((service.name = name ∧ r.advertised name = [service.getInfo])
            ↔ constructed.class_.name = name ∧ added.params = [] ∧ added.interruptible = false
              ∧ added.service = false)) := by
  have ht := tables_run hr
  refine ⟨(ht.length_advertised name).trans (ht.accepts_iff name).symm, ?_⟩
  intro hone
  obtain ⟨added, constructed, he⟩ := ht.executable hone
  exact ⟨added, constructed, _, _, he, he.created, he.same_iff he.created⟩

/-- The tables the module is built with. -/
theorem registry_run_module :
    ∃ as r, Run Registry.step NoGuard Registry.start as r
      ∧ (r.advertised "OPEN-GRIP").length = 1 ∧ r.Accepts "OPEN-GRIP" := by
  have hexec : (exec Registry.step Registry.start [.create .closeService, .addService 0,
      .create .openService, .addService 1]).any
      (fun r => (r.advertised "OPEN-GRIP").length == 1) = true := by decide +kernel
  obtain ⟨r, hr, hone⟩ := exists_of_exec hexec
  have hone : (r.advertised "OPEN-GRIP").length = 1 := eq_of_beq hone
  exact ⟨_, r, run_of_exec hr, hone, (registry_run (run_of_exec hr) "OPEN-GRIP").1.mp hone⟩

/-- An `OpenService` by another name: it is advertised and accepted, and an `OPEN-GRIP` is made. -/
theorem not_coherent_grab :
    ¬ ∀ (as : List RegistryAct) (r : Registry),
      Run Registry.step NoGuard Registry.start as r → ∀ name, r.Coherent name := by
  intro hall
  have hexec : (exec Registry.step Registry.start
      [.createNamed .openService "GRAB" [] false false, .addService 0]).any
      (fun r => (r.advertised "GRAB").length == 1
        && (createFromString r.creators "GRAB").map (fun p => p.1.name) == some "OPEN-GRIP")
      = true := by decide +kernel
  obtain ⟨r, hr, hend⟩ := exists_of_exec hexec
  obtain ⟨hone, hname⟩ := Bool.and_eq_true_iff.mp hend
  obtain ⟨service, creators, hc, hs, _⟩ :=
    (hall _ r (run_of_exec hr) "GRAB").executable (eq_of_beq hone)
  have hname := eq_of_beq hname
  rw [hc, Option.map_some, Option.some.injEq, hs] at hname
  exact absurd hname (by decide)

/-- Objects of the default constructors are all that is made and added. -/
def RegistryAct.Default : RegistryAct → Prop
  | .createNamed .. => False
  | _ => True

/-- The object is one the default constructor makes. -/
def Service.IsDefault (s : Service) : Prop := s = (s.class_.create []).1

theorem default_step {r r' : Registry} {a : RegistryAct} (h : r.step a = some r')
    (ha : a.Default) (hd : ∀ s ∈ r.constructed, s.IsDefault) :
    ∀ s ∈ r'.constructed, s.IsDefault := by
  cases a with
  | createNamed => exact ha.elim
  | create c =>
      rw [← Option.some.inj h]
      intro s hs
      rcases List.mem_append.mp hs with hs | hs
      · exact hd s hs
      · rw [List.mem_singleton.mp hs]; rfl
  | addService i =>
      obtain ⟨service, _, h⟩ := Option.bind_eq_some_iff.mp h
      rw [← Option.some.inj h]; exact hd
  | createFromString name =>
      cases hc : r.creators.lookup name with
      | none =>
          simp only [Registry.step, createFromString, hc, Option.map_none] at h
          rw [← Option.some.inj h]; exact hd
      | some c =>
          simp only [Registry.step, createFromString, hc, Option.map_some] at h
          rw [← Option.some.inj h]
          intro s hs
          rcases List.mem_append.mp hs with hs | hs
          · exact hd s hs
          · rw [List.mem_singleton.mp hs]; rfl

/-- **With the default constructors alone the three answers agree on every name.** -/
theorem coherent_of_default {as : List RegistryAct} {r : Registry}
    (hr : Run Registry.step (fun _ a => a.Default) Registry.start as r) (name : String) :
    r.Coherent name := by
  have ht := tables_run hr
  have hd := hr.invariant (I := fun r => ∀ s ∈ r.constructed, s.IsDefault)
    (by intro s hs; exact absurd hs (by simp [Registry.start]))
    (fun hd ha hst => default_step hst ha hd)
  refine ⟨(ht.length_advertised name).trans (ht.accepts_iff name).symm, fun hone => ?_⟩
  obtain ⟨added, constructed, he⟩ := ht.executable hone
  obtain ⟨hma, hna⟩ := lastOf_mem he.last_added
  obtain ⟨hmc, hnc⟩ := lastOf_mem he.last_constructed
  have hda := hd added (ht.added added hma)
  have hdc := hd constructed hmc
  refine ⟨_, _, he.created, (he.same_iff he.created).mpr ⟨?_, ?_, ?_, ?_⟩⟩
  · rw [← hnc]; exact (congrArg Service.name hdc).symm
  · exact congrArg Service.params hda
  · exact congrArg Service.interruptible hda
  · exact congrArg Service.service hda

end HandlingModule.AIO
