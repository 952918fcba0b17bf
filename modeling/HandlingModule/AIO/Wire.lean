import HandlingModule.AIO.Identity
import HandlingModule.Json.RoundTrip

/-!
# What goes over the wire

Up to here `parse` was a parameter, and a message was a value. Here the parser is the
one of `json.hpp`, and what is emitted is the text that `dump` makes of the message.
Every such text is JSON, and whoever parses it with the same library has the members of
the message again, a number as what its digits say (`wire_run`).

The one thing that could spoil it comes from outside: a number in a payload that is too
great for a `double` is read as infinite, and an infinite `double` is not printed as a
number. `Printable` asks that of every payload, and nothing else.
-/

namespace HandlingModule.AIO

open Serial Transition Lexer HandlingModule.AIO.Parser

namespace Json

/-- All the `double`s in a value. -/
inductive Doubles (P : UInt64 → Prop) : Json → Prop where
  | null : Doubles P .null
  | boolean {b : Bool} : Doubles P (.boolean b)
  | integer {n : Int64} : Doubles P (.integer n)
  | unsigned {n : UInt64} : Doubles P (.unsigned n)
  | float {bits : UInt64} : P bits → Doubles P (.float bits)
  | string {s : String} : Doubles P (.string s)
  | array {js : List Json} : (∀ j ∈ js, Doubles P j) → Doubles P (.array js)
  | object {ms : List (String × Json)} : (∀ m ∈ ms, Doubles P m.2) → Doubles P (.object ms)

theorem Held.doubles {F P : UInt64 → Prop} {j : Json} (h : Held F j) (hd : Doubles P j) : Held P j := by
  induction h with
  | null => exact .null
  | boolean => exact .boolean
  | integer => exact .integer
  | unsigned => exact .unsigned
  | float _ =>
      cases hd with
      | float hp => exact .float hp
  | string hs => exact .string hs
  | array _ ih =>
      cases hd with
      | array hjs => exact .array fun j hj => ih j hj (hjs j hj)
  | object hmap hkeys _ ih =>
      cases hd with
      | object hms => exact .object hmap hkeys fun m hm => ih m hm (hms m hm)

/-- What is looked up is held too. -/
theorem Held.member {F : UInt64 → Prop} {j : Json} (h : Held F j) (key : String) :
    Held F (j.member key) := by
  cases h with
  | @object ms _ _ hms =>
      show Held F ((ms.lookup key).getD .null)
      cases hl : ms.lookup key with
      | none => exact .null
      | some v =>
          obtain ⟨pre, post, rfl, _⟩ := List.lookup_eq_some_iff.mp hl
          exact hms (key, v) (List.mem_append_right _ (List.mem_cons_self ..))
  | null | boolean | integer | unsigned | float | string | array => exact .null

end Json

open Json

/-- `json::parse`, as the listeners call it. -/
def parseText (strtod : List LexerChar → UInt64) (payload : String) : Option Json :=
  (Parser.parse strtod (ascii payload)).toOption

variable {δ A : Type} {dev : Device δ A}
variable {strtod : List LexerChar → UInt64} {number : UInt64 → List LexerChar}

/-- The `double`s that are printed as numbers. -/
def Prints (number : UInt64 → List LexerChar) (bits : UInt64) : Prop :=
  NumberText (floatText number bits)

/-- The `double`s in a payload are printed as numbers. -/
def Printable (strtod : List LexerChar → UInt64) (number : UInt64 → List LexerChar) :
    World δ → Act A → Prop
  | _, .receive _ payload => ∀ j, parseText strtod payload = some j → Doubles (Prints number) j
  | _, _ => True

theorem parseText_eq_some {payload : String} {j : Json} :
    parseText strtod payload = some j ↔ Parser.parse strtod (ascii payload) = .ok j := by
  unfold parseText
  cases Parser.parse strtod (ascii payload) <;> simp [Except.toOption]

/-- What the parser makes of a payload is held in order, so that it can be dumped again. -/
theorem held_payload {w : World δ} {event : CommunicationEvents} {payload : String} {j : Json}
    (hg : Printable strtod number w (.receive event payload : Act A))
    (h : parseText strtod payload = some j) : Held (Prints number) j :=
  (held_parse (parseText_eq_some.mp h)).doubles (hg j h)

/-! ## What the module holds -/

/-- A message of the module is an object in order. -/
theorem held_message {P : UInt64 → Prop} {ms : List (String × Json)} (keys : List String)
    (hkeys : ms.map Prod.fst = keys) (hmap : keys.Pairwise (· < ·)) (hbytes : ∀ k ∈ keys, Bytes k)
    (hms : ∀ m ∈ ms, Held P m.2) : Held P (.object ms) := by
  subst hkeys
  exact .object hmap (fun m hm => hbytes m.1 (List.mem_map_of_mem hm)) hms

/-- Everything that can get into a message. -/
structure Wired (P : UInt64 → Prop) (w : World δ) : Prop where
  module_id : Bytes w.channel.module_id
  accepted : ∀ p ∈ w.channel.services.accepted, ∀ key, Held P (p.2.command.member key)
  answering : ∀ m, w.network = .answering m → Held P m.data
  emitted : ∀ m ∈ w.channel.emitted, m.event = .actionFinished ∨ Held P m.data

variable {P : UInt64 → Prop}

theorem held_assignationReply {module_id : String} {command_id group_id : Json} {verdict : Bool}
    (hm : Bytes module_id) (hc : Held P command_id) (hg : Held P group_id) :
    Held P (Handler.assignationReply module_id command_id group_id verdict).data := by
  refine held_message ["COMMAND_ID", "GROUP_ID", "MODULE_ID", "REPLY"] rfl (by decide) (by decide) ?_
  intro m hmem
  simp only [List.mem_cons, List.not_mem_nil, or_false] at hmem
  rcases hmem with rfl | rfl | rfl | rfl
  · exact hc
  · exact hg
  · exact .string hm
  · exact .string (by cases verdict <;> decide)

theorem held_statusReply {module_id : String} {command_id group_id : Json} {working : Bool}
    (hm : Bytes module_id) (hc : Held P command_id) (hg : Held P group_id) :
    Held P (Handler.statusReply module_id command_id group_id working).data := by
  refine held_message ["COMMAND_ID", "GROUP_ID", "MODULE_ID", "MSG", "STATUS"] rfl (by decide)
    (by decide) ?_
  intro m hmem
  simp only [List.mem_cons, List.not_mem_nil, or_false] at hmem
  rcases hmem with rfl | rfl | rfl | rfl | rfl
  · exact hc
  · exact hg
  · exact .string hm
  · exact .string (by decide)
  · exact .string (by cases working <;> decide)

theorem held_replyInfo {command_id : Json} (hc : Held P command_id) :
    Held P (replyInfo true "" command_id) := by
  refine held_message ["COMMAND_ID", "ERROR_MESSAGE", "FINISH_MESSAGE", "MODULE_ID", "STATUS"] rfl
    (by decide) (by decide) ?_
  intro m hmem
  simp only [List.mem_cons, List.not_mem_nil, or_false] at hmem
  rcases hmem with rfl | rfl | rfl | rfl | rfl
  · exact hc
  all_goals exact .string (by decide)

theorem held_getInfo {s : Service} (hn : Bytes s.name) (hp : ∀ p ∈ s.params, Bytes p) :
    Held P s.getInfo := by
  refine held_message ["COMMAND", "INTERRUPTIBLE", "PARAMS", "SERVICE"] rfl (by decide) (by decide) ?_
  intro m hmem
  simp only [List.mem_cons, List.not_mem_nil, or_false] at hmem
  rcases hmem with rfl | rfl | rfl | rfl
  · exact .string hn
  · exact .boolean
  · refine .array fun j hj => ?_
    obtain ⟨p, hmem, rfl⟩ := List.mem_map.mp hj
    exact .string (hp p hmem)
  · exact .boolean

theorem held_moduleInfo {s : Services} {module_id : String} (hm : Bytes module_id)
    (hs : ∀ p ∈ s.services, Bytes p.2.name ∧ ∀ param ∈ p.2.params, Bytes param) :
    Held P (s.moduleInfo module_id) := by
  have hinfo : Held P (.array (s.services.map fun p => p.2.getInfo)) := by
    refine .array fun j hj => ?_
    obtain ⟨p, hp, rfl⟩ := List.mem_map.mp hj
    exact held_getInfo (hs p hp).1 (hs p hp).2
  have hcases : ∀ m ∈ assign [("COMMANDS", .array (s.services.map fun p => p.2.getInfo))] "MODULE_ID"
      (.string module_id), Bytes m.1 ∧ Held P m.2 := by
    intro m hmem
    have hid : Bytes "MODULE_ID" := by decide
    have hcommands : Bytes "COMMANDS" := by decide
    rcases mem_assign hmem with rfl | hmem
    · exact ⟨hid, .string hm⟩
    · rw [List.mem_singleton.mp hmem]
      exact ⟨hcommands, hinfo⟩
  have hmap : Ordered [("COMMANDS", Json.array (s.services.map fun p => p.2.getInfo))] :=
    List.pairwise_singleton ..
  exact .object (ordered_assign hmap _ _) (fun m h => (hcases m h).1) fun m h => (hcases m h).2

theorem held_registration {module_id : String} (hm : Bytes module_id) (d : δ) :
    ∀ m ∈ (World.start module_id d).channel.emitted, Held P m.data := by
  intro m hmem
  rw [List.mem_singleton.mp hmem]
  exact held_moduleInfo hm (by decide)

theorem wired_start {module_id : String} (hm : Bytes module_id) (d : δ) :
    Wired P (World.start module_id d) where
  module_id := hm
  accepted := fun p hp => absurd hp List.not_mem_nil
  answering := fun m h => absurd h (by simp [World.start])
  emitted := fun m h => Or.inr (held_registration hm d m h)

/-- What a listener leaves behind, and what it is about to emit. -/
theorem wired_step {w w' : World δ} {a : Act A}
    (hst : World.Step (parseText strtod) dev w a w') (hg : Printable strtod number w a)
    (hw : Wired (Prints number) w) : Wired (Prints number) w' where
  module_id := by
    cases hst with
    | received ch _ _ hh =>
        cases hh with
        | registered j module_id hj hmod =>
            have := (held_payload hg hj).member "MODULE_ID"
            rw [hmod] at this
            cases this with
            | string hs => exact hs
        | begun j _ => exact hw.module_id
    | replying m ch _ _ hh =>
        cases hh with
        | refused j _ => exact hw.module_id
        | accepted j _ c _ => exact hw.module_id
        | asked j _ => exact hw.module_id
    | threw e ch _ _ hh =>
        cases hh with
        | thrown e _ => exact hw.module_id
    | _ => exact hw.module_id
  accepted := by
    rcases accepted_cases hst with hsame | ⟨payload, j, g, c, rfl, hj, hacc, hpush⟩
    · rw [hsame]
      exact hw.accepted
    · rw [hpush]
      intro p hp key
      rcases List.mem_append.mp hp with hp | hp
      · exact hw.accepted p hp key
      · rw [List.mem_singleton.mp hp, hacc.same]
        exact (held_payload hg hj).member key
  answering := by
    intro m hm
    cases hst with
    | received ch _ _ hh => exact hw.answering m hm
    | replying m' ch _ _ hh =>
        obtain rfl : m' = m := by simpa using hm
        cases hh with
        | refused j _ hj _ _ =>
            have hheld := held_payload hg hj
            exact held_assignationReply hw.module_id (hheld.member _) (hheld.member _)
        | accepted j _ c hj _ =>
            have hheld := held_payload hg hj
            exact held_assignationReply hw.module_id (hheld.member _) (hheld.member _)
        | asked j hj _ =>
            have hheld := held_payload hg hj
            exact held_statusReply hw.module_id (hheld.member _) (hheld.member _)
    | threw e ch _ _ hh => exact absurd hm (by simp)
    | answered m' _ => exact absurd hm (by simp)
    | unwound e _ => exact absurd hm (by simp)
    | _ => exact hw.answering m hm
  emitted := by
    rcases emitted_cases hst with hsame | ⟨m', hnew, hwhich⟩
    · rw [hsame]
      exact hw.emitted
    · rw [hnew]
      intro m hm
      rcases List.mem_append.mp hm with hm | hm
      · exact hw.emitted m hm
      · rw [List.mem_singleton.mp hm]
        exact hwhich.symm.imp id (hw.answering m')

/-- **The run lemma**, with the real parser. -/
theorem wired_run {module_id : String} (hm : Bytes module_id) {d : δ} {as : List (Act A)} {w : World δ}
    (hr : Run (World.step (parseText strtod) dev) (Printable strtod number) (World.start module_id d)
      as w) : Wired (Prints number) w :=
  hr.invariant (wired_start hm d) fun hw hg hst => wired_step (World.step_cases hst) hg hw

/-- A report is a message too, and its `COMMAND_ID` is that of an accepted command. -/
theorem Wired.message {w : World δ} (hw : Wired P w) (hl : Ledger w) {m : Message}
    (hm : m ∈ w.channel.emitted) : Held P m.data := by
  rcases hw.emitted m hm with he | hheld
  · have hdata : m.data ∈ w.reports.map Report.data := by
      rw [← hl.reported.sent]
      exact List.mem_map_of_mem (List.mem_filter.mpr ⟨hm, beq_iff_eq.mpr he⟩)
    obtain ⟨r, hr, hdata⟩ := List.mem_map.mp hdata
    obtain ⟨p, _, hrec⟩ := hl.onRecord hr
    rw [← hdata, hrec.data]
    exact held_replyInfo (hw.accepted p (List.mem_of_getElem? hrec.accepted) _)
  · exact hheld

/-- What the other side reads in the text of a message. -/
structure ReadBack (strtod : List LexerChar → UInt64) (number : UInt64 → List LexerChar)
    (m : Message) (indent : Int32) (j : Json) : Prop where
  parsed : parseText strtod (fromBytes (m.data.dump number indent)) = some j
  members : ∀ key, j.member key = (m.data.member key).reread strtod number
  strings : ∀ key s, m.data.member key = .string s → j.member key = .string s

theorem readBack_of_held {m : Message} (h : Held (Prints number) m.data) (indent : Int32) :
    ReadBack strtod number m indent (m.data.reread strtod number) where
  parsed := by
    rw [parseText_eq_some, ascii_fromBytes]
    exact parse_eq_ok_iff.mpr (dump_derived h indent)
  members := member_reread m.data
  strings := by
    intro key s hs
    rw [member_reread, hs, reread]

/--
**Whatever the module emits can be read.** In every run with the parser of `json.hpp`,
in which every `double` received can be printed as a number, every message that has been
emitted is written as a text that parses, with any indentation, to a value with the same
members: the same strings, and numbers as their digits say.
-/
theorem wire_run {module_id : String} (hm : Bytes module_id) {d : δ} {as : List (Act A)} {w : World δ}
    (hr : Run (World.step (parseText strtod) dev) (Printable strtod number) (World.start module_id d)
      as w) :
    ∀ m ∈ w.channel.emitted, ∀ indent, ∃ j, ReadBack strtod number m indent j := by
  intro m hmem indent
  exact ⟨_, readBack_of_held ((wired_run hm hr).message (ledger_run hr) hmem) indent⟩

/-- The payloads of the sessions are parsed to what the sessions take them for. -/
theorem parseText_session :
    parseText strtod openPayload = sessionParse openPayload
      ∧ parseText strtod shutPayload = sessionParse shutPayload
      ∧ parseText strtod beginPayload = sessionParse beginPayload :=
  ⟨rfl, rfl, rfl⟩

/-- The check for a session in which all that is received is an `OPEN-GRIP`. -/
def receivesOpen : World δ → Act A → Bool
  | _, .receive _ payload => payload == openPayload
  | _, _ => true

theorem printable_of_receivesOpen {w : World δ} {a : Act A} (h : receivesOpen w a = true) :
    Printable strtod number w a := by
  cases a with
  | receive event payload =>
      intro j hj
      rw [eq_of_beq h, parseText_session.1] at hj
      rw [← Option.some.inj hj]
      refine .object fun m hm => ?_
      simp only [List.mem_cons, List.not_mem_nil, or_false] at hm
      rcases hm with rfl | rfl | rfl
      · exact .string
      · exact .unsigned
      · exact .unsigned
  | answer | unwind | allBegins | consumeService | device => trivial

theorem wire_run_open :
    ∃ w m j, Run (World.step (parseText fun _ => 0) firmware) (Printable (fun _ => 0) fun _ => [])
        (World.start "handling" Board.start) [.receive .workAssignation openPayload, .answer] w
      ∧ m ∈ w.channel.emitted ∧ m.event = .workAssignationReply
      ∧ ReadBack (fun _ => 0) (fun _ => []) m (-1) j := by
  have hexec : (exec (checked receivesOpen (World.step (parseText fun _ => 0) firmware))
      (World.start "handling" Board.start) [.receive .workAssignation openPayload, .answer]).any
      (fun w => w.channel.emitted.any fun m => m.event == .workAssignationReply) = true := by
    decide +kernel
  obtain ⟨w, hw, hany⟩ := exists_of_exec hexec
  obtain ⟨m, hm, he⟩ := List.any_eq_true.mp hany
  have hr := (run_of_exec_checked hw).weaken fun _ _ h =>
    (printable_of_receivesOpen h : Printable (fun _ => 0) (fun _ => []) _ _)
  obtain ⟨j, hj⟩ := wire_run (by decide) hr m hm (-1)
  exact ⟨w, m, j, hr, hm, eq_of_beq he, hj⟩

end HandlingModule.AIO
