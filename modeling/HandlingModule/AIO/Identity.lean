import HandlingModule.AIO.ExactlyOnce

/-!
# What a report says about itself

The reply to an accepted command names it by `COMMAND_ID` and `GROUP_ID` and names
the module by the id the server has given it. `consumeService` takes the `COMMAND_ID`
of its command, leaves the `GROUP_ID` out and writes a module id of its own. Command
ids are given out group by group, so two reports can be word for word the same.

`executeTask` builds the same message with all three; nothing calls it.
-/

namespace HandlingModule.AIO

open Serial Transition

variable {δ A : Type} {parse : String → Option Json} {dev : Device δ A}

/-! ## The two builders -/

/-- `executeTask`; `getCommand` gives it a copy of the command each time. -/
def executeTask (command : CommandInfo) (module_id : String) : Except Exn Message := do
  let (command_id, _) ← command.command.index "COMMAND_ID"
  let (group_id, _) ← command.command.index "GROUP_ID"
  return ⟨.actionFinished, .object [("COMMAND_ID", command_id), ("GROUP_ID", group_id),
    ("MODULE_ID", .string module_id), ("MSG", .string ""),
    ("STATUS", .string (if !command.error then "DONE" else "ERROR"))]⟩

/-- The report identifies its command as the reply did, and the module by its id. -/
structure Identified (module_id : String) (m : Message) (data : Json) : Prop where
  command_id : data.member "COMMAND_ID" = m.data.member "COMMAND_ID"
  group_id : data.member "GROUP_ID" = m.data.member "GROUP_ID"
  module_id : data.member "MODULE_ID" = .string module_id

/-- `executeTask` reports a command the way the reply to it did. -/
theorem executeTask_identified {p : Int64 × CommandInfo} {m : Message} (hn : Names p m)
    (hobj : ∃ members, p.2.command = .object members) (module_id : String) :
    ∃ report, executeTask p.2 module_id = .ok report ∧ Identified module_id m report.data := by
  obtain ⟨members, hobj⟩ := hobj
  obtain ⟨command_id, j1, h1⟩ : ∃ v j, p.2.command.index "COMMAND_ID" = .ok (v, j) :=
    Json.index_isOk.mpr (by rw [hobj]; trivial)
  obtain ⟨group_id, j2, h2⟩ : ∃ v j, p.2.command.index "GROUP_ID" = .ok (v, j) :=
    Json.index_isOk.mpr (by rw [hobj]; trivial)
  have hreport : ∃ report, executeTask p.2 module_id = .ok report
      ∧ report.data.member "COMMAND_ID" = command_id ∧ report.data.member "GROUP_ID" = group_id
      ∧ report.data.member "MODULE_ID" = .string module_id := by
    unfold executeTask
    rw [h1, h2]
    exact ⟨_, rfl, rfl, rfl, rfl⟩
  obtain ⟨report, hok, hc, hg, hm⟩ := hreport
  refine ⟨report, hok, ?_, ?_, hm⟩
  · rw [hc, hn.command_id]; exact (Json.index_spec h1).1
  · rw [hg, hn.group_id]; exact (Json.index_spec h2).1

/-! ## The reply to the command of a report -/

/-- The group of an accepted command is the number its `GROUP_ID` converts to. -/
def Grouped (w : World δ) : Prop :=
  ∀ p ∈ w.channel.services.accepted, (p.2.command.member "GROUP_ID").toLong = .ok p.1

theorem grouped_start (module_id : String) (d : δ) : Grouped (World.start module_id d) := by
  intro p hp
  exact absurd hp (by simp [World.start, handlingModule, Services.addService, Services.new])

theorem grouped_step {w w' : World δ} {a : Act A} (h : World.Step parse dev w a w')
    (hg : Grouped w) : Grouped w' := by
  intro p hp
  rcases accepted_cases h with heq | ⟨_, j, g, c, _, _, ha, heq⟩
  · exact hg p (by rw [← heq]; exact hp)
  · rw [heq] at hp
    have hp : p ∈ w.channel.services.accepted ++ [(g, c)] := hp
    rcases List.mem_append.mp hp with hp | hp
    · exact hg p hp
    · rw [List.mem_singleton.mp hp]
      show (c.command.member "GROUP_ID").toLong = .ok g
      rw [ha.same]; exact ha.group

theorem grouped_run {module_id : String} {d : δ} {as : List (Act A)} {w : World δ}
    {G : World δ → Act A → Prop}
    (hr : Run (World.step parse dev) G (World.start module_id d) as w) : Grouped w :=
  hr.invariant (grouped_start module_id d) (fun hg _ hst => grouped_step (World.step_cases hst) hg)

/-- The `ACCEPTED` reply to the command of a report: replies are numbered as tickets are. -/
def World.acceptance (w : World δ) (r : Report) : Option Message :=
  (w.answers.filter Message.accepts)[r.ticket]?

/-- What is on record about the command of a report. -/
structure OnRecord (w : World δ) (r : Report) (p : Int64 × CommandInfo) (m : Message) : Prop where
  accepted : w.channel.services.accepted[r.ticket]? = some p
  ticket : p.2.ticket = r.ticket
  acceptance : w.acceptance r = some m
  names : Names p m
  data : r.data = replyInfo true "" (p.2.command.member "COMMAND_ID")

/-- An acceptance is at the place its ticket says. -/
theorem Accounted.getElem?_ticket {s : Services} (h : Accounted s) {p : Int64 × CommandInfo}
    (hp : p ∈ s.accepted) : s.accepted[p.2.ticket]? = some p := by
  obtain ⟨n, hn⟩ := List.mem_iff_getElem?.mp hp
  have hlt : n < s.accepted.length := (List.getElem?_eq_some_iff.mp hn).1
  have ht := congrArg (fun l => l[n]?) h.tickets
  simp only [List.getElem?_map, hn, Option.map_some, List.getElem?_range hlt,
    Option.some.injEq] at ht
  rw [ht]; exact hn

/-- Every report is of an accepted command, and that command had its reply. -/
theorem Ledger.onRecord {w : World δ} (h : Ledger w) {r : Report} (hr : r ∈ w.reports) :
    ∃ p m, OnRecord w r p m := by
  obtain ⟨c, hc, _, ht, hd⟩ := h.reported.by_thread r hr
  have hacc : w.channel.services.accepted[r.ticket]? = some c.entry := by
    rw [ht]; exact h.books.accounted.getElem?_ticket (h.books.mem_accepted hc)
  obtain ⟨m, hm, hn⟩ := Replace.forall₂_getElem?_left h.acknowledged.accepted hacc
  exact ⟨c.entry, m, hacc, ht.symm, hm, hn, hd⟩

/-! ## What is missing -/

/-- A number is not `null`. -/
theorem Json.ne_null_of_toLong {j : Json} {n : Int64} (h : j.toLong = .ok n) : j ≠ .null := by
  rintro rfl
  exact absurd h (by simp [Json.toLong])

/-- No report names the group, and every reply to an accepted command did. -/
theorem OnRecord.unidentified {w : World δ} {r : Report} {p : Int64 × CommandInfo} {m : Message}
    (h : OnRecord w r p m) (hg : Grouped w) (module_id : String) :
    ¬ Identified module_id m r.data := by
  intro hi
  have hgroup := hi.group_id
  rw [h.data, h.names.group_id] at hgroup
  exact Json.ne_null_of_toLong (hg p (List.mem_of_getElem? h.accepted)) hgroup.symm

/-- Two reports are the same message when their commands have the same `COMMAND_ID`. -/
theorem OnRecord.same_iff {w : World δ} {r s : Report} {p q : Int64 × CommandInfo} {m n : Message}
    (hr : OnRecord w r p m) (hs : OnRecord w s q n) :
    r.data = s.data ↔ p.2.command.member "COMMAND_ID" = q.2.command.member "COMMAND_ID" := by
  rw [hr.data, hs.data]
  constructor
  · intro h
    have hid := congrArg (fun j => j.member "COMMAND_ID") h
    exact hid
  · intro h; rw [h]

/-- A report made in the step identifies its command. -/
def Identifies (w w' : World δ) : Prop :=
  ∀ r, w'.reports = w.reports ++ [r] →
    ∃ m, w'.acceptance r = some m ∧ Identified w.channel.module_id m r.data

/-- What the report of a step says, and what it does not. -/
structure Unidentified (w w' : World δ) (r : Report) : Prop where
  recorded : ∃ p m, OnRecord w' r p m ∧ m.data.member "GROUP_ID" ≠ .null
  command_id : ∀ m, w'.acceptance r = some m →
    r.data.member "COMMAND_ID" = m.data.member "COMMAND_ID"
  group_id : r.data.member "GROUP_ID" = .null
  module_id : r.data.member "MODULE_ID" = .string "handling_module"
  never : ¬ Identifies w w'

/--
**No report identifies its command.** In any run, a step that emits one emits it with
the `COMMAND_ID` of the reply, without the `GROUP_ID` the reply had, and with one and
the same module id; and two reports are the same message exactly if the `COMMAND_ID`s
of their commands are, whatever their groups.
-/
theorem reports_unidentified {module_id : String} {d : δ} {as : List (Act A)} {w w' : World δ}
    {a : Act A} {r : Report}
    (hr : Run (World.step parse dev) NoGuard (World.start module_id d) as w)
    (hst : w.step parse dev a = some w') (hrep : w'.reports = w.reports ++ [r]) :
    Unidentified w w' r
      ∧ ∀ s ∈ w'.reports, ∀ t ∈ w'.reports, ∃ p q : Int64 × CommandInfo,
        w'.channel.services.accepted[s.ticket]? = some p
          ∧ w'.channel.services.accepted[t.ticket]? = some q
          ∧ (s.data = t.data
            ↔ p.2.command.member "COMMAND_ID" = q.2.command.member "COMMAND_ID") := by
  have hr' := hr.snoc trivial hst
  have hl := ledger_run hr'
  have hg := grouped_run hr'
  obtain ⟨p, m, hrec⟩ := hl.onRecord (show r ∈ w'.reports by
    rw [hrep]; exact List.mem_append_right _ (List.mem_singleton.mpr rfl))
  refine ⟨⟨⟨p, m, hrec, ?_⟩, ?_, by rw [hrec.data]; rfl, by rw [hrec.data]; rfl, ?_⟩, ?_⟩
  · rw [hrec.names.group_id]
    exact Json.ne_null_of_toLong (hg p (List.mem_of_getElem? hrec.accepted))
  · intro n hn
    rw [← Option.some.inj (hrec.acceptance.symm.trans hn), hrec.names.command_id, hrec.data]
    rfl
  · intro hi
    obtain ⟨n, hn, hid⟩ := hi r hrep
    rw [← Option.some.inj (hrec.acceptance.symm.trans hn)] at hid
    exact hrec.unidentified hg _ hid
  · intro s hs t ht
    obtain ⟨q1, n1, h1⟩ := hl.onRecord hs
    obtain ⟨q2, n2, h2⟩ := hl.onRecord ht
    exact ⟨q1, q2, h1.accepted, h2.accepted, h1.same_iff h2⟩

/-- The session of an `OPEN-GRIP`, up to the report. -/
def unreportedSession : List (Act Unit) := openSession.take 180

set_option maxRecDepth 10000 in
/-- The end of that session, and the step that reports. -/
theorem exists_reporting :
    ∃ w w' r, Run (World.step sessionParse firmware) NoGuard (World.start "handling" Board.start)
        unreportedSession w
      ∧ w.step sessionParse firmware (.consumeService 0 true) = some w'
      ∧ w'.reports = w.reports ++ [r] := by
  have hexec : (exec (World.step sessionParse firmware) (World.start "handling" Board.start)
      unreportedSession).any (fun w => w.reports.isEmpty
        && (w.step sessionParse firmware (.consumeService 0 true)).any
          (fun w' => w'.reports.length == 1)) = true := by decide +kernel
  obtain ⟨w, hw, hend⟩ := exists_of_exec hexec
  obtain ⟨hempty, hstep⟩ := Bool.and_eq_true_iff.mp hend
  obtain ⟨w', hw', hlen⟩ := (Option.any_eq_true ..).mp hstep
  obtain ⟨r, hr⟩ := List.length_eq_one_iff.mp (eq_of_beq hlen)
  exact ⟨w, w', r, run_of_exec hw, hw', by rw [List.isEmpty_iff.mp hempty, hr]; rfl⟩

theorem reports_unidentified_open :
    ∃ w w' r, Run (World.step sessionParse firmware) NoGuard (World.start "handling" Board.start)
        unreportedSession w
      ∧ w.step sessionParse firmware (.consumeService 0 true) = some w'
      ∧ Unidentified w w' r := by
  obtain ⟨w, w', r, hr, hst, hrep⟩ := exists_reporting
  exact ⟨w, w', r, hr, hst, (reports_unidentified hr hst hrep).1⟩

/-- The module is `handling`, the group is 7, and the report says neither. -/
theorem not_identifies_open :
    ¬ ∀ (as : List (Act Unit)) (a : Act Unit) (w w' : World Board),
      Run (World.step sessionParse firmware) NoGuard (World.start "handling" Board.start) as w →
      w.step sessionParse firmware a = some w' → Identifies w w' := by
  intro hall
  obtain ⟨w, w', r, hr, hst, hrep⟩ := exists_reporting
  have hl := ledger_run (hr.snoc trivial hst)
  obtain ⟨p, m, hrec⟩ := hl.onRecord (show r ∈ w'.reports by
    rw [hrep]; exact List.mem_append_right _ (List.mem_singleton.mpr rfl))
  obtain ⟨n, hn, hid⟩ := hall _ _ w w' hr hst r hrep
  rw [← Option.some.inj (hrec.acceptance.symm.trans hn)] at hid
  exact hrec.unidentified (grouped_run (hr.snoc trivial hst)) _ hid

end HandlingModule.AIO
