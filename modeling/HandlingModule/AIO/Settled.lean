import HandlingModule.AIO.Completion
import HandlingModule.AIO.Ordering
import HandlingModule.AIO.Reports

/-!
# What is begun is reported, and what is reported is done

Two results about the end of a run. A command accepted before an `ALL_BEGINS` of its
group has its report when the module is finished, whatever else was accepted, begun
and scheduled meanwhile: the thread of that `ALL_BEGINS` leaves its loop only at an
empty queue. And if the port could be opened each time, every report is true: the
board has carried out the commands, each once, in the order of their writes.
-/

namespace HandlingModule.AIO

open Serial Firmware Transition Replace

variable {δ A : Type} {parse : String → Option Json} {dev : Device δ A}

/-! ## The thread of an `ALL_BEGINS` -/

/-- What was accepted stays accepted, in its place. -/
theorem accepted_grows {w w' : World δ} {a : Act A} (h : World.Step parse dev w a w') (g : Int64) :
    forGroup w.channel.services.accepted g <+: forGroup w'.channel.services.accepted g := by
  rcases accepted_cases h with heq | ⟨_, _, g', c, _, _, _, hs⟩
  · exact heq ▸ List.prefix_rfl
  · rw [hs]
    show _ <+: forGroup (w.channel.services.accepted ++ [(g', c)]) g
    rw [forGroup_append]
    exact List.prefix_append ..

theorem popped_grows {w w' : World δ} {a : Act A} (h : World.Step parse dev w a w') (g : Int64) :
    forGroup w.channel.services.popped g <+: forGroup w'.channel.services.popped g := by
  cases handStep h with
  | popped d g' c _ _ _ hp _ => rw [hp, forGroup_append]; exact List.prefix_append ..
  | unseen _ hp _ => exact hp ▸ List.prefix_rfl
  | begun _ _ hp _ => exact hp ▸ List.prefix_rfl
  | moved _ _ _ _ _ _ _ hp _ => exact hp ▸ List.prefix_rfl
  | threaded _ _ _ _ _ _ hp _ => exact hp ▸ List.prefix_rfl

/-- A thread leaves its loop only when it finds the queue of its group empty. -/
theorem past_cases {w w' : World δ} {a : Act A} (h : World.Step parse dev w a w') {g : Int64}
    (hs : Starts g w) {i : Nat} {d d' : Dispatcher} (hd : w.channel.dispatchers[i]? = some d)
    (hd' : w'.channel.dispatchers[i]? = some d') (hg : d.groupId = .ok g)
    (hpast : d'.past = true) : d.past = true ∨ w.channel.services.commandsInfo g = [] := by
  have hset : ∀ {j : Nat} {e e' : Dispatcher}, w.channel.dispatchers[j]? = some e →
      (w.channel.dispatchers.set j e')[i]? = some d' → (i = j → e'.past = true → e = d →
        d.past = true ∨ w.channel.services.commandsInfo g = []) →
      d.past = true ∨ w.channel.services.commandsInfo g = [] := by
    intro j e e' he hget hmoved
    rcases getElem?_set_cases he hget with ⟨rfl, rfl⟩ | ⟨_, hget⟩
    · exact hmoved rfl hpast (Option.some.inj (he.symm.trans hd))
    · rw [Option.some.inj (hd.symm.trans hget)]
      exact Or.inl hpast
  have hsame : w'.channel.dispatchers = w.channel.dispatchers →
      d.past = true ∨ w.channel.services.commandsInfo g = [] := by
    intro heq
    rw [heq] at hd'
    rw [Option.some.inj (hd.symm.trans hd')]
    exact Or.inl hpast
  cases h with
  | received ch _ _ hh =>
      cases hh with
      | registered j module_id _ _ => exact hsame rfl
      | begun j _ =>
          rw [(List.getElem?_append_left (List.getElem?_eq_some_iff.mp hd).1), hd] at hd'
          rw [Option.some.inj hd']
          exact Or.inl hpast
  | replying m ch _ _ hh => cases hh <;> exact hsame rfl
  | threw e ch _ _ hh => cases hh; exact hsame rfl
  | workingSet e he hpc => exact hset he hd' (fun _ hp _ => absurd hp Bool.false_ne_true)
  | grouped e g' he hpc _ => exact hset he hd' (fun _ hp _ => absurd hp Bool.false_ne_true)
  | groupThrew e ex he hpc herr =>
      refine hset he hd' ?_
      rintro rfl _ rfl
      rw [hg] at herr
      exact absurd herr (by simp)
  | drained e g' he hpc hq =>
      refine hset he hd' ?_
      rintro rfl _ rfl
      -- the queue it looks into is that of the group of its payload
      have hg' := hs.group _ e g' he (by rw [hpc]; rfl)
      rw [hg] at hg'
      rw [Except.ok.inj hg']
      exact Or.inr hq
  | found e g' he hpc _ => exact hset he hd' (fun _ hp _ => absurd hp Bool.false_ne_true)
  | popped e g' c services he hpc _ => exact hset he hd' (fun _ hp _ => absurd hp Bool.false_ne_true)
  | threaded e g' c he hpc => exact hset he hd' (fun _ hp _ => absurd hp Bool.false_ne_true)
  | workingCleared e he hpc =>
      refine hset he hd' ?_
      rintro rfl _ rfl
      exact Or.inl (by simp [Dispatcher.past, DispatchPc.past, hpc])
  | _ => exact hsame rfl

/--
Thread `i` is for the group, and when it has left its loop everything is taken that
had been accepted by then, `cs` included.
-/
structure Clearing (g : Int64) (i : Nat) (cs : List CommandInfo) (w : World δ) : Prop where
  accepted : cs <+: forGroup w.channel.services.accepted g
  thread : ∃ d, w.channel.dispatchers[i]? = some d ∧ d.groupId = .ok g
    ∧ (d.past = true → cs <+: forGroup w.channel.services.popped g)

theorem dispatcher_keeps {w w' : World δ} {a : Act A} (h : World.Step parse dev w a w') {i : Nat}
    {d : Dispatcher} (hd : w.channel.dispatchers[i]? = some d) :
    ∃ d', w'.channel.dispatchers[i]? = some d' ∧ d'.groupId = d.groupId := by
  have hlt : i < w'.channel.dispatchers.length :=
    Nat.lt_of_lt_of_le (List.getElem?_eq_some_iff.mp hd).1 (received_step (flagStep h))
  obtain ⟨d', hd'⟩ : ∃ d', w'.channel.dispatchers[i]? = some d' := ⟨_, List.getElem?_eq_getElem hlt⟩
  obtain ⟨e, he, hj, _⟩ := continues_step (flagStep h) i d' (List.getElem?_eq_some_iff.mp hd).1 hd'
  refine ⟨d', hd', ?_⟩
  rw [Option.some.inj (hd.symm.trans he)]
  simp only [Dispatcher.groupId, hj]

theorem clearing_step {w w' : World δ} {a : Act A} (h : World.Step parse dev w a w') {g : Int64}
    {i : Nat} {cs : List CommandInfo} (hs : Starts g w) (hb : Books w) (hc : Clearing g i cs w) :
    Clearing g i cs w' := by
  obtain ⟨hacc, d, hd, hg, hpast⟩ := hc
  obtain ⟨d', hd', hg'⟩ := dispatcher_keeps h hd
  refine ⟨hacc.trans (accepted_grows h g), d', hd', hg'.trans hg, ?_⟩
  intro hp
  rcases past_cases h hs hd hd' hg hp with hpd | hq
  · exact (hpast hpd).trans (popped_grows h g)
  · have hall := hb.accounted.queues g
    rw [hq, List.append_nil] at hall
    rw [hall] at hacc
    exact hacc.trans (popped_grows h g)

/-- The command has one report, and it carries the command's id. -/
def ReportedOnce (w : World δ) (c : CommandInfo) : Prop :=
  (∃ r ∈ w.reports, r.ticket = c.ticket ∧ r.data = replyInfo true "" (c.command.member "COMMAND_ID"))
    ∧ (w.reports.map Report.ticket).count c.ticket = 1

/-- With everything finished, a command that was taken has been reported. -/
theorem Finished.reported {w : World Board} (hf : Finished w) (hl : Ledger w) {g : Int64}
    {c : CommandInfo} (hc : c ∈ forGroup w.channel.services.popped g) : ReportedOnce w c := by
  have hall : (w.reports.map Report.ticket).Perm
      (w.channel.services.popped.map (fun p => p.2.ticket)) := by
    refine hl.exactlyOnce.complete (fun d hd => ?_) hf.consumers
    rw [Dispatcher.held, hf.dispatchers d hd]
  have hmem : c.ticket ∈ w.reports.map Report.ticket :=
    hall.mem_iff.mpr (List.mem_map_of_mem (mem_forGroup.mp hc))
  refine ⟨?_, List.count_eq_one_of_mem hl.exactlyOnce.once hmem⟩
  obtain ⟨r, hr, ht⟩ := List.mem_map.mp hmem
  obtain ⟨e, he, _, hte, hdata⟩ := hl.reported.by_thread r hr
  -- the thread's command is the only one with that ticket
  have hsame : e.commandInfo = c := by
    have hacc := hl.books.mem_accepted he
    have hacc' := hl.books.accounted.mem_accepted (Or.inl (mem_forGroup.mp hc))
    have := hl.books.accounted.unique hacc hacc' (hte.symm.trans ht)
    exact congrArg Prod.snd this
  refine ⟨r, hr, ht, ?_⟩
  rw [hdata, Consumer.report, hsame]

/--
**What is begun is reported.** A command accepted for a group before an `ALL_BEGINS` of
that group has exactly one report once the module is finished, under every schedule and
whatever comes, is accepted and is begun before and in between.
-/
theorem begun_reported {module_id payload : String} {j : Json} {g : Int64}
    {as bs : List (Act Unit)} {w w₁ w₂ : World Board}
    (hr : Run (World.step parse firmware) NoGuard (World.start module_id Board.start) as w)
    (hst : w.step parse firmware (.receive .allBegins payload) = some w₁)
    (hp : parse payload = some j) (hg : (j.member "GROUP_ID").toLong = .ok g)
    (hr₂ : Run (World.step parse firmware) NoGuard w₁ bs w₂) (hf : Finished w₂)
    {c : CommandInfo} (hc : c ∈ forGroup w.channel.services.accepted g) : ReportedOnce w₂ c := by
  have hr₁ : Run (World.step parse firmware) NoGuard (World.start module_id Board.start)
      (as ++ [.receive .allBegins payload]) w₁ := hr.snoc trivial hst
  have hclear : Clearing g w.channel.dispatchers.length
      (forGroup w.channel.services.accepted g) w₁ := by
    refine ⟨accepted_grows (World.step_cases hst) g, ⟨j, .setWorking⟩, ?_, ?_, ?_⟩
    · cases World.step_cases hst with
      | received ch _ _ hh =>
          cases hh with
          | begun j' hj' =>
              rw [Option.some.inj (hp.symm.trans hj')]
              exact List.getElem?_concat_length ..
      | replying m ch _ _ hh => cases hh
      | threw e ch _ _ hh =>
          cases hh with
          | thrown _ hno => exact absurd ⟨j, hp⟩ hno
    · exact Handler.groupId_ok.mpr hg
    · intro hpast
      exact absurd hpast Bool.false_ne_true
  have hend : Clearing g w.channel.dispatchers.length
      (forGroup w.channel.services.accepted g) w₂ := by
    have hboth := hr₂.invariant (I := fun u => (Books u ∧ Starts g u) ∧ Clearing g
        w.channel.dispatchers.length (forGroup w.channel.services.accepted g) u)
      ⟨⟨(ledger_run hr₁).books, starts_run g hr₁⟩, hclear⟩ ?_
    · exact hboth.2
    · intro u v a ⟨⟨hb, hs⟩, hc⟩ _ hst
      have h := World.step_cases hst
      exact ⟨⟨books_step h hb, starts_step (handStep h) hs⟩, clearing_step h hs hb hc⟩
  obtain ⟨_, d, hd, _, hpast⟩ := hend
  have hpast := hpast (by
    simp [Dispatcher.past, DispatchPc.past, hf.dispatchers d (List.mem_of_getElem? hd)])
  exact hf.reported (ledger_run (hr₁.trans hr₂)) (hpast.subset hc)

/-- The test whether everybody is through. -/
def World.finished (w : World Board) : Bool :=
  (match w.network with | .idle => true | _ => false)
    && w.channel.dispatchers.all (fun d => match d.pc with | .ended => true | _ => false)
    && w.consumers.all (fun c => match c.pc with | .ended => true | _ => false)

theorem finished_of_test {w : World Board} (h : w.finished = true) : Finished w := by
  simp only [World.finished, Bool.and_eq_true, List.all_eq_true] at h
  obtain ⟨⟨hn, hd⟩, hc⟩ := h
  refine ⟨?_, fun d hm => ?_, fun c hm => ?_⟩
  · split at hn
    · assumption
    · exact absurd hn Bool.false_ne_true
  · have := hd d hm
    split at this
    · assumption
    · exact absurd this Bool.false_ne_true
  · have := hc c hm
    split at this
    · assumption
    · exact absurd this Bool.false_ne_true

/-- What follows the `ALL_BEGINS` in a session with one `OPEN-GRIP`. -/
def openRest : List (Act Unit) :=
  times 5 (.allBegins 0) ++ times 4 (.consumeService 0 true) ++ times 67 (.device ())
    ++ times 99 (.consumeService 0 true) ++ times 4 (.consumeService 0 true)
    ++ times 2 (.allBegins 0)

set_option maxRecDepth 10000 in
theorem begun_reported_open :
    ∃ w w₁ w₂ c, Run (World.step sessionParse firmware) NoGuard
        (World.start "handling" Board.start) [.receive .workAssignation openPayload, .answer] w
      ∧ w.step sessionParse firmware (.receive .allBegins beginPayload) = some w₁
      ∧ Run (World.step sessionParse firmware) NoGuard w₁ openRest w₂
      ∧ c ∈ forGroup w.channel.services.accepted 7 ∧ ReportedOnce w₂ c := by
  have hexec : (exec (World.step sessionParse firmware)
      (World.start "handling" Board.start) [.receive .workAssignation openPayload, .answer]).any
      (fun w => !(forGroup w.channel.services.accepted 7).isEmpty
        && (w.step sessionParse firmware (.receive .allBegins beginPayload)).any
          (fun w₁ => (exec (World.step sessionParse firmware) w₁ openRest).any World.finished))
      = true := by decide +kernel
  obtain ⟨w, hw, hrest⟩ := exists_of_exec hexec
  obtain ⟨hne, hrest⟩ := Bool.and_eq_true_iff.mp hrest
  obtain ⟨w₁, hw₁, hrest⟩ := (Option.any_eq_true ..).mp hrest
  obtain ⟨w₂, hw₂, hf⟩ := exists_of_exec hrest
  obtain ⟨c, hc⟩ := List.exists_mem_of_ne_nil _ (by simpa using hne)
  exact ⟨w, w₁, w₂, c, run_of_exec hw, hw₁, run_of_exec hw₂, hc,
    begun_reported (run_of_exec hw) hw₁ rfl rfl (run_of_exec hw₂) (finished_of_test hf) hc⟩

/-! ## What is reported is done -/

/-- The system refuses nothing: the port and the library open, and a byte comes in time. -/
def Granted : Act Unit → Bool
  | .consumeService _ ok => ok
  | _ => true

/-- The guard of the runs in which, besides, the port can be opened each time. -/
structure Served (parse : String → Option Json) (w : World Board) (a : Act Unit) : Prop where
  proper : Proper parse w a
  granted : Granted a = true

/-- No call was refused the port. -/
def Opened (w : World Board) : Prop := ∀ hc ∈ w.line.calls, false ∉ hc.opened

theorem opened_call {c c' : HandlingCall} {wire wire' : Wire} (h : CallStep c true wire c' wire')
    (hc : false ∉ c.opened) : false ∉ c'.opened := by
  cases h with
  | opened pc _ => simpa using hc
  | _ => exact hc

theorem opened_step {w w' : World Board} {a : Act Unit} (h : World.Step parse firmware w a w')
    (hg : Granted a = true) (ho : Opened w) : Opened w' := by
  cases h with
  | called c responsible creators command line hc _ _ hst =>
      intro hc' hm
      have hm : hc' ∈ line.calls := hm
      rw [line_call hst] at hm
      rcases List.mem_append.mp hm with hm | hm
      · exact ho hc' hm
      · rw [List.mem_singleton.mp hm]
        exact List.not_mem_nil
  | @ran i ok c responsible command k hcall line _ _ _ hk hst =>
      have hok : ok = true := hg
      subst hok
      obtain ⟨e, e', wire, he, hstep, rfl⟩ := line_run hst
      intro hc' hm
      rcases List.mem_or_eq_of_mem_set hm with hm | rfl
      · exact ho hc' hm
      · exact opened_call (callStep hstep) (ho e (List.mem_of_getElem? he))
  | device line hst =>
      obtain ⟨_, _, _, rfl⟩ := line_device hst
      exact ho
  | _ => exact ho

/-- Everything begun is done, and the reports say so. -/
structure Done (w : World Board) : Prop where
  settled : Settled w
  /-- Each command taken from a queue has been written once. -/
  frames : (w.frames.map Frame.ticket).Perm (w.channel.services.popped.map (fun p => p.2.ticket))
  /-- The board has carried out what was written, in the order of the writes. -/
  handled : w.line.device.handled = w.frames.map (fun f => callOf (frameOf f.service))
  /-- It has finished with the last of it, and nothing is on the line. -/
  idle : w.line.device.todo = [] ∧ w.line.wire.toMcu = [] ∧ w.line.wire.toHost = []
  /-- Every report is about a command whose answer came back. -/
  carriedOut : ∀ r ∈ w.reports, CarriedOut w r

/-- When everybody is through, every call is back, with the firmware's answer to it. -/
theorem Finished.returned {w : World Board} (hf : Finished w) (hs : Sound w) (ho : Opened w)
    {k : Nat} {hc : HandlingCall} (hk : w.line.calls[k]? = some hc) : hc.pc = .returned 0 := by
  obtain ⟨i, c, hci, hck⟩ := hs.manned k (List.getElem?_eq_some_iff.mp hk).1
  have hfacts := hs.ledger.kept i c hci
  rw [hf.consumers c (List.mem_of_getElem? hci)] at hfacts
  obtain ⟨cls, hc', code, ⟨_, _, k', hk', hcall⟩, hret⟩ := hfacts
  have : k' = k := Option.some.inj (hk'.symm.trans hck)
  subst this
  have : hc' = hc := Option.some.inj (hcall.symm.trans hk)
  subst this
  have hcode := (hs.serialized.noted.ok k' hc' hk).facts
  rw [hret] at hcode
  rcases hcode with ⟨rfl, _, _⟩ | ⟨_, hfalse, _⟩
  · exact hret
  · exact absurd hfalse (ho hc' (List.mem_of_getElem? hk))

theorem Finished.quiet {w : World Board} (hf : Finished w) (hs : Sound w) (ho : Opened w) :
    Quiet w.line := by
  rcases hs.serialized.phase with hq | ⟨i, c, hb⟩
  · exact hq
  · have hin := hb.inside
    simp [HandlingCall.inTransaction, hf.returned hs ho hb.call] at hin

theorem Finished.carriedOut {w : World Board} (hf : Finished w) (hs : Sound w) (ho : Opened w)
    {r : Report} (hr : r ∈ w.reports) : CarriedOut w r := by
  obtain ⟨k, hc, _, hcall, _, _⟩ := returned_of_report hs.ledger hr
  have hk : w.line.calls[k]? = some hc := by
    obtain ⟨_, _, _, _, _, _, _, hk⟩ := hcall
    exact hk
  have hret := hf.returned hs ho hk
  have hwrote : (k, hc.service) ∈ w.line.written :=
    (hs.serialized.noted.wrote k hc.service).mpr ⟨hc, hk, by simp [hret, CallPc.wrote], rfl⟩
  exact ⟨k, hc, hcall, hwrote, (hs.serialized.serializable.own k hc hk hret).2⟩

/-- When everybody is through, the commands written are those taken from the queues. -/
theorem Finished.frames {w : World Board} (hf : Finished w) (hs : Sound w) (ho : Opened w)
    (hrec : Recorded w) :
    (w.frames.map Frame.ticket).Perm (w.channel.services.popped.map (fun p => p.2.ticket)) := by
  have hb := hs.ledger.books
  refine (List.perm_ext_iff_of_nodup (hrec.once hb) hb.accounted.popped_once).mpr ?_
  intro t
  constructor
  · intro hm
    obtain ⟨f, hfm, rfl⟩ := List.mem_map.mp hm
    obtain ⟨i, c, cls, hc, _, rfl⟩ := hrec.written_by hs.ledger.kept hfm
    exact List.mem_map_of_mem (f := fun p => p.2.ticket) (hb.mem_popped hc)
  · intro hm
    obtain ⟨p, hp, rfl⟩ := List.mem_map.mp hm
    -- its thread has made a call, and the call has written
    have hp := hb.custody.mem_iff.mp hp
    rw [hf.custody] at hp
    obtain ⟨c, hcm, rfl⟩ := List.mem_map.mp hp
    obtain ⟨i, hc⟩ := List.mem_iff_getElem?.mp hcm
    have hfacts := hs.ledger.kept i c hc
    rw [hf.consumers c hcm] at hfacts
    obtain ⟨cls, hc', code, ⟨_, _, k, hk, hcall⟩, _⟩ := hfacts
    have hret := hf.returned hs ho hcall
    have hwrote : (k, hc'.service) ∈ w.line.written :=
      (hs.serialized.noted.wrote k hc'.service).mpr ⟨hc', hcall, by simp [hret, CallPc.wrote], rfl⟩
    obtain ⟨f, hfm, _, hft⟩ := hrec.frame_of_written hc
      (Consumer.written_iff.mpr ⟨k, hk, List.mem_map_of_mem hwrote⟩)
    exact List.mem_map.mpr ⟨f, hfm, hft⟩

/--
**What is reported is done.** If nothing goes wrong and the port opens each time, then
once the module is finished the commands taken have been written, each once, the board
has carried them out in the order of the writes, and every report is true.
-/
theorem done_run {module_id : String} {as : List (Act Unit)} {w : World Board}
    (hr : Run (World.step parse firmware) (Served parse) (World.start module_id Board.start) as w)
    (hf : Finished w) : Done w := by
  have hproper := hr.weaken (fun _ _ h => h.proper)
  have hs := sound_run hproper
  have hset := hf.settled hs (raised_run hproper)
  have ho : Opened w := hr.invariant (fun _ hm => absurd hm List.not_mem_nil)
    (fun ho hg hst => opened_step (World.step_cases hst) hg.granted ho)
  have hrec := (recorded_run hproper).2
  have hq := hf.quiet hs ho
  refine ⟨hset, hf.frames hs ho hrec, ?_, ⟨hq.todo, hq.toMcu, hq.toHost⟩,
    fun r hm => hf.carriedOut hs ho hm⟩
  have hsent := congrArg (List.map (fun s => callOf (frameOf s))) hrec.services
  rw [List.map_map, List.map_map] at hsent
  rw [hs.serialized.handled_all hq.toMcu]
  exact hsent

set_option maxRecDepth 10000 in
theorem done_run_open :
    ∃ as w, Run (World.step sessionParse firmware) (Served sessionParse)
        (World.start "handling" Board.start) as w
      ∧ w.frames.length = 1 ∧ Done w := by
  have hexec : (exec (checked (fun w a => sessionProper w a && Granted a)
        (World.step sessionParse firmware)) (World.start "handling" Board.start)
      ([.receive .workAssignation openPayload, .answer, .receive .allBegins beginPayload]
        ++ openRest)).any
      (fun w => w.frames.length == 1 && w.finished) = true := by decide +kernel
  obtain ⟨w, hw, hend⟩ := exists_of_exec hexec
  obtain ⟨hlen, hf⟩ := Bool.and_eq_true_iff.mp hend
  have hr : Run (World.step sessionParse firmware) (Served sessionParse)
      (World.start "handling" Board.start) _ w :=
    (run_of_exec_checked hw).weaken (fun _ _ h =>
      ⟨proper_of_sessionProper (Bool.and_eq_true_iff.mp h).1, (Bool.and_eq_true_iff.mp h).2⟩)
  exact ⟨_, w, hr, eq_of_beq hlen, done_run hr (finished_of_test hf)⟩

end HandlingModule.AIO
