import HandlingModule.AIO.SharedLine
import Mathlib.Data.List.TakeWhile

/-!
# What a report is worth

A report says `DONE` with an empty `ERROR_MESSAGE` whatever happened: the code that
`handlingService` returns is dropped by `execute`, and `consumeService` puts `DONE`
into both of its messages. So a report is true exactly when the port opened and the
board really said that it was done.
-/

namespace HandlingModule.AIO

open Serial Transition Framing

variable {δ A : Type} {parse : String → Option Json} {dev : Device δ A}

/-- The message reports success. -/
def Success (reply_info : Json) : Prop :=
  reply_info.member "STATUS" = .string "DONE" ∧ reply_info.member "ERROR_MESSAGE" = .string ""

/-- The call of `handlingService` behind a report: its thread made it for its own command. -/
def World.CallOf (w : World δ) (r : Report) (k : Nat) (hc : HandlingCall) : Prop :=
  ∃ c cls, w.consumers[r.consumer]? = some c ∧ r.ticket = c.commandInfo.ticket
    ∧ Runnable c.commandInfo cls ∧ hc.service = cls.code
    ∧ c.call = some k ∧ w.line.calls[k]? = some hc

/-- The command's frame was written, and the reply collected is the firmware's `DONE` frame. -/
def CarriedOut (w : World δ) (r : Report) : Prop :=
  ∃ k hc, w.CallOf r k hc ∧ (k, hc.service) ∈ w.line.written
    ∧ hc.reader.reply = Firmware.actionFinished

/-- A report is truthful: it says success only of what was carried out, and `DONE` of nothing else. -/
structure Truthful (w : World δ) (r : Report) : Prop where
  success : Success r.data → CarriedOut w r
  failure : ¬ CarriedOut w r → r.data.member "STATUS" ≠ .string "DONE"

/--
What the environment did for the command: the port and the library opened, and the
bytes read were noise and then exactly the `DONE` frame.
-/
def Confirmed (w : World δ) (r : Report) : Prop :=
  ∃ k hc, w.CallOf r k hc ∧ hc.opened = [true, true]
    ∧ ∃ n, IsNoise Firmware.braces n ∧ hc.heard = n ++ Firmware.actionFinished

/-- Every report says the same. -/
theorem success_replyInfo (command_id : Json) : Success (replyInfo true "" command_id) := ⟨rfl, rfl⟩

/-- What a loop has kept begins after the noise. -/
theorem exists_noise_of_kept {l f : List Firmware.Byte} (h : kept l = f) :
    ∃ n, IsNoise Firmware.braces n ∧ l = n ++ f := by
  refine ⟨l.takeWhile (fun x => x ≠ Firmware.openBrace), ?_, ?_⟩
  · intro hm
    have := List.mem_takeWhile_imp hm
    exact absurd this (by simp [Firmware.braces])
  · rw [← h]; exact (List.takeWhile_append_dropWhile ..).symm

theorem kept_of_noise {n f : List Firmware.Byte} (hn : IsNoise Firmware.braces n)
    (hf : IsFrame Firmware.braces f) : kept (n ++ f) = f := kept_noise_append hn hf.head

/-- The calls of a run of the module, as the record of the line has them. -/
theorem noted_run {module_id : String} {d : δ} {as : List (Act A)} {w : World δ}
    {G : World δ → Act A → Prop}
    (hr : Run (World.step parse dev) G (World.start module_id d) as w) : Noted w.line := by
  obtain ⟨las, hl⟩ := line_project (H := NoGuard) (fun _ _ _ _ _ => trivial) hr
  exact hl.invariant (noted_start d) (fun hs _ hst => noted_step hst hs)

/-- The call behind a report has returned. -/
theorem returned_of_report {w : World δ} (h : Ledger w) {r : Report} (hr : r ∈ w.reports) :
    ∃ k hc code, w.CallOf r k hc ∧ hc.pc = .returned code ∧ Success r.data := by
  obtain ⟨c, hc, hrep, hticket, hdata⟩ := h.reported.by_thread r hr
  have hf := h.kept _ c hc
  have hdone : ∃ cls hcall code, c.Called w.line cls hcall ∧ hcall.pc = .returned code := by
    cases hpc : c.pc with
    | unlock => rw [hpc] at hf; exact hf
    | ended => rw [hpc] at hf; exact hf
    | _ => simp [Consumer.reported, hpc] at hrep
  obtain ⟨cls, hcall, code, ⟨hrun, hs, k, hk, hl⟩, hret⟩ := hdone
  exact ⟨k, hcall, code, ⟨c, cls, hc, hticket, hrun, hs, hk, hl⟩, hret, by
    rw [hdata]; exact success_replyInfo _⟩

theorem World.CallOf.unique {w : World δ} {r : Report} {k k' : Nat} {hc hc' : HandlingCall}
    (h : w.CallOf r k hc) (h' : w.CallOf r k' hc') : k = k' ∧ hc = hc' := by
  obtain ⟨c, _, h1, _, _, _, h2, h3⟩ := h
  obtain ⟨c', _, h1', _, _, _, h2', h3'⟩ := h'
  have hcc : c = c' := Option.some.inj (h1.symm.trans h1')
  subst hcc
  have hkk : k = k' := Option.some.inj (h2.symm.trans h2')
  subst hkk
  exact ⟨rfl, Option.some.inj (h3.symm.trans h3')⟩

/--
**When a report is true.** In every run, with every device and every failure of
`serialOpen` and `wiringPiSetup`, a report is truthful exactly when the port opened
and what came over it was the `DONE` frame.
-/
theorem truthful_iff {module_id : String} {d : δ} {as : List (Act A)} {w : World δ}
    (hr : Run (World.step parse dev) NoGuard (World.start module_id d) as w) {r : Report}
    (hrep : r ∈ w.reports) : Truthful w r ↔ Confirmed w r := by
  obtain ⟨k, hc, code, hcall, hret, hsuccess⟩ := returned_of_report (ledger_run hr) hrep
  have hnoted := noted_run hr
  have hk : w.line.calls[k]? = some hc := by
    obtain ⟨_, _, _, _, _, _, _, hk⟩ := hcall
    exact hk
  have hok := hnoted.ok k hc hk
  have hfacts := hok.facts
  rw [hret] at hfacts
  -- what the loop collected is what it read, from the first opening brace on
  have hreply : hc.reader.reply = kept hc.heard := by
    rw [hok.reader]; exact (reader_spec hc.heard).1
  constructor
  · intro ht
    obtain ⟨k', hc', hcall', hw, hdone⟩ := ht.success hsuccess
    obtain ⟨rfl, rfl⟩ := hcall.unique hcall'
    refine ⟨k, hc, hcall, ?_, exists_noise_of_kept (hreply.symm.trans hdone)⟩
    rcases hfacts with ⟨_, ho, _⟩ | ⟨_, _, hh⟩
    · exact ho
    · -- a call that did not get to write has read nothing
      rw [hreply, hh] at hdone
      exact absurd hdone (by decide)
  · rintro ⟨k', hc', hcall', ho, n, hn, hheard⟩
    obtain ⟨rfl, rfl⟩ := hcall.unique hcall'
    have hdone : CarriedOut w r := by
      refine ⟨k, hc, hcall, ?_, ?_⟩
      · refine (hnoted.wrote k hc.service).mpr ⟨hc, hk, ?_, rfl⟩
        rcases hfacts with ⟨hcode, _, _⟩ | ⟨_, hf, _⟩
        · rw [hret, hcode]; rfl
        · rw [ho] at hf
          exact absurd hf (by simp)
      · rw [hreply, hheard]
        exact kept_of_noise hn Firmware.isFrame_actionFinished
    exact ⟨fun _ => hdone, fun hn => absurd hdone hn⟩

set_option maxRecDepth 10000 in
/-- The report of a session in which the gripper was opened. -/
theorem truthful_iff_open :
    ∃ w r, Run (World.step sessionParse Serial.firmware) NoGuard
        (World.start "handling" Board.start) openSession w ∧ r ∈ w.reports
      ∧ (Truthful w r ↔ Confirmed w r) := by
  have hexec : (exec (World.step sessionParse Serial.firmware) (World.start "handling" Board.start)
      openSession).any (fun w => w.reports.length == 1) = true := by decide +kernel
  obtain ⟨w, hw, hlen⟩ := exists_of_exec hexec
  obtain ⟨r, hr⟩ := List.length_eq_one_iff.mp (eq_of_beq hlen)
  have hrun := run_of_exec hw
  have hmem : r ∈ w.reports := by rw [hr]; exact List.mem_singleton.mpr rfl
  exact ⟨w, r, hrun, hmem, truthful_iff hrun hmem⟩

set_option maxRecDepth 10000 in
/-- `serialOpen` fails, nothing is written, and the thread reports `DONE`. -/
theorem not_truthful_closed_port :
    ¬ ∀ (as : List (Act Unit)) (w : World Board),
      Run (World.step sessionParse Serial.firmware) NoGuard (World.start "handling" Board.start) as w →
      ∀ r ∈ w.reports, Truthful w r := by
  intro hall
  have hexec : (exec (World.step sessionParse Serial.firmware) (World.start "handling" Board.start)
      ([.receive .workAssignation openPayload, .answer, .receive .allBegins beginPayload]
        ++ times 5 (.allBegins 0)
        ++ [.consumeService 0 true, .consumeService 0 false] ++ times 3 (.consumeService 0 true))).any
      (fun w => w.reports.length == 1 && w.line.written.length == 0) = true := by decide +kernel
  obtain ⟨w, hw, hend⟩ := exists_of_exec hexec
  obtain ⟨hlen, hwritten⟩ := Bool.and_eq_true_iff.mp hend
  obtain ⟨r, hr⟩ := List.length_eq_one_iff.mp (eq_of_beq hlen)
  have hmem : r ∈ w.reports := by rw [hr]; exact List.mem_singleton.mpr rfl
  have hrun := run_of_exec hw
  obtain ⟨_, _, _, _, _, hsuccess⟩ := returned_of_report (ledger_run hrun) hmem
  obtain ⟨_, _, _, hm, _⟩ := (hall _ w hrun r hmem).success hsuccess
  rw [List.length_eq_zero_iff.mp (eq_of_beq hwritten)] at hm
  exact absurd hm (by simp)

end HandlingModule.AIO
