import HandlingModule.Serial.Transaction

/-!
# One host thread

A thread that calls `handlingService` again and again, each call after the one
before has returned, never breaks a transaction. `InTurn` is what its calls look
like: all of them over, except perhaps the last.
-/

namespace HandlingModule.Serial

open Firmware Framing Transition

/-- The call has come back. -/
def CallPc.isReturned : CallPc → Bool
  | .returned _ => true
  | _ => false

/--
The guard of one host thread: a call begins when all calls are over, its code is one
`handlingService` knows, and `serialOpen` and `wiringPiSetup` succeed.
-/
def Sequential {δ A : Type} (l : Line δ) : LineAct A → Bool
  | .call service => Known service && l.calls.all (fun c => c.pc.isReturned)
  | .run i ok =>
      match l.calls[i]? with
      | some c => ok || !(c.pc == .serialOpen || c.pc == .wiringPiSetup)
      | none => true
  | .device _ => true

/-- All calls are over, except perhaps the last. -/
structure InTurn (l : Line Board) : Prop where
  shape : ∃ past : List HandlingCall, (∀ c ∈ past, c.pc = .returned 0) ∧
    ((l.calls = past ∧ l.written.map Prod.snd = past.map HandlingCall.service)
      ∨ ∃ cur, l.calls = past ++ [cur] ∧ cur.pc.isReturned = false
        ∧ l.written.map Prod.snd = past.map HandlingCall.service
            ++ (if cur.pc.wrote = true then [cur.service] else []))

theorem inTurn_start : InTurn (Line.start Board.start) :=
  ⟨[], by simp, Or.inl ⟨rfl, rfl⟩⟩

/-- The call that takes a step is the last one. -/
theorem InTurn.last {l : Line Board} {i : Nat} {c c' : HandlingCall} {ok : Bool} {w w' : Wire}
    (hl : InTurn l) (hc : l.calls[i]? = some c) (h : CallStep c ok w c' w') :
    ∃ past, (∀ d ∈ past, d.pc = .returned 0) ∧ l.calls = past ++ [c] ∧ i = past.length
      ∧ l.written.map Prod.snd = past.map HandlingCall.service
          ++ (if c.pc.wrote = true then [c.service] else []) := by
  obtain ⟨past, hpast, hshape⟩ := hl.shape
  rcases hshape with ⟨hcalls, _⟩ | ⟨cur, hcalls, _, hw⟩
  · rw [hcalls] at hc
    exact absurd (hpast c (List.mem_of_getElem? hc)) (h.not_returned 0)
  · rw [hcalls] at hc
    rcases Nat.lt_or_ge i past.length with hi | hi
    · rw [List.getElem?_append_left hi] at hc
      exact absurd (hpast c (List.mem_of_getElem? hc)) (h.not_returned 0)
    · rw [List.getElem?_append_right hi] at hc
      have hi0 : i - past.length = 0 := by
        have := (List.getElem?_eq_some_iff.mp hc).1
        simp only [List.length_singleton] at this
        omega
      rw [hi0] at hc
      have : cur = c := Option.some.inj hc
      subst this
      exact ⟨past, hpast, hcalls, by omega, hw⟩

theorem inTurn_step {l l' : Line Board} {a : LineAct Unit} (hl : InTurn l)
    (hg : Sequential l a = true) (h : l.step firmware a = some l') : InTurn l' := by
  cases a with
  | device u =>
      obtain ⟨d, wire, _, rfl⟩ := line_device h
      exact ⟨hl.shape⟩
  | call service =>
      rw [line_call h]
      obtain ⟨_, hall⟩ := Bool.and_eq_true_iff.mp hg
      obtain ⟨past, hpast, hshape⟩ := hl.shape
      rcases hshape with ⟨hcalls, hw⟩ | ⟨cur, hcalls, hcur, _⟩
      · refine ⟨past, hpast, Or.inr ⟨_, by rw [hcalls], rfl, ?_⟩⟩
        rw [hw]; simp [HandlingCall.start, CallPc.wrote]
      · -- the guard does not let a second call begin
        have := List.all_eq_true.mp hall cur (by rw [hcalls]; simp)
        rw [hcur] at this
        exact absurd this (by simp)
  | run i ok =>
      obtain ⟨c, c', wire, hc, hst, rfl⟩ := line_run h
      have hcs := callStep hst
      obtain ⟨past, hpast, hcalls, rfl, hw⟩ := hl.last hc hcs
      have hset : l.calls.set past.length c' = past ++ [c'] := by rw [hcalls]; simp
      -- what the record holds after the step
      have hw' : (if c.pc = .serialPuts then l.written ++ [(past.length, c.service)]
            else l.written).map Prod.snd
          = past.map HandlingCall.service ++ (if c'.pc.wrote = true then [c'.service] else []) := by
        rw [hcs.service]
        by_cases hp : c.pc = .serialPuts
        · rw [if_pos hp, if_pos (hcs.wrote.mpr (Or.inr hp)), List.map_append, hw, hp]
          simp [CallPc.wrote]
        · have hiff : c'.pc.wrote = true ↔ c.pc.wrote = true := by
            rw [hcs.wrote]; simp [hp]
          rw [if_neg hp, hw]
          simp only [hiff]
      -- whether the step returned, and with which code
      have hret : c'.pc.isReturned = false ∨ c'.pc = .returned 0 := by
        cases hcs with
        | opened pc hpc =>
            -- the guard lets neither of the two fail
            have hok : ok = true := by
              simp only [Sequential, hc] at hg
              rcases hpc with ⟨hpc, _⟩ | ⟨hpc, _⟩ <;> simpa [hpc] using hg
            subst hok
            rcases hpc with ⟨_, rfl⟩ | ⟨_, rfl⟩ <;> exact Or.inl rfl
        | serialPuts => exact Or.inl rfl
        | leave => exact Or.inr rfl
        | stay => exact Or.inl rfl
        | nothing => exact Or.inl rfl
        | waiting => exact Or.inl rfl
        | serialGetchar => exact Or.inl rfl
      rcases hret with hret | hret
      · exact ⟨past, hpast, Or.inr ⟨c', hset, hret, hw'⟩⟩
      · refine ⟨past ++ [c'], ?_, Or.inl ⟨hset, ?_⟩⟩
        · intro d hd
          rcases List.mem_append.mp hd with hd | hd
          · exact hpast d hd
          · rw [List.mem_singleton.mp hd]; exact hret
        · rw [hret] at hw'
          rw [List.map_append]
          exact hw'

/-- A single thread never writes into somebody's transaction. -/
theorem exclusive_of_sequential {l l' : Line Board} {a : LineAct Unit} (hl : InTurn l)
    (hg : Sequential l a = true) (h : l.step firmware a = some l') : Exclusive l a = true := by
  cases a with
  | device u => rfl
  | call service => exact (Bool.and_eq_true_iff.mp hg).1
  | run i ok =>
      obtain ⟨c, c', wire, hc, hst, _⟩ := line_run h
      obtain ⟨past, hpast, hcalls, _, _⟩ := hl.last hc (callStep hst)
      simp only [Exclusive, hc, decide_eq_true_eq, List.all_eq_true]
      intro hp d hd
      rw [hcalls] at hd
      rcases List.mem_append.mp hd with hd | hd
      · simp [HandlingCall.inTransaction, hpast d hd]
      · rw [List.mem_singleton.mp hd]
        simp [HandlingCall.inTransaction, hp]

/-- The run lemma of one host thread. -/
theorem sequential_run {as : List (LineAct Unit)} {l : Line Board}
    (hr : Run (Line.step firmware) (fun l a => Sequential l a = true) (Line.start Board.start) as l) :
    Serialized l ∧ InTurn l := by
  refine hr.invariant (I := fun l => Serialized l ∧ InTurn l) ⟨serialized_start, inTurn_start⟩ ?_
  intro u v a hu hg hst
  exact ⟨serialized_step hu.1 (exclusive_of_sequential hu.2 hg hst) hst, inTurn_step hu.2 hg hst⟩

/-- What a served call has in `reply`. -/
theorem reply_of_heard {c : HandlingCall} (hc : c.Ok) (hk : Known c.service)
    (hh : c.heard = replyText c.service) : c.reader.reply = actionFinished := by
  obtain ⟨n, hn, htext⟩ := replyText_split hk
  rw [hc.reader, hh, htext]
  exact (complete_of_text hn isFrame_actionFinished).2

/-- Host and firmware are where one of them left off and the other has to begin. -/
structure InStep (l : Line Board) : Prop where
  /-- The firmware has executed the commands of the calls made so far, in order. -/
  handled : l.device.handled = l.calls.map (fun c => callOf (frameOf c.service))
  todo : l.device.todo = []
  servo : l.device.ta1ccr1
    = position Board.start.ta1ccr1 (l.calls.flatMap (fun c => answer (frameOf c.service)))
  /-- Every call returned 0 with the whole reply frame and nothing else. -/
  reply : ∀ c ∈ l.calls, c.pc = .returned 0 ∧ c.reader.reply = actionFinished
  wire : l.wire = ⟨[], [], false⟩
  mcu : l.device.mcu = powerUp

/--
**One command at a time, host and firmware stay in step.** Whenever all the calls
of one host thread have returned, in any interleaving with the firmware and
however the reply was split between two polls, the commands have been executed in
order, each `reply` is the one whole `DONE` frame, and nothing is left anywhere.
-/
theorem sequential_inStep {as : List (LineAct Unit)} {l : Line Board}
    (hr : Run (Line.step firmware) (fun l a => Sequential l a = true) (Line.start Board.start) as l)
    (hret : ∀ c ∈ l.calls, c.pc.isReturned = true) : InStep l := by
  obtain ⟨hs, ht⟩ := sequential_run hr
  obtain ⟨past, hpast, hshape⟩ := ht.shape
  have hover : l.calls = past ∧ l.written.map Prod.snd = past.map HandlingCall.service := by
    rcases hshape with h | ⟨cur, hcalls, hcur, _⟩
    · exact h
    · have := hret cur (by rw [hcalls]; simp)
      rw [hcur] at this
      exact absurd this (by simp)
  obtain ⟨hcalls, hw⟩ := hover
  rw [← hcalls] at hpast hw
  have hq : Quiet l := by
    rcases hs.phase with hq | ⟨i, c, hb⟩
    · exact hq
    · have hin := hb.inside
      rw [HandlingCall.inTransaction, hpast c (List.mem_of_getElem? hb.call)] at hin
      exact absurd hin (by simp)
  have hknown : ∀ c ∈ l.calls, Known c.service := by
    intro c hc
    obtain ⟨i, hi⟩ := List.mem_iff_getElem?.mp hc
    exact hs.known i c hi
  have hframes : ∀ p ∈ l.written, IsFrame braces (frameOf p.2) := by
    intro p hp
    have hm : p.2 ∈ l.calls.map HandlingCall.service := by
      rw [← hw]; exact List.mem_map_of_mem hp
    obtain ⟨c, hc, hcs⟩ := List.mem_map.mp hm
    rw [← hcs]
    exact (commands_isFrame (frameOf_mem (hknown c hc))).1
  have hhandled : l.device.handled = l.calls.map (fun c => callOf (frameOf c.service)) := by
    rw [hs.onWire.handled hq.toMcu hframes]
    have := congrArg (List.map (fun s => callOf (frameOf s))) hw
    rw [List.map_map, List.map_map] at this
    exact this
  refine ⟨hhandled, hq.todo, ?_, ?_, ?_, hq.mcu.eq_powerUp⟩
  · have hservo := hs.onWire.servo
    rw [hq.todo, hhandled] at hservo
    rw [show l.device.ta1ccr1 = position l.device.ta1ccr1 [] from rfl, hservo, List.flatMap_map]
    rfl
  · intro c hc
    obtain ⟨i, hi⟩ := List.mem_iff_getElem?.mp hc
    have hpc := hpast c hc
    refine ⟨hpc, reply_of_heard (hs.noted.ok i c hi) (hknown c hc) ?_⟩
    exact hs.served i c hi (by rw [hpc]; rfl) (hq.free i c hi)
  · cases hwire : l.wire with
    | mk toMcu toHost down =>
        have h1 : toMcu = [] := by have := hq.toMcu; rwa [hwire] at this
        have h2 : toHost = [] := by have := hq.toHost; rwa [hwire] at this
        have h3 : down = false := by have := hs.up; rwa [hwire] at this
        rw [h1, h2, h3]

/--
One schedule of one call: it writes, the board takes the command and answers with
`effects` steps, and then the `text` bytes are read in one go.
-/
def oneCall (i : Nat) (service : Int) (effects text : Nat) : List (LineAct Unit) :=
  .call service :: (List.replicate 3 (.run i true)
    ++ List.replicate ((frameOf service).length + effects) (.device ())
    ++ List.replicate (1 + 2 * text + 2) (.run i true))

set_option maxRecDepth 10000 in
/-- A `TOGGLE`, which talks before it replies, and then an `OPEN`. -/
theorem sequential_inStep_toggle_open :
    ∃ as l, Run (Line.step firmware) (fun l a => Sequential l a = true) (Line.start Board.start) as l
      ∧ l.calls.map HandlingCall.service = [2, 0]
      ∧ (∀ c ∈ l.calls, c.pc.isReturned = true) ∧ InStep l := by
  have hexec : (exec (checked Sequential (Line.step firmware)) (Line.start Board.start)
      (oneCall 0 2 76 67 ++ oneCall 1 0 49 48)).any (fun l =>
        l.calls.map HandlingCall.service == [2, 0] && l.calls.all (fun c => c.pc.isReturned))
      = true := by decide +kernel
  obtain ⟨l, hl, hl'⟩ := exists_of_exec hexec
  obtain ⟨hs, hret⟩ := Bool.and_eq_true_iff.mp hl'
  have hr := run_of_exec_checked hl
  have hret := List.all_eq_true.mp hret
  exact ⟨_, l, hr, eq_of_beq hs, hret, sequential_inStep hr hret⟩

end HandlingModule.Serial
