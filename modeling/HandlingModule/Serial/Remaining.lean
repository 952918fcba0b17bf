import HandlingModule.Serial.Transaction

/-!
# What the line still has to do

`Line.remaining` counts it: the statements the calls have before them, and for every
byte on its way the work it still makes. In a line without overlapping transactions
every step makes it smaller, except a poll that finds nothing to read. So the calls
wait for the board and the board for the calls, but never both at once: as long as a
call is not back, there is a step that is no such poll, or one poll away.
-/

namespace HandlingModule.Serial

open Firmware Framing Replace

/-- No command makes the board do more than this. -/
def mostEffects : Nat := 80

/-- What a byte on its way to the board can make of work. -/
def byteCost : Nat := 3 * mostEffects + 1

/-- What a call of `handlingService` costs from its first statement on. -/
def callCost (service : Int) : Nat := 6 + byteCost * (frameOf service).length

/-- What a call has before it, apart from the bytes on their way. -/
def HandlingCall.remaining (c : HandlingCall) : Nat :=
  match c.pc with
  | .serialOpen => callCost c.service
  | .wiringPiSetup => 5 + byteCost * (frameOf c.service).length
  | .serialPuts => 4 + byteCost * (frameOf c.service).length
  | .loop => if c.reader.complete then 1 else 3
  | .serialDataAvail => if c.reader.complete then 2 else 3
  | .serialGetchar => 2
  | .returned _ => 0

def Line.remaining (l : Line Board) : Nat :=
  (l.calls.map HandlingCall.remaining).sum + byteCost * l.wire.toMcu.length
    + 3 * l.device.todo.length + 2 * l.wire.toHost.length

/-- The next statement of the call is a poll that finds nothing. -/
def HandlingCall.polls (c : HandlingCall) (w : Wire) : Bool :=
  !c.reader.complete
    && (c.pc == .loop || c.pc == .serialDataAvail && w.serialDataAvail == 0)

/-! ## The board -/

theorem length_answer {service : Int} (hk : Known service) :
    (answer (frameOf service)).length ≤ mostEffects := by
  rcases hk with rfl | rfl | rfl <;> decide +kernel

/-- Whatever the board does, there is less to do afterwards. -/
theorem remaining_device {l l' : Line Board} (hl : Serialized l)
    (h : l.step firmware (.device ()) = some l') : l'.remaining < l.remaining := by
  obtain ⟨d, wire, hd, rfl⟩ := line_device h
  unfold Line.remaining
  rcases firmware_cases hd with ⟨p, t, todo, htodo, rfl, rfl⟩ | ⟨x, todo, htodo, rfl, rfl⟩
    | ⟨dato, rest, mcu, call, htodo, hmcu, hisr, rfl, rfl⟩
  · simp only [htodo, List.length_cons]
    omega
  · simp only [htodo, List.length_cons, List.length_append, List.length_nil]
    omega
  · -- the byte may be the last of its command, and then the answer is still to be given
    have hcall : ((call.map Call.effects).getD []).length ≤ mostEffects := by
      rcases hl.phase with hq | ⟨i, c, hb⟩
      · rw [hq.toMcu] at hmcu; exact absurd hmcu (by simp)
      · have hk := hl.known i c hb.call
        rcases hb.phase with hr | hr
        · rcases receiving_byte hk hr hmcu hisr with ⟨_, rfl, _⟩ | ⟨_, rfl, _⟩
          · exact Nat.zero_le _
          · exact length_answer hk
        · rw [hr.toMcu] at hmcu; exact absurd hmcu (by simp)
    have hcost : byteCost * (rest.length + 1) = byteCost * rest.length + (3 * mostEffects + 1) :=
      Nat.mul_succ _ _
    simp only [htodo, hmcu, List.length_cons, List.length_nil, hcost]
    omega

/-! ## The calls -/

theorem remaining_call {l l' : Line Board} {service : Int}
    (h : l.step firmware (.call service) = some l') :
    l'.remaining = l.remaining + callCost service := by
  rw [line_call h]
  simp only [Line.remaining, List.map_append, List.sum_append, List.map_cons, List.map_nil,
    List.sum_cons, List.sum_nil]
  have hstart : (HandlingCall.start service).remaining = callCost service := rfl
  omega

/-- A byte that is read is done with. -/
theorem remaining_feed (c : HandlingCall) (x : Byte) :
    HandlingCall.remaining
      { c with pc := .serialDataAvail, reader := c.reader.feed x, heard := c.heard ++ [x] } ≤ 3 := by
  show (if (c.reader.feed x).complete = true then 2 else 3) ≤ 3
  split <;> omega

/-- A statement of a call exchanges what it and the wire stand for. -/
theorem remaining_set {l : Line Board} {i : Nat} {c : HandlingCall} (c' : HandlingCall)
    (wire : Wire) (written : List (Nat × Int)) (hc : l.calls[i]? = some c) :
    Line.remaining { l with wire := wire, calls := l.calls.set i c', written := written }
        + (c.remaining + byteCost * l.wire.toMcu.length + 2 * l.wire.toHost.length)
      = l.remaining + (c'.remaining + byteCost * wire.toMcu.length + 2 * wire.toHost.length) := by
  have hsum := sum_map_set HandlingCall.remaining c' hc
  show (List.map HandlingCall.remaining (l.calls.set i c')).sum + byteCost * wire.toMcu.length
    + 3 * l.device.todo.length + 2 * wire.toHost.length + _ = _
  unfold Line.remaining
  omega

/-- One statement of a call leaves less to do, unless it is a poll that finds nothing. -/
theorem remaining_run {l l' : Line Board} {i : Nat} {ok : Bool} {c : HandlingCall}
    (hl : Serialized l) (hc : l.calls[i]? = some c) (h : l.step firmware (.run i ok) = some l') :
    l'.remaining + (if c.polls l.wire = true then 0 else 1) ≤ l.remaining := by
  obtain ⟨d, c', wire, hd, hst, rfl⟩ := line_run h
  have : d = c := Option.some.inj (hd.symm.trans hc)
  subst this
  have hset := remaining_set c' wire
    (if d.pc = .serialPuts then l.written ++ [(i, d.service)] else l.written) hc
  -- it is enough to compare the call and the wire before and after
  suffices hle : c'.remaining + byteCost * wire.toMcu.length + 2 * wire.toHost.length
      + (if d.polls l.wire = true then 0 else 1)
      ≤ d.remaining + byteCost * l.wire.toMcu.length + 2 * l.wire.toHost.length by omega
  have hone : (if d.polls l.wire = true then 0 else 1) ≤ 1 := by split <;> omega
  cases callStep hst with
  | opened pc hpc =>
      have hle : HandlingCall.remaining
          { d with pc := if ok then pc else .returned 1, opened := d.opened ++ [ok] } + 1
          ≤ d.remaining := by
        rcases hpc with ⟨h0, rfl⟩ | ⟨h0, rfl⟩ <;> cases ok <;>
          simp only [HandlingCall.remaining, h0, callCost, Bool.false_eq_true, if_false, if_true] <;>
          omega
      omega
  | serialPuts hpc =>
      have hold : d.remaining = 4 + byteCost * (frameOf d.service).length := by
        simp only [HandlingCall.remaining, hpc]
      have hnew : HandlingCall.remaining { d with pc := .loop } ≤ 3 := by
        show (if d.reader.complete = true then 1 else 3) ≤ 3
        split <;> omega
      simp only [List.length_append, Nat.mul_add]
      omega
  | leave hpc hcomp =>
      have hold : d.remaining = 1 := by simp [HandlingCall.remaining, hpc, hcomp]
      have hnew : HandlingCall.remaining { d with pc := .returned 0 } = 0 := rfl
      omega
  | stay hpc hcomp =>
      have hold : d.remaining = 3 := by simp [HandlingCall.remaining, hpc, hcomp]
      have hnew : HandlingCall.remaining { d with pc := .serialDataAvail } = 3 := by
        simp [HandlingCall.remaining, hcomp]
      rw [if_pos (by simp [HandlingCall.polls, hpc, hcomp])]
      omega
  | nothing hpc havail =>
      cases hcomp : d.reader.complete with
      | true =>
          have hold : d.remaining = 2 := by simp [HandlingCall.remaining, hpc, hcomp]
          have hnew : HandlingCall.remaining { d with pc := .loop } = 1 := by
            simp [HandlingCall.remaining, hcomp]
          split <;> omega
      | false =>
          have hold : d.remaining = 3 := by simp [HandlingCall.remaining, hpc, hcomp]
          have hnew : HandlingCall.remaining { d with pc := .loop } = 3 := by
            simp [HandlingCall.remaining, hcomp]
          rw [if_pos (by simp [HandlingCall.polls, hpc, hcomp, havail])]
          omega
  | waiting hpc havail =>
      have hin : d.inTransaction = true := by simp [HandlingCall.inTransaction, hpc]
      -- with a byte on the wire the reply is not complete
      have hcomp : d.reader.complete = false := by
        cases hcomp : d.reader.complete with
        | false => rfl
        | true =>
            obtain ⟨_, _, htoHost, _⟩ := replying_complete hl (busy_of_inside hl hc hin) hcomp
            exact absurd (by simp [Wire.serialDataAvail, hl.up, htoHost]) havail
      have hold : d.remaining = 3 := by simp [HandlingCall.remaining, hpc, hcomp]
      have hnew : HandlingCall.remaining { d with pc := .serialGetchar } = 2 := rfl
      omega
  | serialGetchar x _ hpc hget =>
      have hin : d.inTransaction = true := by simp [HandlingCall.inTransaction, hpc]
      have hne := (busy_of_inside hl hc hin).waiting hpc
      cases htoHost : l.wire.toHost with
      | nil => exact absurd htoHost hne
      | cons y rest =>
          rw [Wire.serialGetchar, if_neg (by simp [hl.up]), htoHost] at hget
          obtain ⟨_, rfl⟩ := Prod.mk.inj (Option.some.inj hget)
          have hold : d.remaining = 2 := by simp [HandlingCall.remaining, hpc]
          have hnew := remaining_feed d x
          simp only [List.length_cons]
          omega

/-! ## Somebody can move -/

/-- The board can move as long as it has something to do or something to read. -/
theorem device_moves {l : Line Board} (hl : Serialized l)
    (h : l.device.todo ≠ [] ∨ l.wire.toMcu ≠ []) :
    ∃ l', l.step firmware (.device ()) = some l' := by
  suffices hd : ∃ b w, firmware l.device l.wire () = some (b, w) by
    obtain ⟨b, w, hd⟩ := hd
    exact ⟨{ l with wire := w, device := b }, by simp [Line.step, hd]⟩
  unfold firmware
  cases htodo : l.device.todo with
  | cons e todo => cases e <;> exact ⟨_, _, rfl⟩
  | nil =>
      cases hmcu : l.wire.toMcu with
      | nil => exact absurd h (by simp [htodo, hmcu])
      | cons dato rest =>
          -- a byte on the wire belongs to a command, and `LineBuffer` has room for all of it
          rcases hl.phase with hq | ⟨i, c, hb⟩
          · rw [hq.toMcu] at hmcu; exact absurd hmcu (by simp)
          · rcases hb.phase with hr | hr
            · obtain ⟨q, hq, hm⟩ := hr.split
              have hlen : q.length < lineBufferSize := by
                have hle := (commands_isFrame (frameOf_mem (hl.known i c hb.call))).2
                rw [← hq, hmcu, List.length_append, List.length_cons] at hle
                omega
              obtain ⟨mcu, hisr, _⟩ := isr_spec hm dato (fun _ => hlen)
              simp only [hisr]
              exact ⟨_, _, rfl⟩
            · rw [hr.toMcu] at hmcu; exact absurd hmcu (by simp)

/-- With the board at rest and nothing on the wire, the call being served has its reply. -/
theorem complete_of_idle {l : Line Board} {i : Nat} {c : HandlingCall} (hl : Serialized l)
    (hb : Busy l i c) (htodo : l.device.todo = []) (hmcu : l.wire.toMcu = [])
    (hhost : l.wire.toHost = []) : c.reader.complete = true := by
  rcases hb.phase with hr | hr
  · exact absurd hmcu hr.toMcu
  · have htext := hr.text
    rw [htodo, hhost] at htext
    obtain ⟨n, hn, hsplit⟩ := replyText_split (hl.known i c hb.call)
    have hheard : c.heard = n ++ actionFinished := by
      rw [← hsplit, ← htext]
      exact (List.append_nil _).symm
    rw [(hl.noted.ok i c hb.call).reader, hheard]
    exact (complete_of_text hn isFrame_actionFinished).1

/-- Call `k` can take a step that is no idle poll, or polls with a byte there to be read. -/
structure Helps (l : Line Board) (k : Nat) (c : HandlingCall) : Prop where
  call : l.calls[k]? = some c
  running : ∀ code, c.pc ≠ .returned code
  exclusive : Exclusive l (LineAct.run (A := Unit) k true) = true
  steps : ∃ c' w, c.step true l.wire = some (c', w)
  useful : c.polls l.wire = false ∨ c.pc = .loop ∧ l.wire.toHost ≠ []

theorem Helps.moves {l : Line Board} {k : Nat} {c : HandlingCall} (h : Helps l k c) :
    ∃ l', l.step firmware (.run k true) = some l' := by
  obtain ⟨c', w, hst⟩ := h.steps
  exact ⟨_, by simp [Line.step, h.call, hst]; rfl⟩

/-- A call outside its transaction waits for nobody. -/
theorem helps_outside {l : Line Board} {k : Nat} {c : HandlingCall}
    (hc : l.calls[k]? = some c) (hpc : ∀ code, c.pc ≠ .returned code)
    (hin : c.inTransaction = false)
    (hfree : ∀ (j : Nat) (d : HandlingCall), l.calls[j]? = some d → d.inTransaction = false) :
    Helps l k c := by
  have hexcl : Exclusive l (LineAct.run (A := Unit) k true) = true := by
    simp only [Exclusive, hc, decide_eq_true_eq, List.all_eq_true, Bool.not_eq_true']
    intro _ d hd
    obtain ⟨j, hj⟩ := List.mem_iff_getElem?.mp hd
    exact hfree j d hj
  cases hcase : c.pc with
  | serialOpen => exact ⟨hc, hpc, hexcl, ⟨_, _, by simp only [HandlingCall.step, hcase]; rfl⟩,
      Or.inl (by simp [HandlingCall.polls, hcase])⟩
  | wiringPiSetup => exact ⟨hc, hpc, hexcl, ⟨_, _, by simp only [HandlingCall.step, hcase]; rfl⟩,
      Or.inl (by simp [HandlingCall.polls, hcase])⟩
  | serialPuts => exact ⟨hc, hpc, hexcl, ⟨_, _, by simp only [HandlingCall.step, hcase]; rfl⟩,
      Or.inl (by simp [HandlingCall.polls, hcase])⟩
  | loop =>
      have hcomp : c.reader.complete = true := by
        simpa [HandlingCall.inTransaction, hcase] using hin
      exact ⟨hc, hpc, hexcl, ⟨_, _, by simp only [HandlingCall.step, hcase]; rfl⟩,
        Or.inl (by simp [HandlingCall.polls, hcomp])⟩
  | serialDataAvail => simp [HandlingCall.inTransaction, hcase] at hin
  | serialGetchar => simp [HandlingCall.inTransaction, hcase] at hin
  | returned code => exact absurd hcase (hpc code)

/-- The call being served can move once the board cannot. -/
theorem helps_inside {l : Line Board} {k : Nat} {c : HandlingCall} (hl : Serialized l)
    (hb : Busy l k c) (htodo : l.device.todo = []) (hmcu : l.wire.toMcu = []) : Helps l k c := by
  have hin := hb.inside
  have hrun : ∀ code, c.pc ≠ .returned code := by
    intro code h
    simp [HandlingCall.inTransaction, h] at hin
  have hexcl : ∀ pc, c.pc = pc → pc ≠ .serialPuts →
      Exclusive l (LineAct.run (A := Unit) k true) = true := by
    intro pc hpc hne
    simp only [Exclusive, hb.call, decide_eq_true_eq]
    intro h
    exact absurd (hpc ▸ h) hne
  have hbyte : c.reader.complete = false → l.wire.toHost ≠ [] := by
    intro hcomp hhost
    rw [complete_of_idle hl hb htodo hmcu hhost] at hcomp
    exact absurd hcomp (by simp)
  cases hcase : c.pc with
  | serialOpen => simp [HandlingCall.inTransaction, hcase] at hin
  | wiringPiSetup => simp [HandlingCall.inTransaction, hcase] at hin
  | serialPuts => simp [HandlingCall.inTransaction, hcase] at hin
  | returned code => exact absurd hcase (hrun code)
  | loop =>
      have hcomp : c.reader.complete = false := by
        simpa [HandlingCall.inTransaction, hcase] using hin
      exact ⟨hb.call, hrun, hexcl _ hcase (by simp),
        ⟨_, _, by simp only [HandlingCall.step, hcase]; rfl⟩, Or.inr ⟨hcase, hbyte hcomp⟩⟩
  | serialDataAvail =>
      refine ⟨hb.call, hrun, hexcl _ hcase (by simp),
        ⟨_, _, by simp only [HandlingCall.step, hcase]; rfl⟩, Or.inl ?_⟩
      cases hcomp : c.reader.complete with
      | true => simp [HandlingCall.polls, hcomp]
      | false =>
          have hne := hbyte hcomp
          simp [HandlingCall.polls, hcomp, hcase, Wire.serialDataAvail, hl.up, hne]
  | serialGetchar =>
      obtain ⟨x, rest, hhost⟩ := List.exists_cons_of_ne_nil (hb.waiting hcase)
      refine ⟨hb.call, hrun, hexcl _ hcase (by simp), ?_, Or.inl (by simp [HandlingCall.polls, hcase])⟩
      simp only [HandlingCall.step, hcase, Wire.serialGetchar, hl.up, hhost]
      exact ⟨_, _, rfl⟩

/--
**Calls and board do not wait for each other.** As long as some call is not back, the
board can move, or a call can that brings the work forward.
-/
theorem exists_helps {l : Line Board} (hl : Serialized l) {i : Nat} {c : HandlingCall}
    (hc : l.calls[i]? = some c) (hpc : ∀ code, c.pc ≠ .returned code) :
    (∃ l', l.step firmware (.device ()) = some l') ∨ ∃ k d, Helps l k d := by
  by_cases hdev : l.device.todo ≠ [] ∨ l.wire.toMcu ≠ []
  · exact Or.inl (device_moves hl hdev)
  · obtain ⟨htodo, hmcu⟩ : l.device.todo = [] ∧ l.wire.toMcu = [] := by
      constructor <;> by_contra hne <;> exact hdev (by simp [hne])
    rcases hl.phase with hq | ⟨k, d, hb⟩
    · exact Or.inr ⟨i, c, helps_outside hc hpc (hq.free i c hc) hq.free⟩
    · exact Or.inr ⟨k, d, helps_inside hl hb htodo hmcu⟩

end HandlingModule.Serial
