import HandlingModule.Firmware.Receiver
import HandlingModule.Lib.Polling
import HandlingModule.Serial.Reader

/-!
# Waiting for the microcontroller

A call of `handlingService` that has written its command waits in two loops, and what
they do depends only on what the port answers. `waitLoop` is the two loops alone;
every statement of a call is a step of it or none, and every step of it can be taken
by a call (`talk_follows`, `exists_talk`). On it two questions are settled: with
which reply the loops are left, when the bytes of a frame and whatever follows it
arrive in batches, and on which ports they are left at all.
-/

namespace HandlingModule.Serial

open Firmware Framing Polling

/--
`for (count = 0 ; count < 256 ; )` around `while (serialDataAvail (fd))`. Nothing
increases `count`, so only the `break` at the head leaves.
-/
def waitLoop : Loop Reader Byte := ⟨Reader.feed, Reader.complete⟩

theorem read_waitLoop (r : Reader) (l : List Byte) : waitLoop.read r l = r.feedAll l := rfl

/-! ## The loops of a call -/

/-- What the port answers to a statement, as far as the loops go. -/
def answerTo (c : HandlingCall) (ok : Bool) (w : Wire) : List (Option Byte) :=
  match c.pc with
  -- a positive count and -1 make no difference, and the byte comes with the next statement
  | .serialDataAvail => if w.serialDataAvail = 0 then [none] else []
  | .serialGetchar => (w.serialGetchar ok).toList.map (fun p => some p.1)
  | _ => []

/-- A call has come this far, on whatever wire each statement found, and heard these answers. -/
inductive Talk (c₀ : HandlingCall) : List (Option Byte) → HandlingCall → Prop where
  | start : Talk c₀ [] c₀
  | snoc {answered : List (Option Byte)} {c c' : HandlingCall} {ok : Bool} {w w' : Wire} :
      Talk c₀ answered c → c.step ok w = some (c', w') → Talk c₀ (answered ++ answerTo c ok w) c'

/-- The place in the loops a statement belongs to. -/
def CallPc.At : CallPc → Polling.Pc → Prop
  | .loop, p => p = .head
  | .serialDataAvail, p | .serialGetchar, p => p = .inner
  | .returned code, p => code = 0 ∧ p = .left
  | _, _ => False

/-- The call and the loops are at the same place, with the same locals. -/
structure Follows (c : HandlingCall) (answered : List (Option Byte)) (s : State Reader Byte) :
    Prop where
  reader : c.reader = s.locals
  heard : c.heard = s.heard
  place : c.pc.At s.pc
  answered : s.answered = answered.length

/-- Of answers that begin with a list and one more. -/
theorem first_snoc {answers : Nat → Option Byte} {l : List (Option Byte)} {a : Option Byte}
    (h : first answers (l ++ [a]).length = l ++ [a]) :
    first answers l.length = l ∧ answers l.length = a := by
  rw [List.length_append, List.length_singleton, first_succ] at h
  obtain ⟨h1, h2⟩ := List.append_inj' h rfl
  exact ⟨h1, List.singleton_inj.mp h2⟩

/-- **A call does what the loops do.** -/
theorem talk_follows {c₀ c : HandlingCall} {answered : List (Option Byte)}
    (h : Talk c₀ answered c) (h0 : c₀.pc = .loop) (hh : c₀.heard = []) {answers : Nat → Option Byte}
    (ha : first answers answered.length = answered) :
    ∃ n, Follows c answered (waitLoop.run answers c₀.reader n) := by
  induction h with
  | start => exact ⟨0, rfl, hh, by rw [h0]; rfl, rfl⟩
  | @snoc answered c c' ok w w' _ hst ih =>
      have hcs := callStep hst
      cases hcs with
      | opened pc hpc =>
          have hnone : answerTo c ok w = [] := by
            rcases hpc with ⟨hpc, _⟩ | ⟨hpc, _⟩ <;> simp [answerTo, hpc]
          rw [hnone, List.append_nil] at ha
          obtain ⟨n, hn⟩ := ih ha
          have hplace := hn.place
          rcases hpc with ⟨hpc, _⟩ | ⟨hpc, _⟩ <;> simp [hpc, CallPc.At] at hplace
      | serialPuts hpc =>
          have hnone : answerTo c ok w = [] := by simp [answerTo, hpc]
          rw [hnone, List.append_nil] at ha
          obtain ⟨n, hn⟩ := ih ha
          have hplace := hn.place
          simp [hpc, CallPc.At] at hplace
      | leave hpc hd =>
          have hnone : answerTo c ok w = [] := by simp [answerTo, hpc]
          rw [hnone, List.append_nil] at ha ⊢
          obtain ⟨n, hr, hheard, hplace, hlen⟩ := ih ha
          rw [hpc] at hplace
          refine ⟨n + 1, ?_⟩
          rw [Loop.run, Loop.step_leave hplace (by rw [← hr]; exact hd)]
          exact ⟨hr, hheard, ⟨rfl, rfl⟩, hlen⟩
      | stay hpc hd =>
          have hnone : answerTo c ok w = [] := by simp [answerTo, hpc]
          rw [hnone, List.append_nil] at ha ⊢
          obtain ⟨n, hr, hheard, hplace, hlen⟩ := ih ha
          rw [hpc] at hplace
          refine ⟨n + 1, ?_⟩
          rw [Loop.run, Loop.step_enter hplace (by rw [← hr]; exact hd)]
          exact ⟨hr, hheard, rfl, hlen⟩
      | nothing hpc hw =>
          have hone : answerTo c ok w = [none] := by simp [answerTo, hpc, hw]
          rw [hone] at ha ⊢
          obtain ⟨ha, hnext⟩ := first_snoc ha
          obtain ⟨n, hr, hheard, hplace, hlen⟩ := ih ha
          rw [hpc] at hplace
          refine ⟨n + 1, ?_⟩
          rw [Loop.run, Loop.step_pause hplace (by rw [hlen]; exact hnext)]
          exact ⟨hr, hheard, rfl, by simp [hlen]⟩
      | waiting hpc hw =>
          -- the loops take no step until the byte is there
          have hnone : answerTo c ok w = [] := by simp [answerTo, hpc, hw]
          rw [hnone, List.append_nil] at ha ⊢
          obtain ⟨n, hr, hheard, hplace, hlen⟩ := ih ha
          rw [hpc] at hplace
          exact ⟨n, hr, hheard, hplace, hlen⟩
      | serialGetchar x w' hpc hg =>
          have hone : answerTo c ok w = [some x] := by simp [answerTo, hpc, hg]
          rw [hone] at ha ⊢
          obtain ⟨ha, hnext⟩ := first_snoc ha
          obtain ⟨n, hr, hheard, hplace, hlen⟩ := ih ha
          rw [hpc] at hplace
          refine ⟨n + 1, ?_⟩
          rw [Loop.run, Loop.step_item hplace (by rw [hlen]; exact hnext)]
          exact ⟨by rw [← hr]; rfl, by rw [← hheard], rfl, by simp [hlen]⟩

/-- A statement that asks nothing of the wire. -/
theorem Talk.silent {c₀ c c' : HandlingCall} {answered : List (Option Byte)} {ok : Bool}
    {w w' : Wire} (h : Talk c₀ answered c) (hst : c.step ok w = some (c', w'))
    (hnone : answerTo c ok w = []) : Talk c₀ answered c' := by
  have hnext := h.snoc hst
  rwa [hnone, List.append_nil] at hnext

/-- A statement that is given the next of the answers. -/
theorem Talk.answer {c₀ c c' : HandlingCall} {answered : List (Option Byte)} {ok : Bool}
    {w w' : Wire} {answers : Nat → Option Byte} (h : Talk c₀ answered c)
    (ha : first answers answered.length = answered) (hst : c.step ok w = some (c', w'))
    (hone : answerTo c ok w = [answers answered.length]) :
    Talk c₀ (answered ++ [answers answered.length]) c'
      ∧ first answers (answered ++ [answers answered.length]).length
        = answered ++ [answers answered.length] := by
  have hnext := h.snoc hst
  rw [hone] at hnext
  exact ⟨hnext, by rw [List.length_append, List.length_singleton, first_succ, ha]⟩

/-- The wire on which the next answer is this one. -/
def wireOf : Option Byte → Wire
  | none => ⟨[], [], false⟩
  | some x => ⟨[], [x], false⟩

/-- **And every step of the loops is one a call can take.** -/
theorem exists_talk {c₀ : HandlingCall} (h0 : c₀.pc = .loop) (hh : c₀.heard = [])
    (answers : Nat → Option Byte) (n : Nat) :
    ∃ answered c, Talk c₀ answered c ∧ first answers answered.length = answered
      ∧ Follows c answered (waitLoop.run answers c₀.reader n) ∧ c.pc ≠ .serialGetchar := by
  induction n with
  | zero =>
      exact ⟨[], c₀, Talk.start, rfl, ⟨rfl, hh, by rw [h0]; rfl, rfl⟩, by rw [h0]; simp⟩
  | succ n ih =>
      obtain ⟨answered, c, htalk, ha, ⟨hr, hheard, hplace, hlen⟩, hpc⟩ := ih
      rw [Loop.run]
      cases hp : c.pc with
      | loop =>
          rw [hp] at hplace
          cases hd : c.reader.complete with
          | true =>
              have hst : c.step true (wireOf none) = some ({ c with pc := .returned 0 }, wireOf none) := by
                simp [HandlingCall.step, hp, hd]
              have hnext := htalk.silent hst (by simp [answerTo, hp])
              rw [Loop.step_leave hplace (by rw [← hr]; exact hd)]
              exact ⟨answered, _, hnext, ha, ⟨hr, hheard, ⟨rfl, rfl⟩, hlen⟩, by simp⟩
          | false =>
              have hst : c.step true (wireOf none) = some ({ c with pc := .serialDataAvail }, wireOf none) := by
                simp [HandlingCall.step, hp, hd]
              have hnext := htalk.silent hst (by simp [answerTo, hp])
              rw [Loop.step_enter hplace (by rw [← hr]; exact hd)]
              exact ⟨answered, _, hnext, ha, ⟨hr, hheard, rfl, hlen⟩, by simp⟩
      | serialDataAvail =>
          rw [hp] at hplace
          cases hx : answers answered.length with
          | none =>
              have hst : c.step true (wireOf none) = some ({ c with pc := .loop }, wireOf none) := by
                simp [HandlingCall.step, hp, wireOf, Wire.serialDataAvail]
              obtain ⟨hnext, hfirst⟩ := htalk.answer ha hst
                (by simp [answerTo, hp, hx, wireOf, Wire.serialDataAvail])
              rw [Loop.step_pause hplace (by rw [hlen]; exact hx)]
              exact ⟨_, _, hnext, hfirst, ⟨hr, hheard, rfl, by simp [hlen]⟩, by simp⟩
          | some x =>
              -- two statements of the call, the question and the byte
              have hst : c.step true (wireOf (some x))
                  = some ({ c with pc := .serialGetchar }, wireOf (some x)) := by
                simp [HandlingCall.step, hp, wireOf, Wire.serialDataAvail]
              have hasked := htalk.silent hst
                (by simp [answerTo, hp, wireOf, Wire.serialDataAvail])
              have hst' : ({ c with pc := .serialGetchar } : HandlingCall).step true (wireOf (some x))
                  = some ({ c with
                      pc := .serialDataAvail
                      reader := c.reader.feed x
                      heard := c.heard ++ [x] }, ⟨[], [], false⟩) := by
                simp [HandlingCall.step, wireOf, Wire.serialGetchar]
              obtain ⟨hnext, hfirst⟩ := hasked.answer ha hst'
                (by simp [answerTo, hx, wireOf, Wire.serialGetchar])
              rw [Loop.step_item hplace (by rw [hlen]; exact hx)]
              exact ⟨_, _, hnext, hfirst, ⟨by rw [← hr]; rfl, by rw [← hheard], rfl,
                by simp [hlen]⟩, by simp⟩
      | serialGetchar => exact absurd hp hpc
      | returned code =>
          rw [hp] at hplace
          rw [Loop.step_left hplace.2]
          exact ⟨answered, c, htalk, ha, ⟨hr, hheard, by rw [hp]; exact hplace, hlen⟩, hpc⟩
      | serialOpen => rw [hp] at hplace; exact hplace.elim
      | wiringPiSetup => rw [hp] at hplace; exact hplace.elim
      | serialPuts => rw [hp] at hplace; exact hplace.elim

/-! ## With which reply -/

/-- The loops are left with the frame as the reply. -/
def StopsWith (answers : Nat → Option Byte) (f : List Byte) : Prop :=
  ∃ m, (waitLoop.run answers Reader.fresh m).pc = .left
    ∧ (waitLoop.run answers Reader.fresh m).locals.reply = f

/-- A reply that is the frame means that the frame has been read, and nothing after it. -/
theorem eq_of_kept {n f rest h t : List Byte} (hn : IsNoise braces n) (hf : IsFrame braces f)
    (ht : h ++ t = n ++ f ++ rest) (hc : (Reader.fresh.feedAll h).complete = true)
    (hk : kept h = f) : h = n ++ f := by
  rcases List.append_eq_append_iff.mp ht with ⟨m, hm, _⟩ | ⟨m, hm, _⟩
  · exact eq_of_complete hn hf hm.symm hc
  · -- the reply holds whatever came after the frame
    have hhead : (f ++ m).head? = some openBrace := by
      rw [List.head?_append_of_ne_nil _ hf.ne_nil]; exact hf.head
    rw [hm, List.append_assoc, kept_noise_append hn hhead] at hk
    rw [hm, List.self_eq_append_right.mp hk.symm, List.append_nil]

/-- The frame must end where a batch ends. -/
theorem boundary_of_stops {n f rest : List Byte} {bs : List (List Byte)}
    {answers : Nat → Option Byte} (hn : IsNoise braces n) (hf : IsFrame braces f)
    (hbs : bs.flatten = n ++ f ++ rest) (ha : Begins answers bs) (h : StopsWith answers f) :
    ∃ k, (bs.take k).flatten = n ++ f := by
  obtain ⟨m, hleft, hreply⟩ := h
  obtain ⟨cs, hcs, _, hlocals, _, hd, _⟩ := of_left hleft
  rw [read_waitLoop] at hlocals hd
  have hk : kept cs.flatten = f := by
    rw [← (reader_spec cs.flatten).1, ← hlocals]; exact hreply
  rcases hcs.total ha with hp | hp
  · obtain ⟨ds, rfl⟩ := hp
    refine ⟨cs.length, ?_⟩
    rw [List.take_left]
    exact eq_of_kept hn hf (by rw [← hbs, List.flatten_append]) hd hk
  · -- the loops went on past the batches; then the frame was the last of them
    obtain ⟨ds, rfl⟩ := hp
    have hsplit : (bs ++ ds).flatten ++ [] = n ++ f ++ (rest ++ ds.flatten) := by
      rw [List.append_nil, List.flatten_append, hbs, List.append_assoc]
    have hall : (bs ++ ds).flatten = n ++ f := eq_of_kept hn hf hsplit hd hk
    refine ⟨bs.length, ?_⟩
    rw [List.take_length]
    rw [List.flatten_append, hbs, List.append_assoc] at hall
    have hnil := List.append_eq_nil_iff.mp (List.self_eq_append_right.mp hall.symm)
    rw [hbs, hnil.1, List.append_nil]

/-- A batch that ends with the frame is where the loops are left. -/
theorem stops_of_boundary {n f : List Byte} {bs : List (List Byte)} {answers : Nat → Option Byte}
    (hn : IsNoise braces n) (hf : IsFrame braces f) (ha : Begins answers bs) {k : Nat}
    (hk : (bs.take k).flatten = n ++ f) : StopsWith answers f := by
  have hbegins : Begins answers (bs.take k) := by
    have hsplit := List.take_append_drop k bs
    rw [← hsplit] at ha
    exact ha.of_append
  obtain ⟨hdone, hreply⟩ := complete_of_text hn hf
  have hd : waitLoop.done (waitLoop.read Reader.fresh (bs.take k).flatten) = true := by
    rw [read_waitLoop, hk]; exact hdone
  obtain ⟨j, _, _, m, hm⟩ := exists_left hbegins hd
  -- the loops cannot have been left inside the frame
  have hj : ((bs.take k).take j).flatten = n ++ f := by
    have hleft : (waitLoop.run answers Reader.fresh m).pc = .left := by rw [hm]
    obtain ⟨cs, _, hheard, _, _, hcd, _⟩ := of_left hleft
    rw [hm] at hheard
    rw [read_waitLoop, ← hheard] at hcd
    refine eq_of_complete hn hf (t := ((bs.take k).drop j).flatten) ?_ hcd
    rw [← hk, ← List.flatten_append, List.take_append_drop]
  refine ⟨m, by rw [hm], ?_⟩
  rw [hm]
  show (waitLoop.read Reader.fresh ((bs.take k).take j).flatten).reply = f
  rw [hj, read_waitLoop, hreply]

/--
**The end of the frame, however the bytes are batched.** The loops are left with the
frame as the reply exactly when some batch ends where the frame ends.
-/
theorem stops_iff {n f rest : List Byte} {bs : List (List Byte)} {answers : Nat → Option Byte}
    (hn : IsNoise braces n) (hf : IsFrame braces f) (hbs : bs.flatten = n ++ f ++ rest)
    (ha : Begins answers bs) : StopsWith answers f ↔ ∃ k, (bs.take k).flatten = n ++ f :=
  ⟨boundary_of_stops hn hf hbs ha, fun ⟨_, hk⟩ => stops_of_boundary hn hf ha hk⟩

/-- The `DONE` frame, and a line feed with the next poll. -/
theorem stops_iff_done : StopsWith (deliver [actionFinished, [10]]) actionFinished :=
  (stops_iff (n := []) List.not_mem_nil isFrame_actionFinished List.flatten_cons
    (begins_deliver _)).mpr ⟨1, by simp⟩

/-- The same bytes in one batch: the line feed is part of the reply, and hides the brace. -/
theorem not_stops_one_batch :
    ¬ ∀ (n f rest : List Byte) (bs : List (List Byte)) (answers : Nat → Option Byte),
      IsNoise braces n → IsFrame braces f → bs.flatten = n ++ f ++ rest → Begins answers bs →
      StopsWith answers f := by
  intro hall
  have hbs : [actionFinished ++ [10]].flatten = [] ++ actionFinished ++ [10] := by simp
  have hbegins := begins_deliver [actionFinished ++ [10]]
  have hstop := hall [] actionFinished [10] _ _ List.not_mem_nil isFrame_actionFinished hbs hbegins
  obtain ⟨k, hk⟩ := boundary_of_stops List.not_mem_nil isFrame_actionFinished hbs hbegins hstop
  cases k with
  | zero => exact isFrame_actionFinished.ne_nil (by simpa using hk.symm)
  | succ k => simp at hk

/-! ## Whether at all -/

/--
The wait is over after at most the 256 passes that `for (count = 0 ; count < 256 ; )`
announces, every run of the inner loop on the way having come to an end.
-/
def WaitEnds (answers : Nat → Option Byte) : Prop :=
  ∃ n, (waitLoop.run answers Reader.fresh n).pc = .left
    ∧ (waitLoop.run answers Reader.fresh n).passes ≤ 256

/-- From the first opening brace on, the bytes end with a closing brace and are at depth zero. -/
def Balanced (l : List Byte) : Prop :=
  kept l ≠ [] ∧ (kept l).getLast? = some closeBrace ∧ depth braces (kept l) = 0

theorem complete_feedAll (l : List Byte) :
    (Reader.fresh.feedAll l).complete = true ↔ Balanced l := by
  obtain ⟨h1, h2, _⟩ := reader_spec l
  rw [complete_iff, h1, h2]; rfl

/--
**Which ports let the wait end.** Exactly those at one of whose first 255 pauses
everything read so far is balanced.
-/
theorem waitEnds_iff (answers : Nat → Option Byte) :
    WaitEnds answers ↔ ∃ bs, bs.length < 256 ∧ Begins answers bs ∧ Balanced bs.flatten := by
  unfold WaitEnds
  rw [leaves_iff]
  simp only [read_waitLoop, ← complete_feedAll]
  rfl

/-- A port that never has a byte keeps the call waiting for good. -/
theorem not_waitEnds_silent : ¬ ∀ answers : Nat → Option Byte, WaitEnds answers := by
  intro hall
  obtain ⟨n, hleft, _⟩ := hall (fun _ => none)
  obtain ⟨bs, hbegins, _, _, _, hd, _⟩ := of_left hleft
  have hnil : bs.flatten = [] := by
    refine List.eq_nil_iff_forall_not_mem.mpr (fun x hx => ?_)
    obtain ⟨b, hb, hx⟩ := List.mem_flatten.mp hx
    have hmem : some x ∈ polls bs :=
      List.mem_flatMap.mpr ⟨b, hb, List.mem_append_left _ (List.mem_map_of_mem hx)⟩
    rw [← hbegins] at hmem
    obtain ⟨_, _, hsome⟩ := List.mem_map.mp hmem
    exact absurd hsome (by simp)
  rw [read_waitLoop, hnil] at hd
  exact absurd hd (by decide)

end HandlingModule.Serial
