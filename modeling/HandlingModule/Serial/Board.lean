import HandlingModule.Firmware.Streams
import HandlingModule.Serial.Line

/-!
# The microcontroller at the far end of the line

`firmware` is the program of `Firmware.Main` as a device: it takes one byte off the
wire at a time and puts its answers back one byte at a time. Whoever writes to the
line, and in whatever order, the board handles the frames in the order they were
written (`OnWire`), and the servo's register is where the last of them put it.
-/

namespace HandlingModule.Serial

open Firmware Framing

variable {δ A : Type}

/--
The board: the receiver's globals, what the handler that is running has still to
do, and the servo's register. A byte is taken only by a handler that has finished
with the one before. `handled` records the calls of `messageProcessing`.
-/
structure Board where
  mcu : Mcu
  todo : List Effect
  ta1ccr1 : Nat
  handled : List Call

/-- The board `main` leaves behind: an idle receiver and a closed gripper. -/
def Board.start : Board := ⟨powerUp, [], moveServo periodo_ (duty (9 / 100)), []⟩

/-- The board's next move: go on with the handler, or take the next byte. -/
def firmware : Device Board Unit := fun b w _ =>
  match b.todo with
  | .moveServo periodo dutyCycle :: todo =>
      some ({ b with todo := todo, ta1ccr1 := moveServo periodo dutyCycle }, w)
  | .transmit byte :: todo =>
      some ({ b with todo := todo }, { w with toHost := w.toHost ++ [byte] })
  | [] =>
      -- no handler is running, so the next byte raises the interrupt
      match w.toMcu with
      | [] => none
      | dato :: rest => do
          let (mcu, call) ← usci0RxIsr b.mcu dato
          return ({ b with
            mcu := mcu
            todo := (call.map Call.effects).getD []
            handled := b.handled ++ call.toList }, { w with toMcu := rest })

/-- What the board can do next. -/
theorem firmware_cases {b b' : Board} {w w' : Wire} (h : firmware b w () = some (b', w')) :
    (∃ p d todo, b.todo = .moveServo p d :: todo
      ∧ b' = { b with todo := todo, ta1ccr1 := moveServo p d } ∧ w' = w)
    ∨ (∃ x todo, b.todo = .transmit x :: todo ∧ b' = { b with todo := todo }
      ∧ w' = { w with toHost := w.toHost ++ [x] })
    ∨ (∃ dato rest mcu call, b.todo = [] ∧ w.toMcu = dato :: rest
      ∧ usci0RxIsr b.mcu dato = some (mcu, call)
      ∧ b' = { b with
          mcu := mcu
          todo := (call.map Call.effects).getD []
          handled := b.handled ++ call.toList }
      ∧ w' = { w with toMcu := rest }) := by
  unfold firmware at h
  split at h
  · rename_i p d todo htodo
    obtain ⟨rfl, rfl⟩ := Prod.mk.inj (Option.some.inj h)
    exact Or.inl ⟨p, d, todo, htodo, rfl, rfl⟩
  · rename_i x todo htodo
    obtain ⟨rfl, rfl⟩ := Prod.mk.inj (Option.some.inj h)
    exact Or.inr (Or.inl ⟨x, todo, htodo, rfl, rfl⟩)
  · rename_i htodo
    split at h
    · exact absurd h (by simp)
    · rename_i dato rest hw
      obtain ⟨⟨mcu, call⟩, hisr, h⟩ := Option.bind_eq_some_iff.mp h
      obtain ⟨rfl, rfl⟩ := Prod.mk.inj (Option.some.inj h)
      exact Or.inr (Or.inr ⟨dato, rest, mcu, call, htodo, hw, hisr, rfl, rfl⟩)

/-! ## What the board has handled -/

/-- The handler has a result only where the scanner is followed. -/
theorem isr_some {m m' : Mcu} {q : List Byte} {x : Byte} {call : Option Call} (h : Holds m q)
    (hisr : usci0RxIsr m x = some (m', call)) :
    call = (push braces q x).2.map callOf ∧ Holds m' (push braces q x).1 := by
  have hroom : Stored q x → q.length < lineBufferSize := by
    intro hst
    by_contra hn
    have := h.fits
    rw [isr_full h (by omega) hst] at hisr
    exact absurd hisr (by simp)
  obtain ⟨m1, h1, h2⟩ := isr_spec h x hroom
  rw [hisr] at h1
  obtain ⟨rfl, rfl⟩ := Prod.mk.inj (Option.some.inj h1)
  exact ⟨rfl, h2⟩

/-- Where the servo's register ends after some effects. -/
def position (ta1ccr1 : Nat) (effects : List Effect) : Nat :=
  effects.foldl (fun p e => match e with
    | .moveServo periodo dutyCycle => moveServo periodo dutyCycle
    | .transmit _ => p) ta1ccr1

theorem position_append (p : Nat) (es fs : List Effect) :
    position p (es ++ fs) = position (position p es) fs := List.foldl_append ..

/-- Sending a text does not move the servo. -/
theorem position_uartSend (p : Nat) (string : List Byte) : position p (uartSend string) = p := by
  unfold uartSend
  induction CString.untilNul string with
  | nil => rfl
  | cons x l ih => exact ih

/-- The bytes written to the line so far. -/
def Line.bytesWritten (l : Line δ) : List Byte := (l.written.map (fun p => frameOf p.2)).flatten

/-- The board has scanned what was written, up to what is still on the wire. -/
structure OnWire (l : Line Board) : Prop where
  stream : ∃ taken, l.bytesWritten = taken ++ l.wire.toMcu
    ∧ Holds l.device.mcu (scan braces [] taken).1
    ∧ l.device.handled = (scan braces [] taken).2.map callOf
  servo : position l.device.ta1ccr1 l.device.todo
    = position Board.start.ta1ccr1 (l.device.handled.flatMap Call.effects)

theorem onWire_start : OnWire (Line.start Board.start) where
  stream := ⟨[], rfl, holds_powerUp, rfl⟩
  servo := rfl

theorem onWire_step {l l' : Line Board} {a : LineAct Unit} (h : l.step firmware a = some l')
    (hl : OnWire l) : OnWire l' := by
  obtain ⟨⟨taken, hw, hm, hh⟩, hs⟩ := hl
  cases a with
  | call service => rw [line_call h]; exact ⟨⟨taken, hw, hm, hh⟩, hs⟩
  | run i ok =>
      obtain ⟨c, c', wire, _, hst, rfl⟩ := line_run h
      refine ⟨⟨taken, ?_, hm, hh⟩, hs⟩
      have hwire := (callStep hst).toMcu
      unfold Line.bytesWritten at hw ⊢
      by_cases hp : c.pc = .serialPuts
      · -- one more frame, at the end of the record and at the end of the wire
        rw [if_pos hp] at hwire
        simp only [if_pos hp]
        rw [hwire, List.map_append, List.flatten_append, hw]
        simp
      · rw [if_neg hp] at hwire
        simp only [if_neg hp]
        rw [hwire, hw]
  | device u =>
      obtain ⟨d, wire, hd, rfl⟩ := line_device h
      rcases firmware_cases hd with ⟨p, q, todo, htodo, rfl, rfl⟩ | ⟨x, todo, htodo, rfl, rfl⟩
        | ⟨dato, rest, mcu, call, htodo, hwire, hisr, rfl, rfl⟩
      -- an effect is carried out: nothing is taken off the wire
      · rw [htodo] at hs; exact ⟨⟨taken, hw, hm, hh⟩, hs⟩
      · rw [htodo] at hs; exact ⟨⟨taken, hw, hm, hh⟩, hs⟩
      -- a byte is taken off the wire and scanned
      · obtain ⟨hcall, hm'⟩ := isr_some hm hisr
        refine ⟨⟨taken ++ [dato], ?_, ?_, ?_⟩, ?_⟩
        · show l.bytesWritten = _
          rw [hw, hwire]; simp
        · rw [scan_snoc]; exact hm'
        · show l.device.handled ++ call.toList = _
          rw [scan_snoc, hh, hcall, List.map_append]
          cases (push braces (scan braces [] taken).1 dato).2 <;> rfl
        · rw [htodo] at hs
          show position l.device.ta1ccr1 _ = position _ (List.flatMap _ (_ ++ call.toList))
          rw [List.flatMap_append, position_append, ← hs]
          cases call with
          | none => rfl
          | some c => simp [position]

/-- With nothing left on the wire, every frame written has been handled, in order. -/
theorem OnWire.handled {l : Line Board} (hl : OnWire l) (hw : l.wire.toMcu = [])
    (hf : ∀ p ∈ l.written, IsFrame braces (frameOf p.2)) :
    l.device.handled = l.written.map (fun p => callOf (frameOf p.2)) := by
  obtain ⟨taken, hs, _, hh⟩ := hl.stream
  rw [hw, List.append_nil] at hs
  have hfr : Framed braces taken (l.written.map (fun p => frameOf p.2)) := by
    rw [← hs]
    refine framed_flatten braces ?_
    intro f hm
    obtain ⟨p, hp, rfl⟩ := List.mem_map.mp hm
    exact hf p hp
  rw [hh, scan_framed braces hfr, List.map_map]; rfl

end HandlingModule.Serial
