import HandlingModule.Firmware.Main

/-!
# `handlingService`, the host's side of the serial port

`OpenService.cpp` and `CloseService.cpp` hold the same `handlingService`: open the
port, write one command, read until a balanced reply has arrived. It is modelled
as a thread: `CallPc` says which statement is next, and `HandlingCall.step` runs
it. One step is one call of the serial library or one test of the loop head.

The library itself (`wiringSerial`) is not part of the repository. `Wire` is what
the model assumes of it: two byte queues, and a port that may be `down`, when
`serialDataAvail` and `serialGetchar` answer -1. `countMSG`, an `int` in the source, is an
`Int` without bounds.
-/

namespace HandlingModule.Serial

open Firmware

/-- The locals of the reading loop. -/
structure Reader where
  sw : Bool
  reply : List Byte
  countMSG : Int
  deriving DecidableEq

/-- `sw=false`, `reply = ""`, `countMSG = 0` -/
def Reader.fresh : Reader := ⟨false, [], 0⟩

/-- The body of the inner loop, on the byte `serialGetchar` returned. -/
def Reader.feed (r : Reader) (charReplay : Byte) : Reader :=
  if r.sw = true ∨ charReplay = openBrace then
    { sw := true
      reply := r.reply ++ [charReplay]
      countMSG := r.countMSG + (if charReplay = openBrace then 1 else 0)
        - (if charReplay = closeBrace then 1 else 0) }
  else r

/-- `0<reply.size()&&reply[reply.size()-1]=='}'&&countMSG==0` -/
def Reader.complete (r : Reader) : Bool :=
  decide (0 < r.reply.length) && decide (r.reply.getLast? = some closeBrace)
    && decide (r.countMSG = 0)

/-- The command `serialPuts` writes for a service code; other codes write nothing. -/
def frameOf (service : Int) : List Byte :=
  if service = 0 then openCommand
  else if service = 1 then closeCommand
  else if service = 2 then toggleCommand
  else []

/-! ## The port -/

/-- What is on its way in each direction. -/
structure Wire where
  toMcu : List Byte
  toHost : List Byte
  down : Bool

/-- `serialDataAvail` -/
def Wire.serialDataAvail (w : Wire) : Int := if w.down then -1 else w.toHost.length

/-- `(char) -1` on this host, where plain `char` is unsigned. -/
def noChar : Byte := 255

/--
`serialGetchar` as the loop uses its result. On an empty port it waits up to ten
seconds; `ok` is whether a byte comes in time, and a step that waits has no result.
-/
def Wire.serialGetchar (w : Wire) (ok : Bool) : Option (Byte × Wire) :=
  if w.down then some (noChar, w)
  else match w.toHost with
    | charReplay :: rest => some (charReplay, { w with toHost := rest })
    | [] => if ok then none else some (noChar, w)

theorem toMcu_serialGetchar {w w' : Wire} {ok : Bool} {x : Byte}
    (h : w.serialGetchar ok = some (x, w')) : w'.toMcu = w.toMcu := by
  unfold Wire.serialGetchar at h
  split at h
  · obtain ⟨_, rfl⟩ := Prod.mk.inj (Option.some.inj h); rfl
  · split at h
    · obtain ⟨_, rfl⟩ := Prod.mk.inj (Option.some.inj h); rfl
    · split at h
      · exact absurd h (by simp)
      · obtain ⟨_, rfl⟩ := Prod.mk.inj (Option.some.inj h); rfl

/-! ## One call -/

/-- The statement a call has reached. -/
inductive CallPc where
  | serialOpen
  | wiringPiSetup
  | serialPuts
  | loop
  | serialDataAvail
  | serialGetchar
  | returned (code : Int)
  deriving DecidableEq

/--
A running call of `handlingService`. `opened` and `heard` are records for the
proofs: what `serialOpen` and `wiringPiSetup` answered, and every byte
`serialGetchar` returned.
-/
structure HandlingCall where
  service : Int
  pc : CallPc
  reader : Reader
  opened : List Bool
  heard : List Byte
  deriving DecidableEq

def HandlingCall.start (service : Int) : HandlingCall :=
  ⟨service, .serialOpen, Reader.fresh, [], []⟩

/-- The next statement. `ok` is what the system answers where it may refuse. -/
def HandlingCall.step (c : HandlingCall) (ok : Bool) (w : Wire) : Option (HandlingCall × Wire) :=
  match c.pc with
  | .serialOpen =>
      -- `return 1` before anything is written
      some ({ c with
        pc := if ok then .wiringPiSetup else .returned 1
        opened := c.opened ++ [ok] }, w)
  | .wiringPiSetup =>
      some ({ c with
        pc := if ok then .serialPuts else .returned 1
        opened := c.opened ++ [ok] }, w)
  | .serialPuts =>
      some ({ c with pc := .loop }, { w with toMcu := w.toMcu ++ frameOf c.service })
  | .loop =>
      -- `count` is never increased, so the bound 256 does not end the loop
      some ({ c with pc := if c.reader.complete then .returned 0 else .serialDataAvail }, w)
  | .serialDataAvail =>
      some ({ c with pc := if w.serialDataAvail = 0 then .loop else .serialGetchar }, w)
  | .serialGetchar =>
      -- back to the inner loop's test, which polls again before the reply is looked at
      (w.serialGetchar ok).map fun (charReplay, w) =>
        ({ c with
          pc := .serialDataAvail
          reader := c.reader.feed charReplay
          heard := c.heard ++ [charReplay] }, w)
  | .returned _ => none

/-! ## What one statement can do -/

/-- The steps of a call, one constructor for each outcome of a statement. -/
inductive CallStep (c : HandlingCall) (ok : Bool) (w : Wire) : HandlingCall → Wire → Prop where
  | opened (pc : CallPc) :
      c.pc = .serialOpen ∧ pc = .wiringPiSetup ∨ c.pc = .wiringPiSetup ∧ pc = .serialPuts →
      CallStep c ok w
        { c with pc := if ok then pc else .returned 1, opened := c.opened ++ [ok] } w
  | serialPuts :
      c.pc = .serialPuts →
      CallStep c ok w { c with pc := .loop } { w with toMcu := w.toMcu ++ frameOf c.service }
  | leave :
      c.pc = .loop → c.reader.complete = true →
      CallStep c ok w { c with pc := .returned 0 } w
  | stay :
      c.pc = .loop → c.reader.complete = false →
      CallStep c ok w { c with pc := .serialDataAvail } w
  | nothing :
      c.pc = .serialDataAvail → w.serialDataAvail = 0 →
      CallStep c ok w { c with pc := .loop } w
  | waiting :
      c.pc = .serialDataAvail → w.serialDataAvail ≠ 0 →
      CallStep c ok w { c with pc := .serialGetchar } w
  | serialGetchar (charReplay : Byte) (w' : Wire) :
      c.pc = .serialGetchar → w.serialGetchar ok = some (charReplay, w') →
      CallStep c ok w
        { c with
          pc := .serialDataAvail
          reader := c.reader.feed charReplay
          heard := c.heard ++ [charReplay] } w'

theorem callStep {c c' : HandlingCall} {ok : Bool} {w w' : Wire}
    (h : c.step ok w = some (c', w')) : CallStep c ok w c' w' := by
  unfold HandlingCall.step at h
  split at h
  · rename_i hpc
    obtain ⟨rfl, rfl⟩ := Prod.mk.inj (Option.some.inj h)
    exact CallStep.opened .wiringPiSetup (Or.inl ⟨hpc, rfl⟩)
  · rename_i hpc
    obtain ⟨rfl, rfl⟩ := Prod.mk.inj (Option.some.inj h)
    exact CallStep.opened .serialPuts (Or.inr ⟨hpc, rfl⟩)
  · rename_i hpc
    obtain ⟨rfl, rfl⟩ := Prod.mk.inj (Option.some.inj h)
    exact CallStep.serialPuts hpc
  · rename_i hpc
    obtain ⟨rfl, rfl⟩ := Prod.mk.inj (Option.some.inj h)
    by_cases hc : c.reader.complete = true
    · rw [if_pos hc]; exact CallStep.leave hpc hc
    · rw [if_neg hc]; exact CallStep.stay hpc (Bool.not_eq_true _ ▸ hc)
  · rename_i hpc
    obtain ⟨rfl, rfl⟩ := Prod.mk.inj (Option.some.inj h)
    by_cases ha : w.serialDataAvail = 0
    · rw [if_pos ha]; exact CallStep.nothing hpc ha
    · rw [if_neg ha]; exact CallStep.waiting hpc ha
  · rename_i hpc
    obtain ⟨⟨x, w1⟩, hg, hx⟩ := Option.map_eq_some_iff.mp h
    obtain ⟨rfl, rfl⟩ := Prod.mk.inj hx
    exact CallStep.serialGetchar x w1 hpc hg
  · exact absurd h (by simp)

/-- A step never turns a call into one for another service. -/
theorem CallStep.service {c c' : HandlingCall} {ok : Bool} {w w' : Wire}
    (h : CallStep c ok w c' w') :
    c'.service = c.service := by cases h <;> rfl

/-- A call that has returned takes no step. -/
theorem CallStep.not_returned {c c' : HandlingCall} {ok : Bool} {w w' : Wire}
    (h : CallStep c ok w c' w') (code : Int) : c.pc ≠ .returned code := by
  intro hr
  cases h with
  | opened pc hpc => rcases hpc with ⟨hpc, _⟩ | ⟨hpc, _⟩ <;> simp [hpc] at hr
  | serialPuts hpc => simp [hpc] at hr
  | leave hpc => simp [hpc] at hr
  | stay hpc => simp [hpc] at hr
  | nothing hpc => simp [hpc] at hr
  | waiting hpc => simp [hpc] at hr
  | serialGetchar x w' hpc => simp [hpc] at hr

/-- Only `serialPuts` sends, and it sends the whole command. -/
theorem CallStep.toMcu {c c' : HandlingCall} {ok : Bool} {w w' : Wire}
    (h : CallStep c ok w c' w') :
    w'.toMcu = if c.pc = .serialPuts then w.toMcu ++ frameOf c.service else w.toMcu := by
  cases h with
  | opened pc hpc => rcases hpc with ⟨hpc, _⟩ | ⟨hpc, _⟩ <;> simp [hpc]
  | serialPuts hpc => rw [if_pos hpc]
  | leave hpc => simp [hpc]
  | stay hpc => simp [hpc]
  | nothing hpc => simp [hpc]
  | waiting hpc => simp [hpc]
  | serialGetchar x w' hpc hg => simp [hpc, toMcu_serialGetchar hg]

end HandlingModule.Serial
