import HandlingModule.Lib.Binary
import HandlingModule.Lib.CString
import HandlingModule.Lib.Framing

/-!
# The microcontroller's program (`handling-module-MSP430G2553/main.c`)

The program is one interrupt handler. `usci0RxIsr` takes one received byte; when
the byte closes a command it calls `messageProcessing`, which moves the servo and
answers over the same UART. `receive` is the handler run on a whole byte stream.

A store outside `LineBuffer` is undefined behaviour, so the handler has no result
there: `none`. The busy loops on `UCA0TXIFG`, `UCBUSY` and CTS are taken to end,
and `__delay_cycles` only takes time; neither appears.
-/

namespace HandlingModule.Firmware

open CString Binary

abbrev Byte := UInt8

/-- `'{'` -/
def openBrace : Byte := 123

/-- `'}'` -/
def closeBrace : Byte := 125

/-- The brackets of a command and of a reply. -/
def braces : Framing.Brackets Byte := ⟨openBrace, closeBrace, by decide⟩

/-! ## The texts the program compares with and sends -/

def openCommand : List Byte := bytes "\x7b\"COMMAND\":\"OPEN\"\x7d"
def closeCommand : List Byte := bytes "\x7b\"COMMAND\":\"CLOSE\"\x7d"
def toggleCommand : List Byte := bytes "\x7b\"COMMAND\":\"TOGGLE\"\x7d"

def actionFinished : List Byte :=
  bytes "\x7b\"EVENT_NAME\":\"ACTION_FINISHED\",\"STATUS\":\"DONE\"\x7d"
def errorReply : List Byte := bytes "\x7bERROR\x7d"
def toggleText : List Byte := bytes "ENTROOOOOO-> TOGGLE"

/-! ## The servo -/

/-- What the program does to the world outside, in order. -/
inductive Effect where
  | moveServo (periodo dutyCycle : Rat)
  | transmit (byte : Byte)
  deriving DecidableEq

/-- `float periodo_=20000` -/
def periodo_ : Rat := float 20000

/-- A decimal constant of the source passed as a `float`. -/
def duty (q : Rat) : Rat := float (double q)

/-- `moveServo`: the value `TA1CCR1 = periodo*(1-dutyCycle)` gets, an unsigned 16 bit register. -/
def moveServo (periodo dutyCycle : Rat) : Nat :=
  (float (periodo * float (1 - dutyCycle))).floor.toNat % 2 ^ 16

/-- `for(j=0.09;j>=0.06;j)`: the positions it passes. The comparison and the step are in `double`. -/
def sweepDown : Nat → Rat → Option (List Effect)
  | 0, _ => none
  | fuel + 1, j =>
      if double (6 / 100) ≤ j then
        (sweepDown fuel (float (double (j - double (1 / 100))))).map (Effect.moveServo periodo_ j :: ·)
      else some []

/-- `for(j=0.06;j<=0.09;j)` -/
def sweepUp : Nat → Rat → Option (List Effect)
  | 0, _ => none
  | fuel + 1, j =>
      if j ≤ double (9 / 100) then
        (sweepUp fuel (float (double (j + double (1 / 100))))).map (Effect.moveServo periodo_ j :: ·)
      else some []

/-- More rounds than either sweep makes. -/
def sweepFuel : Nat := 8

/-! ## Answering a command -/

/-- `uartSend`: every byte up to the terminator. -/
def uartSend (string : List Byte) : List Effect := (untilNul string).map Effect.transmit

/-- The third branch of `messageProcessing`. -/
def toggle : Option (List Effect) := do
  let down ← sweepDown sweepFuel (duty (9 / 100))
  let up ← sweepUp sweepFuel (duty (6 / 100))
  return uartSend (literal toggleText)
    ++ [Effect.moveServo periodo_ (duty (9 / 100))] ++ down ++ up
    ++ uartSend (literal actionFinished)

/-- `messageProcessing`. The length is passed and not read. -/
def messageProcessing (string : List Byte) (_length : Nat) : Option (List Effect) := do
  if (← strcmp string (literal openCommand)) = 0 then
    return Effect.moveServo periodo_ (duty (6 / 100)) :: uartSend (literal actionFinished)
  else if (← strcmp string (literal closeCommand)) = 0 then
    return Effect.moveServo periodo_ (duty (9 / 100)) :: uartSend (literal actionFinished)
  else if (← strcmp string (literal toggleCommand)) = 0 then
    toggle
  else
    return uartSend (literal errorReply)

/-! ## Receiving -/

/-- `sizeof LineBuffer` -/
def lineBufferSize : Nat := 200

/-- `++` on an `unsigned int`, 16 bits wide on this controller. -/
def inc16 (n : Nat) : Nat := (n + 1) % 2 ^ 16

/-- `--` on an `unsigned int`: zero wraps to the largest value. -/
def dec16 (n : Nat) : Nat := (n + (2 ^ 16 - 1)) % 2 ^ 16

theorem inc16_of_lt {n : Nat} (h : n + 1 < 2 ^ 16) : inc16 n = n + 1 := Nat.mod_eq_of_lt h

theorem dec16_of_pos {n : Nat} (h : 0 < n) (hn : n < 2 ^ 16) : dec16 n = n - 1 := by
  unfold dec16; omega

/-- The globals of the receiver. -/
structure Mcu where
  lineBuffer : Vector Byte lineBufferSize
  bufferlength : Nat
  bracketsCount : Nat

/-- The state `main` leaves the receiver in. -/
def powerUp : Mcu := ⟨Vector.replicate lineBufferSize 0, 0, 0⟩

/-- A call of `messageProcessing`: its arguments and what it did. -/
structure Call where
  string : List Byte
  length : Nat
  effects : List Effect

/-- `LineBuffer[bufferlength]=dato; bufferlength++` -/
def Mcu.store (m : Mcu) (dato : Byte) : Option Mcu :=
  if h : m.bufferlength < lineBufferSize then
    some { m with
      lineBuffer := m.lineBuffer.set m.bufferlength dato h
      bufferlength := inc16 m.bufferlength }
  else none

/-- `USCI0RX_ISR`, with `dato` in `UCA0RXBUF`. -/
def usci0RxIsr (m : Mcu) (dato : Byte) : Option (Mcu × Option Call) :=
  if dato = openBrace then do
    let m ← m.store dato
    return ({ m with bracketsCount := inc16 m.bracketsCount }, none)
  else if 0 < m.bufferlength then do
    let m ← m.store dato
    if dato = closeBrace then
      if dec16 m.bracketsCount = 0 then
        let effects ← messageProcessing m.lineBuffer.toList m.bufferlength
        -- the `memset` and the two assignments after the call
        return (⟨Vector.replicate lineBufferSize 0, 0, 0⟩,
          some ⟨m.lineBuffer.toList, m.bufferlength, effects⟩)
      else return ({ m with bracketsCount := dec16 m.bracketsCount }, none)
    else return (m, none)
  else some (m, none)

/-- The handler run once for each byte of a stream, with the calls it made. -/
def receive : Mcu → List Byte → Option (Mcu × List Call)
  | m, [] => some (m, [])
  | m, dato :: rest => do
      let (m, call) ← usci0RxIsr m dato
      let (m, calls) ← receive m rest
      return (m, call.toList ++ calls)

/-! ## What a call says and does -/

/-- The bytes among some effects, in the order they leave the UART. -/
def transmitted (effects : List Effect) : List Byte :=
  effects.filterMap fun
    | .transmit byte => some byte
    | .moveServo _ _ => none

/-- The duty cycles of the `moveServo` calls among some effects. -/
def servoMoves (effects : List Effect) : List Rat :=
  effects.filterMap fun
    | .transmit _ => none
    | .moveServo _ dutyCycle => some dutyCycle

end HandlingModule.Firmware
