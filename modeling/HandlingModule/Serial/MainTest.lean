import HandlingModule.Serial.Waiting

/-!
# The bench program's copy (`mainTest.cpp`)

`mainTest.cpp` has a `handlingService` of its own, with which the hardware is tried.
Command and loops are those of `OpenService.cpp`, but the loops are entered with
other locals: the reply still holds the `"{}"` it was declared with, and `sw` has
never been given a value. A balanced reply is there before anything has been read.
-/

namespace HandlingModule.Serial

open Firmware Framing Polling

/--
What a copy of `handlingService` does once `serialOpen` and `wiringPiSetup` have
succeeded: the bytes it writes, and the bytes read and the value with which it returns.
-/
structure Served where
  written : List Byte
  returns : List Byte → Int → Prop

/-- A copy that enters the loops with these locals. -/
def served (entry : Reader) (service : Int) (answers : Nat → Option Byte) : Served where
  written := frameOf service
  returns heard code := code = 0 ∧ ∃ n, (waitLoop.run answers entry n).pc = .left
    ∧ (waitLoop.run answers entry n).heard = heard

/-- `handlingService` of `OpenService.cpp`, with `reply = ""` before the loops. -/
def OpenService.handlingService (service : Int) (answers : Nat → Option Byte) : Served :=
  served ⟨false, [], 0⟩ service answers

/-- `handlingService` of `mainTest.cpp`: `sw` holds whatever it holds, and `reply` is `"{}"`. -/
def MainTest.handlingService (sw : Bool) (service : Int) (answers : Nat → Option Byte) : Served :=
  served ⟨sw, [openBrace, closeBrace], 0⟩ service answers

/-- The same command, the same bytes consumed, the same value. -/
def Agree (a b : Served) : Prop :=
  a.written = b.written ∧ ∀ heard code, a.returns heard code ↔ b.returns heard code

/-! ## The copy that is modelled is the call -/

theorem Talk.trans {c₀ c c' : HandlingCall} {as bs : List (Option Byte)} (h : Talk c₀ as c)
    (h' : Talk c bs c') : Talk c₀ (as ++ bs) c' := by
  induction h' with
  | start => rw [List.append_nil]; exact h
  | snoc _ hst ih => rw [← List.append_assoc]; exact ih.snoc hst

/-- A call that has written its command. -/
def entered (service : Int) : HandlingCall :=
  { HandlingCall.start service with pc := .loop, opened := [true, true] }

theorem talk_entered (service : Int) : Talk (HandlingCall.start service) [] (entered service) := by
  have hopen : (HandlingCall.start service).step true (wireOf none)
      = some ({ HandlingCall.start service with pc := .wiringPiSetup, opened := [true] },
        wireOf none) := rfl
  have hsetup : ({ HandlingCall.start service with
        pc := .wiringPiSetup, opened := [true] } : HandlingCall).step true (wireOf none)
      = some ({ HandlingCall.start service with pc := .serialPuts, opened := [true, true] },
        wireOf none) := rfl
  have hputs : ({ HandlingCall.start service with
        pc := .serialPuts, opened := [true, true] } : HandlingCall).step true (wireOf none)
      = some (entered service, ⟨frameOf service, [], false⟩) := rfl
  exact ((Talk.start.snoc hopen).snoc hsetup).snoc hputs

/-- Where a call is before its command is written, or if it never gets that far. -/
def Before (service : Int) (c : HandlingCall) : Prop :=
  c = HandlingCall.start service
    ∨ c = { HandlingCall.start service with pc := .wiringPiSetup, opened := [true] }
    ∨ c = { HandlingCall.start service with pc := .serialPuts, opened := [true, true] }
    ∨ c.pc = .returned 1

theorem talk_start {service : Int} {answered : List (Option Byte)} {c : HandlingCall}
    (h : Talk (HandlingCall.start service) answered c) :
    answered = [] ∧ Before service c ∨ Talk (entered service) answered c := by
  induction h with
  | start => exact Or.inl ⟨rfl, Or.inl rfl⟩
  | @snoc answered c c' ok w w' _ hst ih =>
      rcases ih with ⟨rfl, hb⟩ | hin
      · rcases hb with rfl | rfl | rfl | hret
        · -- `serialOpen`
          obtain ⟨rfl, _⟩ := Prod.mk.inj (Option.some.inj hst)
          refine Or.inl ⟨rfl, ?_⟩
          cases ok with
          | true => exact Or.inr (Or.inl rfl)
          | false => exact Or.inr (Or.inr (Or.inr rfl))
        · -- `wiringPiSetup`
          obtain ⟨rfl, _⟩ := Prod.mk.inj (Option.some.inj hst)
          refine Or.inl ⟨rfl, ?_⟩
          cases ok with
          | true => exact Or.inr (Or.inr (Or.inl rfl))
          | false => exact Or.inr (Or.inr (Or.inr rfl))
        · -- `serialPuts`, after which the loops begin
          obtain ⟨rfl, _⟩ := Prod.mk.inj (Option.some.inj hst)
          exact Or.inr Talk.start
        · exact absurd hret ((callStep hst).not_returned 1)
      · exact Or.inr (hin.snoc hst)

/-- **The value and the bytes of the copy are those of a call.** -/
theorem handlingService_returns_iff (service : Int) (answers : Nat → Option Byte)
    (heard : List Byte) :
    (OpenService.handlingService service answers).returns heard 0
      ↔ ∃ answered c, Talk (HandlingCall.start service) answered c
        ∧ first answers answered.length = answered ∧ c.pc = .returned 0 ∧ c.heard = heard := by
  constructor
  · rintro ⟨_, n, hleft, hheard⟩
    have hentered : (entered service).pc = .loop := rfl
    obtain ⟨answered, c, htalk, ha, hf, _⟩ := exists_talk hentered rfl answers n
    have hreader : (entered service).reader = ⟨false, [], 0⟩ := rfl
    have hplace := hf.place
    rw [hreader, hleft] at hplace
    refine ⟨answered, c, (talk_entered service).trans htalk, ha, ?_, hf.heard.trans hheard⟩
    cases hpc : c.pc with
    | returned code => rw [hpc] at hplace; rw [hplace.1]
    | _ => rw [hpc] at hplace; simp [CallPc.At] at hplace
  · rintro ⟨answered, c, htalk, ha, hpc, hheard⟩
    rcases talk_start htalk with ⟨_, hb⟩ | hin
    · rcases hb with rfl | rfl | rfl | hret
      · simp [HandlingCall.start] at hpc
      · simp at hpc
      · simp at hpc
      · rw [hpc] at hret; simp at hret
    · obtain ⟨n, hf⟩ := talk_follows hin rfl rfl ha
      have hplace := hf.place
      rw [hpc] at hplace
      exact ⟨rfl, n, hplace.2, hf.heard.symm.trans hheard⟩

/-! ## The two copies -/

/-- The bench program's copy returns at its first test. -/
theorem mainTest_returns (sw : Bool) (service : Int) (answers : Nat → Option Byte) :
    (MainTest.handlingService sw service answers).returns [] 0 :=
  ⟨rfl, 1, by cases sw <;> rfl, by cases sw <;> rfl⟩

/-- The service's copy has read something when it returns. -/
theorem openService_reads {service : Int} {answers : Nat → Option Byte} {heard : List Byte}
    {code : Int} (h : (OpenService.handlingService service answers).returns heard code) :
    heard ≠ [] := by
  rintro rfl
  obtain ⟨_, n, hleft, hheard⟩ := h
  obtain ⟨bs, _, hbs, _, _, hd, _⟩ := of_left hleft
  rw [hheard] at hbs
  rw [← hbs] at hd
  exact absurd hd (by decide)

/--
**The copies never agree.** They write the same command, but whatever the port does,
the bench program returns before it has read a byte and the service does not.
-/
theorem copies_disagree (sw : Bool) (service : Int) (answers : Nat → Option Byte) :
    ¬ Agree (MainTest.handlingService sw service answers)
        (OpenService.handlingService service answers)
      ∧ (MainTest.handlingService sw service answers).written
        = (OpenService.handlingService service answers).written := by
  refine ⟨?_, rfl⟩
  intro ⟨_, hreturns⟩
  exact openService_reads ((hreturns [] 0).mp (mainTest_returns sw service answers)) rfl

/-- `OPEN`, answered with the `DONE` frame at once. -/
theorem not_agree_done :
    ¬ ∀ (sw : Bool) (service : Int) (answers : Nat → Option Byte),
      service = 0 ∨ service = 1 ∨ service = 2 →
      Agree (MainTest.handlingService sw service answers)
        (OpenService.handlingService service answers) := by
  intro hall
  obtain ⟨_, hreturns⟩ := hall false 0 (deliver [actionFinished]) (Or.inl rfl)
  exact openService_reads ((hreturns [] 0).mp (mainTest_returns _ _ _)) rfl

end HandlingModule.Serial
