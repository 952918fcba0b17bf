import HandlingModule.AIO.Json
import HandlingModule.Firmware.Streams
import HandlingModule.Lib.Recording
import HandlingModule.Serial.MainTest

/-!
# The toggle sequence (`mainTest.cpp`, `ToggleService.cpp`)

Two programs are to open and close the gripper a number of times, with a pause before
each move: `execute` of `mainTest.cpp`, with which the hardware is tried, and `execute`
of `ToggleService.cpp`, the same for the module. Each is modelled by what it asks for,
one `handlingService` or `delay` after the other. A call of `handlingService` is taken
to come back, and what it returns is not looked at.

`ToggleService.cpp` is in no build, and no compiler takes it as it stands. Its
`500(2-emotion+1)` is read as the product that `mainTest.cpp` has in the same place.
-/

namespace HandlingModule.AIO

open CInt Recording Firmware Framing Serial

namespace Toggle

/-- What the programs ask for. -/
inductive Action where
  | handlingService (service : Int32)
  | delay (howLong : UInt32)
  deriving DecidableEq

/-- Why a program does not come to its end. -/
inductive Fault where
  | overflow
  | thrown (e : Exn)

def handlingService (service : Int32) : Program Fault Action Unit :=
  perform (.handlingService service)

/-- `200+500*(2-emotion+1)` -/
def pause (emotion : Int32) : Option Int32 := do
  let n ← sub 2 emotion
  let n ← add n 1
  let n ← mul 500 n
  add 200 n

/-- `delay`, whose parameter is an `unsigned int`. -/
def delay : Option Int32 → Program Fault Action Unit
  | some howLong => perform (.delay howLong.toUInt32)
  | none => throw .overflow

/-- What follows the arguments in both programs. `service` is the call in the middle of a round. -/
def sequence (service repetitions emotion : Int32) : Program Fault Action Bool := do
  handlingService 1
  countUp 0 repetitions do
    delay (pause emotion)
    handlingService service
    delay (pause emotion)
    handlingService 1
  return true

/-- A conversion that may throw. -/
def lift {α : Type} : Except Exn α → Program Fault Action α
  | .ok a => pure a
  | .error e => throw (.thrown e)

end Toggle

open Toggle

/-- `execute` of `mainTest.cpp` -/
def MainTest.execute (repetitions emotion : Int32) : Program Fault Action Bool :=
  sequence 0 repetitions emotion

/-- `execute` of `ToggleService.cpp`. The call in the middle of a round is a 1 here. -/
def ToggleService.execute (params : Json) : Program Fault Action Bool := do
  let (repetitions, params) ← lift (params.index "REPETITIONS")
  let repetitions ← lift repetitions.toInt
  let (emotion, _) ← lift (params.index "EMOTIONAL_VALUE")
  let emotion ← lift emotion.toInt
  sequence 1 repetitions emotion

/-! ## What is asked for -/

namespace Toggle

/-- One round. -/
def oneRound (service : Int32) (howLong : UInt32) : List Action :=
  [.delay howLong, .handlingService service, .delay howLong, .handlingService 1]

/-- Close, and then `n` rounds. -/
def actions (service : Int32) (n : Nat) (howLong : UInt32) : List Action :=
  .handlingService 1 :: (List.replicate n (oneRound service howLong)).flatten

/-- What is picked from the rounds is what is picked from one, `n` times. -/
theorem filterMap_rounds {β : Type} (f : Action → Option β) (service : Int32) (n : Nat)
    (howLong : UInt32) :
    (List.replicate n (oneRound service howLong)).flatten.filterMap f
      = (List.replicate n ((oneRound service howLong).filterMap f)).flatten := by
  rw [List.filterMap_flatten, List.map_replicate]

/-- Without an overflow there are as many rounds as repetitions, and none for a negative number. -/
theorem sequence_returns (service repetitions : Int32) {emotion howLong : Int32}
    (h : pause emotion = some howLong) :
    Returns (sequence service repetitions emotion)
      (actions service repetitions.toNatClampNeg howLong.toUInt32) true := by
  have hdelay : Returns (delay (pause emotion)) [.delay howLong.toUInt32] () := by
    rw [h]
    exact returns_perform _
  have hbody : Returns (do
      delay (pause emotion)
      handlingService service
      delay (pause emotion)
      handlingService 1) (oneRound service howLong.toUInt32) () :=
    hdelay.bind ((returns_perform _).bind (hdelay.bind (returns_perform _)))
  have hrest := (hbody.countUp repetitions).bind (f := fun _ => pure true) (returns_pure true)
  rw [List.append_nil] at hrest
  exact (returns_perform _).bind hrest

/-- Without repetitions there is no pause, whatever the emotion is. -/
theorem sequence_returns_of_nonpos (service : Int32) {repetitions : Int32} (emotion : Int32)
    (hn : repetitions ≤ 0) :
    Returns (sequence service repetitions emotion) [.handlingService 1] true :=
  (returns_perform _).bind ((returns_countUp hn).bind (returns_pure true))

/-- An overflow comes before the first pause. -/
theorem sequence_stops (service : Int32) {repetitions emotion : Int32} (hn : 0 < repetitions)
    (h : pause emotion = none) :
    Stops (sequence service repetitions emotion) [.handlingService 1] .overflow := by
  have hdelay : Stops (delay (pause emotion)) [] .overflow := by
    rw [h]
    exact stops_throw _
  exact (returns_perform _).bind_stops (((hdelay.bind _).countUp hn).bind _)

/-! ## What the gripper does -/

/-- What an action writes to the port. -/
def Action.bytes : Action → List Byte
  | .handlingService service => frameOf service.toInt
  | .delay _ => []

/-- Every copy of `handlingService` writes the same for a service code. -/
theorem bytes_handlingService (service : Int32) (sw : Bool) (answers : Nat → Option Byte) :
    (Action.handlingService service).bytes
        = (MainTest.handlingService sw service.toInt answers).written
      ∧ (Action.handlingService service).bytes
        = (OpenService.handlingService service.toInt answers).written := ⟨rfl, rfl⟩

/-- The duty cycles the board gives the servo, if it receives what is written. -/
def gripper (as : List Action) : Option (List Rat) :=
  (receive powerUp (as.flatMap Action.bytes)).map fun (_, calls) =>
    calls.flatMap fun call => servoMoves call.effects

/-- Where `OPEN` sends the servo. -/
def opened : Rat := duty (6 / 100)

/-- Where `CLOSE` sends it. -/
def closed : Rat := duty (9 / 100)

theorem opened_ne_closed : opened ≠ closed := by decide +kernel

/-- The frames among some actions. -/
def frames (as : List Action) : List (List Byte) :=
  as.filterMap fun
    | .handlingService service => some (frameOf service.toInt)
    | .delay _ => none

theorem flatMap_bytes (as : List Action) : as.flatMap Action.bytes = (frames as).flatten := by
  induction as with
  | nil => rfl
  | cons a as ih =>
      cases a with
      | handlingService service =>
          rw [List.flatMap_cons, ih]
          rfl
      | delay howLong => exact ih

/-- What is written is frames, and the board acts on each of them. -/
theorem gripper_eq {as : List Action} (h : ∀ f ∈ frames as, f ∈ commands) :
    gripper as = some ((frames as).flatMap fun f => servoMoves (answer f)) := by
  have hframed : Framed braces (frames as).flatten (frames as) :=
    framed_flatten _ (fun f hf => (commands_isFrame (h f hf)).1)
  have hfits : Fits [] (frames as).flatten :=
    fits_framed hframed (fun f hf => (commands_isFrame (h f hf)).2)
  obtain ⟨m, hrec, _⟩ := receive_fits holds_powerUp hfits
  rw [scan_framed _ hframed] at hrec
  rw [gripper, flatMap_bytes, hrec]
  exact congrArg some (List.flatMap_map _ _ _)

theorem servoMoves_openCommand : servoMoves (answer openCommand) = [opened] :=
  congrArg (opened :: ·) (servoMoves_uartSend _)

theorem servoMoves_closeCommand : servoMoves (answer closeCommand) = [closed] := by
  rw [answer, if_neg (by decide), if_pos rfl]
  exact congrArg (closed :: ·) (servoMoves_uartSend _)

theorem frames_actions (service : Int32) (n : Nat) (howLong : UInt32) :
    frames (actions service n howLong)
      = closeCommand :: (List.replicate n [frameOf service.toInt, closeCommand]).flatten := by
  have hrounds : frames (List.replicate n (oneRound service howLong)).flatten
      = (List.replicate n [frameOf service.toInt, closeCommand]).flatten :=
    filterMap_rounds _ service n howLong
  exact congrArg (closeCommand :: ·) hrounds

/-- Closed first, and then what the call in the middle does and closed, for each round. -/
theorem gripper_actions {service : Int32} (hs : frameOf service.toInt ∈ commands) (n : Nat)
    (howLong : UInt32) :
    gripper (actions service n howLong) = some (closed ::
      (List.replicate n (servoMoves (answer (frameOf service.toInt)) ++ [closed])).flatten) := by
  have hclose : closeCommand ∈ commands := by simp [commands]
  have hframes := frames_actions service n howLong
  have hall : ∀ f ∈ frames (actions service n howLong), f ∈ commands := by
    intro f hf
    rw [hframes] at hf
    rcases List.mem_cons.mp hf with rfl | hf
    · exact hclose
    · obtain ⟨r, hr, hf⟩ := List.mem_flatten.mp hf
      rw [List.eq_of_mem_replicate hr] at hf
      rcases List.mem_cons.mp hf with rfl | hf
      · exact hs
      · rw [List.mem_singleton.mp hf]
        exact hclose
  have hround : [frameOf service.toInt, closeCommand].flatMap (fun f => servoMoves (answer f))
      = servoMoves (answer (frameOf service.toInt)) ++ [closed] := by
    rw [List.flatMap_cons, List.flatMap_singleton, servoMoves_closeCommand]
  rw [gripper_eq hall, hframes, List.flatMap_cons, servoMoves_closeCommand, List.flatten_eq_flatMap,
    List.flatMap_assoc, List.flatMap_replicate]
  exact congrArg (fun r => some (closed :: (List.replicate n r).flatten)) hround

end Toggle

/-! ## The two programs -/

/-- A toggle: its sequence, and a gripper that opens and closes and ends closed. -/
structure Toggles (repetitions : Nat) (as : List Action) : Prop where
  sequence : ∃ howLong, as = actions 0 repetitions howLong
  gripper : gripper as = some (closed :: (List.replicate repetitions [opened, closed]).flatten)

/-- The service does what the bench program does, and this is a toggle. -/
def SameToggle (params : Json) (repetitions emotion : Int32) : Prop :=
  ∃ as, (ToggleService.execute params).run [] = .ok true as
    ∧ (MainTest.execute repetitions emotion).run [] = .ok true as
    ∧ Toggles repetitions.toNatClampNeg as

theorem toggles_actions (n : Nat) (howLong : UInt32) : Toggles n (actions 0 n howLong) where
  sequence := ⟨howLong, rfl⟩
  gripper := by
    have h0 : frameOf (0 : Int32).toInt = openCommand := rfl
    rw [gripper_actions (by rw [h0]; simp [commands]), h0, servoMoves_openCommand]
    rfl

/-- **The bench program toggles.** -/
theorem mainTest_toggles (repetitions : Int32) {emotion howLong : Int32}
    (h : pause emotion = some howLong) :
    ∃ as, (MainTest.execute repetitions emotion).run [] = .ok true as
      ∧ Toggles repetitions.toNatClampNeg as :=
  ⟨_, sequence_returns 0 repetitions h [], toggles_actions _ _⟩

/-! ## The service -/

theorem Json.ne_null_of_toInt {j : Json} {n : Int32} (h : j.toInt = .ok n) : j ≠ .null := by
  rintro rfl
  exact absurd h (by simp [Json.toInt])

/-- The first `operator[]` may add a member, and changes none that the second looks for. -/
theorem toggleService_members {params : Json} (hx : params.Indexable) :
    ToggleService.execute params = (do
      let repetitions ← lift (params.member "REPETITIONS").toInt
      let emotion ← lift (params.member "EMOTIONAL_VALUE").toInt
      sequence 1 repetitions emotion) := by
  obtain ⟨v, params', h1⟩ : ∃ v j, params.index "REPETITIONS" = .ok (v, j) :=
    Json.index_isOk.mpr hx
  obtain ⟨rfl, ⟨members, hobj⟩, hm⟩ := Json.index_spec h1
  obtain ⟨v, params'', h2⟩ : ∃ v j, params'.index "EMOTIONAL_VALUE" = .ok (v, j) :=
    Json.index_isOk.mpr (by rw [hobj]; trivial)
  obtain ⟨rfl, _, _⟩ := Json.index_spec h2
  unfold ToggleService.execute
  rw [h1]
  show (do
    let repetitions ← lift (params.member "REPETITIONS").toInt
    let (emotion, _) ← lift (params'.index "EMOTIONAL_VALUE")
    let emotion ← lift emotion.toInt
    sequence 1 repetitions emotion) = _
  rw [h2, hm]
  rfl

/-- With both numbers in the request only the service code of the middle call is another. -/
theorem toggleService_eq {params : Json} {repetitions emotion : Int32}
    (hr : (params.member "REPETITIONS").toInt = .ok repetitions)
    (he : (params.member "EMOTIONAL_VALUE").toInt = .ok emotion) :
    ToggleService.execute params = sequence 1 repetitions emotion := by
  have hx := Json.indexable_of_member rfl (Json.ne_null_of_toInt hr)
  rw [toggleService_members hx, hr, he]
  rfl

/-- Otherwise it throws, and has done nothing. -/
theorem toggleService_stops {params : Json}
    (h : ¬ ∃ repetitions emotion, (params.member "REPETITIONS").toInt = .ok repetitions
      ∧ (params.member "EMOTIONAL_VALUE").toInt = .ok emotion) :
    ∃ e, Stops (ToggleService.execute params) [] (.thrown e) := by
  cases h1 : params.index "REPETITIONS" with
  | error e =>
      unfold ToggleService.execute
      rw [h1]
      exact ⟨e, (stops_throw _).bind _⟩
  | ok p =>
      rw [toggleService_members (Json.index_isOk.mp ⟨_, _, h1⟩)]
      cases hr : (params.member "REPETITIONS").toInt with
      | error e => exact ⟨e, (stops_throw _).bind _⟩
      | ok repetitions =>
          cases he : (params.member "EMOTIONAL_VALUE").toInt with
          | error e => exact ⟨e, (returns_pure _).bind_stops ((stops_throw _).bind _)⟩
          | ok emotion => exact absurd ⟨repetitions, emotion, hr, he⟩ h

/-- What the service has asked for when it comes to its end. -/
theorem toggleService_actions {params : Json} {as : List Action} {b : Bool}
    (h : (ToggleService.execute params).run [] = .ok b as) :
    ∃ repetitions emotion, (params.member "REPETITIONS").toInt = .ok repetitions
      ∧ (params.member "EMOTIONAL_VALUE").toInt = .ok emotion
      ∧ ∃ howLong, as = actions 1 repetitions.toNatClampNeg howLong := by
  by_cases hargs : ∃ repetitions emotion, (params.member "REPETITIONS").toInt = .ok repetitions
      ∧ (params.member "EMOTIONAL_VALUE").toInt = .ok emotion
  · obtain ⟨repetitions, emotion, hr, he⟩ := hargs
    refine ⟨repetitions, emotion, hr, he, ?_⟩
    rw [toggleService_eq hr he] at h
    by_cases hn : repetitions ≤ 0
    · refine ⟨0, ((sequence_returns_of_nonpos 1 emotion hn).eq h).1.trans ?_⟩
      rw [Int32.toNatClampNeg_eq_zero_iff.mpr hn]
      rfl
    · cases hp : pause emotion with
      | none => exact absurd h (sequence_stops 1 (Int32.not_le.mp hn) hp).not_returns
      | some howLong => exact ⟨_, ((sequence_returns 1 repetitions hp).eq h).1⟩
  · obtain ⟨e, hstops⟩ := toggleService_stops hargs
    exact absurd h hstops.not_returns

/-- **The service never opens the gripper**, whatever the request says. -/
theorem toggleService_closed {params : Json} {as : List Action} {b : Bool}
    (h : (ToggleService.execute params).run [] = .ok b as) :
    ∃ moves, gripper as = some moves ∧ opened ∉ moves := by
  obtain ⟨repetitions, _, _, _, howLong, rfl⟩ := toggleService_actions h
  have h1 : frameOf (1 : Int32).toInt = closeCommand := rfl
  have hclose : closeCommand ∈ commands := by simp [commands]
  refine ⟨_, gripper_actions (by rw [h1]; exact hclose) _ _, ?_⟩
  rw [h1, servoMoves_closeCommand]
  intro hmem
  rcases List.mem_cons.mp hmem with heq | hmem
  · exact opened_ne_closed heq
  · obtain ⟨r, hr, hmem⟩ := List.mem_flatten.mp hmem
    rw [List.eq_of_mem_replicate hr] at hmem
    have htwo : [closed] ++ [closed] = List.replicate 2 closed := rfl
    rw [htwo] at hmem
    exact opened_ne_closed (List.eq_of_mem_replicate hmem)

/-- One round shows which service is called in the middle. -/
theorem actions_inj {service service' : Int32} {n : Nat} {howLong howLong' : UInt32}
    (h : actions service (n + 1) howLong = actions service' (n + 1) howLong') :
    service = service' := by
  rw [actions, actions, List.replicate_succ, List.replicate_succ, List.flatten_cons,
    List.flatten_cons, oneRound, oneRound] at h
  exact Action.handlingService.inj (List.cons.inj (List.cons.inj (List.cons.inj h).2).2).1

theorem SameToggle.nonpos {params : Json} {repetitions emotion : Int32}
    (h : SameToggle params repetitions emotion)
    (hr : (params.member "REPETITIONS").toInt = .ok repetitions) : repetitions ≤ 0 := by
  by_contra hn
  obtain ⟨as, hservice, _, ⟨howLong, hseq⟩, _⟩ := h
  obtain ⟨repetitions', _, hr', _, howLong', hs⟩ := toggleService_actions hservice
  rw [← Except.ok.inj (hr.symm.trans hr'), hseq] at hs
  obtain ⟨k, hk⟩ := Nat.exists_eq_add_one.mpr
    ((Int32.toNatClampNeg_pos_iff repetitions).mpr (Int32.not_le.mp hn))
  rw [hk] at hs
  exact absurd (actions_inj hs) (by decide)

/--
**When the service toggles as the bench program does.** Only when there is nothing to
repeat: the middle call of its first round is already another.
-/
theorem sameToggle_iff {params : Json} {repetitions emotion : Int32}
    (hr : (params.member "REPETITIONS").toInt = .ok repetitions)
    (he : (params.member "EMOTIONAL_VALUE").toInt = .ok emotion) :
    SameToggle params repetitions emotion ↔ repetitions ≤ 0 := by
  constructor
  · intro h
    exact h.nonpos hr
  · intro hn
    refine ⟨[.handlingService 1], ?_, sequence_returns_of_nonpos 0 emotion hn [], ?_⟩
    · rw [toggleService_eq hr he]
      exact sequence_returns_of_nonpos 1 emotion hn []
    · rw [Int32.toNatClampNeg_eq_zero_iff.mpr hn]
      exact toggles_actions 0 0

/-- What `main` of the bench program asks for, as a request. -/
def benchParams : Json :=
  .object [("REPETITIONS", .unsigned 5), ("EMOTIONAL_VALUE", .integer (-1))]

/-- Nothing to repeat. -/
def noRepetitions : Json :=
  .object [("REPETITIONS", .unsigned 0), ("EMOTIONAL_VALUE", .integer (-1))]

theorem sameToggle_iff_bench :
    (SameToggle benchParams 5 (-1) ↔ (5 : Int32) ≤ 0) ∧ SameToggle noRepetitions 0 (-1) :=
  ⟨sameToggle_iff rfl rfl, (sameToggle_iff rfl rfl).mpr (Int32.le_refl 0)⟩

/-- `execute(5,-1)`: five rounds of the bench program, and none of them opens in the service. -/
theorem not_sameToggle_bench :
    ¬ ∀ (params : Json) (repetitions emotion : Int32),
      (params.member "REPETITIONS").toInt = .ok repetitions →
      (params.member "EMOTIONAL_VALUE").toInt = .ok emotion →
      0 ≤ 200 + 500 * (3 - emotion.toInt) → SameToggle params repetitions emotion := by
  intro hall
  have hpause : 0 ≤ 200 + 500 * (3 - (-1 : Int32).toInt) := by decide
  have h := (hall benchParams 5 (-1) rfl rfl hpause).nonpos rfl
  exact absurd h (by decide)

end HandlingModule.AIO
