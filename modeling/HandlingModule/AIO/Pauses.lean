import HandlingModule.AIO.Toggle

/-!
# The pauses of a toggle sequence

The length of a pause is computed as an `int` from the emotion and passed to `delay` as
an `unsigned int`. Far below zero the emotion makes the `int` overflow; from 4 on the
result is negative, and the conversion makes weeks of it. Between the two it is what
the source writes, and gets shorter as the emotion grows.
-/

namespace HandlingModule.AIO

open CInt Recording Toggle

/-- `200+500*(2-emotion+1)`, in the integers. -/
def pauseValue (emotion : Int) : Int := 200 + 500 * (2 - emotion + 1)

/-! ## Computing it -/

theorem pause_eq_some_iff {emotion howLong : Int32} :
    pause emotion = some howLong
      ↔ (-4294963 ≤ emotion.toInt ∧ emotion.toInt ≤ 4294970)
        ∧ howLong.toInt = pauseValue emotion.toInt := by
  have h1 : (1 : Int32).toInt = 1 := rfl
  have h2 : (2 : Int32).toInt = 2 := rfl
  have h200 : (200 : Int32).toInt = 200 := rfl
  have h500 : (500 : Int32).toInt = 500 := rfl
  simp only [pause, Option.bind_eq_bind, Option.bind_eq_some_iff, sub_eq_some_iff, add_eq_some_iff,
    mul_eq_some_iff, h1, h2, h200, h500]
  unfold pauseValue
  constructor
  · rintro ⟨a, ha, b, hb, c, hc, hv⟩
    have hrange := inRange_toInt howLong
    have hrangec := inRange_toInt c
    unfold InRange at hrange hrangec
    omega
  · rintro ⟨⟨hlo, hhi⟩, hv⟩
    -- nothing overflows on the way
    obtain ⟨a, ha⟩ : ∃ a : Int32, a.toInt = 2 - emotion.toInt :=
      exists_toInt (by unfold InRange; omega)
    obtain ⟨b, hb⟩ : ∃ b : Int32, b.toInt = a.toInt + 1 := exists_toInt (by unfold InRange; omega)
    obtain ⟨c, hc⟩ : ∃ c : Int32, c.toInt = 500 * b.toInt := exists_toInt (by unfold InRange; omega)
    exact ⟨a, ha, b, hb, c, hc, by omega⟩

/-- Where it overflows. -/
theorem pause_eq_none_iff {emotion : Int32} :
    pause emotion = none ↔ ¬ (-4294963 ≤ emotion.toInt ∧ emotion.toInt ≤ 4294970) := by
  constructor
  · intro h hrange
    obtain ⟨howLong, hv⟩ : ∃ v : Int32, v.toInt = pauseValue emotion.toInt :=
      exists_toInt (by unfold InRange pauseValue; omega)
    rw [pause_eq_some_iff.mpr ⟨hrange, hv⟩] at h
    exact absurd h (by simp)
  · intro h
    rw [Option.eq_none_iff_forall_not_mem]
    intro howLong hp
    exact h (pause_eq_some_iff.mp hp).1

/-- The unsigned length is the number that was meant, as long as that is not negative. -/
theorem pause_exact_iff {emotion howLong : Int32} (h : pause emotion = some howLong) :
    (howLong.toUInt32.toNat : Int) = pauseValue emotion.toInt ↔ emotion.toInt ≤ 3 := by
  obtain ⟨_, hv⟩ := pause_eq_some_iff.mp h
  rw [← hv]
  unfold pauseValue at hv
  constructor
  · intro heq
    have := Int.natCast_nonneg howLong.toUInt32.toNat
    omega
  · intro hle
    exact toNat_toUInt32 (by omega)

/-- A larger emotion makes the pause longer only where the number becomes negative. -/
theorem pause_le_iff {emotion emotion' howLong howLong' : Int32} (h : pause emotion = some howLong)
    (h' : pause emotion' = some howLong') (hle : emotion.toInt ≤ emotion'.toInt) :
    howLong'.toUInt32 ≤ howLong.toUInt32 ↔ (emotion.toInt ≤ 3 → emotion'.toInt ≤ 3) := by
  obtain ⟨_, hv⟩ := pause_eq_some_iff.mp h
  obtain ⟨_, hv'⟩ := pause_eq_some_iff.mp h'
  unfold pauseValue at hv hv'
  rw [toUInt32_le_iff (by omega)]
  omega

/-! ## In a sequence -/

/-- The lengths of the pauses among some actions. -/
def pauses (as : List Action) : List UInt32 :=
  as.filterMap fun
    | .delay howLong => some howLong
    | .handlingService _ => none

/-- Two in every round, and all the same. -/
theorem pauses_actions (service : Int32) (n : Nat) (howLong : UInt32) :
    pauses (actions service n howLong) = List.replicate (n * 2) howLong := by
  have hrounds : pauses (List.replicate n (oneRound service howLong)).flatten
      = (List.replicate n (List.replicate 2 howLong)).flatten :=
    filterMap_rounds _ service n howLong
  rw [List.flatten_replicate_replicate] at hrounds
  exact hrounds

/-- Every pause of the bench program has the length the source writes, and there are two a round. -/
def PausesInRange (repetitions emotion : Int32) : Prop :=
  ∃ as, (MainTest.execute repetitions emotion).run [] = .ok true as
    ∧ (pauses as).length = 2 * repetitions.toNatClampNeg
    ∧ ∀ p ∈ pauses as, (p.toNat : Int) = pauseValue emotion.toInt

/-- No pause with the second arguments is longer than one with the first. -/
def NoLonger (repetitions emotion repetitions' emotion' : Int32) : Prop :=
  ∀ as as', (MainTest.execute repetitions emotion).run [] = .ok true as →
    (MainTest.execute repetitions' emotion').run [] = .ok true as' →
    ∀ p ∈ pauses as, ∀ p' ∈ pauses as', p' ≤ p

/-- The pauses of a program that comes to its end. -/
theorem sequence_pauses {service repetitions emotion : Int32} {as : List Action} {b : Bool}
    (h : (sequence service repetitions emotion).run [] = .ok b as) :
    repetitions ≤ 0 ∧ pauses as = []
      ∨ 0 < repetitions ∧ ∃ howLong, pause emotion = some howLong
        ∧ pauses as = List.replicate (repetitions.toNatClampNeg * 2) howLong.toUInt32 := by
  by_cases hn : repetitions ≤ 0
  · refine Or.inl ⟨hn, ?_⟩
    rw [((sequence_returns_of_nonpos service emotion hn).eq h).1]
    rfl
  · have hpos := Int32.not_le.mp hn
    refine Or.inr ⟨hpos, ?_⟩
    cases hp : pause emotion with
    | none => exact absurd h (sequence_stops service hpos hp).not_returns
    | some howLong =>
        refine ⟨howLong, rfl, ?_⟩
        rw [((sequence_returns service repetitions hp).eq h).1, pauses_actions]

/-- The service makes the same pauses. -/
theorem toggleService_pauses {params : Json} {repetitions emotion : Int32} {as as' : List Action}
    {b b' : Bool} (hr : (params.member "REPETITIONS").toInt = .ok repetitions)
    (he : (params.member "EMOTIONAL_VALUE").toInt = .ok emotion)
    (h : (ToggleService.execute params).run [] = .ok b as)
    (h' : (MainTest.execute repetitions emotion).run [] = .ok b' as') : pauses as = pauses as' := by
  rw [toggleService_eq hr he] at h
  rcases sequence_pauses h with ⟨hn, hnil⟩ | ⟨hn, howLong, hp, hpauses⟩
  · rcases sequence_pauses h' with ⟨_, hnil'⟩ | ⟨hn', _⟩
    · rw [hnil, hnil']
    · exact absurd hn' (Int32.not_lt.mpr hn)
  · rcases sequence_pauses h' with ⟨hn', _⟩ | ⟨_, howLong', hp', hpauses'⟩
    · exact absurd hn (Int32.not_lt.mpr hn')
    · rw [hpauses, hpauses', Option.some.inj (hp.symm.trans hp')]

/-- Without a pause nothing can go wrong with one. -/
theorem pausesInRange_of_nonpos {repetitions : Int32} (emotion : Int32) (hn : repetitions ≤ 0) :
    PausesInRange repetitions emotion := by
  refine ⟨_, sequence_returns_of_nonpos 0 emotion hn [], ?_, ?_⟩
  · rw [Int32.toNatClampNeg_eq_zero_iff.mpr hn]
    rfl
  · intro p hp
    exact absurd hp List.not_mem_nil

theorem pausesInRange_of_pos {repetitions emotion : Int32} (hn : 0 < repetitions) :
    PausesInRange repetitions emotion ↔ -4294963 ≤ emotion.toInt ∧ emotion.toInt ≤ 3 := by
  constructor
  · rintro ⟨as, hrun, _, hall⟩
    rcases sequence_pauses hrun with ⟨hle, _⟩ | ⟨_, howLong, hp, hpauses⟩
    · exact absurd hn (Int32.not_lt.mpr hle)
    · have hmem : howLong.toUInt32 ∈ pauses as := by
        rw [hpauses]
        have := (Int32.toNatClampNeg_pos_iff repetitions).mpr hn
        exact List.mem_replicate.mpr ⟨by omega, rfl⟩
      exact ⟨(pause_eq_some_iff.mp hp).1.1, (pause_exact_iff hp).mp (hall _ hmem)⟩
  · rintro ⟨hlo, hhi⟩
    cases hp : pause emotion with
    | none => exact absurd ⟨hlo, by omega⟩ (pause_eq_none_iff.mp hp)
    | some howLong =>
        refine ⟨_, sequence_returns 0 repetitions hp [], ?_, ?_⟩
        · rw [List.nil_append, pauses_actions, List.length_replicate, Nat.mul_comm]
        · intro p hmem
          rw [List.nil_append, pauses_actions] at hmem
          rw [List.eq_of_mem_replicate hmem]
          exact (pause_exact_iff hp).mpr hhi

/-- Only from 3 to 4 does a pause get longer. -/
theorem noLonger_iff {repetitions emotion repetitions' emotion' howLong howLong' : Int32}
    (hn : 0 < repetitions) (hn' : 0 < repetitions') (hle : emotion ≤ emotion')
    (h : pause emotion = some howLong) (h' : pause emotion' = some howLong') :
    NoLonger repetitions emotion repetitions' emotion' ↔ (emotion.toInt ≤ 3 → emotion'.toInt ≤ 3) := by
  rw [← pause_le_iff h h' (Int32.le_iff_toInt_le.mp hle)]
  constructor
  · intro hall
    have hpos := (Int32.toNatClampNeg_pos_iff repetitions).mpr hn
    have hpos' := (Int32.toNatClampNeg_pos_iff repetitions').mpr hn'
    refine hall _ _ (sequence_returns 0 repetitions h []) (sequence_returns 0 repetitions' h' [])
      _ ?_ _ ?_
    · rw [List.nil_append, pauses_actions]
      exact List.mem_replicate.mpr ⟨by omega, rfl⟩
    · rw [List.nil_append, pauses_actions]
      exact List.mem_replicate.mpr ⟨by omega, rfl⟩
  · intro hlonger as as' hrun hrun' p hp p' hp'
    rw [((sequence_returns 0 repetitions h).eq hrun).1, pauses_actions] at hp
    rw [((sequence_returns 0 repetitions' h').eq hrun').1, pauses_actions] at hp'
    rw [List.eq_of_mem_replicate hp, List.eq_of_mem_replicate hp']
    exact hlonger

/-- A larger emotion whose pauses are in range makes none longer. -/
theorem PausesInRange.noLonger {repetitions emotion repetitions' emotion' : Int32}
    (h : PausesInRange repetitions' emotion') (hle : emotion ≤ emotion') :
    NoLonger repetitions emotion repetitions' emotion' := by
  intro as as' hrun hrun'
  rcases sequence_pauses hrun with ⟨_, hnil⟩ | ⟨hn, howLong, hp, _⟩
  · rw [hnil]
    intro p hmem
    exact absurd hmem List.not_mem_nil
  · rcases sequence_pauses hrun' with ⟨_, hnil'⟩ | ⟨hn', howLong', hp', _⟩
    · rw [hnil']
      intro p _ p' hmem'
      exact absurd hmem' List.not_mem_nil
    · have hhi := ((pausesInRange_of_pos hn').mp h).2
      exact (noLonger_iff hn hn' hle hp hp').mpr (fun _ => hhi) as as' hrun hrun'

/-- What is asked of the pauses: in range, and none longer than with a smaller emotion. -/
structure Timely (repetitions emotion : Int32) : Prop where
  inRange : PausesInRange repetitions emotion
  noLonger : ∀ repetitions' emotion' : Int32, emotion' ≤ emotion →
    NoLonger repetitions' emotion' repetitions emotion

/--
**For which arguments the pauses are what the source writes.** For an emotion in a
range that is bounded by the overflow below and by the sign above, or without a pause.
-/
theorem timely_iff (repetitions emotion : Int32) :
    Timely repetitions emotion
      ↔ repetitions ≤ 0 ∨ -4294963 ≤ emotion ∧ emotion ≤ 3 := by
  have hinRange : PausesInRange repetitions emotion
      ↔ repetitions ≤ 0 ∨ -4294963 ≤ emotion ∧ emotion ≤ 3 := by
    by_cases hn : repetitions ≤ 0
    · exact iff_of_true (pausesInRange_of_nonpos emotion hn) (Or.inl hn)
    · rw [pausesInRange_of_pos (Int32.not_le.mp hn), or_iff_right hn, Int32.le_iff_toInt_le,
        Int32.le_iff_toInt_le]
      rfl
  constructor
  · intro h
    exact hinRange.mp h.inRange
  · intro h
    have hr := hinRange.mpr h
    exact ⟨hr, fun _ _ hle => hr.noLonger hle⟩

/-- The call in `main`. -/
theorem timely_iff_main : Timely 5 (-1) := (timely_iff 5 (-1)).mpr (Or.inr (by decide))

/-- One round with the emotion 4 pauses for 2³² - 300 ms, twice. -/
theorem not_timely_four : ¬ ∀ repetitions emotion : Int32, Timely repetitions emotion := by
  intro hall
  have h := (pausesInRange_of_pos (by decide)).mp (hall 1 4).inRange
  exact absurd h.2 (by decide)

end HandlingModule.AIO
