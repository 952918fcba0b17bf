import HandlingModule.Serial.Sequential

/-!
# The descriptors of the process

`serialOpen` takes a file descriptor, and a process may hold so many. No return of
`handlingService` gives it back: `serialClose(fd)` is commented out before the last
one, and the return after a failed `wiringPiSetup` has none either. So of a series of
calls the first ones leave one descriptor each behind, and the rest find none.
-/

namespace HandlingModule.Serial

open Transition Replace

variable {δ A : Type} {dev : Device δ A}

/--
The line, and the number of descriptors the process holds. `found` records how many
it held when each of the calls began.
-/
structure Process (δ : Type) where
  line : Line δ
  held : Nat
  found : List Nat

/-- A process that holds some descriptors before its first call. -/
def Process.start (d : δ) (held : Nat) : Process δ := ⟨Line.start d, held, []⟩

/-- One move of the line in a process that may hold `limit` descriptors. -/
def Process.step (dev : Device δ A) (limit : Nat) (p : Process δ) :
    LineAct A → Option (Process δ)
  | .call service => do
      let line ← p.line.step dev (.call service)
      return { p with line := line, found := p.found ++ [p.held] }
  | .run i ok => do
      let c ← p.line.calls[i]?
      match c.pc with
      | .serialOpen =>
          -- it fails exactly when no descriptor is left
          let line ← p.line.step dev (.run i (decide (p.held < limit)))
          return { p with line := line, held := if p.held < limit then p.held + 1 else p.held }
      | _ =>
          let line ← p.line.step dev (.run i ok)
          return { p with line := line }
  | .device a => do
      let line ← p.line.step dev (.device a)
      return { p with line := line }

/-- One call after another: a call begins when all calls are over. -/
def Process.Alone (p : Process δ) : LineAct A → Bool
  | .call _ => p.line.calls.all (fun c => c.pc.isReturned)
  | _ => true

/-- Every `serialOpen` so far has succeeded. -/
def Process.AllOpened (p : Process δ) : Prop :=
  ∀ c ∈ p.line.calls, c.opened.head? ≠ some false

/-- The call has been through `serialOpen`. -/
def HandlingCall.tried (c : HandlingCall) : Bool := !c.opened.isEmpty

/-- The `serialOpen`s so far. -/
def Process.opens (p : Process δ) : Nat := p.line.calls.countP HandlingCall.tried

/-- What was held after a call is what was held before it. -/
def Process.LeavesAsFound (p : Process δ) (i : Nat) : Prop :=
  (p.found ++ [p.held])[i + 1]? = p.found[i]?

/-! ## What a move can do -/

inductive ProcessStep (dev : Device δ A) (limit : Nat) (p : Process δ) :
    LineAct A → Process δ → Prop where
  | call (service : Int) :
      ProcessStep dev limit p (.call service)
        { p with
          line := { p.line with calls := p.line.calls ++ [HandlingCall.start service] }
          found := p.found ++ [p.held] }
  | serialOpen {i : Nat} {ok : Bool} (c : HandlingCall) (line : Line δ) :
      p.line.calls[i]? = some c → c.pc = .serialOpen →
      p.line.step dev (.run i (decide (p.held < limit))) = some line →
      line.calls = p.line.calls.set i { c with
        pc := if p.held < limit then .wiringPiSetup else .returned 1
        opened := c.opened ++ [decide (p.held < limit)] } →
      ProcessStep dev limit p (.run i ok)
        { p with line := line, held := if p.held < limit then p.held + 1 else p.held }
  | run {i : Nat} {ok : Bool} (c c' : HandlingCall) (line : Line δ) :
      p.line.calls[i]? = some c → c.pc ≠ .serialOpen → CallStep c ok p.line.wire c' line.wire →
      p.line.step dev (.run i ok) = some line → line.calls = p.line.calls.set i c' →
      ProcessStep dev limit p (.run i ok) { p with line := line }
  | device {a : A} (line : Line δ) :
      p.line.step dev (.device a) = some line → line.calls = p.line.calls →
      ProcessStep dev limit p (.device a) { p with line := line }

theorem processStep {limit : Nat} {p p' : Process δ} {a : LineAct A}
    (h : p.step dev limit a = some p') : ProcessStep dev limit p a p' := by
  cases a with
  | call service =>
      have h : some _ = some p' := h
      rw [← Option.some.inj h]; exact ProcessStep.call service
  | device a =>
      obtain ⟨line, hl, h⟩ := Option.bind_eq_some_iff.mp h
      rw [← Option.some.inj h]
      obtain ⟨_, _, _, hline⟩ := line_device hl
      exact ProcessStep.device line hl (by rw [hline])
  | run i ok =>
      obtain ⟨c, hc, h⟩ := Option.bind_eq_some_iff.mp h
      by_cases hpc : c.pc = .serialOpen
      · simp only [hpc] at h
        obtain ⟨line, hl, h⟩ := Option.bind_eq_some_iff.mp h
        obtain ⟨c1, c', wire, hc1, hst, hline⟩ := line_run hl
        have : c1 = c := Option.some.inj (hc1.symm.trans hc)
        subst this
        simp only [HandlingCall.step, hpc] at hst
        obtain ⟨rfl, rfl⟩ := Prod.mk.inj (Option.some.inj hst)
        rw [← Option.some.inj h]
        exact ProcessStep.serialOpen c1 line hc hpc hl (by rw [hline]; simp)
      · have hother : ∃ line, p.line.step dev (.run i ok) = some line
            ∧ p' = { p with line := line } := by
          split at h
          · rename_i hopen; exact absurd hopen hpc
          · obtain ⟨line, hl, h⟩ := Option.bind_eq_some_iff.mp h
            exact ⟨line, hl, (Option.some.inj h).symm⟩
        obtain ⟨line, hl, rfl⟩ := hother
        obtain ⟨c1, c', wire, hc1, hst, hline⟩ := line_run hl
        have : c1 = c := Option.some.inj (hc1.symm.trans hc)
        subst this
        exact ProcessStep.run c1 c' line hc hpc (by rw [hline]; exact callStep hst) hl (by rw [hline])

/-! ## The count -/

/-- A call has no answer from `serialOpen` exactly when it is still before it. -/
theorem HandlingCall.Ok.opened_eq_nil_iff {c : HandlingCall} (hc : c.Ok) :
    c.opened = [] ↔ c.pc = .serialOpen := by
  have hf := hc.facts
  cases hpc : c.pc with
  | serialOpen => rw [hpc] at hf; simp [hf.1]
  | wiringPiSetup => rw [hpc] at hf; simp [hf.1]
  | serialPuts => rw [hpc] at hf; simp [hf.1]
  | loop => rw [hpc] at hf; simp [show c.opened = _ from hf]
  | serialDataAvail => rw [hpc] at hf; simp [show c.opened = _ from hf]
  | serialGetchar => rw [hpc] at hf; simp [show c.opened = _ from hf]
  | returned code =>
      rw [hpc] at hf
      rcases hf with ⟨_, ho, _⟩ | ⟨_, ho, _⟩
      · simp [ho]
      · have : c.opened ≠ [] := by rintro h0; rw [h0] at ho; exact absurd ho (by simp)
        simp [this]

theorem tried_iff {c : HandlingCall} : c.tried = true ↔ c.opened ≠ [] := by
  simp [HandlingCall.tried]

theorem HandlingCall.Ok.tried_of_ne {c : HandlingCall} (hc : c.Ok) (hpc : c.pc ≠ .serialOpen) :
    c.tried = true := tried_iff.mpr (fun h0 => hpc (hc.opened_eq_nil_iff.mp h0))

theorem CallPc.ne_of_isReturned {pc : CallPc} (h : pc.isReturned = true) : pc ≠ .serialOpen := by
  rintro rfl
  exact absurd h (by decide)

/-- After the first, further answers do not change what `serialOpen` said. -/
theorem CallStep.head_opened {c c' : HandlingCall} {ok : Bool} {w w' : Wire}
    (h : CallStep c ok w c' w') (hne : c.opened ≠ []) : c'.opened.head? = c.opened.head? := by
  cases h with
  | opened pc hpc => exact List.head?_append_of_ne_nil _ hne
  | _ => rfl

theorem line_step_call (dev : Device δ A) (l : Line δ) (service : Int) :
    l.step dev (.call service)
      = some { l with calls := l.calls ++ [HandlingCall.start service] } := rfl

/-- What the process holds, from the number of calls so far. -/
structure Counted (limit base : Nat) (p : Process δ) : Prop where
  noted : Noted p.line
  past : ∀ (i : Nat) (c : HandlingCall), p.line.calls[i]? = some c →
    i + 1 < p.line.calls.length → c.pc.isReturned = true
  found : p.found = (List.range p.line.calls.length).map (fun i => min limit (base + i))
  held : p.held = min limit (base + p.opens)
  opened : ∀ (i : Nat) (c : HandlingCall), p.line.calls[i]? = some c → c.opened ≠ [] →
    c.opened.head? = some (decide (base + i < limit))

theorem counted_start {limit base : Nat} (h : base < limit) (d : δ) :
    Counted limit base (Process.start d base) where
  noted := noted_start d
  past := by intro i c hc; exact absurd hc (by simp [Process.start, Line.start])
  found := rfl
  held := by show base = min limit (base + 0); omega
  opened := by intro i c hc; exact absurd hc (by simp [Process.start, Line.start])

/-- With all calls over, every one of them has been through `serialOpen`. -/
theorem Counted.opens_of_returned {limit base : Nat} {p : Process δ} (h : Counted limit base p)
    (hall : ∀ c ∈ p.line.calls, c.pc.isReturned = true) : p.opens = p.line.calls.length := by
  refine List.countP_eq_length.mpr (fun c hc => ?_)
  obtain ⟨i, hi⟩ := List.mem_iff_getElem?.mp hc
  exact (h.noted.ok i c hi).tried_of_ne (CallPc.ne_of_isReturned (hall c hc))

/-- The call at `serialOpen` is the last, and the others have been through it. -/
theorem Counted.opens_of_opening {limit base : Nat} {p : Process δ} (h : Counted limit base p)
    {i : Nat} {c : HandlingCall} (hc : p.line.calls[i]? = some c) (hpc : c.pc = .serialOpen) :
    i + 1 = p.line.calls.length ∧ p.opens = i := by
  have hi : i < p.line.calls.length := (List.getElem?_eq_some_iff.mp hc).1
  have hlast : i + 1 = p.line.calls.length := by
    by_contra hne
    exact CallPc.ne_of_isReturned (h.past i c hc (by omega)) hpc
  refine ⟨hlast, ?_⟩
  -- put a call that has been through `serialOpen` in its place
  have hset := countP_set_add HandlingCall.tried { c with opened := [true] } hc
  have hfull : (p.line.calls.set i { c with opened := [true] }).countP HandlingCall.tried
      = p.line.calls.length := by
    refine (List.countP_eq_length.mpr (fun e he => ?_)).trans List.length_set
    obtain ⟨j, hj⟩ := List.mem_iff_getElem?.mp he
    rcases getElem?_set_cases hc hj with ⟨_, rfl⟩ | ⟨hne, hj⟩
    · rfl
    · have hlt : j < p.line.calls.length := (List.getElem?_eq_some_iff.mp hj).1
      exact (h.noted.ok j e hj).tried_of_ne (CallPc.ne_of_isReturned (h.past j e hj (by omega)))
  have hnew : ¬ c.tried = true := by
    rw [tried_iff, not_not]; exact (h.noted.ok i c hc).opened_eq_nil_iff.mpr hpc
  have hthen : HandlingCall.tried { c with opened := [true] } = true := rfl
  rw [hfull, if_neg hnew, if_pos hthen] at hset
  show p.line.calls.countP _ = i
  omega

/-- Every call before the last is over, so a call that still runs can change alone. -/
theorem Counted.past_set {limit base : Nat} {p : Process δ} (h : Counted limit base p) {i : Nat}
    {c : HandlingCall} (hc : p.line.calls[i]? = some c) (hrun : ¬ c.pc.isReturned = true)
    (c' : HandlingCall) (j : Nat) (e : HandlingCall)
    (he : (p.line.calls.set i c')[j]? = some e) (hj : j + 1 < (p.line.calls.set i c').length) :
    e.pc.isReturned = true := by
  rw [List.length_set] at hj
  rcases getElem?_set_cases hc he with ⟨rfl, _⟩ | ⟨_, he⟩
  · exact absurd (h.past _ c hc hj) hrun
  · exact h.past j e he hj

theorem counted_step {limit base : Nat} {p p' : Process δ} {a : LineAct A}
    (h : p.step dev limit a = some p') (hg : p.Alone a = true) (hp : Counted limit base p) :
    Counted limit base p' := by
  cases processStep h with
  | call service =>
      have hret : ∀ c ∈ p.line.calls, c.pc.isReturned = true := List.all_eq_true.mp hg
      have hopens := hp.opens_of_returned hret
      have hheld := hp.held
      rw [hopens] at hheld
      refine ⟨noted_step (line_step_call dev p.line service) hp.noted, ?_, ?_, ?_, ?_⟩
      · intro i c hc hi
        rcases getElem?_snoc_cases hc with hc | ⟨rfl, rfl⟩
        · exact hret c (List.mem_of_getElem? hc)
        · simp at hi
      · show p.found ++ [p.held] = (List.range (p.line.calls ++ [_]).length).map _
        rw [List.length_append, List.length_singleton, List.range_succ, List.map_append, hp.found,
          hheld]
        rfl
      · show p.held = min limit (base + (p.line.calls ++ [_]).countP _)
        rw [List.countP_append]
        exact hp.held
      · intro i c hc hne
        rcases getElem?_snoc_cases hc with hc | ⟨_, rfl⟩
        · exact hp.opened i c hc hne
        · exact absurd rfl hne
  | device line hl hcalls =>
      refine ⟨noted_step hl hp.noted, ?_, ?_, ?_, ?_⟩
      · rw [hcalls]; exact hp.past
      · rw [hcalls]; exact hp.found
      · show p.held = min limit (base + line.calls.countP _)
        rw [hcalls]; exact hp.held
      · rw [hcalls]; exact hp.opened
  | serialOpen c line hc hpc hl hcalls =>
      obtain ⟨_, hopens⟩ := hp.opens_of_opening hc hpc
      have hheld := hp.held
      rw [hopens] at hheld
      have hnil : c.opened = [] := (hp.noted.ok _ c hc).opened_eq_nil_iff.mpr hpc
      refine ⟨noted_step hl hp.noted, ?_, ?_, ?_, ?_⟩
      · rw [hcalls]
        exact hp.past_set hc (fun hret => CallPc.ne_of_isReturned hret hpc) _
      · rw [hcalls, List.length_set]; exact hp.found
      · show (if p.held < limit then p.held + 1 else p.held) = min limit (base + line.calls.countP _)
        have hset := countP_set_add HandlingCall.tried
          { c with
            pc := if p.held < limit then .wiringPiSetup else .returned 1
            opened := c.opened ++ [decide (p.held < limit)] } hc
        have hnew : ¬ c.tried = true := by rw [tried_iff, not_not]; exact hnil
        rw [← hcalls, if_neg hnew, if_pos (tried_iff.mpr (by simp))] at hset
        have hcount : p.line.calls.countP HandlingCall.tried = _ := hopens
        split <;> omega
      · intro j e he hne
        rw [hcalls] at he
        rcases getElem?_set_cases hc he with ⟨rfl, rfl⟩ | ⟨_, he⟩
        · -- there was a descriptor left exactly if fewer calls than that came before
          have : p.held < limit ↔ base + j < limit := by omega
          simp [hnil, this]
        · exact hp.opened j e he hne
  | run c c' line hc hpc hcs hl hcalls =>
      have hne : c.opened ≠ [] := fun h0 => hpc ((hp.noted.ok _ c hc).opened_eq_nil_iff.mp h0)
      have hhead := hcs.head_opened hne
      have hne' : c'.opened ≠ [] := by
        intro h0
        rw [h0, List.head?_nil] at hhead
        exact hne (List.head?_eq_none_iff.mp hhead.symm)
      refine ⟨noted_step hl hp.noted, ?_, ?_, ?_, ?_⟩
      · rw [hcalls]
        -- a call that is over takes no step
        refine hp.past_set hc (fun hret => ?_) _
        cases hcpc : c.pc with
        | returned code => exact absurd hcpc (hcs.not_returned code)
        | _ => rw [hcpc] at hret; exact absurd hret (by decide)
      · rw [hcalls, List.length_set]; exact hp.found
      · show p.held = min limit (base + line.calls.countP _)
        have hset := countP_set_add HandlingCall.tried c' hc
        rw [← hcalls, if_pos (tried_iff.mpr hne), if_pos (tried_iff.mpr hne')] at hset
        have hheld : p.held = min limit (base + p.line.calls.countP HandlingCall.tried) := hp.held
        omega
      · intro j e he hj
        rw [hcalls] at he
        rcases getElem?_set_cases hc he with ⟨rfl, rfl⟩ | ⟨_, he⟩
        · rw [hhead]; exact hp.opened _ c hc hne
        · exact hp.opened j e he hj

theorem counted_run {limit base : Nat} (hbase : base < limit) {d : δ} {as : List (LineAct A)}
    {p : Process δ} (hr : Run (Process.step dev limit) (fun p a => p.Alone a = true)
      (Process.start d base) as p) : Counted limit base p :=
  hr.invariant (counted_start hbase d) (fun hp hg hst => counted_step hst hg hp)

/-- The calls that have been through `serialOpen` are the first ones. -/
theorem Counted.tried_iff_lt {limit base : Nat} {p : Process δ} (h : Counted limit base p)
    {i : Nat} {c : HandlingCall} (hc : p.line.calls[i]? = some c) :
    c.tried = true ↔ i < p.opens := by
  have hi : i < p.line.calls.length := (List.getElem?_eq_some_iff.mp hc).1
  by_cases hex : ∃ (j : Nat) (e : HandlingCall), p.line.calls[j]? = some e ∧ e.pc = .serialOpen
  · obtain ⟨j, e, he, hpc⟩ := hex
    obtain ⟨hlast, hopens⟩ := h.opens_of_opening he hpc
    rcases eq_or_ne i j with rfl | hne
    · have : e = c := Option.some.inj (he.symm.trans hc)
      subst this
      have hnil := (h.noted.ok i e hc).opened_eq_nil_iff.mpr hpc
      exact ⟨fun ht => absurd hnil (tried_iff.mp ht), fun hlt => by omega⟩
    · have hpast := h.past i c hc (by omega)
      have := (h.noted.ok i c hc).tried_of_ne (CallPc.ne_of_isReturned hpast)
      exact ⟨fun _ => by omega, fun _ => this⟩
  · have hall : ∀ (j : Nat) (e : HandlingCall), p.line.calls[j]? = some e → e.tried = true :=
      fun j e he => (h.noted.ok j e he).tried_of_ne (fun hpc => hex ⟨j, e, he, hpc⟩)
    have hopens : p.opens = p.line.calls.length := by
      refine List.countP_eq_length.mpr (fun e he => ?_)
      obtain ⟨j, hj⟩ := List.mem_iff_getElem?.mp he
      exact hall j e hj
    exact ⟨fun _ => by omega, fun _ => hall i c hc⟩

/-- As long as there are descriptors for all the `serialOpen`s, they all succeed, and no longer. -/
theorem Counted.allOpened_iff {limit base : Nat} {p : Process δ} (h : Counted limit base p)
    (hbase : base < limit) : p.AllOpened ↔ base + p.opens ≤ limit := by
  constructor
  · intro hall
    by_contra hlt
    -- the first call that found none left
    have hk : limit - base < p.line.calls.length := by
      have : p.opens ≤ p.line.calls.length := List.countP_le_length
      omega
    have hc := List.getElem?_eq_getElem hk
    have htried := (h.tried_iff_lt hc).mpr (by omega)
    have hfailed := h.opened _ _ hc (tried_iff.mp htried)
    have hnone : ¬ base + (limit - base) < limit := by omega
    rw [decide_eq_false hnone] at hfailed
    exact hall _ (List.getElem_mem hk) hfailed
  · intro hle c hc hfailed
    obtain ⟨i, hi⟩ := List.mem_iff_getElem?.mp hc
    have hne : c.opened ≠ [] := by rintro h0; rw [h0] at hfailed; simp at hfailed
    have hlt := (h.tried_iff_lt hi).mp (tried_iff.mpr hne)
    rw [h.opened i c hi hne, Option.some.injEq, decide_eq_false_iff_not] at hfailed
    omega

/-- What a call that is over has left behind. -/
theorem Counted.leavesAsFound_iff {limit base : Nat} {p : Process δ} (h : Counted limit base p)
    {i : Nat} {c : HandlingCall} (hc : p.line.calls[i]? = some c)
    (hret : c.pc.isReturned = true) : p.LeavesAsFound i ↔ limit ≤ base + i := by
  have hi : i < p.line.calls.length := (List.getElem?_eq_some_iff.mp hc).1
  have hfound : ∀ j, j < p.line.calls.length → p.found[j]? = some (min limit (base + j)) := by
    intro j hj
    rw [h.found]; simp [hj]
  have hlen : p.found.length = p.line.calls.length := by rw [h.found]; simp
  unfold Process.LeavesAsFound
  rw [hfound i hi]
  rcases Nat.lt_or_ge (i + 1) p.line.calls.length with hlt | hge
  · rw [List.getElem?_append_left (by omega), hfound (i + 1) hlt, Option.some.injEq]
    omega
  · -- it is the last call, and what is held now is what it left
    have hall : ∀ e ∈ p.line.calls, e.pc.isReturned = true := by
      intro e he
      obtain ⟨j, hj⟩ := List.mem_iff_getElem?.mp he
      have hjlt : j < p.line.calls.length := (List.getElem?_eq_some_iff.mp hj).1
      rcases Nat.lt_or_ge (j + 1) p.line.calls.length with hj1 | hj1
      · exact h.past j e hj hj1
      · have hji : j = i := by omega
        subst hji
        rw [Option.some.inj (hj.symm.trans hc)]; exact hret
    have hheld := h.held
    rw [h.opens_of_returned hall] at hheld
    have hlast : (p.found ++ [p.held])[i + 1]? = some p.held := by
      rw [List.getElem?_append_right (by omega)]
      have : i + 1 - p.found.length = 0 := by omega
      rw [this]; rfl
    rw [hlast, Option.some.injEq]
    omega

/--
**How long the descriptors last.** In every series of calls, one after another, with a
limit above what is held at the start: every `serialOpen` succeeds exactly as long as
there are no more of them than descriptors left, and a call leaves the number as it
found it exactly if it came too late to get one. The first call never comes too late, so the
two hold together only while no call has returned.
-/
theorem descriptors_run {limit base : Nat} (hbase : base < limit) {d : δ} {as : List (LineAct A)}
    {p : Process δ} (hr : Run (Process.step dev limit) (fun p a => p.Alone a = true)
      (Process.start d base) as p) :
    (p.AllOpened ↔ base + p.opens ≤ limit)
      ∧ ∀ (i : Nat) (c : HandlingCall), p.line.calls[i]? = some c → c.pc.isReturned = true →
        (p.LeavesAsFound i ↔ limit ≤ base + i) :=
  ⟨(counted_run hbase hr).allOpened_iff hbase,
    fun _ _ hc hret => (counted_run hbase hr).leavesAsFound_iff hc hret⟩

set_option maxRecDepth 10000 in
/-- Two calls on the board, in a process with room for five descriptors. -/
theorem descriptors_run_two :
    ∃ as p, Run (Process.step firmware 5) (fun p a => p.Alone a = true)
        (Process.start Board.start 3) as p
      ∧ p.opens = 2 ∧ p.AllOpened := by
  have hexec : (exec (checked Process.Alone (Process.step firmware 5))
      (Process.start Board.start 3) (oneCall 0 0 49 48 ++ oneCall 1 1 49 48)).any
      (fun p => p.opens == 2) = true := by decide +kernel
  obtain ⟨p, hp, hopens⟩ := exists_of_exec hexec
  have hr := run_of_exec_checked hp
  have hopens : p.opens = 2 := eq_of_beq hopens
  exact ⟨_, p, hr, hopens, (descriptors_run (by decide) hr).1.mpr (by rw [hopens])⟩

set_option maxRecDepth 10000 in
/-- With room for four, the second call finds no descriptor left. -/
theorem not_allOpened_two :
    ¬ ∀ (limit base : Nat) (as : List (LineAct Unit)) (p : Process Board), base < limit →
      Run (Process.step firmware limit) (fun p a => p.Alone a = true)
        (Process.start Board.start base) as p →
      p.AllOpened ∧ ∀ (i : Nat) (c : HandlingCall), p.line.calls[i]? = some c →
        c.pc.isReturned = true → p.LeavesAsFound i := by
  intro hall
  have hexec : (exec (checked Process.Alone (Process.step firmware 4))
      (Process.start Board.start 3)
      (oneCall 0 0 49 48 ++ [.call 1, .run 1 true])).any (fun p => p.opens == 2) = true := by
    decide +kernel
  obtain ⟨p, hp, hopens⟩ := exists_of_exec hexec
  have hr := run_of_exec_checked hp
  have hopens : p.opens = 2 := eq_of_beq hopens
  have hle := ((counted_run (by decide) hr).allOpened_iff (by decide)).mp
    (hall 4 3 _ p (by decide) hr).1
  omega

end HandlingModule.Serial
