import HandlingModule.Lib.Replace
import HandlingModule.Lib.Transition
import HandlingModule.Serial.Reader
import Mathlib.Data.List.Nodup

/-!
# One serial line, many callers

Every service object opens the same `/dev/ttyS1`. `Line` is that port with all
the calls of `handlingService` ever made on it, each at its own statement, and
whatever is at the other end. Nothing here keeps two calls apart: a step may be
taken by any of them, in any order.

The other end is a parameter, so that a result about every device covers one that
answers anything.
-/

namespace HandlingModule.Serial

open Firmware Replace

variable {δ A : Type}

/-- The far end of the line: its state, and the moves it can make on the wire. -/
abbrev Device (δ A : Type) := δ → Wire → A → Option (δ × Wire)

/-- `written` records the calls that reached `serialPuts`, in order, with their service codes. -/
structure Line (δ : Type) where
  wire : Wire
  device : δ
  calls : List HandlingCall
  written : List (Nat × Int)

/-- The moves of the line. -/
inductive LineAct (A : Type) where
  | call (service : Int)
  | run (i : Nat) (ok : Bool)
  | device (a : A)

/-- Nothing on the wire and nobody calling. -/
def Line.start (d : δ) : Line δ := ⟨⟨[], [], false⟩, d, [], []⟩

/-- One move. -/
def Line.step (dev : Device δ A) (l : Line δ) : LineAct A → Option (Line δ)
  | .call service => some { l with calls := l.calls ++ [HandlingCall.start service] }
  | .run i ok => do
      let c ← l.calls[i]?
      let (c', wire) ← c.step ok l.wire
      return { l with
        wire := wire
        calls := l.calls.set i c'
        written := if c.pc = .serialPuts then l.written ++ [(i, c.service)] else l.written }
  | .device a => do
      let (device, wire) ← dev l.device l.wire a
      return { l with wire := wire, device := device }

/-! ## What one move can do -/

theorem line_call {dev : Device δ A} {l l' : Line δ} {service : Int}
    (h : l.step dev (.call service) = some l') :
    l' = { l with calls := l.calls ++ [HandlingCall.start service] } := (Option.some.inj h).symm

theorem line_run {dev : Device δ A} {l l' : Line δ} {i : Nat} {ok : Bool}
    (h : l.step dev (.run i ok) = some l') :
    ∃ c c' wire, l.calls[i]? = some c ∧ c.step ok l.wire = some (c', wire)
      ∧ l' = { l with
          wire := wire
          calls := l.calls.set i c'
          written := if c.pc = .serialPuts then l.written ++ [(i, c.service)] else l.written } := by
  obtain ⟨c, hc, h⟩ := Option.bind_eq_some_iff.mp h
  obtain ⟨⟨c', wire⟩, hst, h⟩ := Option.bind_eq_some_iff.mp h
  exact ⟨c, c', wire, hc, hst, (Option.some.inj h).symm⟩

theorem line_device {dev : Device δ A} {l l' : Line δ} {a : A}
    (h : l.step dev (.device a) = some l') :
    ∃ d wire, dev l.device l.wire a = some (d, wire)
      ∧ l' = { l with wire := wire, device := d } := by
  obtain ⟨⟨d, wire⟩, hst, h⟩ := Option.bind_eq_some_iff.mp h
  exact ⟨d, wire, hst, (Option.some.inj h).symm⟩

/-- A move of the line keeps every call, and does not touch one that has returned. -/
theorem line_keeps {dev : Device δ A} {l l' : Line δ} {a : LineAct A} (h : l.step dev a = some l')
    {k : Nat} {c : HandlingCall} (hk : l.calls[k]? = some c) :
    ∃ c', l'.calls[k]? = some c' ∧ c'.service = c.service
      ∧ (∀ code, c.pc = .returned code → c' = c) := by
  cases a with
  | call service =>
      rw [line_call h]
      exact ⟨c, (List.getElem?_append_left (List.getElem?_eq_some_iff.mp hk).1).trans hk, rfl,
        fun _ _ => rfl⟩
  | device a =>
      obtain ⟨d, wire, _, rfl⟩ := line_device h
      exact ⟨c, hk, rfl, fun _ _ => rfl⟩
  | run i ok =>
      obtain ⟨d, d', wire, hd, hst, rfl⟩ := line_run h
      have hcs := callStep hst
      rcases eq_or_ne i k with rfl | hne
      · have : d = c := Option.some.inj (hd.symm.trans hk)
        subst this
        refine ⟨d', List.getElem?_set_self (List.getElem?_eq_some_iff.mp hk).1, hcs.service, ?_⟩
        intro code hcode
        exact absurd hcode (hcs.not_returned code)
      · exact ⟨c, (List.getElem?_set_ne hne).trans hk, rfl, fun _ _ => rfl⟩

/-! ## What the record says -/

/-- The calls, and the record of which of them have written, agree. -/
structure Noted (l : Line δ) : Prop where
  ok : ∀ (i : Nat) (c : HandlingCall), l.calls[i]? = some c → c.Ok
  wrote : ∀ i s, (i, s) ∈ l.written ↔
    ∃ c, l.calls[i]? = some c ∧ c.pc.wrote = true ∧ c.service = s
  once : (l.written.map Prod.fst).Nodup

theorem noted_start (d : δ) : Noted (Line.start d) where
  ok := by intro i c h; exact absurd h (by simp [Line.start])
  wrote := by intro i s; simp [Line.start]
  once := List.nodup_nil

theorem noted_step {dev : Device δ A} {l l' : Line δ} {a : LineAct A}
    (h : l.step dev a = some l') (hl : Noted l) : Noted l' := by
  obtain ⟨hok, hwr, honce⟩ := hl
  cases a with
  | call service =>
      rw [line_call h]
      refine ⟨?_, ?_, honce⟩
      · intro i c hc
        rcases getElem?_snoc_cases hc with hc | ⟨_, rfl⟩
        · exact hok i c hc
        · exact ok_start service
      · intro i s
        rw [hwr i s]
        constructor
        · rintro ⟨c, hc, hw⟩
          exact ⟨c, List.getElem?_append_left (List.getElem?_eq_some_iff.mp hc).1 ▸ hc, hw⟩
        · rintro ⟨c, hc, hw, hs⟩
          rcases getElem?_snoc_cases hc with hc | ⟨_, rfl⟩
          · exact ⟨c, hc, hw, hs⟩
          · exact absurd hw Bool.false_ne_true
  | device a =>
      obtain ⟨d, wire, _, rfl⟩ := line_device h
      exact ⟨hok, hwr, honce⟩
  | run i ok =>
      obtain ⟨c, c', wire, hc, hst, rfl⟩ := line_run h
      have hcs := callStep hst
      have hi : i < l.calls.length := (List.getElem?_eq_some_iff.mp hc).1
      refine ⟨?_, ?_, ?_⟩
      · intro j d hd
        rcases getElem?_set_cases hc hd with ⟨_, rfl⟩ | ⟨_, hd⟩
        · exact ok_step hcs (hok i c hc)
        · exact hok j d hd
      · intro j s
        have hmem : (j, s) ∈ (if c.pc = .serialPuts then l.written ++ [(i, c.service)] else l.written)
            ↔ (j, s) ∈ l.written ∨ c.pc = .serialPuts ∧ j = i ∧ s = c.service := by
          split <;> rename_i hp <;> simp [hp]
        show (j, s) ∈ (if c.pc = .serialPuts then _ else _) ↔ _
        rw [hmem, hwr j s]
        constructor
        · rintro (⟨d, hd, hw, hs⟩ | ⟨hp, rfl, rfl⟩)
          · rcases eq_or_ne j i with rfl | hne
            · have : d = c := Option.some.inj (hd.symm.trans hc)
              subst this
              exact ⟨c', List.getElem?_set_self hi, hcs.wrote.mpr (Or.inl hw),
                hcs.service.trans hs⟩
            · exact ⟨d, (List.getElem?_set_ne hne.symm).trans hd, hw, hs⟩
          · exact ⟨c', List.getElem?_set_self hi, hcs.wrote.mpr (Or.inr hp), hcs.service⟩
        · rintro ⟨d, hd, hw, hs⟩
          rcases getElem?_set_cases hc hd with ⟨rfl, rfl⟩ | ⟨_, hd⟩
          · rcases hcs.wrote.mp hw with hw | hp
            · exact Or.inl ⟨c, hc, hw, hcs.service.symm.trans hs⟩
            · exact Or.inr ⟨hp, rfl, hs.symm.trans hcs.service⟩
          · exact Or.inl ⟨d, hd, hw, hs⟩
      · show (List.map Prod.fst (if c.pc = .serialPuts then _ else _)).Nodup
        split
        · rename_i hp
          -- the call has not written before, so its number is new
          rw [List.map_append]
          refine List.nodup_append'.mpr ⟨honce, List.nodup_singleton i, ?_⟩
          refine List.disjoint_singleton.mpr ?_
          intro hm
          obtain ⟨⟨j, s⟩, hjs, hj⟩ := List.mem_map.mp hm
          have hji : j = i := hj
          obtain ⟨d, hd, hw, _⟩ := (hwr j s).mp hjs
          rw [hji, hc] at hd
          rw [← Option.some.inj hd, hp] at hw
          exact absurd hw (by decide)
        · exact honce

end HandlingModule.Serial
