import HandlingModule.Serial.Sequential

/-!
# Transactions one after another

On a line whose transactions do not overlap, the order in which the commands were
written is the order of the transactions: the board has handled them in that order,
all but the last have been answered, and what the calls have heard, call after call
in that order, is what the board has sent.
-/

namespace HandlingModule.Serial

open Firmware Framing

/-- The commands whose answer is complete: all that were handled, less the one being answered. -/
def Board.answered (b : Board) : Nat :=
  if b.todo = [] then b.handled.length else b.handled.length - 1

/-- What the calls have heard, in the order of their writes. -/
def Line.heard {δ : Type} (l : Line δ) : List Byte :=
  l.written.flatMap (fun p => ((l.calls[p.1]?).map HandlingCall.heard).getD [])

/-- What a line without overlapping transactions looks like. -/
structure Serializable (l : Line Board) : Prop where
  /-- At most one command frame is unanswered. -/
  one : l.written.length ≤ l.device.answered + 1
  /-- A call that is back from its loop heard the answer to its own command, and has its frame. -/
  own : ∀ (i : Nat) (c : HandlingCall), l.calls[i]? = some c → c.pc = .returned 0 →
    c.heard = replyText c.service ∧ c.reader.reply = actionFinished
  /-- The commands were handled in the order in which they were written. -/
  order : l.device.handled <+: l.written.map (fun p => callOf (frameOf p.2))
  /-- The answers were heard in that order too, none of them by anybody else. -/
  bytes : l.heard ++ (l.wire.toHost ++ transmitted l.device.todo)
    = l.device.handled.flatMap (fun c => transmitted c.effects)

variable {l : Line Board}

theorem Serialized.frames (hl : Serialized l) {p : Nat × Int} (hp : p ∈ l.written) :
    IsFrame braces (frameOf p.2) := by
  obtain ⟨i, s⟩ := p
  obtain ⟨c, hc, _, hs⟩ := (hl.noted.wrote i s).mp hp
  rw [← hs]
  exact (commands_isFrame (frameOf_mem (hl.known i c hc))).1

/-- While a command is on its way, the board has handled all the others. -/
theorem Serialized.handled_receiving (hl : Serialized l) {i : Nat} {c : HandlingCall}
    {init : List (Nat × Int)} (hw : l.written = init ++ [(i, c.service)]) (hr : Receiving l c) :
    l.device.handled = init.map (fun p => callOf (frameOf p.2)) := by
  obtain ⟨taken, hstream, _, hh⟩ := hl.onWire.stream
  obtain ⟨q, hq, hm⟩ := hr.split
  have hf : IsFrame braces (frameOf c.service) :=
    hl.frames (p := (i, c.service)) (by rw [hw]; simp)
  -- the board has taken the frames before, and the beginning of this one
  have htaken : taken = (init.map (fun p => frameOf p.2)).flatten ++ q := by
    have h := calc taken ++ l.wire.toMcu
        _ = l.bytesWritten := hstream.symm
        _ = (init.map (fun p => frameOf p.2)).flatten ++ frameOf c.service := by
          rw [Line.bytesWritten, hw]; simp
        _ = ((init.map (fun p => frameOf p.2)).flatten ++ q) ++ l.wire.toMcu := by
          rw [← hq, List.append_assoc]
    exact List.append_cancel_right h
  have hframes : Framed braces (init.map (fun p => frameOf p.2)).flatten
      (init.map (fun p => frameOf p.2)) := by
    refine framed_flatten braces ?_
    intro f hm
    obtain ⟨p, hp, rfl⟩ := List.mem_map.mp hm
    exact hl.frames (by rw [hw]; exact List.mem_append_left _ hp)
  have hopen : scan braces [] q = (q, []) := by
    by_cases h0 : q = []
    · rw [h0]; rfl
    · exact scan_open braces (hf.isOpen_prefix hq.symm h0 hr.toMcu)
  rw [hh, htaken, scan_append, scan_framed braces hframes, hopen, List.append_nil, List.map_map]
  rfl

theorem Serialized.handled_all (hl : Serialized l) (h0 : l.wire.toMcu = []) :
    l.device.handled = l.written.map (fun p => callOf (frameOf p.2)) :=
  hl.onWire.handled h0 (fun _ hp => hl.frames hp)

/-- What the calls outside a transaction have heard. -/
theorem Serialized.heard_flatMap (hl : Serialized l) {ps : List (Nat × Int)}
    (hsub : ∀ p ∈ ps, p ∈ l.written)
    (hout : ∀ p ∈ ps, ∀ c, l.calls[p.1]? = some c → c.inTransaction = false) :
    ps.flatMap (fun p => ((l.calls[p.1]?).map HandlingCall.heard).getD [])
      = (ps.map (fun p => callOf (frameOf p.2))).flatMap (fun c => transmitted c.effects) := by
  rw [List.flatMap_map]
  refine List.flatMap_congr ?_
  intro p hp
  obtain ⟨i, s⟩ := p
  obtain ⟨c, hc, hw, hs⟩ := (hl.noted.wrote i s).mp (hsub _ hp)
  have hh := hl.served i c hc hw (hout _ hp c hc)
  show ((l.calls[i]?).map HandlingCall.heard).getD [] = replyText s
  rw [hc, Option.map_some, Option.getD_some, hh, hs]

/-- **A serialized line is serializable.** -/
theorem Serialized.serializable (hl : Serialized l) : Serializable l := by
  have hown : ∀ (i : Nat) (c : HandlingCall), l.calls[i]? = some c → c.pc = .returned 0 →
      c.heard = replyText c.service ∧ c.reader.reply = actionFinished := by
    intro i c hc hpc
    have hh := hl.served i c hc (by rw [hpc]; rfl) (by simp [HandlingCall.inTransaction, hpc])
    exact ⟨hh, reply_of_heard (hl.noted.ok i c hc) (hl.known i c hc) hh⟩
  rcases hl.phase with hq | ⟨i, c, hb⟩
  · have hall := hl.handled_all hq.toMcu
    refine ⟨?_, hown, ⟨[], by rw [hall, List.append_nil]⟩, ?_⟩
    · rw [Board.answered, if_pos hq.todo, hall, List.length_map]; omega
    · rw [Line.heard, hall, hq.toHost, hq.todo]
      rw [hl.heard_flatMap (fun _ hp => hp) (fun p _ c hc => hq.free p.1 c hc)]
      exact List.append_nil _
  · -- everybody but the call being served is outside a transaction
    obtain ⟨init, hw⟩ := List.getLast?_eq_some_iff.mp hb.last
    have hinit : init.flatMap (fun p => ((l.calls[p.1]?).map HandlingCall.heard).getD [])
        = (init.map (fun p => callOf (frameOf p.2))).flatMap (fun c => transmitted c.effects) := by
      refine hl.heard_flatMap (fun p hp => by rw [hw]; exact List.mem_append_left _ hp) ?_
      intro p hp d hd
      cases hin : d.inTransaction with
      | false => rfl
      | true =>
          have hpi := hb.alone p.1 d hd hin
          have hn := hl.noted.once
          rw [hw, List.map_append, List.nodup_append'] at hn
          exact absurd (List.mem_map.mpr ⟨p, hp, hpi⟩)
            (fun hm => hn.2.2 hm (List.mem_singleton.mpr rfl))
    have hheard : l.heard = init.flatMap
        (fun p => ((l.calls[p.1]?).map HandlingCall.heard).getD []) ++ c.heard := by
      rw [Line.heard, hw, List.flatMap_append]
      simp [hb.call]
    rcases hb.phase with hr | hr
    · have hh := hl.handled_receiving hw hr
      refine ⟨?_, hown, ?_, ?_⟩
      · rw [Board.answered, if_pos hr.todo, hh, hw, List.length_map, List.length_append]
        exact Nat.le_refl _
      · rw [hh, hw, List.map_append]; exact List.prefix_append _ _
      · rw [hheard, hinit, hh, hr.heard, hr.toHost, hr.todo]
        simp [transmitted]
    · have hall := hl.handled_all hr.toMcu
      refine ⟨?_, hown, ⟨[], by rw [hall, List.append_nil]⟩, ?_⟩
      · have hlen : l.device.handled.length = l.written.length := by rw [hall, List.length_map]
        unfold Board.answered
        split <;> omega
      · rw [hheard, hinit, hall, hw, List.map_append, List.flatMap_append, List.append_assoc, hr.text]
        simp [replyText, callOf]

end HandlingModule.Serial
