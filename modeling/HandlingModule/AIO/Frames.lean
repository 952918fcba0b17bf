import HandlingModule.AIO.SharedLine

/-!
# Which thread wrote which frame

`SerialStep` is a step of the module as the serial port sees it: a thread is
started, makes its call, writes its command, or does something the port does not
notice. Along it the two records agree: each frame was written by one thread, for
its own command, by its own call (`Recorded`).
-/

namespace HandlingModule.AIO

open Serial Transition Replace

variable {δ A : Type} {parse : String → Option Json} {dev : Device δ A}

/-- The thread's call has written its command. -/
def Consumer.written (l : Line δ) (c : Consumer) : Bool :=
  match c.call with
  | some k => decide (k ∈ l.written.map Prod.fst)
  | none => false

theorem Consumer.written_iff {l : Line δ} {c : Consumer} :
    c.written l = true ↔ ∃ k, c.call = some k ∧ k ∈ l.written.map Prod.fst := by
  unfold Consumer.written
  cases c.call with
  | none => simp
  | some k => simp

/-- What the serial port sees of a step. -/
inductive SerialStep (w : World δ) : Act A → World δ → Prop where
  | unseen {a : Act A} {w' : World δ} :
      w'.consumers = w.consumers → w'.frames = w.frames → w'.line.written = w.line.written →
      SerialStep w a w'
  | moved {i : Nat} {ok : Bool} {w' : World δ} (c c' : Consumer) :
      w.consumers[i]? = some c → w'.consumers = w.consumers.set i c' → c'.entry = c.entry →
      c'.call = c.call → w'.frames = w.frames → w'.line.written = w.line.written →
      SerialStep w (.consumeService i ok) w'
  | called {i : Nat} {ok : Bool} {w' : World δ} (c c' : Consumer) :
      w.consumers[i]? = some c → w'.consumers = w.consumers.set i c' → c'.entry = c.entry →
      c.call = none → c'.call = some w.line.calls.length →
      w.line.calls.length < w'.line.calls.length →
      w'.frames = w.frames → w'.line.written = w.line.written →
      SerialStep w (.consumeService i ok) w'
  | started {i : Nat} {w' : World δ} (group_id : Int64) (c : CommandInfo) :
      w'.consumers = w.consumers ++ [Consumer.start group_id c] → w'.frames = w.frames →
      w'.line.written = w.line.written → SerialStep w (.allBegins i) w'
  | wrote {i : Nat} {ok : Bool} {w' : World δ} (c : Consumer) (k : Nat) (hc : HandlingCall) :
      w.consumers[i]? = some c → c.call = some k → w.line.calls[k]? = some hc →
      hc.pc = .serialPuts → w'.consumers = w.consumers →
      w'.frames = w.frames ++ [⟨c.group_id, c.commandInfo.ticket, hc.service⟩] →
      w'.line.written = w.line.written ++ [(k, hc.service)] →
      SerialStep w (.consumeService i ok) w'

theorem serialStep {w w' : World δ} {a : Act A} (h : World.Step parse dev w a w') (hk : Kept w) :
    SerialStep w a w' := by
  cases h with
  | threaded d group_id c _ _ => exact .started group_id c rfl rfl rfl
  | findThrew c e hc _ _ => exact .moved c _ hc rfl rfl rfl rfl rfl
  | notFound c hc _ _ => exact .moved c _ hc rfl rfl rfl rfl rfl
  | called c responsible creators command line hc hpc _ hl =>
      have hnone := hk _ c hc
      rw [hpc] at hnone
      have hline := line_call hl
      refine .called c _ hc rfl rfl hnone rfl ?_ rfl (by rw [hline])
      rw [hline]
      simp
  | ran c responsible command k hcall line hc _ hck hcalls hl =>
      obtain ⟨d, d', wire, hd, _, rfl⟩ := line_run hl
      have : d = hcall := Option.some.inj (hd.symm.trans hcalls)
      subst this
      have hw : w.writing c = if d.pc = .serialPuts then
          [⟨c.group_id, c.commandInfo.ticket, d.service⟩] else [] := by
        simp [World.writing, hck, hcalls]
      -- of the steps of a call only `serialPuts` is seen on the port
      by_cases hp : d.pc = .serialPuts
      · refine .wrote c k d hc hck hcalls hp rfl ?_ (if_pos hp)
        show w.frames ++ w.writing c = _
        rw [hw, if_pos hp]
      · refine .unseen rfl ?_ (if_neg hp)
        show w.frames ++ w.writing c = _
        rw [hw, if_neg hp, List.append_nil]
  | returned c responsible command k hcall code reply_info hc => exact .moved c _ hc rfl rfl rfl rfl rfl
  | replyThrew c responsible command k hcall code e hc => exact .moved c _ hc rfl rfl rfl rfl rfl
  | locked c reply_info hc _ _ => exact .moved c _ hc rfl rfl rfl rfl rfl
  | emitted c reply_info hc _ => exact .moved c _ hc rfl rfl rfl rfl rfl
  | unlocked c hc _ => exact .moved c _ hc rfl rfl rfl rfl rfl
  | device line hl =>
      obtain ⟨d, wire, _, rfl⟩ := line_device hl
      exact .unseen rfl rfl rfl
  | _ => exact .unseen rfl rfl rfl

/-- A thread keeps its command, and its call once it has made it. -/
theorem SerialStep.keeps {w w' : World δ} {a : Act A} (h : SerialStep w a w') {i : Nat}
    {c : Consumer} (hc : w.consumers[i]? = some c) :
    ∃ c', w'.consumers[i]? = some c' ∧ c'.entry = c.entry
      ∧ ∀ k, c.call = some k → c'.call = some k := by
  have hset : ∀ {j : Nat} {d d' : Consumer}, w.consumers[j]? = some d → d'.entry = d.entry →
      (∀ k, d.call = some k → d'.call = some k) →
      ∃ c', (w.consumers.set j d')[i]? = some c' ∧ c'.entry = c.entry
        ∧ ∀ k, c.call = some k → c'.call = some k := by
    intro j d d' hd he hcall
    rcases eq_or_ne j i with rfl | hne
    · have : d = c := Option.some.inj (hd.symm.trans hc)
      subst this
      exact ⟨d', List.getElem?_set_self (List.getElem?_eq_some_iff.mp hc).1, he, hcall⟩
    · exact ⟨c, (List.getElem?_set_ne hne).trans hc, rfl, fun _ hk => hk⟩
  cases h with
  | unseen hcs _ _ => exact ⟨c, by rw [hcs]; exact hc, rfl, fun _ hk => hk⟩
  | wrote d k hcall _ _ _ _ hcs _ _ => exact ⟨c, by rw [hcs]; exact hc, rfl, fun _ hk => hk⟩
  | moved d d' hd hcs he hcall _ _ =>
      rw [hcs]
      exact hset hd he (fun k hk => hcall.trans hk)
  | called d d' hd hcs he hnone _ _ _ _ =>
      rw [hcs]
      refine hset hd he (fun k hk => ?_)
      rw [hnone] at hk
      exact absurd hk (by simp)
  | started group_id e hcs _ _ =>
      rw [hcs]
      exact ⟨c, (List.getElem?_append_left (List.getElem?_eq_some_iff.mp hc).1).trans hc, rfl,
        fun _ hk => hk⟩

/-- Where a thread's call comes from: it had it, it has just made it, or it has none. -/
theorem SerialStep.back {w w' : World δ} {a : Act A} (h : SerialStep w a w') {i : Nat}
    {c' : Consumer} (hc' : w'.consumers[i]? = some c') {k : Nat} (hk : c'.call = some k) :
    (∃ c, w.consumers[i]? = some c ∧ c.call = some k)
      ∨ (∃ ok, a = .consumeService i ok) ∧ k = w.line.calls.length
        ∧ w.line.calls.length < w'.line.calls.length := by
  cases h with
  | unseen hcs _ _ => rw [hcs] at hc'; exact Or.inl ⟨c', hc', hk⟩
  | wrote d k hcall _ _ _ _ hcs _ _ => rw [hcs] at hc'; exact Or.inl ⟨c', hc', hk⟩
  | moved d d' hd hcs _ hcall _ _ =>
      rw [hcs] at hc'
      rcases getElem?_set_cases hd hc' with ⟨rfl, rfl⟩ | ⟨_, hc'⟩
      · exact Or.inl ⟨d, hd, hcall ▸ hk⟩
      · exact Or.inl ⟨c', hc', hk⟩
  | called d d' hd hcs _ _ hnew hlt _ _ =>
      rw [hcs] at hc'
      rcases getElem?_set_cases hd hc' with ⟨rfl, rfl⟩ | ⟨_, hc'⟩
      · rw [hnew] at hk
        exact Or.inr ⟨⟨_, rfl⟩, (Option.some.inj hk).symm, hlt⟩
      · exact Or.inl ⟨c', hc', hk⟩
  | started group_id e hcs _ _ =>
      rw [hcs] at hc'
      rcases getElem?_snoc_cases hc' with hc' | ⟨_, rfl⟩
      · exact Or.inl ⟨c', hc', hk⟩
      · exact absurd hk (by simp [Consumer.start])

/-! ## The two records -/

/-- The frame is what a thread wrote for its command, by the call of the entry. -/
def WrittenBy (w : World δ) (f : Frame) (p : Nat × Int) : Prop :=
  ∃ (i : Nat) (c : Consumer), w.consumers[i]? = some c ∧ c.call = some p.1
    ∧ f = ⟨c.group_id, c.commandInfo.ticket, p.2⟩

/-- The frames and the record of the line agree, and no two threads share a call. -/
structure Recorded (w : World δ) : Prop where
  noted : Noted w.line
  frames : List.Forall₂ (WrittenBy w) w.frames w.line.written
  called : ∀ (i : Nat) (c : Consumer) (k : Nat), w.consumers[i]? = some c → c.call = some k →
    k < w.line.calls.length
  calls : ∀ (i j : Nat) (c d : Consumer) (k : Nat), w.consumers[i]? = some c →
    w.consumers[j]? = some d → c.call = some k → d.call = some k → i = j

theorem recorded_start (module_id : String) (d : δ) : Recorded (World.start module_id d) where
  noted := noted_start d
  frames := List.Forall₂.nil
  called := by intro i c k hc; exact absurd hc (by simp [World.start])
  calls := by intro i j c d k hc; exact absurd hc (by simp [World.start])

/-- A call that stands at `serialPuts` is not in the record. -/
theorem Recorded.not_written {w : World δ} (hr : Recorded w) {k : Nat} {hc : HandlingCall}
    (hk : w.line.calls[k]? = some hc) (hpc : hc.pc = .serialPuts) :
    k ∉ w.line.written.map Prod.fst := by
  intro hm
  obtain ⟨⟨k', s⟩, hp, rfl⟩ := List.mem_map.mp hm
  obtain ⟨hc', hk', hw, _⟩ := (hr.noted.wrote k' s).mp hp
  rw [hk] at hk'
  rw [← Option.some.inj hk', hpc] at hw
  exact absurd hw (by decide)

theorem calls_length {w w' : World δ} {a : Act A} (h : World.Step parse dev w a w') :
    w.line.calls.length ≤ w'.line.calls.length := by
  rcases line_of_step h with heq | ⟨la, _, hl⟩
  · rw [heq]
  · cases la with
    | call service => rw [line_call hl]; simp
    | run i ok => obtain ⟨_, _, _, _, _, heq⟩ := line_run hl; rw [heq]; simp
    | device u => obtain ⟨_, _, _, heq⟩ := line_device hl; rw [heq]

theorem recorded_step {w w' : World δ} {a : Act A} (h : World.Step parse dev w a w') (hk : Kept w)
    (hr : Recorded w) : Recorded w' := by
  have hs := serialStep h hk
  have hlen := calls_length h
  refine ⟨?_, ?_, ?_, ?_⟩
  · rcases line_of_step h with heq | ⟨la, _, hl⟩
    · rw [heq]; exact hr.noted
    · exact noted_step hl hr.noted
  · have hkept : List.Forall₂ (WrittenBy w') w.frames w.line.written := by
      refine hr.frames.imp ?_
      intro f p ⟨i, c, hc, hck, hf⟩
      obtain ⟨c', hc', he, hcall⟩ := hs.keeps hc
      obtain ⟨hg, ht⟩ := Prod.mk.inj he
      exact ⟨i, c', hc', hcall _ hck, by rw [hf, hg, ht]⟩
    cases hs with
    | unseen _ hf hw => rw [hf, hw]; exact hkept
    | moved _ _ _ _ _ _ hf hw => rw [hf, hw]; exact hkept
    | called _ _ _ _ _ _ _ _ hf hw => rw [hf, hw]; exact hkept
    | started _ _ _ hf hw => rw [hf, hw]; exact hkept
    | wrote c k hc hci hck _ _ hcs hf hw =>
        rw [hf, hw]
        refine List.rel_append hkept (List.Forall₂.cons ?_ List.Forall₂.nil)
        exact ⟨_, c, by rw [hcs]; exact hci, hck, rfl⟩
  · intro i c' k hc' hck
    rcases hs.back hc' hck with ⟨c, hc, hck⟩ | ⟨_, rfl, hlt⟩
    · exact Nat.lt_of_lt_of_le (hr.called i c k hc hck) hlen
    · exact hlt
  · -- a call just made is the newest one, and only one thread has made it
    intro i j c' d' k hc' hd' hck hdk
    rcases hs.back hc' hck with ⟨c, hc, hck⟩ | ⟨⟨ok, ha⟩, hkc, _⟩
    · rcases hs.back hd' hdk with ⟨d, hd, hdk⟩ | ⟨_, hkd, _⟩
      · exact hr.calls i j c d k hc hd hck hdk
      · exact absurd (hr.called i c k hc hck) (by omega)
    · rcases hs.back hd' hdk with ⟨d, hd, hdk⟩ | ⟨⟨ok', ha'⟩, _, _⟩
      · exact absurd (hr.called j d k hd hdk) (by omega)
      · rw [ha] at ha'
        exact (Act.consumeService.inj ha').1

/-! ## What has been written -/

/-- A thread that has written has its frame in the record. -/
theorem Recorded.frame_of_written {w : World δ} (hr : Recorded w) {i : Nat} {c : Consumer}
    (hc : w.consumers[i]? = some c) (hw : c.written w.line = true) :
    ∃ f ∈ w.frames, f.group_id = c.group_id ∧ f.ticket = c.commandInfo.ticket := by
  obtain ⟨k, hck, hm⟩ := Consumer.written_iff.mp hw
  obtain ⟨p, hp, rfl⟩ := List.mem_map.mp hm
  obtain ⟨n, hn⟩ := List.mem_iff_getElem?.mp hp
  obtain ⟨f, hf, j, d, hd, hdk, hfd⟩ := forall₂_getElem?_right hr.frames hn
  -- the frame's thread made the same call, so it is this one
  have hij := hr.calls i j c d p.1 hc hd hck hdk
  subst hij
  have : d = c := Option.some.inj (hd.symm.trans hc)
  subst this
  exact ⟨f, List.mem_of_getElem? hf, by rw [hfd], by rw [hfd]⟩

/-- The bytes on the port are those of the frames. -/
theorem Recorded.services {w : World δ} (hr : Recorded w) :
    w.line.written.map Prod.snd = w.frames.map Frame.service := by
  have h := hr.frames
  generalize w.frames = fs at h
  generalize w.line.written = ps at h
  induction h with
  | nil => rfl
  | cons hfp _ ih =>
      obtain ⟨_, _, _, _, hf⟩ := hfp
      rw [List.map_cons, List.map_cons, ih, hf]

/-- No command is written twice. -/
theorem Recorded.once {w : World δ} (hr : Recorded w) (hb : Books w) :
    (w.frames.map Frame.ticket).Nodup := by
  refine nodup_map_of_forall₂ hr.frames hr.noted.once ?_
  intro f f' p p' ⟨i, c, hc, hck, hf⟩ ⟨j, d, hd, hdk, hf'⟩ ht
  -- one ticket, one thread, one call
  rw [hf, hf'] at ht
  have hij := hb.consumer_unique hc hd ht
  subst hij
  rw [hc] at hd
  rw [← Option.some.inj hd, hck] at hdk
  exact Option.some.inj hdk

end HandlingModule.AIO
