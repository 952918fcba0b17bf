import HandlingModule.AIO.Frames
import HandlingModule.AIO.Starts

/-!
# In which order commands reach the gripper

The threads of a group are started in order, and from there on nothing orders them:
they are not joined, and none waits for another. What remains is that each accepted
command is written at most once and, when all threads are through, exactly once
(`Delivered`), and that the commands are written in the order of acceptance in the
runs in which each thread waits for its turn (`Turn`).
-/

namespace HandlingModule.AIO

open Firmware Framing Serial Transition Replace

variable {δ A : Type} {parse : String → Option Json} {dev : Device δ A}

/-- The frames written for a group, in order. -/
def World.framesOf (w : World δ) (g : Int64) : List Frame :=
  w.frames.filter (fun f => f.group_id == g)

/-- The command a thread has written for the group. -/
def Consumer.ticketFor (g : Int64) (l : Line δ) (c : Consumer) : Option Nat :=
  if c.group_id = g ∧ c.written l = true then some c.commandInfo.ticket else none

/-- The guard: a thread of the group writes once those started before it have written. -/
def InTurn (g : Int64) (w : World δ) : Act A → Bool
  | .consumeService i _ =>
      match w.consumers[i]? with
      | some c =>
          decide (c.group_id = g → w.writing c ≠ [] →
            ∀ e ∈ w.consumers.take i, e.group_id = g → e.written w.line = true)
      | none => true
  | _ => true

/-- The group's threads write in the order in which they were started. -/
structure Turn (g : Int64) (w : World δ) : Prop where
  ahead : ∀ (i j : Nat) (c d : Consumer), i < j → w.consumers[i]? = some c →
    w.consumers[j]? = some d → c.group_id = g → d.group_id = g → d.written w.line = true →
    c.written w.line = true
  frames : (w.framesOf g).map Frame.ticket
    = w.consumers.filterMap (Consumer.ticketFor g w.line)

theorem turn_start (g : Int64) (module_id : String) (d : δ) : Turn g (World.start module_id d) where
  ahead := by intro i j c d _ hc; exact absurd hc (by simp [World.start])
  frames := rfl

/-- Only the record of the line decides whether a thread has written. -/
theorem written_congr {l l' : Line δ} (hl : l'.written = l.written) {c c' : Consumer}
    (hc : c'.call = c.call) : c'.written l' = c.written l := by
  unfold Consumer.written
  rw [hl, hc]

theorem ticketFor_congr {l l' : Line δ} (hl : l'.written = l.written) (g : Int64) :
    Consumer.ticketFor g l' = Consumer.ticketFor g l := by
  funext c
  simp only [Consumer.ticketFor, written_congr hl rfl]

/-- A call not yet made is not in the record of the line. -/
theorem Recorded.call_fresh {w : World δ} (hr : Recorded w) :
    w.line.calls.length ∉ w.line.written.map Prod.fst := by
  intro hm
  obtain ⟨⟨k, s⟩, hp, hk⟩ := List.mem_map.mp hm
  obtain ⟨hc, hkc, _⟩ := (hr.noted.wrote k s).mp hp
  have hlt := (List.getElem?_eq_some_iff.mp hkc).1
  have hk : k = w.line.calls.length := hk
  omega

/-- When a call writes, one more thread has written: the one whose call it is. -/
theorem Recorded.written_wrote {w w' : World δ} (hr : Recorded w) {i j k : Nat} {c e : Consumer}
    {s : Int} (hci : w.consumers[i]? = some c) (hck : c.call = some k)
    (hl : w'.line.written = w.line.written ++ [(k, s)]) (he : w.consumers[j]? = some e) :
    e.written w'.line = true ↔ e.written w.line = true ∨ j = i := by
  rw [Consumer.written_iff, Consumer.written_iff, hl, List.map_append]
  constructor
  · rintro ⟨k', hk', hm⟩
    rcases List.mem_append.mp hm with hm | hm
    · exact Or.inl ⟨k', hk', hm⟩
    · rw [List.mem_singleton.mp hm] at hk'
      exact Or.inr (hr.calls j i e c k he hci hk' hck)
  · rintro (⟨k', hk', hm⟩ | rfl)
    · exact ⟨k', hk', List.mem_append_left _ hm⟩
    · rw [hci] at he
      rw [← Option.some.inj he]
      exact ⟨k, hck, List.mem_append_right _ (List.mem_singleton.mpr rfl)⟩

/--
One thread writes, and none of its group that was started after it has: what was
written for the group grows by its command, at the end.
-/
theorem tickets_wrote {g : Int64} {l l' : Line δ} {cs : List Consumer} {i : Nat} {c : Consumer}
    (hci : cs[i]? = some c) (hnot : c.written l = false)
    (hwritten : ∀ j e, cs[j]? = some e → (e.written l' = true ↔ e.written l = true ∨ j = i))
    (hlast : ∀ j e, i < j → cs[j]? = some e → c.group_id = g → e.group_id = g →
      e.written l = false) :
    cs.filterMap (Consumer.ticketFor g l')
      = cs.filterMap (Consumer.ticketFor g l)
        ++ if c.group_id = g then [c.commandInfo.ticket] else [] := by
  have hsame : ∀ (j : Nat) (e : Consumer), j ≠ i → cs[j]? = some e →
      e.ticketFor g l' = e.ticketFor g l := by
    intro j e hne he
    have hiff : e.written l' = e.written l :=
      Bool.eq_iff_iff.mpr ((hwritten j e he).trans (or_iff_left hne))
    simp only [Consumer.ticketFor, hiff]
  by_cases hgc : c.group_id = g
  · have hnow : c.ticketFor g l' = some c.commandInfo.ticket :=
      if_pos ⟨hgc, (hwritten i c hci).mpr (Or.inr rfl)⟩
    rw [filterMap_of_last hci (by simp [Consumer.ticketFor, hnot])
      (fun j e hj he => hsame j e (by omega) he) ?_, hnow, if_pos hgc, Option.toList_some]
    intro j e hij he
    rw [hsame j e (by omega) he]
    refine and_self_iff.mpr (if_neg ?_)
    rintro ⟨hge, hwe⟩
    rw [hlast j e hij he hgc hge] at hwe
    exact absurd hwe Bool.false_ne_true
  · -- of another group: no thread's command for this one has changed
    rw [if_neg hgc, List.append_nil]
    refine List.filterMap_congr ?_
    intro e he
    obtain ⟨j, hj⟩ := List.mem_iff_getElem?.mp he
    rcases eq_or_ne j i with rfl | hne
    · have : e = c := Option.some.inj (hj.symm.trans hci)
      subst this
      simp [Consumer.ticketFor, hgc]
    · exact hsame j e hne hj

/-- A step in which nothing is written and the threads' commands stay as they are. -/
theorem Turn.keep_set {g : Int64} {w w' : World δ} (ht : Turn g w) {i : Nat} {c c' : Consumer}
    (hc : w.consumers[i]? = some c) (hcs : w'.consumers = w.consumers.set i c')
    (he : c'.entry = c.entry) (hw : c'.written w'.line = c.written w.line)
    (hf : w'.frames = w.frames) (hl : w'.line.written = w.line.written) : Turn g w' := by
  obtain ⟨hgroup, hinfo⟩ := Prod.mk.inj he
  have hsame : ∀ e : Consumer, e.written w'.line = e.written w.line := fun e => written_congr hl rfl
  refine ⟨?_, ?_⟩
  · -- every thread is as it was, as far as this is concerned
    have hback : ∀ (j : Nat) (e : Consumer), w'.consumers[j]? = some e → ∃ e₀,
        w.consumers[j]? = some e₀ ∧ e₀.group_id = e.group_id
          ∧ e₀.written w.line = e.written w'.line := by
      intro j e hej
      rw [hcs] at hej
      rcases getElem?_set_cases hc hej with ⟨rfl, rfl⟩ | ⟨_, hej⟩
      · exact ⟨c, hc, hgroup.symm, hw.symm⟩
      · exact ⟨e, hej, rfl, (hsame e).symm⟩
    intro j k d e hjk hd he' hgd hge hwe
    obtain ⟨d₀, hd₀, hgd₀, hwd₀⟩ := hback j d hd
    obtain ⟨e₀, he₀, hge₀, hwe₀⟩ := hback k e he'
    rw [← hwd₀]
    exact ht.ahead j k d₀ e₀ hjk hd₀ he₀ (hgd₀.trans hgd) (hge₀.trans hge) (hwe₀.trans hwe)
  · rw [World.framesOf, hf, hcs]
    refine ht.frames.trans ?_
    rw [ticketFor_congr hl]
    refine (filterMap_set_of_eq hc ?_).symm
    rw [← ticketFor_congr hl]
    have hw' : c.written w'.line = c'.written w'.line := (hsame c).trans hw.symm
    simp only [Consumer.ticketFor, hgroup, hinfo, hw']

theorem turn_step {g : Int64} {w w' : World δ} {a : Act A} (h : SerialStep w a w')
    (hg : InTurn g w a = true) (hr : Recorded w) (ht : Turn g w) : Turn g w' := by
  cases h with
  | unseen hcs hf hl =>
      have hline : ∀ e : Consumer, e.written w'.line = e.written w.line :=
        fun e => written_congr hl rfl
      refine ⟨?_, ?_⟩
      · rw [hcs]
        intro i j c d hij hc hd hgc hgd hw
        rw [hline] at hw ⊢
        exact ht.ahead i j c d hij hc hd hgc hgd hw
      · rw [World.framesOf, hf, hcs, ticketFor_congr hl]
        exact ht.frames
  | moved c c' hc hcs he hcall hf hl => exact ht.keep_set hc hcs he (written_congr hl hcall) hf hl
  | called c c' hc hcs he hnone hnew _ hf hl =>
      refine ht.keep_set hc hcs he ?_ hf hl
      have h0 : c.written w.line = false := by rw [Consumer.written, hnone]
      rw [h0, Consumer.written, hnew, hl]
      exact decide_eq_false hr.call_fresh
  | started g' e hcs hf hl =>
      have hline : ∀ e : Consumer, e.written w'.line = e.written w.line :=
        fun e => written_congr hl rfl
      have hnew : (Consumer.start g' e).written w'.line = false := rfl
      refine ⟨?_, ?_⟩
      · rw [hcs]
        intro i j c d hij hc hd hgc hgd hw
        rcases getElem?_snoc_cases hd with hd | ⟨_, rfl⟩
        · rw [List.getElem?_append_left (by
            have := (List.getElem?_eq_some_iff.mp hd).1; omega)] at hc
          rw [hline] at hw ⊢
          exact ht.ahead i j c d hij hc hd hgc hgd hw
        · rw [hnew] at hw
          exact absurd hw Bool.false_ne_true
      · rw [World.framesOf, hf, hcs, List.filterMap_append]
        have h0 : [Consumer.start g' e].filterMap (Consumer.ticketFor g w'.line) = [] := by
          simp [Consumer.ticketFor, hnew]
        rw [h0, List.append_nil, ticketFor_congr hl]
        exact ht.frames
  | wrote c k hc hci hck hkc hpc hcs hf hl =>
      rename_i i ok
      have hwritten : ∀ (j : Nat) (e : Consumer), w.consumers[j]? = some e →
          (e.written w'.line = true ↔ e.written w.line = true ∨ j = i) :=
        fun j e he => hr.written_wrote hci hck hl he
      have hnot : c.written w.line = false := by
        rw [Consumer.written, hck]
        exact decide_eq_false (hr.not_written hkc hpc)
      have hwriting : w.writing c ≠ [] := by
        simp [World.writing, hck, hkc, hpc]
      have hguard : c.group_id = g →
          ∀ e ∈ w.consumers.take i, e.group_id = g → e.written w.line = true := by
        intro hgc
        simp only [InTurn, hci, decide_eq_true_eq] at hg
        exact hg hgc hwriting
      refine ⟨?_, ?_⟩
      · rw [hcs]
        intro j j' d e hjj hd he hgd hge hw
        rw [hwritten j d hd]
        rcases (hwritten j' e he).mp hw with hw | rfl
        · exact Or.inl (ht.ahead j j' d e hjj hd he hgd hge hw)
        · have : e = c := Option.some.inj (he.symm.trans hci)
          subst this
          refine Or.inl (hguard hge d ?_ hgd)
          exact List.mem_of_getElem? ((List.getElem?_take_of_lt hjj).trans hd)
      · -- a thread behind it that had written would have had it write first
        have hlast : ∀ j e, i < j → w.consumers[j]? = some e → c.group_id = g → e.group_id = g →
            e.written w.line = false := by
          intro j e hij he hgc hge
          refine Bool.eq_false_iff.mpr (fun hwe => ?_)
          rw [ht.ahead i j c e hij hci he hgc hge hwe] at hnot
          exact Bool.false_ne_true hnot.symm
        have hframes := ht.frames
        unfold World.framesOf at hframes ⊢
        rw [hf, hcs, List.filter_append, List.map_append, hframes,
          tickets_wrote hci hnot hwritten hlast]
        by_cases hgc : c.group_id = g
        · simp [hgc]
        · simp [hgc]

/-! ## What reaches the line -/

/-- Where a command sends the gripper. -/
def ServiceClass.target : ServiceClass → Nat
  | .openService => moveServo periodo_ (duty (6 / 100))
  | .closeService => moveServo periodo_ (duty (9 / 100))

theorem ServiceClass.frame (cls : ServiceClass) : IsFrame braces (frameOf cls.code) := by
  cases cls with
  | openService => exact isFrame_openCommand
  | closeService => exact isFrame_closeCommand

theorem position_callOf (cls : ServiceClass) (p : Nat) :
    position p (callOf (frameOf cls.code)).effects = cls.target := by
  cases cls with
  | openService => exact position_uartSend _ _
  | closeService => exact position_uartSend _ _

/-- The group has nothing left to do: no command waits, and each thread has written its own. -/
structure World.Through (w : World δ) (g : Int64) : Prop where
  queue : w.channel.services.commandsInfo g = []
  hands : ∀ d ∈ w.channel.dispatchers, d.heldFor g = []
  threads : ∀ c ∈ w.consumers, c.group_id = g → c.written w.line = true

/-- What holds of the commands on the line, whatever the schedule. -/
structure Delivered (w : World Board) : Prop where
  /-- The bytes written to the port are the frames, one after another. -/
  bytes : w.line.bytesWritten = (w.frames.map (fun f => frameOf f.service)).flatten
  /-- A frame is the command of an accepted command of its group. -/
  accepted : ∀ f ∈ w.frames, ∃ c cls, (f.group_id, c) ∈ w.channel.services.accepted
    ∧ c.ticket = f.ticket ∧ Runnable c cls ∧ f.service = cls.code
  /-- No command is written twice. -/
  once : (w.frames.map Frame.ticket).Nodup
  /-- With one `ALL_BEGINS` for it, a group's threads are started in the order of acceptance. -/
  starts : ∀ g, w.Single g → w.started g <+: forGroup w.channel.services.accepted g
  /-- Once the group is through, every command accepted for it has been written. -/
  complete : ∀ g, w.Through g → ((w.framesOf g).map Frame.ticket).Perm
    ((forGroup w.channel.services.accepted g).map CommandInfo.ticket)
  /-- With the board idle the gripper is where the frame written last sends it. -/
  position : w.line.device.todo = [] → w.line.wire.toMcu = [] →
    ∀ f, w.frames.getLast? = some f →
      ∃ cls : ServiceClass, f.service = cls.code ∧ w.line.device.ta1ccr1 = cls.target

/-- The commands of a group reach the line in the order of acceptance. -/
structure InOrder (w : World δ) (g : Int64) : Prop where
  written : (w.framesOf g).map Frame.ticket
    <+: (forGroup w.channel.services.accepted g).map CommandInfo.ticket
  complete : w.Through g → (w.framesOf g).map Frame.ticket
    = (forGroup w.channel.services.accepted g).map CommandInfo.ticket

/-- What a thread's call is for. -/
theorem Kept.called {w : World δ} (hk : Kept w) {i k : Nat} {c : Consumer}
    (hc : w.consumers[i]? = some c) (hck : c.call = some k) :
    ∃ cls hc, Runnable c.commandInfo cls ∧ w.line.calls[k]? = some hc ∧ hc.service = cls.code := by
  have hof : ∀ {cls : ServiceClass} {hc : HandlingCall}, c.Called w.line cls hc →
      ∃ cls hc, Runnable c.commandInfo cls ∧ w.line.calls[k]? = some hc
        ∧ hc.service = cls.code := by
    intro cls hc ⟨hr, hs, k', hk', hl⟩
    rw [hck] at hk'
    rw [← Option.some.inj hk'] at hl
    exact ⟨cls, hc, hr, hl, hs⟩
  have hf := hk i c hc
  cases hpc : c.pc with
  | createFromString =>
      rw [hpc] at hf
      exact absurd (hf.symm.trans hck) (by simp)
  | execute responsible command => rw [hpc] at hf; obtain ⟨_, _, _, h⟩ := hf; exact hof h
  | lock reply_info => rw [hpc] at hf; obtain ⟨_, _, _, _, h, _⟩ := hf; exact hof h
  | emit reply_info => rw [hpc] at hf; obtain ⟨_, _, _, _, h, _⟩ := hf; exact hof h
  | unlock => rw [hpc] at hf; obtain ⟨_, _, _, h, _⟩ := hf; exact hof h
  | ended => rw [hpc] at hf; obtain ⟨_, _, _, h, _⟩ := hf; exact hof h
  | dropped => rw [hpc] at hf; exact hf.elim
  | thrown e => rw [hpc] at hf; exact hf.elim

/-- A frame was written by a thread for its own command, with the code of its class. -/
theorem Recorded.written_by {w : World δ} (hr : Recorded w) (hk : Kept w) {f : Frame}
    (hf : f ∈ w.frames) : ∃ (i : Nat) (c : Consumer) (cls : ServiceClass),
      w.consumers[i]? = some c ∧ Runnable c.commandInfo cls
        ∧ f = ⟨c.group_id, c.commandInfo.ticket, cls.code⟩ := by
  obtain ⟨n, hn⟩ := List.mem_iff_getElem?.mp hf
  obtain ⟨⟨k, s⟩, hp, i, c, hc, hck, hfc⟩ := forall₂_getElem?_left hr.frames hn
  obtain ⟨cls, hcall, hrun, hl, hs⟩ := hk.called hc hck
  obtain ⟨hcall', hl', _, hs'⟩ := (hr.noted.wrote k s).mp (List.mem_of_getElem? hp)
  have hl' : w.line.calls[k]? = some hcall' := hl'
  rw [hl] at hl'
  rw [← Option.some.inj hl'] at hs'
  refine ⟨i, c, cls, hc, hrun, ?_⟩
  rw [hfc]
  exact congrArg _ (hs'.symm.trans hs)

/-- The threads started and the commands accepted for a group, in a group that is through. -/
theorem Recorded.complete {w : World δ} (hr : Recorded w) (hb : Books w) (hk : Kept w) {g : Int64}
    (ht : w.Through g) : ((w.framesOf g).map Frame.ticket).Perm
      ((forGroup w.channel.services.accepted g).map CommandInfo.ticket) := by
  have hn1 : ((w.framesOf g).map Frame.ticket).Nodup :=
    (hr.once hb).sublist (List.filter_sublist.map _)
  have hn2 : ((forGroup w.channel.services.accepted g).map CommandInfo.ticket).Nodup := by
    have hn : (w.channel.services.accepted.map (fun p => p.2.ticket)).Nodup := by
      rw [hb.accounted.tickets]; exact List.nodup_range
    unfold forGroup
    rw [List.map_map]
    exact hn.sublist (List.filter_sublist.map _)
  refine (List.perm_ext_iff_of_nodup hn1 hn2).mpr ?_
  intro t
  constructor
  · intro hm
    obtain ⟨f, hf, rfl⟩ := List.mem_map.mp hm
    obtain ⟨hf, hg⟩ := List.mem_filter.mp hf
    obtain ⟨i, c, cls, hc, _, rfl⟩ := hr.written_by hk hf
    have hacc := hb.mem_accepted hc
    have hg : c.group_id = g := eq_of_beq hg
    rw [Consumer.entry, hg] at hacc
    exact List.mem_map_of_mem (mem_forGroup.mpr hacc)
  · intro hm
    obtain ⟨c, hc, rfl⟩ := List.mem_map.mp hm
    rw [hb.accounted.queues, ht.queue, List.append_nil, mem_forGroup] at hc
    -- a popped command that nobody holds has a thread
    rcases List.mem_append.mp (hb.custody.mem_iff.mp hc) with hheld | hthread
    · obtain ⟨d, hd, hdc⟩ := List.mem_flatMap.mp hheld
      have h0 := ht.hands d hd
      have hmem : c ∈ d.heldFor g := mem_forGroup.mpr hdc
      rw [h0] at hmem
      exact absurd hmem (List.not_mem_nil)
    · obtain ⟨e, he, hec⟩ := List.mem_map.mp hthread
      obtain ⟨hge, hce⟩ := Prod.mk.inj hec
      obtain ⟨i, hi⟩ := List.mem_iff_getElem?.mp he
      obtain ⟨f, hf, hfg, hft⟩ := hr.frame_of_written hi (ht.threads e he hge)
      rw [← hce, ← hft]
      refine List.mem_map_of_mem (List.mem_filter.mpr ⟨hf, ?_⟩)
      rw [hfg, hge]
      exact beq_self_eq_true g

/-- The threads of a group have been started in the order of acceptance. -/
theorem Starts.prefix_accepted {g : Int64} {w : World δ} (h : Starts g w) (hb : Books w)
    (hs : w.Single g) : w.started g <+: forGroup w.channel.services.accepted g := by
  rw [hb.accounted.queues, h.inOrder hs, List.append_assoc]
  exact List.prefix_append ..

theorem delivered {w : World Board} (hb : Books w) (hk : Kept w) (hr : Recorded w)
    (hs : ∀ g, Starts g w) (hw : OnWire w.line) : Delivered w where
  bytes := by
    have hmap := congrArg (List.map frameOf) hr.services
    rw [List.map_map, List.map_map] at hmap
    exact congrArg List.flatten hmap
  accepted := by
    intro f hf
    obtain ⟨i, c, cls, hc, hrun, rfl⟩ := hr.written_by hk hf
    exact ⟨c.commandInfo, cls, hb.mem_accepted hc, rfl, hrun, rfl⟩
  once := hr.once hb
  starts := fun g hg => (hs g).prefix_accepted hb hg
  complete := fun g ht => hr.complete hb hk ht
  position := by
    intro htodo hmcu f hlast
    obtain ⟨fs, hfs⟩ := List.getLast?_eq_some_iff.mp hlast
    have hcode : ∀ f ∈ w.frames, ∃ cls : ServiceClass, f.service = cls.code := by
      intro f hf
      obtain ⟨_, _, cls, _, _, rfl⟩ := hr.written_by hk hf
      exact ⟨cls, rfl⟩
    obtain ⟨cls, hcls⟩ := hcode f (List.mem_of_getLast? hlast)
    refine ⟨cls, hcls, ?_⟩
    have hframes : ∀ p ∈ w.line.written, IsFrame braces (frameOf p.2) := by
      intro p hp
      have hm : p.2 ∈ w.frames.map Frame.service := by
        rw [← hr.services]; exact List.mem_map_of_mem hp
      obtain ⟨f, hf, hfp⟩ := List.mem_map.mp hm
      obtain ⟨cls, hc⟩ := hcode f hf
      rw [← hfp, hc]
      exact cls.frame
    -- the effects of the last call decide
    have hhandled : w.line.device.handled
        = w.frames.map (fun f => callOf (frameOf f.service)) := by
      rw [hw.handled hmcu hframes]
      have := congrArg (List.map (fun s => callOf (frameOf s))) hr.services
      rwa [List.map_map, List.map_map] at this
    have hservo := hw.servo
    rw [htodo, hhandled, hfs, List.map_append, List.flatMap_append, position_append, List.map_cons,
      List.map_nil, List.flatMap_cons, List.flatMap_nil, List.append_nil, hcls] at hservo
    exact hservo.trans (position_callOf cls _)

/-- In turn, the commands written for a group are the first of those started for it. -/
theorem Turn.prefix_started {g : Int64} {w : World δ} (h : Turn g w) :
    (w.framesOf g).map Frame.ticket <+: (w.started g).map CommandInfo.ticket := by
  have hstarted : w.started g
      = (w.consumers.filter (fun c => c.group_id == g)).map Consumer.commandInfo := by
    unfold World.started forGroup
    rw [List.filter_map, List.map_map]
    rfl
  have hwritten : w.consumers.filterMap (Consumer.ticketFor g w.line)
      = ((w.consumers.filter (fun c => c.group_id == g)).filter
        (fun c => c.written w.line)).map (fun c => c.commandInfo.ticket) := by
    induction w.consumers with
    | nil => rfl
    | cons c l ih =>
        rw [List.filterMap_cons, ih]
        by_cases hg : c.group_id = g <;> by_cases hw : c.written w.line = true <;>
          simp [Consumer.ticketFor, hg, hw]
  have hclosed : (w.consumers.filter (fun c => c.group_id == g)).Pairwise
      (fun c d => d.written w.line = true → c.written w.line = true) := by
    rw [List.pairwise_filter]
    refine List.pairwise_iff_getElem.mpr ?_
    intro i j hi hj hij hgc hgd hw
    exact h.ahead i j _ _ hij (List.getElem?_eq_getElem hi) (List.getElem?_eq_getElem hj)
      (eq_of_beq hgc) (eq_of_beq hgd) hw
  rw [h.frames, hwritten, hstarted, List.map_map]
  exact (filter_prefix_of_pairwise hclosed).map _

/-! ## Any run -/

theorem recorded_run {module_id : String} {d : δ} {as : List (Act A)} {w : World δ}
    {G : World δ → Act A → Prop}
    (hr : Run (World.step parse dev) G (World.start module_id d) as w) : Ledger w ∧ Recorded w := by
  refine hr.invariant (I := fun w => Ledger w ∧ Recorded w)
    ⟨ledger_start module_id d, recorded_start module_id d⟩ ?_
  intro u v a ⟨hl, hrec⟩ _ hst
  have h := World.step_cases hst
  exact ⟨ledger_step h hl, recorded_step h hl.kept hrec⟩

theorem turn_run {module_id : String} {d : δ} {as : List (Act A)} {w : World δ} (g : Int64)
    (hr : Run (World.step parse dev) (fun w a => InTurn g w a = true) (World.start module_id d)
      as w) : Turn g w := by
  have hboth : (Ledger w ∧ Recorded w) ∧ Turn g w := by
    refine hr.invariant (I := fun w => (Ledger w ∧ Recorded w) ∧ Turn g w)
      ⟨⟨ledger_start module_id d, recorded_start module_id d⟩, turn_start g module_id d⟩ ?_
    intro u v a ⟨⟨hl, hrec⟩, ht⟩ hg hst
    have h := World.step_cases hst
    exact ⟨⟨ledger_step h hl, recorded_step h hl.kept hrec⟩,
      turn_step (serialStep h hl.kept) hg hrec ht⟩
  exact hboth.2

/--
**What reaches the gripper, and in which order.** In every run the commands written
are accepted ones, none twice, all of them once a group is through, and the gripper
goes where the last one written sends it. In a run in which the threads of a group
write in turn, with one `ALL_BEGINS` for it, they are written in the order of
acceptance.
-/
theorem delivered_run (parse : String → Option Json) (module_id : String) :
    (∀ (as : List (Act Unit)) (w : World Board),
      Run (World.step parse firmware) NoGuard (World.start module_id Board.start) as w →
      Delivered w)
    ∧ ∀ (g : Int64) (as : List (Act Unit)) (w : World Board),
      Run (World.step parse firmware) (fun w a => InTurn g w a = true)
        (World.start module_id Board.start) as w →
      w.Single g → InOrder w g := by
  refine ⟨?_, ?_⟩
  · intro as w hr
    obtain ⟨hl, hrec⟩ := recorded_run hr
    obtain ⟨las, hline⟩ := line_project (H := NoGuard) (fun _ _ _ _ _ => trivial) hr
    have hwire : OnWire w.line := hline.invariant onWire_start (fun hw _ hst => onWire_step hst hw)
    exact delivered hl.books hl.kept hrec (fun g => starts_run g hr) hwire
  · intro g as w hr hsingle
    obtain ⟨hl, hrec⟩ := recorded_run hr
    have hfront : (w.framesOf g).map Frame.ticket
        <+: (forGroup w.channel.services.accepted g).map CommandInfo.ticket :=
      (turn_run g hr).prefix_started.trans
        (((starts_run g hr).prefix_accepted hl.books hsingle).map _)
    refine ⟨hfront, fun ht => ?_⟩
    exact hfront.eq_of_length (hrec.complete hl.books hl.kept ht).length_eq

/-- The thread of the `OPEN-GRIP` writes, and then the one of the `SHUT-GRIP`. -/
def inTurnSession : List (Act Unit) :=
  twoThreads ++ times 4 (.consumeService 0 true) ++ times 4 (.consumeService 1 true)

set_option maxRecDepth 10000 in
theorem delivered_run_two :
    ∃ w, Run (World.step sessionParse firmware) (fun w a => InTurn 7 w a = true)
        (World.start "handling" Board.start) inTurnSession w
      ∧ (w.framesOf 7).map Frame.ticket = [0, 1] ∧ Delivered w ∧ InOrder w 7 := by
  have hexec : (exec (checked (InTurn 7) (World.step sessionParse firmware))
      (World.start "handling" Board.start) inTurnSession).any
      (fun w => w.channel.dispatchers.length == 1 && (w.framesOf 7).map Frame.ticket == [0, 1])
      = true := by decide +kernel
  obtain ⟨w, hw, hend⟩ := exists_of_exec hexec
  obtain ⟨hlen, htickets⟩ := Bool.and_eq_true_iff.mp hend
  have hr := run_of_exec_checked hw
  have hsingle : w.Single 7 := by
    intro i j d e hd he _ _
    have hi := (List.getElem?_eq_some_iff.mp hd).1
    have hj := (List.getElem?_eq_some_iff.mp he).1
    rw [eq_of_beq hlen] at hi hj
    omega
  exact ⟨w, hr, eq_of_beq htickets,
    (delivered_run sessionParse "handling").1 _ w (hr.weaken (fun _ _ _ => trivial)),
    (delivered_run sessionParse "handling").2 7 _ w hr hsingle⟩

set_option maxRecDepth 10000 in
/--
The two threads the other way round. One `ALL_BEGINS` after both acceptances, both
commands written, and the `SHUT-GRIP` accepted last goes out first.
-/
theorem not_inOrder_two :
    ¬ ∀ (as : List (Act Unit)) (w : World Board) (g : Int64),
      Run (World.step sessionParse firmware) NoGuard (World.start "handling" Board.start) as w →
      w.channel.dispatchers.length = 1 → InOrder w g := by
  intro hall
  have hexec : (exec (World.step sessionParse firmware) (World.start "handling" Board.start)
      (twoThreads ++ times 4 (.consumeService 1 true) ++ times 4 (.consumeService 0 true))).any
      (fun w => w.channel.dispatchers.length == 1 && (w.framesOf 7).map Frame.ticket == [1, 0]
        && (forGroup w.channel.services.accepted 7).map CommandInfo.ticket == [0, 1]) = true := by
    decide +kernel
  obtain ⟨w, hw, hend⟩ := exists_of_exec hexec
  obtain ⟨hend, haccepted⟩ := Bool.and_eq_true_iff.mp hend
  obtain ⟨hlen, hframes⟩ := Bool.and_eq_true_iff.mp hend
  have hwritten := (hall _ w 7 (run_of_exec hw) (eq_of_beq hlen)).written
  rw [eq_of_beq hframes, eq_of_beq haccepted] at hwritten
  exact absurd hwritten (by decide)

end HandlingModule.AIO
