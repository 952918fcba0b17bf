import HandlingModule.Serial.Board

/-!
# One transaction at a time

A transaction is one `handlingService` call from its `serialPuts` until it has polled 0
after its reply. `Exclusive` is the guard under which the line is used as the code means
it to be used: a command is written only while no other call is in its
transaction. Under that guard the line is always in one of two situations, and
this is the invariant everything here rests on: nothing is going on (`Quiet`), or
exactly one call is being served (`Busy`), and then the command is still on its
way to the board or its reply is on its way back.
-/

namespace HandlingModule.Serial

open Firmware Framing Replace

/-- The codes `handlingService` knows. -/
def Known (service : Int) : Prop := service = 0 ∨ service = 1 ∨ service = 2

instance (service : Int) : Decidable (Known service) :=
  inferInstanceAs (Decidable (_ ∨ _ ∨ _))

/-- Everything the board says to a command. -/
def replyText (service : Int) : List Byte := transmitted (answer (frameOf service))

/-- A call that has written its command and not yet polled 0 after its whole reply. -/
def HandlingCall.inTransaction (c : HandlingCall) : Bool :=
  match c.pc with
  | .loop => !c.reader.complete
  | .serialDataAvail | .serialGetchar => true
  | _ => false

/-- A command is written only while no other call is in its transaction. -/
def Exclusive {δ A : Type} (l : Line δ) : LineAct A → Bool
  | .call service => Known service
  | .run i _ =>
      match l.calls[i]? with
      | some c => decide (c.pc = .serialPuts → l.calls.all (fun d => !d.inTransaction) = true)
      | none => true
  | .device _ => true

/-! ## What a command is answered with -/

theorem frameOf_mem {service : Int} (h : Known service) : frameOf service ∈ commands := by
  rcases h with rfl | rfl | rfl
  · exact List.mem_cons_self ..
  · exact List.mem_cons_of_mem _ (List.mem_cons_self ..)
  · exact List.mem_cons_of_mem _ (List.mem_cons_of_mem _ (List.mem_cons_self ..))

/-- The reply is one frame, with at most a debug text before it. -/
theorem replyText_split {service : Int} (h : Known service) :
    ∃ n, IsNoise braces n ∧ replyText service = n ++ actionFinished := by
  have hm := frameOf_mem h
  unfold replyText
  rw [transmitted_answer]
  by_cases ht : frameOf service = toggleCommand
  · exact ⟨toggleText, isNoise_toggleText, by rw [if_pos ht]⟩
  · exact ⟨[], by simp [IsNoise], by rw [if_neg ht, if_pos hm]; rfl⟩

/-- The last thing the handler does for a command is to send the reply. -/
theorem answer_ends {f : List Byte} (hf : f ∈ commands) :
    ∃ es, answer f = es ++ actionFinished.map Effect.transmit := by
  have hu : uartSend (CString.literal actionFinished) = actionFinished.map Effect.transmit := by
    rw [uartSend, CString.untilNul_literal texts_nul_free.2.2.2.1]
  unfold answer
  split
  · exact ⟨[_], by rw [hu]; rfl⟩
  · split
    · exact ⟨[_], by rw [hu]; rfl⟩
    · split
      · obtain ⟨es, hes⟩ := Option.isSome_iff_exists.mp toggle_isSome
        rw [hes, Option.getD_some]
        unfold toggle at hes
        obtain ⟨down, _, hes⟩ := Option.bind_eq_some_iff.mp hes
        obtain ⟨up, _, hes⟩ := Option.bind_eq_some_iff.mp hes
        exact ⟨_, by rw [← Option.some.inj hes, hu]⟩
      · simp_all [commands]

/-- A handler with nothing left to send has nothing left to do. -/
theorem todo_nil {f : List Byte} (hf : f ∈ commands) {done todo : List Effect}
    (h : done ++ todo = answer f) (hq : transmitted todo = []) : todo = [] := by
  obtain ⟨es, hes⟩ := answer_ends hf
  have hmap : ∀ l : List Byte, transmitted (l.map Effect.transmit) = l := by
    intro l
    induction l with
    | nil => rfl
    | cons x l ih => rw [List.map_cons, transmitted_transmit, ih]
  rw [hes] at h
  rcases List.append_eq_append_iff.mp h with ⟨m, _, hm⟩ | ⟨m, _, hm⟩
  · -- all of the reply would still be to come
    rw [hm, transmitted_append, hmap] at hq
    exact absurd (List.append_eq_nil_iff.mp hq).2 (by decide)
  · obtain ⟨l1, l2, _, _, h2⟩ := List.map_eq_append_iff.mp hm
    rw [← h2, hmap] at hq
    rw [← h2, hq]; rfl

/-! ## The two situations -/

/-- Nothing is going on. -/
structure Quiet (l : Line Board) : Prop where
  toMcu : l.wire.toMcu = []
  toHost : l.wire.toHost = []
  todo : l.device.todo = []
  mcu : Holds l.device.mcu []
  free : ∀ (i : Nat) (c : HandlingCall), l.calls[i]? = some c → c.inTransaction = false

/-- The command of `c` is on its way: the board holds its first bytes. -/
structure Receiving (l : Line Board) (c : HandlingCall) : Prop where
  heard : c.heard = []
  toHost : l.wire.toHost = []
  todo : l.device.todo = []
  toMcu : l.wire.toMcu ≠ []
  split : ∃ q, q ++ l.wire.toMcu = frameOf c.service ∧ Holds l.device.mcu q

/-- The reply to `c` is on its way: heard, on the wire, and still to be sent. -/
structure Replying (l : Line Board) (c : HandlingCall) : Prop where
  toMcu : l.wire.toMcu = []
  mcu : Holds l.device.mcu []
  text : c.heard ++ (l.wire.toHost ++ transmitted l.device.todo) = replyText c.service
  rest : ∃ done, done ++ l.device.todo = answer (frameOf c.service)

/-- What is on its way is a matter of the wire, the board and what the call has heard. -/
theorem phase_congr {l l' : Line Board} {c c' : HandlingCall}
    (h : Receiving l c ∨ Replying l c) (hwire : l'.wire = l.wire)
    (hdevice : l'.device = l.device) (hheard : c'.heard = c.heard)
    (hservice : c'.service = c.service) : Receiving l' c' ∨ Replying l' c' := by
  rcases h with hr | hr
  · refine Or.inl ⟨hheard.trans hr.heard, ?_, ?_, ?_, ?_⟩
    · rw [hwire]; exact hr.toHost
    · rw [hdevice]; exact hr.todo
    · rw [hwire]; exact hr.toMcu
    · rw [hwire, hdevice, hservice]; exact hr.split
  · refine Or.inr ⟨?_, ?_, ?_, ?_⟩
    · rw [hwire]; exact hr.toMcu
    · rw [hdevice]; exact hr.mcu
    · rw [hwire, hdevice, hheard, hservice]; exact hr.text
    · rw [hdevice, hservice]; exact hr.rest

/-- Call `i` is being served. -/
structure Busy (l : Line Board) (i : Nat) (c : HandlingCall) : Prop where
  call : l.calls[i]? = some c
  inside : c.inTransaction = true
  alone : ∀ (j : Nat) (d : HandlingCall), l.calls[j]? = some d → d.inTransaction = true → j = i
  waiting : c.pc = .serialGetchar → l.wire.toHost ≠ []
  last : l.written.getLast? = some (i, c.service)
  phase : Receiving l c ∨ Replying l c

/-- The line as it is when commands are written one at a time. -/
structure Serialized (l : Line Board) : Prop where
  noted : Noted l
  onWire : OnWire l
  up : l.wire.down = false
  known : ∀ (i : Nat) (c : HandlingCall), l.calls[i]? = some c → Known c.service
  served : ∀ (i : Nat) (c : HandlingCall), l.calls[i]? = some c → c.pc.wrote = true →
    c.inTransaction = false → c.heard = replyText c.service
  phase : Quiet l ∨ ∃ i c, Busy l i c

theorem serialized_start : Serialized (Line.start Board.start) where
  noted := noted_start _
  onWire := onWire_start
  up := rfl
  known := by intro i c h; exact absurd h (by simp [Line.start])
  served := by intro i c h; exact absurd h (by simp [Line.start])
  phase := Or.inl ⟨rfl, rfl, rfl, holds_powerUp, by intro i c h; exact absurd h (by simp [Line.start])⟩

/-- A call that has only been started takes no part. -/
theorem serialized_call {l l' : Line Board} {service : Int} (hl : Serialized l)
    (hk : Known service) (h : l.step firmware (.call service) = some l') : Serialized l' := by
  have hnoted := noted_step h hl.noted
  have hwire := onWire_step h hl.onWire
  have heq := line_call h
  subst heq
  refine ⟨hnoted, hwire, hl.up, ?_, ?_, ?_⟩
  · intro i c hc
    rcases getElem?_snoc_cases hc with hc | ⟨_, rfl⟩
    · exact hl.known i c hc
    · exact hk
  · intro i c hc hw hin
    rcases getElem?_snoc_cases hc with hc | ⟨_, rfl⟩
    · exact hl.served i c hc hw hin
    · exact absurd hw Bool.false_ne_true
  · rcases hl.phase with hq | ⟨i, c, hb⟩
    · refine Or.inl ⟨hq.toMcu, hq.toHost, hq.todo, hq.mcu, ?_⟩
      intro j d hd
      rcases getElem?_snoc_cases hd with hd | ⟨_, rfl⟩
      · exact hq.free j d hd
      · rfl
    · refine Or.inr ⟨i, c, ?_, hb.inside, ?_, hb.waiting, hb.last, ?_⟩
      · exact (List.getElem?_append_left (List.getElem?_eq_some_iff.mp hb.call).1).trans hb.call
      · intro j d hd hin
        rcases getElem?_snoc_cases hd with hd | ⟨_, rfl⟩
        · exact hb.alone j d hd hin
        · exact absurd hin Bool.false_ne_true
      · exact phase_congr hb.phase rfl rfl rfl rfl

/-- The board takes a byte of the command it is being sent. -/
theorem receiving_byte {l : Line Board} {c : HandlingCall} {dato : Byte} {rest : List Byte}
    {mcu : Mcu} {call : Option Call} (hk : Known c.service) (hr : Receiving l c)
    (hwire : l.wire.toMcu = dato :: rest) (hisr : usci0RxIsr l.device.mcu dato = some (mcu, call)) :
    (rest ≠ [] ∧ call = none ∧ ∃ q, q ++ rest = frameOf c.service ∧ Holds mcu q)
      ∨ (rest = [] ∧ call = some (callOf (frameOf c.service)) ∧ Holds mcu []) := by
  obtain ⟨q, hq, hm⟩ := hr.split
  obtain ⟨hcall, hm'⟩ := isr_some hm hisr
  have hf := (commands_isFrame (frameOf_mem hk)).1
  rw [hwire] at hq
  have hq' : frameOf c.service = (q ++ [dato]) ++ rest := by rw [← hq]; simp
  by_cases hrest : rest = []
  · -- the last byte: the frame closes
    rw [hrest, List.append_nil] at hq'
    rw [push_of_isFrame braces hm.pending (hq' ▸ hf)] at hcall hm'
    exact Or.inr ⟨hrest, by rw [hq', hcall]; rfl, hm'⟩
  · have ho := hf.isOpen_prefix hq' (by simp) hrest
    rw [push_of_isOpen braces hm.pending ho] at hcall hm'
    exact Or.inl ⟨hrest, hcall, _, hq'.symm, hm'⟩

theorem serialized_device {l l' : Line Board} (hl : Serialized l)
    (h : l.step firmware (.device ()) = some l') : Serialized l' := by
  have hnoted := noted_step h hl.noted
  have hwire := onWire_step h hl.onWire
  obtain ⟨d, wire, hd, rfl⟩ := line_device h
  rcases firmware_cases hd with ⟨p, t, todo, htodo, rfl, rfl⟩ | ⟨x, todo, htodo, rfl, rfl⟩
    | ⟨dato, rest, mcu, call, htodo, hmcu, hisr, rfl, rfl⟩
  · -- the servo moves: only while a command is being answered
    refine ⟨hnoted, hwire, hl.up, hl.known, hl.served, ?_⟩
    rcases hl.phase with hq | ⟨i, c, hb⟩
    · rw [hq.todo] at htodo; exact absurd htodo (by simp)
    · refine Or.inr ⟨i, c, hb.call, hb.inside, hb.alone, hb.waiting, hb.last, ?_⟩
      rcases hb.phase with hr | hr
      · rw [hr.todo] at htodo; exact absurd htodo (by simp)
      · obtain ⟨done, hdone⟩ := hr.rest
        have htext := hr.text
        rw [htodo] at hdone htext
        exact Or.inr ⟨hr.toMcu, hr.mcu, htext, _, by rw [← hdone]; exact List.append_assoc _ [_] _⟩
  · -- a byte of the reply goes out
    refine ⟨hnoted, hwire, hl.up, hl.known, hl.served, ?_⟩
    rcases hl.phase with hq | ⟨i, c, hb⟩
    · rw [hq.todo] at htodo; exact absurd htodo (by simp)
    · refine Or.inr ⟨i, c, hb.call, hb.inside, hb.alone, ?_, hb.last, ?_⟩
      · intro _
        exact List.append_ne_nil_of_right_ne_nil _ (by simp)
      · rcases hb.phase with hr | hr
        · rw [hr.todo] at htodo; exact absurd htodo (by simp)
        · obtain ⟨done, hdone⟩ := hr.rest
          have htext := hr.text
          rw [htodo] at hdone htext
          refine Or.inr ⟨hr.toMcu, hr.mcu, ?_, _, by rw [← hdone]; exact List.append_assoc _ [_] _⟩
          rw [← htext, transmitted_transmit, List.append_assoc]; rfl
  · -- a byte of the command comes in
    refine ⟨hnoted, hwire, hl.up, hl.known, hl.served, ?_⟩
    rcases hl.phase with hq | ⟨i, c, hb⟩
    · rw [hq.toMcu] at hmcu; exact absurd hmcu (by simp)
    · refine Or.inr ⟨i, c, hb.call, hb.inside, hb.alone, hb.waiting, hb.last, ?_⟩
      rcases hb.phase with hr | hr
      · rcases receiving_byte (hl.known i c hb.call) hr hmcu hisr with
          ⟨hrest, hcall, q, hq, hm⟩ | ⟨hrest, hcall, hm⟩
        · exact Or.inl ⟨hr.heard, hr.toHost, by rw [hcall]; rfl, hrest, q, hq, hm⟩
        · refine Or.inr ⟨hrest, hm, ?_, [], by rw [hcall]; rfl⟩
          rw [hr.heard, hcall]
          show [] ++ (l.wire.toHost ++ _) = _
          rw [hr.toHost]; rfl
      · rw [hr.toMcu] at hmcu; exact absurd hmcu (by simp)

/-! ## Steps of a call -/

/-- A step of call `i` outside a transaction that leaves the wire alone. -/
theorem serialized_outside {l l' : Line Board} {i : Nat} {c c' : HandlingCall} (hl : Serialized l)
    (hnoted : Noted l') (honWire : OnWire l') (hc : l.calls[i]? = some c)
    (hl' : l' = { l with calls := l.calls.set i c' })
    (hin : c.inTransaction = false) (hin' : c'.inTransaction = false)
    (hsv : c'.service = c.service)
    (hserved : c'.pc.wrote = true → c'.heard = replyText c'.service) : Serialized l' := by
  subst hl'
  refine ⟨hnoted, honWire, hl.up, ?_, ?_, ?_⟩
  · intro j d hd
    rcases getElem?_set_cases hc hd with ⟨rfl, rfl⟩ | ⟨_, hd⟩
    · rw [hsv]; exact hl.known j c hc
    · exact hl.known j d hd
  · intro j d hd hw hind
    rcases getElem?_set_cases hc hd with ⟨rfl, rfl⟩ | ⟨_, hd⟩
    · exact hserved hw
    · exact hl.served j d hd hw hind
  · rcases hl.phase with hq | ⟨k, d, hb⟩
    · refine Or.inl ⟨hq.toMcu, hq.toHost, hq.todo, hq.mcu, ?_⟩
      intro j e he
      rcases getElem?_set_cases hc he with ⟨rfl, rfl⟩ | ⟨_, he⟩
      · exact hin'
      · exact hq.free j e he
    · have hki : k ≠ i := by
        intro hki
        subst hki
        have : d = c := Option.some.inj (hb.call.symm.trans hc)
        rw [← this, hb.inside] at hin
        exact absurd hin (by simp)
      refine Or.inr ⟨k, d, ?_, hb.inside, ?_, hb.waiting, hb.last, ?_⟩
      · exact (List.getElem?_set_ne hki.symm).trans hb.call
      · intro j e he hine
        rcases getElem?_set_cases hc he with ⟨rfl, rfl⟩ | ⟨_, he⟩
        · rw [hin'] at hine; exact absurd hine (by simp)
        · exact hb.alone j e he hine
      · exact phase_congr hb.phase rfl rfl rfl rfl

/-- A call in its transaction is the one being served. -/
theorem busy_of_inside {l : Line Board} {i : Nat} {c : HandlingCall} (hl : Serialized l)
    (hc : l.calls[i]? = some c) (hin : c.inTransaction = true) : Busy l i c := by
  rcases hl.phase with hq | ⟨k, d, hb⟩
  · have := hq.free i c hc
    rw [hin] at this
    exact absurd this (by simp)
  · have hki : i = k := hb.alone i c hc hin
    subst hki
    have : d = c := Option.some.inj (hb.call.symm.trans hc)
    rwa [this] at hb

/-- A step of the call being served that keeps it in its transaction. -/
theorem serialized_inside {l l' : Line Board} {i : Nat} {c c' : HandlingCall} {wire : Wire}
    (hl : Serialized l) (hnoted : Noted l') (honWire : OnWire l') (hc : l.calls[i]? = some c)
    (hl' : l' = { l with wire := wire, calls := l.calls.set i c' })
    (hin : c.inTransaction = true) (hin' : c'.inTransaction = true)
    (hsv : c'.service = c.service) (hup : wire.down = false)
    (hwait : c'.pc = .serialGetchar → wire.toHost ≠ [])
    (hphase : Receiving l c ∨ Replying l c → Receiving l' c' ∨ Replying l' c') : Serialized l' := by
  have hb := busy_of_inside hl hc hin
  have hi : i < l.calls.length := (List.getElem?_eq_some_iff.mp hc).1
  have hph := hphase hb.phase
  subst hl'
  refine ⟨hnoted, honWire, hup, ?_, ?_, ?_⟩
  · intro j d hd
    rcases getElem?_set_cases hc hd with ⟨rfl, rfl⟩ | ⟨_, hd⟩
    · rw [hsv]; exact hl.known j c hc
    · exact hl.known j d hd
  · intro j d hd hw hind
    rcases getElem?_set_cases hc hd with ⟨rfl, rfl⟩ | ⟨_, hd⟩
    · rw [hin'] at hind; exact absurd hind (by simp)
    · exact hl.served j d hd hw hind
  · refine Or.inr ⟨i, c', List.getElem?_set_self hi, hin', ?_, hwait, ?_, hph⟩
    · intro j d hd hind
      rcases getElem?_set_cases hc hd with ⟨rfl, _⟩ | ⟨_, hd⟩
      · rfl
      · exact hb.alone j d hd hind
    · rw [hsv]; exact hb.last

/-- The reply is complete only when there is nothing left to hear. -/
theorem replying_complete {l : Line Board} {i : Nat} {c : HandlingCall} (hl : Serialized l)
    (hb : Busy l i c) (hcomp : c.reader.complete = true) :
    Replying l c ∧ c.heard = replyText c.service ∧ l.wire.toHost = [] ∧ l.device.todo = [] := by
  have hk := hl.known i c hb.call
  have hok := (hl.noted.ok i c hb.call).reader
  rw [hok] at hcomp
  obtain ⟨n, hn, htext⟩ := replyText_split hk
  rcases hb.phase with hr | hr
  · rw [hr.heard] at hcomp
    exact absurd hcomp (by decide)
  · have heq := hr.text
    rw [htext] at heq
    have hall : c.heard = n ++ actionFinished :=
      eq_of_complete hn isFrame_actionFinished heq hcomp
    rw [hall] at heq
    have hrest := List.append_cancel_left (heq.trans (List.append_nil _).symm)
    obtain ⟨h1, h2⟩ := List.append_eq_nil_iff.mp hrest
    obtain ⟨done, hdone⟩ := hr.rest
    exact ⟨hr, by rw [htext, hall], h1, todo_nil (frameOf_mem hk) hdone h2⟩

/-- The call being served finds its reply complete: its transaction ends. -/
theorem serialized_end {l l' : Line Board} {i : Nat} {c c' : HandlingCall} (hl : Serialized l)
    (hnoted : Noted l') (honWire : OnWire l') (hc : l.calls[i]? = some c)
    (hl' : l' = { l with calls := l.calls.set i c' })
    (hin : c.inTransaction = true) (hcomp : c.reader.complete = true)
    (hc' : c' = { c with pc := .loop }) : Serialized l' := by
  have hb := busy_of_inside hl hc hin
  obtain ⟨hr, hheard, htoHost, htodo⟩ := replying_complete hl hb hcomp
  have hin' : c'.inTransaction = false := by rw [hc']; simp [HandlingCall.inTransaction, hcomp]
  subst hl'
  refine ⟨hnoted, honWire, hl.up, ?_, ?_, Or.inl ⟨hr.toMcu, htoHost, htodo, hr.mcu, ?_⟩⟩
  · intro j d hd
    rcases getElem?_set_cases hc hd with ⟨rfl, rfl⟩ | ⟨_, hd⟩
    · rw [hc']; exact hl.known j c hc
    · exact hl.known j d hd
  · intro j d hd hw hind
    rcases getElem?_set_cases hc hd with ⟨rfl, rfl⟩ | ⟨_, hd⟩
    · rw [hc']; exact hheard
    · exact hl.served j d hd hw hind
  · intro j d hd
    rcases getElem?_set_cases hc hd with ⟨rfl, rfl⟩ | ⟨hne, hd⟩
    · exact hin'
    · cases hind : d.inTransaction with
      | false => rfl
      | true => exact absurd (hb.alone j d hd hind) hne

/-- With nobody in a transaction, the call that writes opens one. -/
theorem serialized_write {l l' : Line Board} {i : Nat} {c : HandlingCall} (hl : Serialized l)
    (hnoted : Noted l') (honWire : OnWire l') (hc : l.calls[i]? = some c)
    (hl' : l' = { l with
      wire := { l.wire with toMcu := l.wire.toMcu ++ frameOf c.service }
      calls := l.calls.set i { c with pc := .loop }
      written := l.written ++ [(i, c.service)] })
    (hpc : c.pc = .serialPuts)
    (hfree : ∀ (j : Nat) (d : HandlingCall), l.calls[j]? = some d → d.inTransaction = false) :
    Serialized l' := by
  have hk := hl.known i c hc
  have hi : i < l.calls.length := (List.getElem?_eq_some_iff.mp hc).1
  have hok := hl.noted.ok i c hc
  have hheard : c.heard = [] := hok.heard_nil (by rw [hpc]; rfl)
  have hq : Quiet l := by
    rcases hl.phase with hq | ⟨k, d, hb⟩
    · exact hq
    · have := hfree k d hb.call
      rw [hb.inside] at this
      exact absurd this (by simp)
  have hin' : HandlingCall.inTransaction { c with pc := .loop } = true := by
    have hr := hok.reader
    rw [hheard] at hr
    show (!c.reader.complete) = true
    rw [hr]; rfl
  subst hl'
  refine ⟨hnoted, honWire, hl.up, ?_, ?_, ?_⟩
  · intro j d hd
    rcases getElem?_set_cases hc hd with ⟨rfl, rfl⟩ | ⟨_, hd⟩
    · exact hk
    · exact hl.known j d hd
  · intro j d hd hw hind
    rcases getElem?_set_cases hc hd with ⟨rfl, rfl⟩ | ⟨_, hd⟩
    · rw [hin'] at hind; exact absurd hind (by simp)
    · exact hl.served j d hd hw hind
  · refine Or.inr ⟨i, { c with pc := .loop }, List.getElem?_set_self hi, hin', ?_, ?_, ?_, ?_⟩
    · intro j d hd hind
      rcases getElem?_set_cases hc hd with ⟨rfl, _⟩ | ⟨_, hd⟩
      · rfl
      · rw [hfree j d hd] at hind; exact absurd hind (by simp)
    · intro h; exact absurd h (by simp)
    · exact List.getLast?_concat
    · -- the whole command is on the wire and the board holds none of it
      have hne := (commands_isFrame (frameOf_mem hk)).1.ne_nil
      refine Or.inl ⟨hheard, hq.toHost, hq.todo, ?_, [], ?_, hq.mcu⟩
      · show l.wire.toMcu ++ frameOf c.service ≠ []
        rw [hq.toMcu]; exact hne
      · show [] ++ (l.wire.toMcu ++ frameOf c.service) = _
        rw [hq.toMcu]; rfl

theorem serialized_run {l l' : Line Board} {i : Nat} {ok : Bool} (hl : Serialized l)
    (hg : Exclusive l (LineAct.run (A := Unit) i ok) = true)
    (h : l.step firmware (.run i ok) = some l') : Serialized l' := by
  have hnoted := noted_step h hl.noted
  have honWire := onWire_step h hl.onWire
  obtain ⟨c, c', wire, hc, hst, hl'⟩ := line_run h
  have hok := hl.noted.ok i c hc
  have hcs := callStep hst
  cases hcs with
  | opened pc hpc =>
      have hp : c.pc ≠ .serialPuts := by rcases hpc with ⟨h, _⟩ | ⟨h, _⟩ <;> simp [h]
      rw [if_neg hp] at hl'
      have hin : c.inTransaction = false := by
        rcases hpc with ⟨h, _⟩ | ⟨h, _⟩ <;> simp [HandlingCall.inTransaction, h]
      have hpc' : (if ok = true then pc else CallPc.returned 1) = .wiringPiSetup
          ∨ (if ok = true then pc else CallPc.returned 1) = .serialPuts
          ∨ (if ok = true then pc else CallPc.returned 1) = .returned 1 := by
        rcases hpc with ⟨_, rfl⟩ | ⟨_, rfl⟩ <;> cases ok <;> simp
      refine serialized_outside hl hnoted honWire hc hl' hin ?_ rfl ?_
      · rcases hpc' with h | h | h <;> rw [HandlingCall.inTransaction, h]
      · intro hw
        rcases hpc' with h | h | h <;> rw [h] at hw <;> exact absurd hw Bool.false_ne_true
  | serialPuts hpc =>
      rw [if_pos hpc] at hl'
      simp only [Exclusive, hc, hpc, forall_const, decide_eq_true_eq, List.all_eq_true,
        Bool.not_eq_true'] at hg
      exact serialized_write hl hnoted honWire hc hl' hpc
        (fun j d hd => hg d (List.mem_of_getElem? hd))
  | leave hpc hcomp =>
      -- the transaction was over when the reply became complete
      rw [if_neg (by simp [hpc])] at hl'
      have hin : c.inTransaction = false := by simp [HandlingCall.inTransaction, hpc, hcomp]
      have hserved := hl.served i c hc (by rw [hpc]; rfl) hin
      exact serialized_outside hl hnoted honWire hc hl' hin rfl rfl (fun _ => hserved)
  | stay hpc hcomp =>
      rw [if_neg (by simp [hpc])] at hl'
      have hin : c.inTransaction = true := by simp [HandlingCall.inTransaction, hpc, hcomp]
      refine serialized_inside hl hnoted honWire hc hl' hin rfl rfl hl.up (by simp) ?_
      subst hl'
      exact fun h => phase_congr h rfl rfl rfl rfl
  | nothing hpc havail =>
      rw [if_neg (by simp [hpc])] at hl'
      have hin : c.inTransaction = true := by simp [HandlingCall.inTransaction, hpc]
      -- nothing to read: the reply may be complete by now, and this ends the transaction
      cases hcomp : c.reader.complete with
      | true => exact serialized_end hl hnoted honWire hc hl' hin hcomp rfl
      | false =>
          have hin' : HandlingCall.inTransaction { c with pc := .loop } = true := by
            simp [HandlingCall.inTransaction, hcomp]
          refine serialized_inside hl hnoted honWire hc hl' hin hin' rfl hl.up (by simp) ?_
          subst hl'
          exact fun h => phase_congr h rfl rfl rfl rfl
  | waiting hpc havail =>
      rw [if_neg (by simp [hpc])] at hl'
      have hin : c.inTransaction = true := by simp [HandlingCall.inTransaction, hpc]
      have hne : l.wire.toHost ≠ [] := by
        intro h0
        apply havail
        simp [Wire.serialDataAvail, hl.up, h0]
      refine serialized_inside hl hnoted honWire hc hl' hin rfl rfl hl.up (fun _ => hne) ?_
      subst hl'
      exact fun h => phase_congr h rfl rfl rfl rfl
  | serialGetchar x _ hpc hget =>
      rw [if_neg (by simp [hpc])] at hl'
      have hin : c.inTransaction = true := by simp [HandlingCall.inTransaction, hpc]
      -- it has polled before, so there is a byte and it does not wait
      have hne := (busy_of_inside hl hc hin).waiting hpc
      cases htoHost : l.wire.toHost with
      | nil => exact absurd htoHost hne
      | cons y rest =>
          have hw : wire = { l.wire with toHost := rest } ∧ x = y := by
            rw [Wire.serialGetchar, if_neg (by simp [hl.up]), htoHost] at hget
            obtain ⟨h1, h2⟩ := Prod.mk.inj (Option.some.inj hget)
            exact ⟨h2.symm, h1.symm⟩
          obtain ⟨hw, rfl⟩ := hw
          have hup : wire.down = false := by rw [hw]; exact hl.up
          refine serialized_inside hl hnoted honWire hc hl' hin rfl rfl hup (by simp) ?_
          subst hl'
          rintro (hr | hr)
          · rw [hr.toHost] at htoHost; exact absurd htoHost (by simp)
          · -- one byte moves from the wire to what has been heard
            have htext := hr.text
            rw [htoHost] at htext
            refine Or.inr ⟨?_, hr.mcu, ?_, hr.rest⟩
            · show wire.toMcu = []
              rw [hw]; exact hr.toMcu
            · rw [← htext]
              show c.heard ++ [x] ++ (wire.toHost ++ _) = _
              rw [hw]; simp

/--
**The step lemma.** A step that respects the transactions keeps the line
serialized.
-/
theorem serialized_step {l l' : Line Board} {a : LineAct Unit} (hl : Serialized l)
    (hg : Exclusive l a = true) (h : l.step firmware a = some l') : Serialized l' := by
  cases a with
  | call service => exact serialized_call hl (of_decide_eq_true hg) h
  | run i ok => exact serialized_run hl hg h
  | device u => exact serialized_device hl h

end HandlingModule.Serial
