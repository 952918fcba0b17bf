import HandlingModule.AIO.Views

/-!
# Where every accepted command is

The books of the module, kept by every step of every thread: an accepted command
waits in its group's queue, is in the hands of an `all_begins` thread between two
statements, or belongs to exactly one `consumeService` thread (`Books`); a thread
never loses its command (`Kept`); it emits one report (`Reported`); and the replies
on the channel name the accepted commands in order (`Acknowledged`).
-/

namespace HandlingModule.AIO

open Serial Transition Replace

variable {δ A : Type} {parse : String → Option Json} {dev : Device δ A}

/-! ## The two tables -/

/-- The acceptance table and the table of constructors name the same classes. -/
structure Registered (w : World δ) : Prop where
  services : ∀ name service, w.channel.services.services.lookup name = some service →
    ∃ cls : ServiceClass, name = cls.name
  names : ∀ name cls, w.creators.lookup name = some cls → name = cls.name
  creators : ∀ cls : ServiceClass, w.creators.lookup cls.name = some cls

theorem registered_start (module_id : String) (d : δ) : Registered (World.start module_id d) where
  services := by
    intro name service h
    have h : (assign (assign [] ServiceClass.closeService.name _) ServiceClass.openService.name _).lookup
      name = some service := h
    rw [lookup_assign, lookup_assign] at h
    by_cases h1 : name = ServiceClass.openService.name
    · exact ⟨_, h1⟩
    · rw [if_neg h1] at h
      by_cases h2 : name = ServiceClass.closeService.name
      · exact ⟨_, h2⟩
      · rw [if_neg h2] at h; exact absurd h (by simp)
  names := by
    intro name cls h
    have h : (assign (assign [] ServiceClass.closeService.name ServiceClass.closeService)
      ServiceClass.openService.name ServiceClass.openService).lookup name = some cls := h
    rw [lookup_assign, lookup_assign] at h
    by_cases h1 : name = ServiceClass.openService.name
    · rw [if_pos h1] at h; rw [h1, ← Option.some.inj h]
    · rw [if_neg h1] at h
      by_cases h2 : name = ServiceClass.closeService.name
      · rw [if_pos h2] at h; rw [h2, ← Option.some.inj h]
      · rw [if_neg h2] at h; exact absurd h (by simp)
  creators := by
    intro cls
    cases cls <;> rfl

/-- A class that registers itself again changes nothing. -/
theorem lookup_create {creators : CreatorMap} {cls : ServiceClass}
    (h : creators.lookup cls.name = some cls) (name : String) :
    (cls.create creators).2.lookup name = creators.lookup name := by
  show (assign creators cls.name cls).lookup name = _
  rw [lookup_assign]
  by_cases hn : name = cls.name
  · rw [if_pos hn, hn, h]
  · rw [if_neg hn]

/-! ## The books -/

/-- The commands that are out of the queues. -/
def World.custody (w : World δ) : List (Int64 × CommandInfo) :=
  w.channel.dispatchers.flatMap Dispatcher.held ++ w.consumers.map Consumer.entry

/-- The books. -/
structure Books (w : World δ) : Prop where
  registered : Registered w
  accounted : Accounted w.channel.services
  runnable : ∀ p ∈ w.channel.services.accepted, ∃ cls, Runnable p.2 cls
  custody : w.channel.services.popped.Perm w.custody

theorem books_start (module_id : String) (d : δ) : Books (World.start module_id d) where
  registered := registered_start module_id d
  accounted := ⟨fun _ => rfl, rfl, List.nodup_nil⟩
  runnable := by intro p hp; exact absurd hp (by simp [World.start, handlingModule, Services.addService, Services.new])
  custody := List.Perm.refl _

/-- A thread's command has been accepted and popped. -/
theorem Books.mem_popped {w : World δ} (h : Books w) {i : Nat} {c : Consumer}
    (hc : w.consumers[i]? = some c) : c.entry ∈ w.channel.services.popped := by
  refine h.custody.mem_iff.mpr (List.mem_append_right _ ?_)
  exact List.mem_map_of_mem (List.mem_of_getElem? hc)

theorem Books.mem_accepted {w : World δ} (h : Books w) {i : Nat} {c : Consumer}
    (hc : w.consumers[i]? = some c) : c.entry ∈ w.channel.services.accepted :=
  h.accounted.mem_accepted (Or.inl (h.mem_popped hc))

/-- No two threads have the same command. -/
theorem Books.consumers_once {w : World δ} (h : Books w) :
    (w.consumers.map (fun c => c.commandInfo.ticket)).Nodup := by
  have hn := (h.custody.map (fun p : Int64 × CommandInfo => p.2.ticket)).nodup_iff.mp
    h.accounted.popped_once
  unfold World.custody at hn
  rw [List.map_append, List.nodup_append', List.map_map] at hn
  exact hn.2.1

theorem Books.consumer_unique {w : World δ} (h : Books w) {i j : Nat} {c c' : Consumer}
    (hi : w.consumers[i]? = some c) (hj : w.consumers[j]? = some c')
    (ht : c.commandInfo.ticket = c'.commandInfo.ticket) : i = j := by
  refine (List.getElem?_inj ?_ h.consumers_once).mp ?_
  · rw [List.length_map]; exact (List.getElem?_eq_some_iff.mp hi).1
  · rw [List.getElem?_map, List.getElem?_map, hi, hj, Option.map_some, Option.map_some, ht]

/-- What can be looked up does not change after the constructor. -/
theorem Registered.keep {w w' : World δ} (h : Registered w)
    (hs : w'.channel.services.services = w.channel.services.services)
    (hc : w'.creators = w.creators) : Registered w' where
  services := by rw [hs]; exact h.services
  names := by rw [hc]; exact h.names
  creators := by rw [hc]; exact h.creators

/-- The tables of names stay as they are: a class that is found registers itself again. -/
theorem registered_step {w w' : World δ} {a : Act A} (h : World.Step parse dev w a w')
    (hb : Books w) : Registered w' := by
  have hreg := hb.registered
  cases h with
  | received ch _ _ hh => cases hh <;> exact hreg.keep rfl rfl
  | replying m ch _ _ hh => cases hh <;> exact hreg.keep rfl rfl
  | threw e ch _ _ hh => cases hh; exact hreg.keep rfl rfl
  | popped d group_id c services _ _ hn =>
      obtain ⟨rest, _, rfl⟩ := Services.getNextWork_cases hn
      exact hreg.keep rfl rfl
  | called c responsible creators command line hc _ hf _ =>
      obtain ⟨cls, hr⟩ := hb.runnable c.entry (hb.mem_accepted hc)
      obtain ⟨command', hf', _, _⟩ := findService_of_runnable hr (hreg.creators cls)
      rw [hf] at hf'
      obtain ⟨_, hcr⟩ := Prod.mk.inj (Option.some.inj (Except.ok.inj hf'))
      obtain ⟨rfl, _⟩ := Prod.mk.inj hcr
      refine ⟨hreg.services, ?_, ?_⟩
      · intro name cls' hl
        have hl : (cls.create w.creators).2.lookup name = some cls' := hl
        rw [lookup_create (hreg.creators cls)] at hl
        exact hreg.names name cls' hl
      · intro cls'
        show (cls.create w.creators).2.lookup cls'.name = some cls'
        rw [lookup_create (hreg.creators cls)]
        exact hreg.creators cls'
  | _ => exact hreg.keep rfl rfl

/-- The queues account for what is pushed and popped, and nothing else changes them. -/
theorem accounted_step {w w' : World δ} {a : Act A} (h : World.Step parse dev w a w')
    (hacc : Accounted w.channel.services) : Accounted w'.channel.services := by
  cases h with
  | received ch _ _ hh => cases hh <;> exact hacc
  | replying m ch _ _ hh =>
      cases hh with
      | refused j _ => exact hacc
      | asked j _ => exact hacc
      | accepted j group_id c _ ha => exact accounted_push hacc ha.ticket
  | threw e ch _ _ hh => cases hh; exact hacc
  | workingSet d _ _ => exact ⟨hacc.queues, hacc.tickets, hacc.popped_once⟩
  | popped d group_id c services _ _ hn => exact accounted_pop hacc hn
  | workingCleared d _ _ => exact ⟨hacc.queues, hacc.tickets, hacc.popped_once⟩
  | _ => exact hacc

/-- What is accepted goes under the name of a class. -/
theorem runnable_step {w w' : World δ} {a : Act A} (h : World.Step parse dev w a w')
    (hreg : Registered w) (hrun : ∀ p ∈ w.channel.services.accepted, ∃ cls, Runnable p.2 cls) :
    ∀ p ∈ w'.channel.services.accepted, ∃ cls, Runnable p.2 cls := by
  intro p hp
  rcases accepted_cases h with heq | ⟨_, j, g, c, _, _, ha, heq⟩
  · exact hrun p (by rw [← heq]; exact hp)
  · rw [heq] at hp
    rcases List.mem_append.mp hp with hp | hp
    · exact hrun p hp
    · rw [List.mem_singleton.mp hp]
      obtain ⟨name, service, hname, hl⟩ := ha.name
      obtain ⟨cls, rfl⟩ := hreg.services name service hl
      exact ⟨cls, ha.object, by rw [ha.same]; exact hname⟩

/-- A command that leaves a queue, or a thread, is in other hands. -/
theorem custody_step {w w' : World δ} (h : HandStep w w')
    (hcus : w.channel.services.popped.Perm w.custody) :
    w'.channel.services.popped.Perm w'.custody := by
  unfold World.custody at hcus ⊢
  cases h with
  | unseen hds hp hcs => rw [hds, hp, hcs]; exact hcus
  | begun j hds hp hcs =>
      -- the new thread has nothing in its hands
      rw [hds, hp, hcs, List.flatMap_append]
      simpa [Dispatcher.held] using hcus
  | moved d pc hd h0 h1 _ hds hp hcs =>
      rw [hds, hp, hcs, flatMap_set_of_eq hd (h1.trans h0.symm)]
      exact hcus
  | popped d g c hd hpc hds hp hcs =>
      -- the command goes from the queue into the thread's hands
      have hset := perm_flatMap_set Dispatcher.held { d with pc := .newThread g c } hd
      have h0 : d.held = [] := by simp [Dispatcher.held, hpc]
      rw [h0, List.nil_append] at hset
      rw [hds, hp, hcs]
      refine (List.perm_append_comm.trans ?_).trans (List.Perm.append_right _ hset.symm)
      rw [List.append_assoc]
      exact List.Perm.append_left [(g, c)] hcus
  | threaded d g c hd hpc hds hp hcs =>
      -- the command goes from its hands to the new thread
      have hset := perm_flatMap_set Dispatcher.held { d with pc := .isEmptyCommands g } hd
      have h0 : d.held = [(g, c)] := by simp [Dispatcher.held, hpc]
      rw [h0] at hset
      rw [hds, hp, hcs, ← List.append_assoc]
      refine hcus.trans ((List.Perm.append_right _ hset.symm).trans ?_)
      rw [List.append_assoc]
      exact List.perm_append_comm

/-- **One step keeps the books.** -/
theorem books_step {w w' : World δ} {a : Act A} (h : World.Step parse dev w a w') (hb : Books w) :
    Books w' where
  registered := registered_step h hb
  accounted := accounted_step h hb.accounted
  runnable := runnable_step h hb.registered hb.runnable
  custody := custody_step (handStep h) hb.custody

/-! ## What a thread does with its command -/

/-- The call of `handlingService` a thread has made for its command. -/
def Consumer.Called (l : Line δ) (c : Consumer) (cls : ServiceClass) (hc : HandlingCall) : Prop :=
  Runnable c.commandInfo cls ∧ hc.service = cls.code
    ∧ ∃ k, c.call = some k ∧ l.calls[k]? = some hc

/-- The report a thread makes, whatever came of its command. -/
def Consumer.report (c : Consumer) : Json :=
  replyInfo true "" (c.commandInfo.command.member "COMMAND_ID")

/-- The facts that hold at a statement of `consumeService`. -/
def Consumer.Facts (l : Line δ) (c : Consumer) : ConsumePc → Prop
  | .createFromString => c.call = none
  | .execute responsible command =>
      (∃ members, command = .object members)
        ∧ (∀ key, command.member key = c.commandInfo.command.member key)
        ∧ ∃ hc, c.Called l responsible.class_ hc
  | .lock reply_info | .emit reply_info =>
      reply_info = c.report ∧ ∃ cls hc code, c.Called l cls hc ∧ hc.pc = .returned code
  | .unlock | .ended => ∃ cls hc code, c.Called l cls hc ∧ hc.pc = .returned code
  | .dropped | .thrown _ => False

/-- No thread drops its command, and what it holds is about its command. -/
def Kept (w : World δ) : Prop :=
  ∀ (i : Nat) (c : Consumer), w.consumers[i]? = some c → c.Facts w.line c.pc

theorem Consumer.Called.mono {l l' : Line δ} {la : LineAct A} (h : l.step dev la = some l')
    {c : Consumer} {cls : ServiceClass} {hc : HandlingCall} (hcall : c.Called l cls hc) :
    ∃ hc', c.Called l' cls hc' ∧ ∀ code, hc.pc = .returned code → hc' = hc := by
  obtain ⟨hr, hs, k, hk, hl⟩ := hcall
  obtain ⟨hc', hl', hs', hret⟩ := line_keeps h hl
  exact ⟨hc', ⟨hr, hs'.trans hs, k, hk, hl'⟩, hret⟩

/-- A move of the line leaves every thread's facts as they are. -/
theorem Consumer.Facts.mono {l l' : Line δ} {la : LineAct A} (h : l.step dev la = some l')
    {c : Consumer} {pc : ConsumePc} (hf : c.Facts l pc) : c.Facts l' pc := by
  have hdone : (∃ cls hc code, c.Called l cls hc ∧ hc.pc = .returned code) →
      ∃ cls hc code, c.Called l' cls hc ∧ hc.pc = .returned code := by
    intro ⟨cls, hc, code, hcall, hret⟩
    obtain ⟨hc', hcall', heq⟩ := hcall.mono h
    have heq := heq code hret
    subst heq
    exact ⟨cls, hc', code, hcall', hret⟩
  cases pc with
  | createFromString => exact hf
  | execute responsible command =>
      obtain ⟨hobj, hm, hc, hcall⟩ := hf
      obtain ⟨hc', hcall', _⟩ := hcall.mono h
      exact ⟨hobj, hm, hc', hcall'⟩
  | lock reply_info => exact ⟨hf.1, hdone hf.2⟩
  | emit reply_info => exact ⟨hf.1, hdone hf.2⟩
  | unlock => exact hdone hf
  | ended => exact hdone hf
  | dropped => exact hf
  | thrown e => exact hf

/-- One thread moves on; the line may have moved too. -/
theorem kept_set {w : World δ} (hk : Kept w) {i : Nat} {c c' : Consumer}
    (hc : w.consumers[i]? = some c) {l : Line δ}
    (hline : ∀ {c : Consumer} {pc : ConsumePc}, c.Facts w.line pc → c.Facts l pc)
    (hf : c'.Facts l c'.pc) {w' : World δ} (hcs : w'.consumers = w.consumers.set i c')
    (hl : w'.line = l) : Kept w' := by
  intro j d hd
  rw [hcs] at hd
  rw [hl]
  rcases getElem?_set_cases hc hd with ⟨_, rfl⟩ | ⟨_, hd⟩
  · exact hf
  · exact hline (hk j d hd)

/-- The service of a thread's command is always found. -/
theorem Books.findService {w : World δ} (hb : Books w) {i : Nat} {c : Consumer}
    (hc : w.consumers[i]? = some c) :
    ∃ cls, Runnable c.commandInfo cls ∧ ∃ command, c.findService w.creators
        = .ok (some ((cls.create w.creators).1, (cls.create w.creators).2, command))
      ∧ (∃ members, command = .object members)
      ∧ ∀ key, command.member key = c.commandInfo.command.member key := by
  obtain ⟨cls, hr⟩ := hb.runnable c.entry (hb.mem_accepted hc)
  exact ⟨cls, hr, findService_of_runnable hr (hb.registered.creators cls)⟩

theorem kept_step {w w' : World δ} {a : Act A} (h : World.Step parse dev w a w') (hb : Books w)
    (hk : Kept w) : Kept w' := by
  cases h with
  | received ch _ _ _ => exact hk
  | replying m ch _ _ _ => exact hk
  | threw e ch _ _ _ => exact hk
  | answered m _ => exact hk
  | unwound e _ => exact hk
  | workingSet d _ _ => exact hk
  | grouped d group_id _ _ _ => exact hk
  | groupThrew d e _ _ _ => exact hk
  | drained d group_id _ _ _ => exact hk
  | found d group_id _ _ _ => exact hk
  | popped d group_id c services _ _ _ => exact hk
  | workingCleared d _ _ => exact hk
  | threaded d group_id c _ _ =>
      intro j e he
      rcases getElem?_snoc_cases he with he | ⟨_, rfl⟩
      · exact hk j e he
      · rfl
  | findThrew c e hc _ hf =>
      obtain ⟨cls, _, command, hf', _⟩ := hb.findService hc
      rw [hf] at hf'
      exact absurd hf' (by simp)
  | notFound c hc _ hf =>
      obtain ⟨cls, _, command, hf', _⟩ := hb.findService hc
      rw [hf] at hf'
      exact absurd hf' (by simp)
  | called c responsible creators command line hc _ hf hl =>
      obtain ⟨cls, hr, command', hf', hobj, hm⟩ := hb.findService hc
      rw [hf] at hf'
      obtain ⟨hresp, hcr⟩ := Prod.mk.inj (Option.some.inj (Except.ok.inj hf'))
      obtain ⟨_, hcmd⟩ := Prod.mk.inj hcr
      rw [← hcmd] at hobj hm
      have hcls : responsible.class_ = cls := by rw [hresp]; rfl
      have hline := line_call hl
      refine kept_set hk hc (Consumer.Facts.mono hl) ?_ rfl rfl
      refine ⟨hobj, hm, HandlingCall.start cls.code, by rw [hcls]; exact hr, by rw [hcls]; rfl,
        w.line.calls.length, rfl, ?_⟩
      rw [hline, hcls]
      exact List.getElem?_concat_length
  | ran c responsible command k hcall line _ _ _ _ hl =>
      intro j e he
      exact Consumer.Facts.mono hl (hk j e he)
  | returned c responsible command k hcall code reply_info hc hpc hck hcalls hret hrep =>
      have hf := hk _ c hc
      rw [hpc] at hf
      obtain ⟨hobj, hm, hc0, hr, hs, k0, hk0, hl0⟩ := hf
      rw [reply_eq hobj] at hrep
      -- the call that returned is the one this thread has made
      have hkk : k0 = k := Option.some.inj (hk0.symm.trans hck)
      subst hkk
      have : hc0 = hcall := Option.some.inj (hl0.symm.trans hcalls)
      subst this
      refine kept_set hk hc (fun h => h) ?_ rfl rfl
      exact ⟨by rw [← Except.ok.inj hrep, hm]; rfl, _, hc0, code, ⟨hr, hs, k0, hk0, hl0⟩, hret⟩
  | replyThrew c responsible command k hcall code e hc hpc _ _ _ hrep =>
      have hf := hk _ c hc
      rw [hpc] at hf
      rw [reply_eq hf.1] at hrep
      exact absurd hrep (by simp)
  | locked c reply_info hc hpc _ =>
      have hf := hk _ c hc
      rw [hpc] at hf
      exact kept_set hk hc (fun h => h) hf rfl rfl
  | emitted c reply_info hc hpc =>
      have hf := hk _ c hc
      rw [hpc] at hf
      refine kept_set hk hc (fun h => h) ?_ rfl rfl
      exact hf.2
  | unlocked c hc hpc =>
      have hf := hk _ c hc
      rw [hpc] at hf
      exact kept_set hk hc (fun h => h) hf rfl rfl
  | device line hl =>
      intro j e he
      exact Consumer.Facts.mono hl (hk j e he)

/-! ## Reports -/

/-- The thread has emitted its report. -/
def Consumer.reported (c : Consumer) : Bool :=
  match c.pc with
  | .unlock | .ended => true
  | _ => false

/-- The reports on the channel are those of the threads, one each. -/
structure Reported (w : World δ) : Prop where
  by_thread : ∀ r ∈ w.reports, ∃ c, w.consumers[r.consumer]? = some c ∧ c.reported = true
    ∧ r.ticket = c.commandInfo.ticket ∧ r.data = c.report
  all : ∀ (i : Nat) (c : Consumer), w.consumers[i]? = some c → c.reported = true →
    ∃ r ∈ w.reports, r.consumer = i
  once : (w.reports.map Report.consumer).Nodup
  sent : (w.channel.emitted.filter (fun m => m.event == .actionFinished)).map Message.data
    = w.reports.map Report.data

theorem reported_start (module_id : String) (d : δ) : Reported (World.start module_id d) where
  by_thread := by intro r hr; exact absurd hr (by simp [World.start])
  all := by intro i c hc; exact absurd hc (by simp [World.start])
  once := List.nodup_nil
  sent := rfl

/-- A step that emits no report and takes no thread past one. -/
theorem Reported.keep {w w' : World δ} (h : Reported w) (hr : w'.reports = w.reports)
    (hm : w'.channel.emitted.filter (fun m => m.event == .actionFinished)
      = w.channel.emitted.filter (fun m => m.event == .actionFinished))
    (hfrom : ∀ (i : Nat) (c : Consumer), w.consumers[i]? = some c → c.reported = true →
      ∃ c', w'.consumers[i]? = some c' ∧ c'.reported = true ∧ c'.commandInfo = c.commandInfo)
    (hto : ∀ (i : Nat) (c' : Consumer), w'.consumers[i]? = some c' → c'.reported = true →
      ∃ c, w.consumers[i]? = some c ∧ c.reported = true) : Reported w' where
  by_thread := by
    intro r hm
    rw [hr] at hm
    obtain ⟨c, hc, hrep, ht, hd⟩ := h.by_thread r hm
    obtain ⟨c', hc', hrep', hinfo⟩ := hfrom _ c hc hrep
    exact ⟨c', hc', hrep', by rw [ht, hinfo], by rw [hd, Consumer.report, Consumer.report, hinfo]⟩
  all := by
    intro i c' hc' hrep
    obtain ⟨c, hc, hrep⟩ := hto i c' hc' hrep
    rw [hr]
    exact h.all i c hc hrep
  once := by rw [hr]; exact h.once
  sent := by rw [hm, hr]; exact h.sent

/-- The same when one thread moves between two statements on one side of its report. -/
theorem Reported.keep_set {w w' : World δ} (h : Reported w) {i : Nat} {c c' : Consumer}
    (hc : w.consumers[i]? = some c) (hcs : w'.consumers = w.consumers.set i c')
    (hr : w'.reports = w.reports)
    (hm : w'.channel.emitted.filter (fun m => m.event == .actionFinished)
      = w.channel.emitted.filter (fun m => m.event == .actionFinished))
    (hrep : c'.reported = c.reported) (hinfo : c'.commandInfo = c.commandInfo) : Reported w' := by
  have hi : i < w.consumers.length := (List.getElem?_eq_some_iff.mp hc).1
  refine h.keep hr hm ?_ ?_
  · intro j e he her
    rw [hcs]
    rcases eq_or_ne j i with rfl | hne
    · have : e = c := Option.some.inj (he.symm.trans hc)
      subst this
      exact ⟨c', List.getElem?_set_self hi, by rw [hrep]; exact her, hinfo⟩
    · exact ⟨e, (List.getElem?_set_ne hne.symm).trans he, her, rfl⟩
  · intro j e he her
    rw [hcs] at he
    rcases getElem?_set_cases hc he with ⟨rfl, rfl⟩ | ⟨_, he⟩
    · exact ⟨c, hc, by rw [← hrep]; exact her⟩
    · exact ⟨e, he, her⟩

/-- A thread that has not reported emits its report. -/
theorem Reported.emit {w w' : World δ} (h : Reported w) {i : Nat} {c : Consumer}
    (hc : w.consumers[i]? = some c) (c' : Consumer) (hnew : c.reported = false) (hrep : c'.reported = true)
    (hinfo : c'.commandInfo = c.commandInfo) {reply_info : Json} (hd : reply_info = c.report)
    (hcs : w'.consumers = w.consumers.set i c')
    (hr : w'.reports = w.reports ++ [⟨i, c.commandInfo.ticket, reply_info⟩])
    (hm : w'.channel.emitted = w.channel.emitted ++ [⟨.actionFinished, reply_info⟩]) :
    Reported w' := by
  have hi : i < w.consumers.length := (List.getElem?_eq_some_iff.mp hc).1
  -- none of the reports before is by this thread
  have hother : ∀ r ∈ w.reports, i ≠ r.consumer := by
    intro r hrm heq
    obtain ⟨e, he, her, _⟩ := h.by_thread r hrm
    rw [← heq, hc] at he
    rw [← Option.some.inj he, hnew] at her
    exact absurd her Bool.false_ne_true
  refine ⟨?_, ?_, ?_, ?_⟩
  · intro r hrm
    rw [hr] at hrm
    rw [hcs]
    rcases List.mem_append.mp hrm with hrm | hrm
    · obtain ⟨e, he, hfacts⟩ := h.by_thread r hrm
      exact ⟨e, (List.getElem?_set_ne (hother r hrm)).trans he, hfacts⟩
    · rw [List.mem_singleton.mp hrm]
      refine ⟨c', List.getElem?_set_self hi, hrep, by rw [hinfo], ?_⟩
      rw [hd, Consumer.report, Consumer.report, hinfo]
  · intro j e he her
    rw [hcs] at he
    rw [hr]
    rcases getElem?_set_cases hc he with ⟨rfl, _⟩ | ⟨_, he⟩
    · exact ⟨_, List.mem_append_right _ (List.mem_singleton.mpr rfl), rfl⟩
    · obtain ⟨r, hrm, hrj⟩ := h.all j e he her
      exact ⟨r, List.mem_append_left _ hrm, hrj⟩
  · rw [hr, List.map_append]
    refine List.nodup_append'.mpr ⟨h.once, List.nodup_singleton i, ?_⟩
    refine List.disjoint_singleton.mpr (fun hrm => ?_)
    obtain ⟨r, hrm, hri⟩ := List.mem_map.mp hrm
    exact hother r hrm hri.symm
  · rw [hm, hr, List.filter_append, List.map_append, h.sent, List.map_append]
    rfl

theorem reported_step {w w' : World δ} {a : Act A} (h : World.Step parse dev w a w') (hk : Kept w)
    (hr : Reported w) (hnet : ∀ m, w.network = .answering m → m.event ≠ .actionFinished) :
    Reported w' := by
  have hsame : ∀ (i : Nat) (c : Consumer), w.consumers[i]? = some c → c.reported = true →
      ∃ c', w.consumers[i]? = some c' ∧ c'.reported = true ∧ c'.commandInfo = c.commandInfo :=
    fun i c hc hrep => ⟨c, hc, hrep, rfl⟩
  have hback : ∀ (i : Nat) (c' : Consumer), w.consumers[i]? = some c' → c'.reported = true →
      ∃ c, w.consumers[i]? = some c ∧ c.reported = true := fun i c hc hrep => ⟨c, hc, hrep⟩
  cases h with
  | received ch _ _ hh =>
      refine hr.keep rfl ?_ hsame hback
      cases hh <;> rfl
  | replying m ch _ _ hh =>
      refine hr.keep rfl ?_ hsame hback
      cases hh <;> rfl
  | threw e ch _ _ hh =>
      refine hr.keep rfl ?_ hsame hback
      cases hh; rfl
  | answered m hm =>
      refine hr.keep rfl ?_ hsame hback
      have : (m.event == .actionFinished) = false := beq_false_of_ne (hnet m hm)
      show (w.channel.emitted ++ [m]).filter _ = _
      rw [List.filter_append]
      simp [this]
  | unwound e _ => exact hr.keep rfl rfl hsame hback
  | workingSet d _ _ => exact hr.keep rfl rfl hsame hback
  | grouped d group_id _ _ _ => exact hr.keep rfl rfl hsame hback
  | groupThrew d e _ _ _ => exact hr.keep rfl rfl hsame hback
  | drained d group_id _ _ _ => exact hr.keep rfl rfl hsame hback
  | found d group_id _ _ _ => exact hr.keep rfl rfl hsame hback
  | popped d group_id c services _ _ _ => exact hr.keep rfl rfl hsame hback
  | workingCleared d _ _ => exact hr.keep rfl rfl hsame hback
  | threaded d group_id c _ _ =>
      refine hr.keep rfl rfl ?_ ?_
      · intro i e he her
        exact ⟨e, (List.getElem?_append_left (List.getElem?_eq_some_iff.mp he).1).trans he, her, rfl⟩
      · intro i e he her
        rcases getElem?_snoc_cases he with he | ⟨_, rfl⟩
        · exact ⟨e, he, her⟩
        · exact absurd her Bool.false_ne_true
  | findThrew c e hc hpc _ =>
      exact hr.keep_set hc rfl rfl rfl (by simp [Consumer.reported, hpc]) rfl
  | notFound c hc hpc _ =>
      exact hr.keep_set hc rfl rfl rfl (by simp [Consumer.reported, hpc]) rfl
  | called c responsible creators command line hc hpc _ _ =>
      exact hr.keep_set hc rfl rfl rfl (by simp [Consumer.reported, hpc]) rfl
  | ran c responsible command k hcall line _ _ _ _ _ => exact hr.keep rfl rfl hsame hback
  | returned c responsible command k hcall code reply_info hc hpc =>
      exact hr.keep_set hc rfl rfl rfl (by simp [Consumer.reported, hpc]) rfl
  | replyThrew c responsible command k hcall code e hc hpc =>
      exact hr.keep_set hc rfl rfl rfl (by simp [Consumer.reported, hpc]) rfl
  | locked c reply_info hc hpc _ =>
      exact hr.keep_set hc rfl rfl rfl (by simp [Consumer.reported, hpc]) rfl
  | unlocked c hc hpc =>
      exact hr.keep_set hc rfl rfl rfl (by simp [Consumer.reported, hpc]) rfl
  | emitted c reply_info hc hpc =>
      have hf := hk _ c hc
      rw [hpc] at hf
      exact hr.emit hc { c with pc := .unlock } (by simp [Consumer.reported, hpc]) rfl rfl hf.1
        rfl rfl rfl
  | device line _ => exact hr.keep rfl rfl hsame hback

end HandlingModule.AIO
