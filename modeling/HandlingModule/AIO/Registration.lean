import HandlingModule.AIO.Connection

/-!
# Registration

`on_connected`, the listener of every opening, only wakes `start`; the one
`REGISTRATION` there is comes from `start`, which runs once. So a connection that is
opened later is never registered, and a reply on it is a reply of nobody. Nor is it
enough that `start` has emitted: on its way to the connection the `REGISTRATION` may be
thrown away with the queue of a dropped socket (`not_registeredFirst_thrown`).
-/

namespace HandlingModule.AIO

open Serial Transition

variable {δ A : Type} {parse : String → Option Json} {dev : Device δ A}

/-! ## One registration -/

/-- The pending message of the network thread is a reply. -/
def Replying (w : World δ) : Prop := ∀ m, w.network = .answering m → m.isReply = true

theorem replying_step {w w' : World δ} {a : Act A} (h : World.Step parse dev w a w')
    (hr : Replying w) : Replying w' := by
  cases h with
  | replying m ch _ _ hh =>
      intro m' hm
      rw [← NetworkPc.answering.inj hm]
      cases hh <;> rfl
  | received ch hidle _ _ => exact hr
  | threw e ch _ _ _ => intro m hm; exact absurd hm (by simp)
  | answered m _ => intro m hm; exact absurd hm (by simp)
  | unwound e _ => intro m hm; exact absurd hm (by simp)
  | _ => exact hr

/-- Nothing has been heard of. -/
structure Unheard (w : World δ) : Prop where
  network : w.network = .idle
  dispatchers : w.channel.dispatchers = []
  consumers : w.consumers = []

/-- Without an event the module has nothing to do. -/
theorem unheard_step {w w' : World δ} {a : Act A} (h : World.Step parse dev w a w')
    (hu : Unheard w) (ha : ∀ event payload, a ≠ .receive event payload) :
    Unheard w' ∧ w'.channel.emitted = w.channel.emitted := by
  have hd : ∀ {i : Nat} {d : Dispatcher}, w.channel.dispatchers[i]? ≠ some d := by
    intro i d hd
    rw [hu.dispatchers] at hd
    exact absurd hd (by simp)
  have hc : ∀ {i : Nat} {c : Consumer}, w.consumers[i]? ≠ some c := by
    intro i c hc
    rw [hu.consumers] at hc
    exact absurd hc (by simp)
  cases h with
  | device line _ => exact ⟨⟨hu.network, hu.dispatchers, hu.consumers⟩, rfl⟩
  | received => exact absurd rfl (ha _ _)
  | replying => exact absurd rfl (ha _ _)
  | threw => exact absurd rfl (ha _ _)
  | answered m hm => rw [hu.network] at hm; exact absurd hm (by simp)
  | unwound e he => rw [hu.network] at he; exact absurd he (by simp)
  | workingSet d h => exact absurd h hd
  | grouped d g h => exact absurd h hd
  | groupThrew d e h => exact absurd h hd
  | drained d g h => exact absurd h hd
  | found d g h => exact absurd h hd
  | popped d g c services h => exact absurd h hd
  | threaded d g c h => exact absurd h hd
  | workingCleared d h => exact absurd h hd
  | findThrew c e h => exact absurd h hc
  | notFound c h => exact absurd h hc
  | called c responsible creators command line h => exact absurd h hc
  | ran c responsible command k hcall line h => exact absurd h hc
  | returned c responsible command k hcall code reply_info h => exact absurd h hc
  | replyThrew c responsible command k hcall code e h => exact absurd h hc
  | locked c reply_info h => exact absurd h hc
  | emitted c reply_info h => exact absurd h hc
  | unlocked c h => exact absurd h hc

/-- In any run: one `REGISTRATION` is all there is. -/
structure Once (s : Session δ) : Prop where
  replying : Replying s.world
  registrations : s.current_socket.count Message.isRegistration
    ≤ if s.main.registers = true then 1 else 0

theorem once_start (module_id : String) (d : δ) : Once (Session.start module_id d) where
  replying := by intro m hm; exact absurd hm (by simp [Session.start, World.start])
  registrations := Nat.zero_le _

theorem Message.not_isRegistration {m : Message} (h : m.isReply = true) :
    m.isRegistration = false := by
  unfold Message.isReply at h
  cases hm : m.event <;> simp_all [Message.isRegistration]

/-- The threads of the world emit replies. -/
theorem isReply_emits {w : World δ} {a : Act A} {e : Emitter} {m : Message} (hr : Replying w)
    (h : w.emits a = some (e, m)) : m.isReply = true := by
  unfold World.emits at h
  split at h
  · split at h
    · rename_i m' hm
      obtain ⟨-, rfl⟩ := Prod.mk.inj (Option.some.inj h)
      exact hr m' hm
    · exact absurd h (by simp)
  · obtain ⟨c, _, h⟩ := Option.bind_eq_some_iff.mp h
    split at h
    · obtain ⟨-, rfl⟩ := Prod.mk.inj (Option.some.inj h)
      rfl
    · exact absurd h (by simp)
  · exact absurd h (by simp)

theorem unheard_emits {w : World δ} (hu : Unheard w) (a : Act A) : w.emits a = none := by
  unfold World.emits
  split
  · rw [hu.network]
  · rw [hu.consumers]
    rfl
  · rfl

theorem once_step {s s' : Session δ} {a : SessionAct A} (h : Session.Step parse dev s a s')
    (ho : Once s) : Once s' := by
  cases h with
  | opened c hmoves _ => exact ⟨ho.replying, Nat.le_trans (hmoves.count _) ho.registrations⟩
  | socket hmoves hworld hmain =>
      refine ⟨by rw [hworld]; exact ho.replying, ?_⟩
      rw [hmain]
      exact Nat.le_trans (hmoves.count _) ho.registrations
  | moved pc c hfrom hto hmoves =>
      have hreg := Nat.le_trans (hmoves.count _) ho.registrations
      rw [hfrom] at hreg
      exact ⟨ho.replying, Nat.le_trans hreg (Nat.zero_le _)⟩
  | subscribed hpc =>
      -- there was none before
      have hreg := ho.registrations
      rw [hpc] at hreg
      have hemit := Socket.count_emit Message.isRegistration s.current_socket .main
        ⟨.registration, s.module_info⟩
      exact ⟨ho.replying, Nat.le_trans hemit (Nat.add_le_add_right hreg _)⟩
  | started hpc =>
      have hreg := ho.registrations
      rw [hpc] at hreg
      exact ⟨ho.replying, Nat.le_trans ((Socket.leave_moves _ _).count _) hreg⟩
  | emits e m hemits =>
      have hno := Message.not_isRegistration (isReply_emits ho.replying hemits)
      have hemit := Socket.count_emit Message.isRegistration s.current_socket e m
      rw [hno, if_neg Bool.false_ne_true] at hemit
      exact ⟨ho.replying, Nat.le_trans hemit ho.registrations⟩
  | world w c hst hmoves =>
      exact ⟨replying_step hst ho.replying, Nat.le_trans (hmoves.count _) ho.registrations⟩

theorem once_run {module_id : String} {d : δ} {as : List (SessionAct A)} {s : Session δ}
    {G : Session δ → SessionAct A → Prop}
    (hr : Run (Session.step parse dev) G (Session.start module_id d) as s) : Once s :=
  hr.invariant (once_start module_id d) (fun ho _ hst => once_step (Session.step_cases hst) ho)

/-! ## Every connection registered -/

/-- A reply on the connection `k` comes after a `REGISTRATION` on it. -/
def RegisteredOn (sent : List (Nat × Message)) (k : Nat) : Prop :=
  ∀ (i : Nat) (m : Message), sent[i]? = some (k, m) → m.isReply = true →
    ∃ j m', j < i ∧ sent[j]? = some (k, m') ∧ m'.isRegistration = true

/-- Every connection is registered before a reply is sent on it. -/
def RegisteredFirst (s : Session δ) : Prop := ∀ k, RegisteredOn s.current_socket.sent k

/-- There is one connection with a `REGISTRATION`. -/
theorem Once.unique {s : Session δ} (h : Once s) {k k' : Nat} {m m' : Message}
    (hm : (k, m) ∈ s.current_socket.sent) (hm' : (k', m') ∈ s.current_socket.sent)
    (hr : m.isRegistration = true) (hr' : m'.isRegistration = true) : k = k' := by
  have hle : ((s.current_socket.sent.filter (fun p => p.2.isRegistration)).length) ≤ 1 := by
    have hcount := h.registrations
    rw [Socket.count_eq, List.countP_map, List.countP_eq_length_filter] at hcount
    have hone : (if s.main.registers = true then 1 else 0) ≤ 1 := by split <;> simp
    refine Nat.le_trans ?_ (Nat.le_trans hcount hone)
    rw [Nat.add_assoc, Nat.add_assoc]
    exact Nat.le_add_right ..
  have hf : (k, m) ∈ s.current_socket.sent.filter (fun p => p.2.isRegistration) :=
    List.mem_filter.mpr ⟨hm, hr⟩
  have hf' : (k', m') ∈ s.current_socket.sent.filter (fun p => p.2.isRegistration) :=
    List.mem_filter.mpr ⟨hm', hr'⟩
  cases hl : s.current_socket.sent.filter (fun p => p.2.isRegistration) with
  | nil => rw [hl] at hf; exact absurd hf (by simp)
  | cons p rest =>
      rw [hl, List.length_cons] at hle
      have : rest = [] := List.length_eq_zero_iff.mp (by omega)
      subst this
      rw [hl] at hf hf'
      exact congrArg Prod.fst ((List.mem_singleton.mp hf).trans (List.mem_singleton.mp hf').symm)

/-- A connection other than the registered one is in order for want of replies only. -/
theorem Once.registeredOn_iff {s : Session δ} (h : Once s) {k₀ k : Nat} {m₀ : Message}
    (hm : (k₀, m₀) ∈ s.current_socket.sent) (hr : m₀.isRegistration = true) (hk : k ≠ k₀) :
    RegisteredOn s.current_socket.sent k
      ↔ ∀ m, (k, m) ∈ s.current_socket.sent → m.isReply = false := by
  constructor
  · intro hreg m hmem
    by_contra hrep
    obtain ⟨i, hi⟩ := List.mem_iff_getElem?.mp hmem
    obtain ⟨j, m', _, hj, hr'⟩ := hreg i m hi (Bool.not_eq_false _ ▸ hrep)
    exact hk (h.unique (List.mem_of_getElem? hj) hm hr' hr)
  · intro hnone i m hi hrep
    rw [hnone m (List.mem_of_getElem? hi)] at hrep
    exact absurd hrep Bool.false_ne_true

/-- The `REGISTRATION` has gone out on a connection. -/
def Socket.registered (c : Socket) : Bool := c.sent.any (fun p => p.2.isRegistration)

/--
The guard: the connection is not opened again once the `REGISTRATION` has gone out on it,
and no event is handled before that.
-/
def Undisturbed (s : Session δ) : SessionAct A → Bool
  | .opened => !s.current_socket.registered
  | .world (.receive _ _) => s.current_socket.registered
  | _ => true

/-- What holds as long as the guard is met: before the `REGISTRATION` has gone out, and after. -/
def Orderly (w : World δ) (c : Socket) : Prop :=
  (c.sent = [] ∧ c.count (fun m => !m.isRegistration) = 0 ∧ Unheard w)
    ∨ ∃ p rest, c.sent = p :: rest ∧ p.2.isRegistration = true ∧ ∀ q ∈ c.sent, q.1 = c.opens

theorem orderly_start (module_id : String) (d : δ) :
    Orderly (Session.start module_id d).world (Session.start module_id d).current_socket :=
  Or.inl ⟨rfl, rfl, rfl, rfl, rfl⟩

/-- Where there is nothing but the `REGISTRATION`, it is what goes out. -/
theorem Orderly.moves {w w' : World δ} {c c' : Socket} (h : Orderly w c) (hm : c.Moves c')
    (hw : c.sent = [] → Unheard w → Unheard w') : Orderly w' c' := by
  rcases h with ⟨hnone, hcount, hunheard⟩ | ⟨p, rest, hsent, hreg, hhere⟩
  · have hcount' : c'.count (fun m => !m.isRegistration) = 0 :=
      Nat.le_zero.mp (hcount ▸ hm.count _)
    rcases hm.sent with hsame | ⟨m, hsent⟩
    · exact Or.inl ⟨hsame.trans hnone, hcount', hw hnone hunheard⟩
    · rw [hnone, List.nil_append] at hsent
      refine Or.inr ⟨(c.opens, m), [], hsent, ?_, ?_⟩
      · rw [Socket.count_eq, hsent] at hcount'
        by_contra hno
        have hone : ([(c.opens, m)].map Prod.snd).countP (fun m => !m.isRegistration) = 1 := by
          simp [Bool.not_eq_true _ ▸ hno]
        omega
      · rw [hsent, hm.opens]
        simp
  · refine Or.inr ?_
    rcases hm.sent with hsame | ⟨m, hsent'⟩
    · exact ⟨p, rest, hsame.trans hsent, hreg, by rw [hsame, hm.opens]; exact hhere⟩
    · refine ⟨p, rest ++ [(c.opens, m)], by rw [hsent', hsent]; rfl, hreg, ?_⟩
      rw [hsent', hm.opens]
      intro q hq
      rcases List.mem_append.mp hq with hq | hq
      · exact hhere q hq
      · rw [List.mem_singleton.mp hq]

theorem Orderly.registered {w : World δ} {c : Socket} (h : Orderly w c) :
    c.registered = false → c.sent = [] := by
  intro hreg
  rcases h with ⟨hnone, -, -⟩ | ⟨p, rest, hsent, hp, -⟩
  · exact hnone
  · rw [Socket.registered, hsent, List.any_cons, hp] at hreg
    exact absurd hreg (by simp)

theorem orderly_step {s s' : Session δ} {a : SessionAct A} (h : Session.Step parse dev s a s')
    (hg : Undisturbed s a = true) (hs : Orderly s.world s.current_socket) :
    Orderly s'.world s'.current_socket := by
  cases h with
  | opened c hmoves hsame =>
      -- nothing has been sent, or it would have been the `REGISTRATION`
      have hnone : c.sent = [] := hsame.trans (hs.registered (Bool.not_eq_true' _ ▸ hg))
      rcases hs.moves hmoves fun _ hu => hu with ⟨hsent, hcount, hunheard⟩ | ⟨p, rest, hsent, -⟩
      · exact Or.inl ⟨hsent, hcount, hunheard⟩
      · rw [hnone] at hsent
        exact absurd hsent (by simp)
  | socket hmoves hworld hmain => exact hs.moves hmoves fun _ hu => by rw [hworld]; exact hu
  | moved pc c hfrom hto hmoves => exact hs.moves hmoves fun _ hu => hu
  | subscribed hpc =>
      rcases hs with ⟨hsent, hcount, hunheard⟩ | hs
      · refine Or.inl ⟨hsent, Nat.le_zero.mp ?_, hunheard⟩
        have hemit := Socket.count_emit (fun m => !m.isRegistration) s.current_socket .main
          ⟨.registration, s.module_info⟩
        rw [hcount] at hemit
        exact hemit
      · exact Or.inr hs
  | started hpc => exact hs.moves (Socket.leave_moves _ _) fun _ hu => hu
  | emits e m hemits =>
      rcases hs with ⟨hsent, hcount, hunheard⟩ | hs
      · rw [unheard_emits hunheard] at hemits
        exact absurd hemits (by simp)
      · exact Or.inr hs
  | world w c hst hmoves =>
      refine hs.moves hmoves fun hnone hu => (unheard_step hst hu ?_).1
      rintro event payload rfl
      have hreg : s.current_socket.registered = true := hg
      rw [Socket.registered, hnone] at hreg
      exact absurd hreg (by simp)

/-- Everything was sent on one connection, and the `REGISTRATION` first. -/
theorem Orderly.registeredFirst {s : Session δ} (h : Orderly s.world s.current_socket) :
    RegisteredFirst s := by
  intro k i m hi hrep
  have hmem := List.mem_of_getElem? hi
  rcases h with ⟨hnone, -, -⟩ | ⟨p, rest, hsent, hfirst, hhere⟩
  · rw [hnone] at hmem
    exact absurd hmem (by simp)
  · have hk : k = s.current_socket.opens := hhere _ hmem
    have hp : p = (k, p.2) := by
      rw [hk, ← hhere p (by rw [hsent]; exact List.mem_cons_self ..)]
    refine ⟨0, p.2, Nat.pos_of_ne_zero ?_, by rw [hsent, ← hp]; rfl, hfirst⟩
    rintro rfl
    -- the first packet is no reply
    rw [hsent] at hi
    have : p = (k, m) := Option.some.inj hi
    rw [this] at hfirst
    rw [Message.not_isRegistration hrep] at hfirst
    exact absurd hfirst Bool.false_ne_true

/--
**Registration.** In a run in which the connection is not opened again once the
`REGISTRATION` has gone out on it, and no event is handled before that, every connection is
registered before it is used. However such a run goes on, on every connection but the one
the `REGISTRATION` went out on that is so exactly if no reply goes out on it.
-/
theorem registeredFirst_run {module_id : String} {d : δ} {as : List (SessionAct A)}
    {s : Session δ}
    (hr : Run (Session.step parse dev) (fun s a => Undisturbed s a = true)
      (Session.start module_id d) as s) :
    RegisteredFirst s ∧ ∀ (bs : List (SessionAct A)) (s' : Session δ),
      Run (Session.step parse dev) NoGuard s bs s' →
      ∀ (k₀ k : Nat) (m₀ : Message), (k₀, m₀) ∈ s'.current_socket.sent →
        m₀.isRegistration = true → k ≠ k₀ →
        (RegisteredOn s'.current_socket.sent k
          ↔ ∀ m, (k, m) ∈ s'.current_socket.sent → m.isReply = false) := by
  have horderly : Orderly s.world s.current_socket :=
    hr.invariant (I := fun s => Orderly s.world s.current_socket) (orderly_start module_id d)
      fun hs hg hst => orderly_step (Session.step_cases hst) hg hs
  refine ⟨horderly.registeredFirst, ?_⟩
  intro bs s' hr' k₀ k m₀ hm hreg hk
  have ho : Once s' := once_run ((hr.weaken (fun _ _ _ => trivial)).trans hr')
  exact ho.registeredOn_iff hm hreg hk

/-- A thread goes through `send_packet` on a connected socket with nothing in its queue. -/
def sends (e : Emitter) : List (SessionAct Unit) := List.replicate 4 (.send e)

/-- The connection is opened, and `start` comes to its `emit`. -/
def opening : List (SessionAct Unit) := [.opened, .openListener, .start, .start, .start]

/-- The server's `CONNECT` comes, with nothing in the queue. -/
def connecting : List (SessionAct Unit) := [.connected, .send .network]

/-- A command comes and is answered. -/
def answering : List (SessionAct Unit) :=
  [.world (.receive .workAssignation openPayload), .emit .answer] ++ sends .network
    ++ [.world .answer]

/-- One connection: it is opened, `start` goes through, and a command is answered. -/
def firstConnection : List (SessionAct Unit) :=
  opening ++ connecting ++ sends .main ++ [.start, .sendImpl] ++ answering

theorem registeredFirst_run_first :
    ∃ s, Run (Session.step sessionParse firmware) (fun s a => Undisturbed s a = true)
        (Session.start "handling" Board.start) firstConnection s
      ∧ s.current_socket.sent.length = 2 ∧ RegisteredFirst s := by
  have hexec : (exec (checked Undisturbed (Session.step sessionParse firmware))
      (Session.start "handling" Board.start) firstConnection).any
      (fun s => s.current_socket.sent.length == 2) = true := by decide +kernel
  obtain ⟨s, hs, hlen⟩ := exists_of_exec hexec
  have hr := run_of_exec_checked hs
  exact ⟨s, hr, eq_of_beq hlen, (registeredFirst_run hr).1⟩

/-- A reply that has no packet before it on its connection. -/
theorem not_registeredFirst {s : Session δ} {i k : Nat}
    (hreply : (s.current_socket.sent[i]?.any fun p => p.1 == k && p.2.isReply) = true)
    (hbefore : ((s.current_socket.sent.take i).all fun p => p.1 != k) = true) :
    ¬ RegisteredFirst s := by
  intro hreg
  cases hm : s.current_socket.sent[i]? with
  | none => rw [hm] at hreply; exact absurd hreply (by simp)
  | some p =>
      obtain ⟨k', m⟩ := p
      rw [hm] at hreply
      obtain ⟨hk, hrep⟩ := Bool.and_eq_true_iff.mp hreply
      obtain rfl : k' = k := eq_of_beq hk
      obtain ⟨j, m', hj, hm', -⟩ := hreg k' i m hm hrep
      have hmem : (k', m') ∈ s.current_socket.sent.take i :=
        List.mem_of_getElem? ((List.getElem?_take_of_lt hj).trans hm')
      exact absurd (List.all_eq_true.mp hbefore _ hmem) (by simp)

/-- The connection drops and is opened again, and a command is answered on it. -/
def secondConnection : List (SessionAct Unit) :=
  opening ++ connecting ++ sends .main ++ [.start, .sendImpl]
    ++ [.dropped, .send .network, .opened, .openListener] ++ connecting ++ answering

theorem not_registeredFirst_second :
    ¬ ∀ (as : List (SessionAct Unit)) (s : Session Board),
      Run (Session.step sessionParse firmware) NoGuard (Session.start "handling" Board.start) as s →
      RegisteredFirst s := by
  intro hall
  have hexec : (exec (Session.step sessionParse firmware) (Session.start "handling" Board.start)
      secondConnection).any (fun s =>
        (s.current_socket.sent[1]?.any fun p => p.1 == 2 && p.2.isReply)
          && (s.current_socket.sent.take 1).all fun p => p.1 != 2) = true := by decide +kernel
  obtain ⟨s, hs, hend⟩ := exists_of_exec hexec
  obtain ⟨hreply, hbefore⟩ := Bool.and_eq_true_iff.mp hend
  exact not_registeredFirst hreply hbefore (hall _ s (run_of_exec hs))

/--
The `REGISTRATION` that `start` has emitted is thrown away: the socket is connected after
`send_packet` has found that it is not, the packet gets into the queue behind
`on_connected`, and the connection drops.
-/
def thrownAway : List (SessionAct Unit) :=
  opening ++ [.send .main, .send .main] ++ connecting ++ [.send .main, .start, .dropped,
    .send .network, .opened, .openListener] ++ connecting ++ answering

theorem not_registeredFirst_thrown :
    ∃ s, Run (Session.step sessionParse firmware) NoGuard (Session.start "handling" Board.start)
        thrownAway s ∧ s.main = .started ∧ ¬ RegisteredFirst s := by
  have hexec : (exec (Session.step sessionParse firmware) (Session.start "handling" Board.start)
      thrownAway).any (fun s => s.main == .started
        && ((s.current_socket.sent[0]?.any fun p => p.1 == 2 && p.2.isReply)
        && (s.current_socket.sent.take 0).all fun p => p.1 != 2)) = true := by decide +kernel
  obtain ⟨s, hs, hend⟩ := exists_of_exec hexec
  obtain ⟨hstarted, hend⟩ := Bool.and_eq_true_iff.mp hend
  obtain ⟨hreply, hbefore⟩ := Bool.and_eq_true_iff.mp hend
  exact ⟨s, run_of_exec hs, eq_of_beq hstarted, not_registeredFirst hreply hbefore⟩

end HandlingModule.AIO
