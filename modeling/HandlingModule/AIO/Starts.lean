import HandlingModule.AIO.Accounts

/-!
# In which order threads are started

The queue of a group is first in, first out, and `all_begins` starts a thread for
each command it takes. With one `ALL_BEGINS` for the group the threads are started in
the order in which the commands were accepted; two of them may overtake each other
between a pop and the start.
-/

namespace HandlingModule.AIO

open Serial Transition Replace

variable {δ A : Type} {parse : String → Option Json} {dev : Device δ A}

/-- At most one `ALL_BEGINS` has come for the group. -/
def World.Single (w : World δ) (g : Int64) : Prop :=
  ∀ (i j : Nat) (d e : Dispatcher), w.channel.dispatchers[i]? = some d →
    w.channel.dispatchers[j]? = some e → d.groupId = .ok g → e.groupId = .ok g → i = j

/-- What an `all_begins` thread holds of a group. -/
def Dispatcher.heldFor (g : Int64) (d : Dispatcher) : List CommandInfo := forGroup d.held g

/-- The commands of a group whose threads have been started, in the order of the starts. -/
def World.started (w : World δ) (g : Int64) : List CommandInfo :=
  forGroup (w.consumers.map Consumer.entry) g

/-- The starts of a group follow its pops, as long as a single thread makes them. -/
structure Starts (g : Int64) (w : World δ) : Prop where
  group : ∀ (i : Nat) (d : Dispatcher) (h : Int64), w.channel.dispatchers[i]? = some d →
    d.pc.group = some h → d.groupId = .ok h
  inOrder : w.Single g → forGroup w.channel.services.popped g
    = w.started g ++ w.channel.dispatchers.flatMap (Dispatcher.heldFor g)

theorem starts_start (g : Int64) (module_id : String) (d : δ) :
    Starts g (World.start module_id d) where
  group := by intro i d h hd; exact absurd hd (by simp [World.start])
  inOrder := fun _ => rfl

theorem groupId_setPc (d : Dispatcher) (pc : DispatchPc) :
    Dispatcher.groupId { d with pc := pc } = d.groupId := rfl

/-- A step does not make two `ALL_BEGINS` one. -/
theorem HandStep.single {w w' : World δ} (h : HandStep w w') {g : Int64} (hs : w'.Single g) :
    w.Single g := by
  have hkeep : ∀ {i : Nat} {d : Dispatcher}, w.channel.dispatchers[i]? = some d →
      ∃ d', w'.channel.dispatchers[i]? = some d' ∧ d'.groupId = d.groupId := by
    have hset : ∀ {j : Nat} {e : Dispatcher} (pc : DispatchPc),
        w.channel.dispatchers[j]? = some e →
        w'.channel.dispatchers = w.channel.dispatchers.set j { e with pc := pc } →
        ∀ {i : Nat} {d : Dispatcher}, w.channel.dispatchers[i]? = some d →
          ∃ d', w'.channel.dispatchers[i]? = some d' ∧ d'.groupId = d.groupId := by
      intro j e pc he heq i d hd
      rw [heq]
      rcases eq_or_ne j i with rfl | hne
      · rw [he] at hd
        refine ⟨_, List.getElem?_set_self (List.getElem?_eq_some_iff.mp he).1, ?_⟩
        rw [groupId_setPc, Option.some.inj hd]
      · exact ⟨d, (List.getElem?_set_ne hne).trans hd, rfl⟩
    intro i d hd
    cases h with
    | unseen heq _ _ => exact ⟨d, by rw [heq]; exact hd, rfl⟩
    | begun j heq _ _ =>
        rw [heq]
        exact ⟨d, (List.getElem?_append_left (List.getElem?_eq_some_iff.mp hd).1).trans hd, rfl⟩
    | moved e pc he _ _ _ heq _ _ => exact hset pc he heq hd
    | popped e g' c he _ heq _ _ => exact hset _ he heq hd
    | threaded e g' c he _ heq _ _ => exact hset _ he heq hd
  intro i j d e hd he hgd hge
  obtain ⟨d', hd', hgd'⟩ := hkeep hd
  obtain ⟨e', he', hge'⟩ := hkeep he
  exact hs i j d' e' hd' he' (hgd'.trans hgd) (hge'.trans hge)

/-- With a single thread for the group, nobody else holds a command of it. -/
theorem Starts.sole {g : Int64} {w : World δ} (h : Starts g w) (hs : w.Single g) {i : Nat}
    {d : Dispatcher} (hd : w.channel.dispatchers[i]? = some d) (hg : d.pc.group = some g) :
    ∀ (j : Nat) (e : Dispatcher), j ≠ i → w.channel.dispatchers[j]? = some e → e.heldFor g = [] := by
  intro j e hne he
  cases hpc : e.pc with
  -- only a thread on its way to start another holds a command
  | newThread g' c =>
      have hge : e.groupId = .ok g' := h.group j e g' he (by rw [hpc]; rfl)
      have hneg : g' ≠ g := by
        rintro rfl
        exact hne (hs j i e d he hd hge (h.group i d g' hd hg))
      simp [Dispatcher.heldFor, Dispatcher.held, hpc, forGroup, hneg]
  | _ => simp [Dispatcher.heldFor, Dispatcher.held, hpc, forGroup]

theorem starts_step {g : Int64} {w w' : World δ} (h : HandStep w w') (hst : Starts g w) :
    Starts g w' := by
  have hsingle : w'.Single g → w.Single g := h.single
  cases h with
  | unseen hds hp hcs =>
      exact ⟨by rw [hds]; exact hst.group, fun hs => by
        rw [hds, hp, World.started, hcs]; exact hst.inOrder (hsingle hs)⟩
  | begun j hds hp hcs =>
      refine ⟨?_, fun hs => ?_⟩
      · rw [hds]
        intro i d h hd hg
        rcases getElem?_snoc_cases hd with hd | ⟨_, rfl⟩
        · exact hst.group i d h hd hg
        · exact absurd hg (by simp [DispatchPc.group])
      · rw [hds, hp, World.started, hcs, List.flatMap_append, hst.inOrder (hsingle hs)]
        simp [Dispatcher.heldFor, Dispatcher.held, forGroup, World.started]
  | moved d pc hd h0 h1 hpc hds hp hcs =>
      refine ⟨?_, fun hs => ?_⟩
      · rw [hds]
        intro j e h he hg
        rcases getElem?_set_cases hd he with ⟨_, rfl⟩ | ⟨_, he⟩
        · rcases hpc h hg with hg | hg
          · exact hg
          · exact hst.group _ d h hd hg
        · exact hst.group j e h he hg
      · rw [hds, hp, World.started, hcs]
        rw [flatMap_set_of_eq hd (by rw [Dispatcher.heldFor, Dispatcher.heldFor, h0, h1])]
        exact hst.inOrder (hsingle hs)
  | popped d g' c hd hpc hds hp hcs =>
      refine ⟨?_, fun hs => ?_⟩
      · rw [hds]
        intro j e h he hg
        rcases getElem?_set_cases hd he with ⟨_, rfl⟩ | ⟨_, he⟩
        · exact hst.group _ d h hd (by rw [hpc]; exact hg)
        · exact hst.group j e h he hg
      · have hord := hst.inOrder (hsingle hs)
        have h0 : d.heldFor g = [] := by simp [Dispatcher.heldFor, Dispatcher.held, hpc, forGroup]
        rw [hds, hp, World.started, hcs, forGroup_snoc]
        rcases eq_or_ne g' g with rfl | hne
        · -- the thread is the only one of its group, and its hands were empty
          have hsole := hst.sole (hsingle hs) hd (by rw [hpc]; rfl)
          rw [flatMap_of_sole hd hsole, h0, List.append_nil] at hord
          rw [if_pos rfl, flatMap_set_of_sole _ hd hsole, hord]
          simp [Dispatcher.heldFor, Dispatcher.held, forGroup, World.started]
        · rw [if_neg hne, flatMap_set_of_eq hd]
          · exact hord
          · rw [h0]
            simp [Dispatcher.heldFor, Dispatcher.held, forGroup, hne]
  | threaded d g' c hd hpc hds hp hcs =>
      refine ⟨?_, fun hs => ?_⟩
      · rw [hds]
        intro j e h he hg
        rcases getElem?_set_cases hd he with ⟨_, rfl⟩ | ⟨_, he⟩
        · exact hst.group _ d h hd (by rw [hpc]; exact hg)
        · exact hst.group j e h he hg
      · have hord := hst.inOrder (hsingle hs)
        rw [hds, hp, World.started, hcs, forGroup_snoc]
        rcases eq_or_ne g' g with rfl | hne
        · -- the command it held goes to the end of the starts
          have hsole := hst.sole (hsingle hs) hd (by rw [hpc]; rfl)
          rw [flatMap_of_sole hd hsole] at hord
          rw [if_pos rfl, flatMap_set_of_sole _ hd hsole, hord]
          simp [Dispatcher.heldFor, Dispatcher.held, hpc, forGroup, World.started]
        · rw [if_neg hne, flatMap_set_of_eq hd]
          · exact hord
          · simp [Dispatcher.heldFor, Dispatcher.held, hpc, forGroup, hne]

theorem starts_run {module_id : String} {d : δ} {as : List (Act A)} {w : World δ}
    {G : World δ → Act A → Prop} (g : Int64)
    (hr : Run (World.step parse dev) G (World.start module_id d) as w) : Starts g w :=
  hr.invariant (starts_start g module_id d)
    (fun hs _ hst => starts_step (handStep (World.step_cases hst)) hs)

end HandlingModule.AIO
