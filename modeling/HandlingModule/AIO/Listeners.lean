import HandlingModule.AIO.CommunicationChannel

/-!
# What the listeners do with a payload

A listener throws before it has changed anything but the mutex, or it does all of
its work (`Heard`). Which of the two depends on the payload alone, apart from one
question `WORK_ASSIGNATION` asks of the state: whether the command has a service.
-/

namespace HandlingModule.AIO

namespace Handler

variable {parse : String → Option Json}

/-- A payload the listener of an event does not throw on. -/
def Handles (parse : String → Option Json) (ch : Channel) : CommunicationEvents → String → Prop
  | .registrationReply, payload =>
      ∃ j module_id, parse payload = some j ∧ j.member "MODULE_ID" = .string module_id
  | .workAssignation, payload =>
      ∃ j name, parse payload = some j ∧ j.member "COMMAND" = .string name
        ∧ ((ch.services.services.lookup name).isSome = true →
          ∃ group_id, (j.member "GROUP_ID").toLong = .ok group_id)
  | .allBegins, payload => ∃ j, parse payload = some j
  | .workStatus, payload => ∃ j, parse payload = some j ∧ j.Indexable
  | _, _ => True

/-- What a listener can do to the channel, and what it leaves to be emitted. -/
inductive Heard (parse : String → Option Json) (ch : Channel) :
    CommunicationEvents → String → EStateM.Result Exn Channel (Option Message) → Prop where
  | thrown {event : CommunicationEvents} {payload : String} (e : Exn) :
      ¬ Handles parse ch event payload →
      Heard parse ch event payload (.error e { ch with mutex := true })
  | registered {payload : String} (j : Json) (module_id : String) :
      parse payload = some j → j.member "MODULE_ID" = .string module_id →
      Heard parse ch .registrationReply payload
        (.ok none { ch with mutex := false, module_id := module_id, connected := true })
  | refused {payload : String} (j : Json) (name : String) :
      parse payload = some j → j.member "COMMAND" = .string name →
      ch.services.services.lookup name = none →
      Heard parse ch .workAssignation payload
        (.ok (some (assignationReply ch.module_id (j.member "COMMAND_ID") (j.member "GROUP_ID") false))
          { ch with mutex := true })
  | accepted {payload : String} (j : Json) (group_id : Int64) (c : CommandInfo) :
      parse payload = some j → Services.Accepts ch.services j group_id c →
      Heard parse ch .workAssignation payload
        (.ok (some (assignationReply ch.module_id (j.member "COMMAND_ID") (j.member "GROUP_ID") true))
          { ch with mutex := true, services := ch.services.push group_id c })
  | begun {payload : String} (j : Json) :
      parse payload = some j →
      Heard parse ch .allBegins payload
        (.ok none { ch with mutex := false, dispatchers := ch.dispatchers ++ [⟨j, .setWorking⟩] })
  | asked {payload : String} (j : Json) :
      parse payload = some j → j.Indexable →
      Heard parse ch .workStatus payload
        (.ok (some (statusReply ch.module_id (j.member "COMMAND_ID") (j.member "GROUP_ID")
          ch.services.isWorking)) { ch with mutex := true })

/-- One bind of a handler. -/
theorem run_bind {α β : Type} (x : Handler α) (f : α → Handler β) (ch : Channel) :
    (x >>= f).run ch = match x.run ch with
      | .ok a ch' => (f a).run ch'
      | .error e ch' => .error e ch' := by
  show EStateM.bind x f ch = _
  unfold EStateM.bind
  cases h : x ch <;> simp only [EStateM.run, h]

theorem run_lift {α : Type} (x : Except Exn α) (ch : Channel) :
    (lift x).run ch = match x with
      | .ok a => .ok a ch
      | .error e => .error e ch := by
  cases x <;> rfl

theorem run_lock (ch : Channel) : lock.run ch = .ok () { ch with mutex := true } := rfl

theorem run_parseData (payload : String) (ch : Channel) :
    (parseData parse payload).run ch = match parse payload with
      | some j => .ok j ch
      | none => .error .invalidArgument ch := by
  unfold parseData
  cases parse payload <;> rfl

theorem run_assessWork (dataJSON : Json) (ch : Channel) :
    (assessWork dataJSON).run ch = match ch.services.assessWork dataJSON with
      | .ok (verdict, services) => .ok verdict { ch with services := services }
      | .error e => .error e ch := by
  show ((get : Handler Channel) >>= _).run ch = _
  rw [run_bind]
  show (lift (ch.services.assessWork dataJSON) >>= _).run ch = _
  rw [run_bind, run_lift]
  cases ch.services.assessWork dataJSON with
  | error e => rfl
  | ok p => rfl

theorem heard_registrationReply (payload : String) (ch : Channel) :
    Heard parse ch .registrationReply payload ((registrationReply parse payload).run ch) := by
  unfold registrationReply
  rw [run_bind, run_lock]
  show Heard parse ch _ payload ((parseData parse payload >>= _).run { ch with mutex := true })
  rw [run_bind, run_parseData]
  cases hp : parse payload with
  | none =>
      refine Heard.thrown _ ?_
      intro ⟨j, module_id, hj, _⟩
      rw [hp] at hj; exact absurd hj (by simp)
  | some j =>
      show Heard parse ch _ payload ((lift (j.index "MODULE_ID") >>= _).run { ch with mutex := true })
      rw [run_bind, run_lift]
      cases hi : j.index "MODULE_ID" with
      | error e =>
          refine Heard.thrown e ?_
          intro ⟨j', module_id, hj, hm⟩
          rw [hp] at hj
          rw [← Option.some.inj hj] at hm
          exact Json.index_error hi (Json.indexable_of_member hm (by simp))
      | ok p =>
          obtain ⟨v, j'⟩ := p
          show Heard parse ch _ payload ((lift v.toStr >>= _).run { ch with mutex := true })
          rw [run_bind, run_lift]
          cases hv : v.toStr with
          | error e =>
              refine Heard.thrown e ?_
              intro ⟨j', module_id, hj, hm⟩
              rw [hp] at hj
              rw [← Option.some.inj hj, ← (Json.index_spec hi).1] at hm
              exact Json.toStr_error hv module_id hm
          | ok module_id =>
              refine Heard.registered j module_id hp ?_
              rw [← (Json.index_spec hi).1]
              exact Json.toStr_ok hv

theorem heard_workAssignation (payload : String) (ch : Channel) :
    Heard parse ch .workAssignation payload ((workAssignation parse payload).run ch) := by
  unfold workAssignation
  rw [run_bind, run_lock]
  show Heard parse ch _ payload ((parseData parse payload >>= _).run { ch with mutex := true })
  rw [run_bind, run_parseData]
  cases hp : parse payload with
  | none =>
      refine Heard.thrown _ ?_
      intro ⟨j, name, hj, _⟩
      rw [hp] at hj; exact absurd hj (by simp)
  | some j =>
      show Heard parse ch _ payload ((lift (j.index "COMMAND_ID") >>= _).run { ch with mutex := true })
      rw [run_bind, run_lift]
      cases hi : j.index "COMMAND_ID" with
      | error e =>
          refine Heard.thrown e ?_
          intro ⟨j', name, hj, hm, _⟩
          rw [hp] at hj
          rw [← Option.some.inj hj] at hm
          exact Json.index_error hi (Json.indexable_of_member hm (by simp))
      | ok p =>
          obtain ⟨v1, j1⟩ := p
          show Heard parse ch _ payload ((lift (j1.index "GROUP_ID") >>= _).run { ch with mutex := true })
          rw [run_bind, run_lift]
          cases hg : j1.index "GROUP_ID" with
          | error e =>
              -- the lookup of `COMMAND_ID` has left an object behind
              obtain ⟨_, ⟨members, hobj⟩, _⟩ := Json.index_spec hi
              exact absurd (by rw [hobj]; trivial) (Json.index_error hg)
          | ok q =>
              obtain ⟨v2, j2⟩ := q
              show Heard parse ch _ payload ((assessWork j2 >>= _).run { ch with mutex := true })
              rw [run_bind, run_assessWork]
              obtain ⟨hv1, _, hm1⟩ := Json.index_spec hi
              obtain ⟨hv2, _, hm2⟩ := Json.index_spec hg
              rw [hm1] at hv2
              subst hv1 hv2
              -- both lookups kept the members, and `assessWork` looks at nothing else
              cases ha : ch.services.assessWork j2 with
              | error e =>
                  refine Heard.thrown e ?_
                  intro ⟨j', name, hj, hm, hgroup⟩
                  rw [hp] at hj
                  rw [← Option.some.inj hj] at hm hgroup
                  obtain ⟨hsome, hno⟩ := Services.assessWork_error ha
                    (((hm2 _).trans (hm1 _)).trans hm)
                  obtain ⟨group_id, hgid⟩ := hgroup hsome
                  exact hno group_id (by rw [hm2, hm1]; exact hgid)
              | ok r =>
                  obtain ⟨verdict, services⟩ := r
                  rcases Services.assessWork_cases ha with
                    ⟨rfl, rfl, name, hname, hl⟩ | ⟨g, c, rfl, hacc, rfl⟩
                  · exact Heard.refused j name hp (by rw [← hm1, ← hm2]; exact hname) hl
                  · refine Heard.accepted j g c hp ?_
                    exact hacc.congr (fun key => (hm2 key).trans (hm1 key))

theorem heard_allBegins (payload : String) (ch : Channel) :
    Heard parse ch .allBegins payload ((allBegins parse payload).run ch) := by
  unfold allBegins
  rw [run_bind, run_lock]
  show Heard parse ch _ payload ((parseData parse payload >>= _).run { ch with mutex := true })
  rw [run_bind, run_parseData]
  cases hp : parse payload with
  | none =>
      refine Heard.thrown _ ?_
      intro ⟨j, hj⟩
      rw [hp] at hj; exact absurd hj (by simp)
  | some j => exact Heard.begun j hp

theorem heard_workStatus (payload : String) (ch : Channel) :
    Heard parse ch .workStatus payload ((workStatus parse payload).run ch) := by
  unfold workStatus
  rw [run_bind, run_lock]
  show Heard parse ch _ payload ((parseData parse payload >>= _).run { ch with mutex := true })
  rw [run_bind, run_parseData]
  cases hp : parse payload with
  | none =>
      refine Heard.thrown _ ?_
      intro ⟨j, hj, _⟩
      rw [hp] at hj; exact absurd hj (by simp)
  | some j =>
      show Heard parse ch _ payload ((lift (j.index "COMMAND_ID") >>= _).run { ch with mutex := true })
      rw [run_bind, run_lift]
      cases hi : j.index "COMMAND_ID" with
      | error e =>
          refine Heard.thrown e ?_
          intro ⟨j', hj, hx⟩
          rw [hp] at hj
          rw [← Option.some.inj hj] at hx
          exact Json.index_error hi hx
      | ok p =>
          obtain ⟨v1, j1⟩ := p
          show Heard parse ch _ payload ((lift (j1.index "GROUP_ID") >>= _).run { ch with mutex := true })
          rw [run_bind, run_lift]
          cases hg : j1.index "GROUP_ID" with
          | error e =>
              obtain ⟨_, ⟨members, hobj⟩, _⟩ := Json.index_spec hi
              exact absurd (by rw [hobj]; trivial) (Json.index_error hg)
          | ok q =>
              obtain ⟨v2, j2⟩ := q
              obtain ⟨hv1, _, hm1⟩ := Json.index_spec hi
              obtain ⟨hv2, _, _⟩ := Json.index_spec hg
              rw [hm1] at hv2
              subst hv1 hv2
              exact Heard.asked j hp (Json.index_isOk.mp ⟨_, _, hi⟩)

/-- **Every listener.** -/
theorem heard {event : CommunicationEvents} {l : String → Handler (Option Message)}
    (hl : listener parse event = some l) (payload : String) (ch : Channel) :
    Heard parse ch event payload ((l payload).run ch) := by
  cases event with
  | registrationReply => rw [← Option.some.inj hl]; exact heard_registrationReply payload ch
  | workAssignation => rw [← Option.some.inj hl]; exact heard_workAssignation payload ch
  | allBegins => rw [← Option.some.inj hl]; exact heard_allBegins payload ch
  | workStatus => rw [← Option.some.inj hl]; exact heard_workStatus payload ch
  | registration => exact absurd hl (by simp [listener])
  | workAssignationReply => exact absurd hl (by simp [listener])
  | workStatusReply => exact absurd hl (by simp [listener])
  | actionFinished => exact absurd hl (by simp [listener])

end Handler

end HandlingModule.AIO
