import Workflow.Proofs.Call.Announced

/-!
# Calls that enter a state

A call enters a state if the event takes a transition, whose actions have run, or if the machine is
started for the first time in a state that is there; what becomes of the entry actions does not
matter. All other calls stay: no transition is taken, a number is too long, a fault ends the actions
of the transition, the machine is started again, or the call is turned away.

Results:
* `Sent.enters_or_stays`, `Started.enters_or_stays`: each call enters a state or stays.
* `Enters.announced`, `Stays.unannounced`: the first announce their machine at last, the others
  never.
-/
namespace Workflow

variable {η : Type}

namespace Machine

/-- A call enters a state: what it does then, and what it comes to. -/
inductive Enters (m : Machine) : Option Event → List (Deed η) → Except CallFault Bool → Prop where
  | send {e : Event} {before : List Transition} {t : Transition} {target : State}
    {ds ds' : List (Deed η)} {after final : Live} {fault? : Option CallFault}
    (h : m.Meets e before t) (hg : Guard.check t.guard m.live.context = .ok true)
    (ht : m.chart.states.get? t.target = some target)
    (ha : m.Acts .transition { m.live with started := true } t.actions ds after none)
    (he : m.Acts .entry (entering after e t) target.entry ds' final fault?) :
    Enters m (some e) (m.trying e before ++ (ds ++ .published (entering after e t) ::
      .logged (m.transitionedEntry m.live.state t.target e.type) :: (ds' ++ [.announced])))
      (result fault? true)
  | start {state : State} {ds : List (Deed η)} {final : Live} {fault? : Option CallFault}
    (h : m.live.started = false) (hs : m.chart.states.get? m.live.state = some state)
    (he : m.Acts .entry { m.live with started := true } state.entry ds final fault?) :
    Enters m none (.published { m.live with started := true } :: (ds ++ [.announced]))
      (result fault? true)

/-- A call stays in the state: why it does so, what it does then, and what it comes to. -/
inductive Stays (m : Machine) : Option Event → List (Deed η) → Except CallFault Bool → Prop where
  /-- No transition is taken. -/
  | idle {e : Event} {ds : List (Deed η)} (h : m.Sent e ds (.ok false)) :
    Stays m (some e) ds (.ok false)
  /-- A guard has an overlong number. -/
  | overlong {e : Event} {before : List Transition} {t : Transition} {x : Decimal.TooLong}
    (h : m.Meets e before t) (hg : Guard.check t.guard m.live.context = .error (.tooLong x)) :
    Stays m (some e) (m.trying e before) (.error (.guardNumeral x))
  /-- A fault ends the actions of the transition. -/
  | halted {e : Event} {before : List Transition} {t : Transition} {target : State}
    {ds : List (Deed η)} {after : Live} {f : CallFault} (h : m.Meets e before t)
    (hg : Guard.check t.guard m.live.context = .ok true)
    (ht : m.chart.states.get? t.target = some target)
    (ha : m.Acts .transition { m.live with started := true } t.actions ds after (some f)) :
    Stays m (some e) (m.trying e before ++ ds) (.error f)
  /-- The machine has been started, or an event has been sent to it. -/
  | again (h : m.live.started = true) : Stays m none [] (.ok false)
  /-- The machine is started in a state that is not there. -/
  | lost (h : m.live.started = false) (hs : m.chart.states.get? m.live.state = none) :
    Stays m none [.published { m.live with started := true },
      .reported (.stateNotFound m.live.state m.name)] (.ok false)
  /-- The call comes from within too many further calls. -/
  | turned (event? : Option Event) (name : Option String) :
    Stays m event? [] (.error (.busy name))

variable {m : Machine} {e : Event} {event? : Option Event} {ds : List (Deed η)}
  {r : Except CallFault Bool}

theorem Sent.enters_or_stays (h : m.Sent e ds r) :
    m.Enters (some e) ds r ∨ m.Stays (some e) ds r := by
  cases h with
  | lost h => exact .inr (.idle (.lost h))
  | unmatched h hp => exact .inr (.idle (.unmatched h hp))
  | overlong h hg => exact .inr (.overlong h hg)
  | taken h hg ht =>
    cases ht with
    | dangling ht => exact .inr (.idle (.taken h hg (.dangling ht)))
    | halted ht ha => exact .inr (.halted h hg ht ha)
    | entered ht ha he => exact .inl (.send h hg ht ha he)

theorem Started.enters_or_stays (h : m.Started ds r) :
    m.Enters none ds r ∨ m.Stays none ds r := by
  cases h with
  | again h => exact .inr (.again h)
  | lost h hs => exact .inr (.lost h hs)
  | entered h hs he => exact .inl (.start h hs he)

/-- A call that enters a state announces its machine at last. -/
theorem Enters.announced (h : m.Enters event? ds r) : ∃ done, ds = done ++ [.announced] := by
  cases h with
  | @send e before t target ds ds' after =>
    refine ⟨m.trying e before ++ (ds ++ .published (entering after e t) ::
      .logged (m.transitionedEntry m.live.state t.target e.type) :: ds'), ?_⟩
    simp
  | start => exact ⟨_ :: _, rfl⟩

/-- A call that takes no transition announces nothing. -/
theorem Sent.unannounced_of_false (h : m.Sent e ds (.ok false)) : .announced ∉ ds := by
  generalize hr : (.ok false : Except CallFault Bool) = r at h
  cases h with
  | lost => simp [trying_unannounced]
  | unmatched => simp [trying_unannounced]
  | overlong => cases hr
  | taken _ _ ht =>
    cases ht with
    | dangling => simp [trying_unannounced]
    | halted => cases hr
    | @entered _ _ _ _ _ fault? => cases fault? <;> cases hr

theorem Stays.unannounced (h : m.Stays event? ds r) : .announced ∉ ds := by
  cases h with
  | idle h => exact h.unannounced_of_false
  | overlong => exact trying_unannounced m _ _
  | halted _ _ _ ha => simp [trying_unannounced, ha.unannounced]
  | again => simp
  | lost => simp
  | turned => simp

end Machine
end Workflow
