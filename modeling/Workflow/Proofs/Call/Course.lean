import Workflow.Proofs.Call.Deed

/-!
# The course of a call

How a call can go, step by step: which transitions are passed over until one is chosen, how one
action goes, how the actions of a list go in turn, how the whole call goes. Each relation has one
case for each way, and holds of what is done exactly if the flow runs that way.

Results:
* `selects_iff`: how a transition is chosen.
* `runAction_runs_iff`, `runActions_runs_iff`: how actions go.
* `send_runs_iff`, `start_runs_iff`: how a call goes.
-/
namespace Workflow

/-! ## Transitions -/

/-- A transition is passed over: it waits for another event, or its guard does not hold, or
fails. -/
def Passes (context : Context) (event : String) (t : Transition) : Prop :=
  t.event = event →
    Guard.check t.guard context = .ok false ∨ ∃ f, Guard.check t.guard context = .error (.failure f)

/-- The failure of a guard that is tried for an event. -/
def guardFailure? (context : Context) (event : String) (t : Transition) : Option Guard.Failure :=
  if t.event = event then
    match Guard.check t.guard context with
    | .error (.failure f) => some f
    | _ => none
  else none

/-- Among the transitions one waits for the event when all before it are passed over. -/
def ComesTo (context : Context) (event : String) (ts before : List Transition) (t : Transition) :
    Prop :=
  (∃ after, ts = before ++ t :: after) ∧ t.event = event ∧ ∀ u ∈ before, Passes context event u

/-- How a choice can end: behind the last transition, at one whose guard holds, or at one whose
guard has an overlong number. The failures are those of the transitions before. -/
inductive Selects (context : Context) (event : String) (ts : List Transition) :
    Selection → Prop where
  | unmatched (h : ∀ u ∈ ts, Passes context event u) :
    Selects context event ts ⟨ts.filterMap (guardFailure? context event), .ok none⟩
  | chosen {before : List Transition} {t : Transition} (h : ComesTo context event ts before t)
    (hg : Guard.check t.guard context = .ok true) :
    Selects context event ts ⟨before.filterMap (guardFailure? context event), .ok (some t)⟩
  | overlong {before : List Transition} {t : Transition} {x : Decimal.TooLong}
    (h : ComesTo context event ts before t)
    (hg : Guard.check t.guard context = .error (.tooLong x)) :
    Selects context event ts ⟨before.filterMap (guardFailure? context event), .error x⟩

/-- A transition that is passed over leaves the choice to the others, with its failure in front. -/
theorem Selects.over {context : Context} {event : String} {u : Transition} {us : List Transition}
    {s : Selection} (hu : Passes context event u) (h : Selects context event us s) :
    Selects context event (u :: us)
      ⟨(guardFailure? context event u).toList ++ s.failures, s.chosen⟩ := by
  have front (ts : List Transition) : (guardFailure? context event u).toList ++
      ts.filterMap (guardFailure? context event) =
      (u :: ts).filterMap (guardFailure? context event) := by
    rw [List.filterMap_cons]
    cases guardFailure? context event u <;> rfl
  have next {before : List Transition} {t : Transition} (hc : ComesTo context event us before t) :
      ComesTo context event (u :: us) (u :: before) t := by
    obtain ⟨⟨after, rfl⟩, hw, hb⟩ := hc
    exact ⟨⟨after, rfl⟩, hw, by simpa using ⟨hu, hb⟩⟩
  cases h with
  | unmatched h =>
    rw [front]
    exact .unmatched (by simpa using ⟨hu, h⟩)
  | chosen h hg =>
    rw [front]
    exact .chosen (next h) hg
  | overlong h hg =>
    rw [front]
    exact .overlong (next h) hg

theorem select_over {context : Context} {event : String} {u : Transition}
    (hu : Passes context event u) (us : List Transition) : select context event (u :: us) =
      ⟨(guardFailure? context event u).toList ++ (select context event us).failures,
        (select context event us).chosen⟩ := by
  by_cases hw : u.event = event
  · rcases hu hw with hg | ⟨f, hg⟩ <;> simp [select, guardFailure?, hw, hg]
  · simp [select, guardFailure?, hw]

theorem select_append {context : Context} {event : String} {before : List Transition}
    (hb : ∀ u ∈ before, Passes context event u) (ts : List Transition) :
    select context event (before ++ ts) =
      ⟨before.filterMap (guardFailure? context event) ++ (select context event ts).failures,
        (select context event ts).chosen⟩ := by
  induction before with
  | nil => rfl
  | cons u us ih =>
    rw [List.cons_append, select_over (hb u (List.mem_cons_self ..)),
      ih fun v hv => hb v (List.mem_cons_of_mem _ hv), List.filterMap_cons]
    cases guardFailure? context event u <;> rfl

/-- `Selects` is what choosing does. -/
theorem selects_iff {context : Context} {event : String} {ts : List Transition} {s : Selection} :
    Selects context event ts s ↔ select context event ts = s := by
  constructor
  · intro h
    cases h with
    | unmatched h =>
      have := select_append h []
      simpa [select] using this
    | chosen h hg =>
      obtain ⟨⟨after, rfl⟩, hw, hb⟩ := h
      rw [select_append hb]
      simp [select, hw, hg]
    | overlong h hg =>
      obtain ⟨⟨after, rfl⟩, hw, hb⟩ := h
      rw [select_append hb]
      simp [select, hw, hg]
  · rintro rfl
    induction ts with
    | nil => exact .unmatched (by simp)
    | cons u us ih =>
      by_cases hu : Passes context event u
      · rw [select_over hu]
        exact ih.over hu
      · obtain ⟨hw, hu⟩ := Classical.not_imp.mp hu
        have here : ComesTo context event (u :: us) [] u := ⟨⟨us, rfl⟩, hw, by simp⟩
        rcases hg : Guard.check u.guard context with (f | x) | (_ | _)
        · exact absurd (.inr ⟨f, hg⟩) hu
        · simpa [select, hw, hg] using Selects.overlong here hg
        · exact absurd (.inl hg) hu
        · simpa [select, hw, hg] using Selects.chosen here hg

/-! ## Actions -/

namespace Machine

variable {η : Type}

/-- What is done to have a handler run for an action, up to its answer. -/
def calling (m : Machine) (phase : Phase) (live : Live) (i : Invocation) (a : Action) (handler : η)
    (params : Fields Value) (o : Outcome) : List (Deed η) :=
  [.looked a.category (some handler), .logged (m.runningEntry phase live i.action a.category),
    .called handler params live.context, .answered o]

/-- How one action can go. -/
inductive Acted (m : Machine) (phase : Phase) (live : Live) (i : Invocation) :
    List (Deed η) → ActionEnd → Prop where
  | undefined (h : m.actions.get? i.action = none) :
    Acted m phase live i [] (.failed (.undefined i.action))
  | unregistered {a : Action} (h : m.actions.get? i.action = some a) :
    Acted m phase live i [.looked a.category none]
      (.failed (.unregistered i.action a.category))
  | blocked {a : Action} {handler : η} {f : NumeralFault} (h : m.actions.get? i.action = some a)
    (hp : Context.resolveAll live.context i.params = .error f) :
    Acted m phase live i [.looked a.category (some handler)] (.broken f)
  | raised {a : Action} {handler : η} {params : Fields Value} {cause : Raised}
    (h : m.actions.get? i.action = some a)
    (hp : Context.resolveAll live.context i.params = .ok params) :
    Acted m phase live i (m.calling phase live i a handler params (.error cause))
      (.failed (.raised i.action a.category cause))
  | strange {a : Action} {handler : η} {params : Fields Value} {v : Value}
    (h : m.actions.get? i.action = some a)
    (hp : Context.resolveAll live.context i.params = .ok params)
    (hv : v.kind ≠ .null ∧ v.kind ≠ .obj) :
    Acted m phase live i (m.calling phase live i a handler params (.ok v))
      (.failed (.notAnObject i.action a.category v.kind))
  | idle {a : Action} {handler : η} {params : Fields Value} {v : Value}
    (h : m.actions.get? i.action = some a)
    (hp : Context.resolveAll live.context i.params = .ok params)
    (hv : v = .null ∨ v = .obj []) :
    Acted m phase live i (m.calling phase live i a handler params (.ok v)) (.ok live)
  | merged {a : Action} {handler : η} {params : Fields Value} {result : Fields Value} {after : Live}
    (h : m.actions.get? i.action = some a)
    (hp : Context.resolveAll live.context i.params = .ok params) (hr : result ≠ [])
    (ha : after = { live with context := Fields.merge live.context result }) :
    Acted m phase live i
      (m.calling phase live i a handler params (.ok (.obj result)) ++ [.published after])
      (.ok after)

theorem runAction_called {m : Machine} {phase : Phase} {live : Live} {i : Invocation} {a : Action}
    {handler : η} {params : Fields Value} {o : Outcome} {ds : List (Deed η)} {e : ActionEnd}
    (ha : m.actions.get? i.action = some a)
    (hp : Context.resolveAll live.context i.params = .ok params)
    (hs : (settle live i.action a.category o).Runs ds e) :
    (m.runAction phase live i).Runs (m.calling phase live i a handler params o ++ ds) e := by
  simp only [runAction, ha]
  refine .resolve (some handler) ?_
  simp only [hp]
  exact .log (.invoke o hs)

theorem runAction_runs_iff {m : Machine} {phase : Phase} {live : Live} {i : Invocation}
    {ds : List (Deed η)} {e : ActionEnd} :
    (m.runAction phase live i).Runs ds e ↔ m.Acted phase live i ds e := by
  constructor
  · intro h
    cases ha : m.actions.get? i.action with
    | none =>
      simp only [runAction, ha, Flow.runs_done_iff] at h
      obtain ⟨rfl, rfl⟩ := h
      exact .undefined ha
    | some a =>
      simp only [runAction, ha, Flow.runs_resolve_iff] at h
      obtain ⟨found, ds', rfl, h⟩ := h
      cases found with
      | none =>
        obtain ⟨rfl, rfl⟩ := Flow.runs_done_iff.mp h
        exact .unregistered ha
      | some handler =>
        cases hp : Context.resolveAll live.context i.params with
        | error f =>
          simp only [hp, Flow.runs_done_iff] at h
          obtain ⟨rfl, rfl⟩ := h
          exact .blocked ha hp
        | ok params =>
          simp only [hp, Flow.runs_log_iff, Flow.runs_invoke_iff] at h
          obtain ⟨_, rfl, o, ds', rfl, h⟩ := h
          unfold settle at h
          split at h
          · obtain ⟨rfl, rfl⟩ := Flow.runs_done_iff.mp h
            exact .raised ha hp
          · obtain ⟨rfl, rfl⟩ := Flow.runs_done_iff.mp h
            exact .idle ha hp (.inl rfl)
          · rename_i result
            split at h
            · rename_i he
              obtain ⟨rfl, rfl⟩ := Flow.runs_done_iff.mp h
              exact .idle ha hp (.inr (by rw [List.isEmpty_iff.mp he]))
            · rename_i he
              simp only [Flow.runs_publish_iff, Flow.runs_done_iff] at h
              obtain ⟨_, rfl, rfl, rfl⟩ := h
              exact .merged ha hp (by simpa using he) rfl
          · rename_i v hnull hobj
            obtain ⟨rfl, rfl⟩ := Flow.runs_done_iff.mp h
            refine .strange ha hp ⟨fun hk => ?_, fun hk => ?_⟩ <;> cases v <;> simp_all [Value.kind]
  · intro h
    cases h with
    | undefined ha => simp [runAction, ha]
    | unregistered ha =>
      simp only [runAction, ha]
      exact .resolve none (.done _)
    | @blocked a handler f ha hp =>
      simp only [runAction, ha]
      refine .resolve (some handler) ?_
      simp only [hp]
      exact .done _
    | raised ha hp => exact runAction_called ha hp (.done _)
    | @strange a handler params v ha hp hv =>
      have hs : (settle live i.action a.category (.ok v) : Flow η _).Runs []
          (.failed (.notAnObject i.action a.category v.kind)) := by
        cases v <;> simp_all [settle, Value.kind]
      exact runAction_called ha hp hs
    | @idle a handler params v ha hp hv =>
      have hs : (settle live i.action a.category (.ok v) : Flow η _).Runs [] (.ok live) := by
        rcases hv with rfl | rfl <;> simp [settle]
      exact runAction_called ha hp hs
    | merged ha hp hr he =>
      subst he
      exact runAction_called ha hp (by simp [settle, hr])

/-- How the actions of a list can go in turn: what is done, the machine as it then is, and the fault
that ended them, if one did. -/
inductive Acts (m : Machine) (phase : Phase) :
    Live → List Invocation → List (Deed η) → Live → Option CallFault → Prop where
  | nil (live : Live) : Acts m phase live [] [] live none
  | ran {live after final : Live} {i : Invocation} {is : List Invocation} {ds ds' : List (Deed η)}
    {fault? : Option CallFault} (h : m.Acted phase live i ds (.ok after))
    (hs : Acts m phase after is ds' final fault?) :
    Acts m phase live (i :: is) (ds ++ ds') final fault?
  | skipped {live final : Live} {i : Invocation} {is : List Invocation} {ds ds' : List (Deed η)}
    {f : ActionFault} {fault? : Option CallFault} (hp : m.failure = .carryOn)
    (h : m.Acted phase live i ds (.failed f)) (hs : Acts m phase live is ds' final fault?) :
    Acts m phase live (i :: is) (ds ++ .reported (.actionFailed f) :: ds') final fault?
  | aborted {live : Live} {i : Invocation} {is : List Invocation} {ds : List (Deed η)}
    {f : ActionFault} (hp : m.failure = .abort) (h : m.Acted phase live i ds (.failed f)) :
    Acts m phase live (i :: is) (ds ++ [.reported (.actionFailed f)]) live (some (.action f))
  | stuck {live : Live} {i : Invocation} {is : List Invocation} {ds : List (Deed η)}
    {f : NumeralFault} (h : m.Acted phase live i ds (.broken f)) :
    Acts m phase live (i :: is) ds live (some (.parameter f))

theorem runActions_runs_iff {m : Machine} {phase : Phase} {live : Live} {is : List Invocation}
    {ds : List (Deed η)} {r : Live × Option CallFault} :
    (m.runActions phase live is).Runs ds r ↔ m.Acts phase live is ds r.1 r.2 := by
  constructor
  · intro h
    induction is generalizing live ds with
    | nil =>
      obtain ⟨rfl, rfl⟩ := Flow.runs_done_iff.mp h
      exact .nil live
    | cons i is ih =>
      obtain ⟨ds₁, ds₂, e, rfl, h₁, h₂⟩ := Flow.runs_bind_iff.mp h
      have ha := runAction_runs_iff.mp h₁
      cases e with
      | ok after => exact .ran ha (ih h₂)
      | failed f =>
        obtain ⟨ds', rfl, h₃⟩ := Flow.runs_report_iff.mp h₂
        cases hp : m.failure with
        | carryOn =>
          rw [hp] at h₃
          exact .skipped hp ha (ih h₃)
        | abort =>
          rw [hp] at h₃
          obtain ⟨rfl, rfl⟩ := Flow.runs_done_iff.mp h₃
          exact .aborted hp ha
      | broken f =>
        obtain ⟨rfl, rfl⟩ := Flow.runs_done_iff.mp h₂
        rw [List.append_nil]
        exact .stuck ha
  · obtain ⟨final, fault?⟩ := r
    intro h
    change m.Acts phase live is ds final fault? at h
    induction h with
    | nil live => exact .done _
    | ran h _ ih => exact (runAction_runs_iff.mpr h).bind ih
    | skipped hp h _ ih =>
      refine (runAction_runs_iff.mpr h).bind (.report ?_)
      rw [hp]
      exact ih
    | aborted hp h =>
      refine (runAction_runs_iff.mpr h).bind (.report ?_)
      rw [hp]
      exact .done _
    | stuck h =>
      unfold runActions
      exact Flow.runs_bind_iff.mpr
        ⟨_, [], _, (List.append_nil _).symm, runAction_runs_iff.mpr h, .done _⟩

theorem Acts.append {m : Machine} {phase : Phase} {live after final : Live}
    {is js : List Invocation} {ds ds' : List (Deed η)} {fault? : Option CallFault}
    (h : m.Acts phase live is ds after none) (h' : m.Acts phase after js ds' final fault?) :
    m.Acts phase live (is ++ js) (ds ++ ds') final fault? := by
  generalize hn : (none : Option CallFault) = none? at h
  induction h with
  | nil live => exact h'
  | ran h _ ih =>
    rw [List.append_assoc]
    exact .ran h (ih h' hn)
  | skipped hp h _ ih =>
    rw [List.append_assoc]
    exact .skipped hp h (ih h' hn)
  | aborted hp h => cases hn
  | stuck h => cases hn

/-! ## Calls -/

/-- What a call does until it comes to a transition: those before it are tried. -/
def trying (m : Machine) (e : Event) (before : List Transition) : List (Deed η) :=
  .published { m.live with started := true } ::
    (before.filterMap (guardFailure? m.live.context e.type)).map fun f => .reported (.guardFailed f)

/-- A machine with the target of a transition entered. -/
def entering (after : Live) (e : Event) (t : Transition) : Live :=
  { after with state := t.target, context := Context.update after.context e.payload }

/-- Among the transitions of its state the machine comes to `t` when all before it are passed
over. -/
def Meets (m : Machine) (e : Event) (before : List Transition) (t : Transition) : Prop :=
  ∃ state, m.chart.states.get? m.live.state = some state ∧
    ComesTo m.live.context e.type state.transitions before t

/-- How a transition can be taken. -/
inductive Took (m : Machine) (live : Live) (e : Event) (t : Transition) :
    List (Deed η) → Except CallFault Bool → Prop where
  | dangling (ht : m.chart.states.get? t.target = none) :
    Took m live e t [.reported (.stateNotFound t.target m.name)] (.ok false)
  | halted {target : State} {ds : List (Deed η)} {after : Live} {f : CallFault}
    (ht : m.chart.states.get? t.target = some target)
    (ha : m.Acts .transition live t.actions ds after (some f)) : Took m live e t ds (.error f)
  | entered {target : State} {ds ds' : List (Deed η)} {after final : Live}
    {fault? : Option CallFault} (ht : m.chart.states.get? t.target = some target)
    (ha : m.Acts .transition live t.actions ds after none)
    (he : m.Acts .entry (entering after e t) target.entry ds' final fault?) :
    Took m live e t (ds ++ .published (entering after e t) ::
      .logged (m.transitionedEntry live.state t.target e.type) :: (ds' ++ [.announced]))
      (result fault? true)

/-- How an event can be processed. -/
inductive Sent (m : Machine) (e : Event) : List (Deed η) → Except CallFault Bool → Prop where
  | lost (h : m.chart.states.get? m.live.state = none) :
    Sent m e (m.trying e [] ++ [.reported (.stateNotFound m.live.state m.name)]) (.ok false)
  | unmatched {state : State} (h : m.chart.states.get? m.live.state = some state)
    (hp : ∀ u ∈ state.transitions, Passes m.live.context e.type u) :
    Sent m e (m.trying e state.transitions ++ [.reported (.noTransition e.type m.live.state)])
      (.ok false)
  | overlong {before : List Transition} {t : Transition} {x : Decimal.TooLong}
    (h : m.Meets e before t) (hg : Guard.check t.guard m.live.context = .error (.tooLong x)) :
    Sent m e (m.trying e before) (.error (.guardNumeral x))
  | taken {before : List Transition} {t : Transition} {ds : List (Deed η)}
    {r : Except CallFault Bool} (h : m.Meets e before t)
    (hg : Guard.check t.guard m.live.context = .ok true)
    (ht : m.Took { m.live with started := true } e t ds r) : Sent m e (m.trying e before ++ ds) r

/-- How a machine can be started. -/
inductive Started (m : Machine) : List (Deed η) → Except CallFault Bool → Prop where
  | again (h : m.live.started = true) : Started m [] (.ok false)
  | lost (h : m.live.started = false) (hs : m.chart.states.get? m.live.state = none) :
    Started m [.published { m.live with started := true },
      .reported (.stateNotFound m.live.state m.name)] (.ok false)
  | entered {state : State} {ds : List (Deed η)} {final : Live} {fault? : Option CallFault}
    (h : m.live.started = false) (hs : m.chart.states.get? m.live.state = some state)
    (he : m.Acts .entry { m.live with started := true } state.entry ds final fault?) :
    Started m (.published { m.live with started := true } :: (ds ++ [.announced]))
      (result fault? true)

theorem enter_runs_iff {m : Machine} {live : Live} {state : State} {ds : List (Deed η)}
    {r : Except CallFault Bool} : (m.enter live state).Runs ds r ↔
      ∃ ds' final fault?, m.Acts .entry live state.entry ds' final fault? ∧
        ds = ds' ++ [.announced] ∧ r = result fault? true := by
  simp only [enter, Flow.runs_bind_iff, Flow.runs_announce_iff, Flow.runs_done_iff,
    runActions_runs_iff]
  constructor
  · rintro ⟨ds', _, r, rfl, ha, _, rfl, rfl, rfl⟩
    exact ⟨ds', r.1, r.2, ha, rfl, rfl⟩
  · rintro ⟨ds', final, fault?, ha, rfl, rfl⟩
    exact ⟨ds', _, (final, fault?), rfl, ha, _, rfl, rfl, rfl⟩

theorem start_runs_iff {m : Machine} {ds : List (Deed η)} {r : Except CallFault Bool} :
    m.start.Runs ds r ↔ m.Started ds r := by
  constructor
  · intro h
    unfold start at h
    split at h
    · rename_i hs
      obtain ⟨rfl, rfl⟩ := Flow.runs_done_iff.mp h
      exact .again hs
    · rename_i hn
      have hn : m.live.started = false := by simpa using hn
      obtain ⟨ds', rfl, h'⟩ := Flow.runs_publish_iff.mp h
      cases hs : m.chart.states.get? m.live.state with
      | none =>
        simp only [hs, Flow.runs_report_iff, Flow.runs_done_iff] at h'
        obtain ⟨_, rfl, rfl, rfl⟩ := h'
        exact .lost hn hs
      | some state =>
        simp only [hs, enter_runs_iff] at h'
        obtain ⟨ds, final, fault?, ha, rfl, rfl⟩ := h'
        exact .entered hn hs ha
  · intro h
    cases h with
    | again h => simp [start, h]
    | lost h hs => simp [start, h, hs]
    | entered h hs he =>
      simp only [start, h, Bool.false_eq_true, if_false, hs]
      exact .publish (enter_runs_iff.mpr ⟨_, _, _, he, rfl, rfl⟩)

theorem take_runs_iff {m : Machine} {live : Live} {e : Event} {t : Transition}
    {ds : List (Deed η)} {r : Except CallFault Bool} :
    (m.take live e t).Runs ds r ↔ m.Took live e t ds r := by
  constructor
  · intro h
    cases ht : m.chart.states.get? t.target with
    | none =>
      simp only [take, ht, Flow.runs_report_iff, Flow.runs_done_iff] at h
      obtain ⟨_, rfl, rfl, rfl⟩ := h
      exact .dangling ht
    | some target =>
      simp only [take, ht, Flow.runs_bind_iff, runActions_runs_iff] at h
      obtain ⟨ds₁, ds₂, ⟨after, fault?⟩, rfl, ha, h⟩ := h
      cases fault? with
      | some f =>
        obtain ⟨rfl, rfl⟩ := Flow.runs_done_iff.mp h
        rw [List.append_nil]
        exact .halted ht ha
      | none =>
        simp only [Flow.runs_publish_iff, Flow.runs_log_iff, enter_runs_iff] at h
        obtain ⟨_, rfl, _, rfl, ds₃, final, fault?, he, rfl, rfl⟩ := h
        exact .entered ht ha he
  · intro h
    cases h with
    | dangling ht => simp [take, ht]
    | halted ht ha =>
      simp only [take, ht]
      exact Flow.runs_bind_iff.mpr
        ⟨_, [], (_, some _), (List.append_nil _).symm, runActions_runs_iff.mpr ha, .done _⟩
    | entered ht ha he =>
      simp only [take, ht]
      refine (runActions_runs_iff (r := (_, none)).mpr ha).bind (.publish (.log ?_))
      exact enter_runs_iff.mpr ⟨_, _, _, he, rfl, rfl⟩

theorem send_runs_iff {m : Machine} {e : Event} {ds : List (Deed η)} {r : Except CallFault Bool} :
    (m.send e).Runs ds r ↔ m.Sent e ds r := by
  constructor
  · intro h
    obtain ⟨ds₁, rfl, h₁⟩ := Flow.runs_publish_iff.mp h
    cases hs : m.chart.states.get? m.live.state with
    | none =>
      simp only [hs, Flow.runs_report_iff, Flow.runs_done_iff] at h₁
      obtain ⟨_, rfl, rfl, rfl⟩ := h₁
      exact .lost hs
    | some state =>
      have hsel := selects_iff.mpr (rfl : select m.live.context e.type state.transitions = _)
      simp only [hs, Flow.runs_reports_iff] at h₁
      obtain ⟨ds₂, rfl, h₂⟩ := h₁
      generalize select m.live.context e.type state.transitions = s at hsel h₂ ⊢
      rw [List.map_map]
      cases hsel with
      | unmatched hp =>
        simp only [Flow.runs_report_iff, Flow.runs_done_iff] at h₂
        obtain ⟨_, rfl, rfl, rfl⟩ := h₂
        exact .unmatched hs hp
      | overlong hc hg =>
        obtain ⟨rfl, rfl⟩ := Flow.runs_done_iff.mp h₂
        rw [List.append_nil]
        exact .overlong ⟨state, hs, hc⟩ hg
      | chosen hc hg => exact .taken ⟨state, hs, hc⟩ hg (take_runs_iff.mp h₂)
  · intro h
    cases h with
    | lost h =>
      refine .publish ?_
      simp only [h]
      exact .report (.done _)
    | unmatched h hp =>
      refine .publish ?_
      simp only [h, selects_iff.mp (.unmatched hp), Flow.runs_reports_iff, List.map_map]
      exact ⟨_, rfl, .report (.done _)⟩
    | overlong h hg =>
      obtain ⟨state, hs, hc⟩ := h
      refine .publish ?_
      simp only [hs, selects_iff.mp (.overlong hc hg), Flow.runs_reports_iff, List.map_map]
      exact ⟨[], (List.append_nil _).symm, .done _⟩
    | taken h hg ht =>
      obtain ⟨state, hs, hc⟩ := h
      refine .publish ?_
      simp only [hs, selects_iff.mp (.chosen hc hg), Flow.runs_reports_iff, List.map_map]
      exact ⟨_, rfl, take_runs_iff.mpr ht⟩

end Machine
end Workflow
