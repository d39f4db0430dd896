import Workflow.Proofs.Call.Course
import Workflow.Proofs.Context.Path
import Workflow.Proofs.Guard.Overlong

/-!
# Carrying on

A machine that carries on passes over what fails: a guard that fails is reported and does not hold,
an action that fails is reported and skipped. Only a number that cannot be read gets through to the
caller: one of more than 4300 digits in a guard, and, at a list, a name in a parameter's path that
looks like a number and is none.

Results:
* `carryOn_returns_iff`: a call of such a machine returns exactly if it meets no number of that
  kind, and goes its course meanwhile.
* `send_of_legible`, `start_of_legible`: it returns always if the chart has no such number.
-/
namespace Workflow

/-- The fault of a number that cannot be read. -/
def CallFault.OfNumber : CallFault → Prop
  | .parameter _ | .guardNumeral _ => True
  | .busy _ | .action _ => False

/-- On the paths of the parameters each name that looks like a number can be read. -/
def Invocation.Legible (i : Invocation) : Prop :=
  ∀ name s, (name, Value.str s) ∈ i.params → ∀ n ∈ Path.segments s.toList,
    Path.isNumber n = true → Path.isReadable n = true

/-- All guards and all parameters of a chart can be read. -/
structure Chart.Legible (c : Chart) : Prop where
  entry {name : String} {state : State} (h : c.states.get? name = some state) :
    ∀ i ∈ state.entry, i.Legible
  guard {name : String} {state : State} (h : c.states.get? name = some state) :
    ∀ t ∈ state.transitions, ¬ Guard.Overlong t.guard
  actions {name : String} {state : State} (h : c.states.get? name = some state) :
    ∀ t ∈ state.transitions, ∀ i ∈ t.actions, i.Legible

namespace Machine

variable {η : Type} {m : Machine}

/-! ## Actions -/

/-- In turn the actions come to one that has a handler, and a parameter that cannot be resolved. -/
def Stalls (m : Machine) (phase : Phase) (live : Live) (is : List Invocation)
    (ds : List (Deed η)) : Prop :=
  ∃ before i after ds' now a handler, is = before ++ i :: after ∧
    m.Acts phase live before ds' now none ∧ m.actions.get? i.action = some a ∧
    now.context.Blocks i.params ∧ ds = ds' ++ [.looked a.category (some handler)]

/-- Actions that stall end with the fault of a numeral. -/
theorem Stalls.acts {phase : Phase} {live : Live} {is : List Invocation} {ds : List (Deed η)}
    (h : m.Stalls phase live is ds) :
    ∃ final f, m.Acts phase live is ds final (some (.parameter f)) := by
  obtain ⟨before, i, after, ds', now, a, handler, rfl, hb, ha, hp, rfl⟩ := h
  obtain ⟨f, hf⟩ := Context.resolveAll_error_iff.mpr hp
  exact ⟨now, f, hb.append (.stuck (.blocked ha hf))⟩

theorem Acts.stalls {phase : Phase} {live final : Live} {is : List Invocation}
    {ds : List (Deed η)} {f : NumeralFault}
    (h : m.Acts phase live is ds final (some (.parameter f))) : m.Stalls phase live is ds := by
  generalize hf : some (CallFault.parameter f) = fault? at h
  induction h with
  | nil live => cases hf
  | @ran live now final i is ds ds' fault? h _ ih =>
    obtain ⟨before, j, after, ds'', now, a, handler, rfl, hb, ha, hp, rfl⟩ := ih hf
    exact ⟨i :: before, j, after, ds ++ ds'', now, a, handler, rfl, .ran h hb, ha, hp,
      (List.append_assoc ..).symm⟩
  | @skipped live final i is ds ds' g fault? hc h _ ih =>
    obtain ⟨before, j, after, ds'', now, a, handler, rfl, hb, ha, hp, rfl⟩ := ih hf
    exact ⟨i :: before, j, after, _, now, a, handler, rfl, .skipped hc h hb, ha, hp, by simp⟩
  | aborted => cases hf
  | @stuck live i is ds g h =>
    cases h with
    | @blocked a handler f ha hp =>
      exact ⟨[], i, is, [], live, a, handler, rfl, .nil live, ha,
        Context.resolveAll_error_iff.mp ⟨_, hp⟩, rfl⟩

/-- A machine that carries on is stopped by nothing else. -/
theorem Acts.carryOn {phase : Phase} {live final : Live} {is : List Invocation}
    {ds : List (Deed η)} {fault? : Option CallFault} (hp : m.failure = .carryOn)
    (h : m.Acts phase live is ds final fault?) :
    fault? = none ∨ ∃ f, fault? = some (.parameter f) := by
  induction h with
  | nil live => exact .inl rfl
  | ran _ _ ih => exact ih
  | skipped _ _ _ ih => exact ih
  | aborted ha _ => rw [hp] at ha; cases ha
  | stuck _ => exact .inr ⟨_, rfl⟩

/-! ## Calls -/

/-- A call meets a number that cannot be read: in a guard that it tries, in the actions of the
transition that it takes, or in those of the target. -/
inductive Trips (m : Machine) (e : Event) : List (Deed η) → Prop where
  | guard {before : List Transition} {t : Transition} (h : m.Meets e before t)
    (hg : Guard.Overlong t.guard) : Trips m e (m.trying e before)
  | leaving {before : List Transition} {t : Transition} {target : State} {ds : List (Deed η)}
    (h : m.Meets e before t) (hg : Guard.check t.guard m.live.context = .ok true)
    (ht : m.chart.states.get? t.target = some target)
    (hs : m.Stalls .transition { m.live with started := true } t.actions ds) :
    Trips m e (m.trying e before ++ ds)
  | entering {before : List Transition} {t : Transition} {target : State}
    {ds ds' : List (Deed η)} {after : Live} (h : m.Meets e before t)
    (hg : Guard.check t.guard m.live.context = .ok true)
    (ht : m.chart.states.get? t.target = some target)
    (ha : m.Acts .transition { m.live with started := true } t.actions ds after none)
    (hs : m.Stalls .entry (entering after e t) target.entry ds') :
    Trips m e (m.trying e before ++ (ds ++ .published (entering after e t) ::
      .logged (m.transitionedEntry m.live.state t.target e.type) :: (ds' ++ [.announced])))

theorem Trips.sent {e : Event} {ds : List (Deed η)} (h : m.Trips e ds) :
    ∃ f, m.Sent e ds (.error f) := by
  cases h with
  | guard h hg =>
    obtain ⟨x, hx⟩ := (Guard.check_tooLong_iff _ _).mpr hg
    exact ⟨_, .overlong h hx⟩
  | leaving h hg ht hs =>
    obtain ⟨final, f, ha⟩ := hs.acts
    exact ⟨_, .taken h hg (.halted ht ha)⟩
  | entering h hg ht ha hs =>
    obtain ⟨final, f, he⟩ := hs.acts
    exact ⟨_, .taken h hg (.entered ht ha he)⟩

theorem Sent.trips {e : Event} {ds : List (Deed η)} {f : CallFault} (hp : m.failure = .carryOn)
    (h : m.Sent e ds (.error f)) : m.Trips e ds ∧ f.OfNumber := by
  generalize hr : Except.error f = r at h
  cases h with
  | lost => cases hr
  | unmatched => cases hr
  | overlong h hg =>
    cases hr
    exact ⟨.guard h ((Guard.check_tooLong_iff _ _).mp ⟨_, hg⟩), trivial⟩
  | taken h hg ht =>
    cases ht with
    | dangling => cases hr
    | halted ht ha =>
      cases hr
      rcases ha.carryOn hp with hn | ⟨f, hf⟩
      · cases hn
      · cases hf
        exact ⟨.leaving h hg ht ha.stalls, trivial⟩
    | @entered _ _ _ _ _ fault? ht ha he =>
      rcases he.carryOn hp with rfl | ⟨g, rfl⟩
      · cases hr
      · cases hr
        exact ⟨.entering h hg ht ha he.stalls, trivial⟩

/-- A start meets such a number in the actions of the state that is entered. -/
inductive TripsAtStart (m : Machine) : List (Deed η) → Prop where
  | entering {state : State} {ds : List (Deed η)} (h : m.live.started = false)
    (ht : m.chart.states.get? m.live.state = some state)
    (hs : m.Stalls .entry { m.live with started := true } state.entry ds) :
    TripsAtStart m (.published { m.live with started := true } :: (ds ++ [.announced]))

theorem TripsAtStart.started {ds : List (Deed η)} (h : m.TripsAtStart ds) :
    ∃ f, m.Started ds (.error f) := by
  obtain ⟨h, ht, hs⟩ := h
  obtain ⟨final, f, he⟩ := hs.acts
  exact ⟨_, .entered h ht he⟩

theorem Started.trips {ds : List (Deed η)} {f : CallFault} (hp : m.failure = .carryOn)
    (h : m.Started ds (.error f)) : m.TripsAtStart ds ∧ f.OfNumber := by
  generalize hr : Except.error f = r at h
  cases h with
  | again => cases hr
  | lost => cases hr
  | entered h hs he =>
    rcases he.carryOn hp with rfl | ⟨g, rfl⟩
    · cases hr
    · cases hr
      exact ⟨.entering h hs he.stalls, trivial⟩

/-- What a host plays goes its course, and returns exactly if the course is none that trips. -/
theorem play_returns_iff {x : Flow η (Except CallFault Bool)}
    {course : List (Deed η) → Except CallFault Bool → Prop} {trips : List (Deed η) → Prop}
    (hx : ∀ {ds r}, x.Runs ds r ↔ course ds r)
    (ht : ∀ {ds}, trips ds → ∃ f, course ds (.error f))
    (hc : ∀ {ds f}, course ds (.error f) → trips ds ∧ f.OfNumber) (host : Host η)
    (past : List (Deed η)) :
    course (x.play host past).1 (x.play host past).2 ∧
      ((∃ b, (x.play host past).2 = .ok b) ↔ ¬ trips (x.play host past).1) ∧
      ∀ f, (x.play host past).2 = .error f → f.OfNumber := by
  have hr := Flow.play_runs host x past
  generalize x.play host past = s at hr
  obtain ⟨ds, r⟩ := s
  refine ⟨hx.mp hr, ⟨?_, ?_⟩, ?_⟩
  · rintro ⟨b, rfl⟩ hds
    obtain ⟨f, hf⟩ := ht hds
    have hf := hx.mpr hf
    rw [← List.append_nil ds] at hf
    cases (hr.unique hf).2
  · intro hn
    cases r with
    | ok b => exact ⟨b, rfl⟩
    | error f => exact absurd (hc (hx.mp hr)).1 hn
  · rintro f rfl
    exact (hc (hx.mp hr)).2

/-! ## Legible charts -/

theorem not_stalls_of_legible {phase : Phase} {live : Live} {is : List Invocation}
    {ds : List (Deed η)} (h : ∀ i ∈ is, i.Legible) : ¬ m.Stalls phase live is ds := by
  rintro ⟨before, i, after, _, _, _, _, rfl, _, _, hb, _⟩
  obtain ⟨name, s, hm, _, walked, n, rest, _, hs, _, hn, hr⟩ := hb
  have := h i (by simp) name s hm n (by simp [hs]) hn
  simp [this] at hr

theorem not_trips_of_legible (hl : m.chart.Legible) {e : Event} {ds : List (Deed η)} :
    ¬ m.Trips e ds := by
  intro ht
  cases ht with
  | guard h hg =>
    obtain ⟨state, hs, ⟨after, hts⟩, -⟩ := h
    exact hl.guard hs _ (by simp [hts]) hg
  | leaving h _ _ hst =>
    obtain ⟨state, hs, ⟨after, hts⟩, -⟩ := h
    exact not_stalls_of_legible (hl.actions hs _ (by simp [hts])) hst
  | entering _ _ ht _ hst => exact not_stalls_of_legible (hl.entry ht) hst

theorem not_tripsAtStart_of_legible (hl : m.chart.Legible) {ds : List (Deed η)} :
    ¬ m.TripsAtStart ds := by
  rintro ⟨-, ht, hst⟩
  exact not_stalls_of_legible (hl.entry ht) hst

/-- A machine that carries on returns from every event if its chart is legible. -/
theorem send_of_legible (hp : m.failure = .carryOn) (hl : m.chart.Legible) (e : Event)
    (host : Host η) (past : List (Deed η)) : ∃ b, ((m.send e).play host past).2 = .ok b :=
  (play_returns_iff send_runs_iff Trips.sent (Sent.trips hp) host past).2.1.mpr
    (not_trips_of_legible hl)

/-- A machine that carries on starts if its chart is legible. -/
theorem start_of_legible (hp : m.failure = .carryOn) (hl : m.chart.Legible) (host : Host η)
    (past : List (Deed η)) : ∃ b, (m.start.play host past).2 = .ok b :=
  (play_returns_iff start_runs_iff TripsAtStart.started (Started.trips hp) host past).2.1.mpr
    (not_tripsAtStart_of_legible hl)

/-! ## Unreadable numbers -/

/-- **A machine that carries on returns**, whatever handlers it is given and whatever they come to:
a call goes step by step as `Sent` and `Started` say, so each guard that fails is reported and
passed over, and each action that fails is reported and skipped. The call ends with a truth value
exactly if it does not trip over a number, and that is the only way for it to end with an error. -/
theorem carryOn_returns_iff (m : Machine) (hp : m.failure = .carryOn) (host : Host η)
    (past : List (Deed η)) :
    (∀ e, let s := (m.send e).play host past
      m.Sent e s.1 s.2 ∧ ((∃ b, s.2 = .ok b) ↔ ¬ m.Trips e s.1) ∧
        ∀ f, s.2 = .error f → f.OfNumber) ∧
    let s := m.start.play host past
    m.Started s.1 s.2 ∧ ((∃ b, s.2 = .ok b) ↔ ¬ m.TripsAtStart s.1) ∧
      ∀ f, s.2 = .error f → f.OfNumber :=
  ⟨fun _ => play_returns_iff send_runs_iff Trips.sent (Sent.trips hp) host past,
    play_returns_iff start_runs_iff TripsAtStart.started (Started.trips hp) host past⟩

/-- A machine on which an action asks for the item numbered by a superscript two. -/
def superscript : Machine where
  chart := { initial := "open", states := [("open", { transitions := [{
    target := "open", event := "SHOW"
    actions := [{ action := "show", params := [("item", .str "items.²")] }] }] })] }
  actions := [("show", { category := "ui" })]
  live := { state := "open", context := [("items", .list [.int 1])] }

def quietHost : Host Unit where
  find _ _ := some ()
  answer _ _ _ _ := .ok .null

theorem superscript_fails : ((superscript.send { type := "SHOW" }).play quietHost []).2 =
    .error (.parameter (.notANumeral "²")) := by cbv

theorem carryOn_returns_iff_superscript : superscript.failure = .carryOn ∧
    superscript.Trips { type := "SHOW" }
      ((superscript.send { type := "SHOW" }).play quietHost []).1 := by
  refine ⟨rfl, Classical.not_not.mp fun ht => ?_⟩
  obtain ⟨b, hb⟩ :=
    ((carryOn_returns_iff superscript rfl quietHost []).1 { type := "SHOW" }).2.1.mpr ht
  rw [superscript_fails] at hb
  cases hb

/-- **Counterexample**: a machine that carries on need not return. -/
theorem carryOn_raises : ¬ ∀ (m : Machine) (host : Host Unit) (e : Event),
    m.failure = .carryOn → ∃ b, ((m.send e).play host []).2 = .ok b := by
  intro h
  obtain ⟨b, hb⟩ := h superscript quietHost { type := "SHOW" } rfl
  rw [superscript_fails] at hb
  cases hb

end Machine
end Workflow
