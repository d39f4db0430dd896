import Workflow.Proofs.Call.Choice
import Workflow.Proofs.Engine.Isolated

/-!
# Events that lead nowhere

An event leads nowhere if the machine's state is not defined, if no transition waits for it with a
guard that holds, or if the target of the first that does is not defined. Then just this is
reported, behind the failures of the guards that are tried, and the machine keeps its state and its
context: no handler is looked for or called, nothing is merged and nothing announced. That a call
has got through remains, so that the machine is not started any more.

Results:
* `Machine.send_of_idles`: what is done about an event that leads nowhere.
* `Machine.idles_of_runs`: only such an event comes to false.
* `Engine.comes_idle`: what becomes of an engine whose machine is sent such an event.
* `idle_exact`: the two together, wherever scripts come to.
-/
namespace Workflow

variable {μ η : Type}

namespace Machine

/-- A machine that a call has got through to. -/
def asStarted (m : Machine) : Machine := { m with live := { m.live with started := true } }

/-- What is reported of the guards of transitions that are tried for an event. -/
def guardReports (m : Machine) (event : Event) (ts : List Transition) : List Report :=
  (ts.filterMap (guardFailure? m.live.context event.type)).map .guardFailed

/-- An event leads nowhere, and these are the reports about it. -/
inductive Idles (m : Machine) (event : Event) : List Report → Prop where
  | lost (hs : m.chart.states.get? m.live.state = none) :
    Idles m event [.stateNotFound m.live.state m.name]
  /-- All transitions wait for other events, or have guards that do not hold or fail. -/
  | unmatched {state : State} (hs : m.chart.states.get? m.live.state = some state)
    (hp : ∀ t ∈ state.transitions, Passes m.live.context event.type t) :
    Idles m event
      (m.guardReports event state.transitions ++ [.noTransition event.type m.live.state])
  /-- The first transition that waits for the event and whose guard holds has no target. -/
  | dangling {before : List Transition} {t : Transition} (hm : m.Meets event before t)
    (hg : Guard.check t.guard m.live.context = .ok true)
    (ht : m.chart.states.get? t.target = none) :
    Idles m event (m.guardReports event before ++ [.stateNotFound t.target m.name])

variable {m : Machine} {event : Event} {rs : List Report}

/-- All that a machine does about an event that leads nowhere is to report it. -/
theorem send_of_idles (h : m.Idles event rs) :
    (m.send event : Flow η _) = .publish m.asStarted.live (.reports rs (.done (.ok false))) := by
  have join (rs : List Report) (r : Report) (next : Flow η (Except CallFault Bool)) :
      Flow.reports rs (.report r next) = Flow.reports (rs ++ [r]) next := by
    simp [Flow.reports]
  cases h with
  | lost hs => simp [send, hs, asStarted, Flow.reports]
  | unmatched hs hp =>
    have hc := selects_iff.mp (.unmatched hp)
    simp [send, hs, hc, asStarted, guardReports, join]
  | dangling hm hg ht =>
    obtain ⟨state, hs, hm⟩ := hm
    have hc := selects_iff.mp (.chosen hm hg)
    simp [send, hs, hc, asStarted, guardReports, join, take, ht]

/-- Only events that lead nowhere come to false. -/
theorem idles_of_runs {ds : List (Deed η)} (h : (m.send event).Runs ds (.ok false)) :
    ∃ rs, m.Idles event rs := by
  generalize hr : (Except.ok false : Except CallFault Bool) = r at h
  cases send_runs_iff.mp h with
  | lost hs => exact ⟨_, .lost hs⟩
  | unmatched hs hp => exact ⟨_, .unmatched hs hp⟩
  | overlong => cases hr
  | taken hm hg ht =>
    cases ht with
    | dangling ht => exact ⟨_, .dangling hm hg ht⟩
    | halted => cases hr
    -- a target that is entered makes it true, or a fault has ended the call
    | @entered _ _ _ _ _ fault? => cases fault? <;> cases hr

/-- An event comes to false exactly if it leads nowhere, and then it is reported and nothing else is
done. -/
theorem runs_idle_iff {ds : List (Deed η)} {r : Except CallFault Bool}
    (h : (m.send event).Runs ds r) : (r = .ok false ↔ ∃ rs, m.Idles event rs) ∧
      ∀ rs, m.Idles event rs → ds = .published m.asStarted.live :: rs.map .reported := by
  have did {rs : List Report} (hi : m.Idles event rs) :
      ds = .published m.asStarted.live :: rs.map .reported ∧ r = .ok false := by
    rw [send_of_idles hi] at h
    simpa using h
  refine ⟨⟨fun hr => idles_of_runs (hr ▸ h), fun ⟨rs, hi⟩ => (did hi).2⟩, fun rs hi => (did hi).1⟩

/-- The last report is of an event that leads nowhere, a warning, or of a state that is not defined,
an error. Before it there are failures of guards, errors each. -/
theorem Idles.reports (h : m.Idles event rs) : ∃ (fs : List Guard.Failure) (last : Report),
    rs = fs.map .guardFailed ++ [last] ∧ (∀ f ∈ fs, (Report.guardFailed f).level = .error) ∧
    (last = .noTransition event.type m.live.state ∧ last.level = .warning ∨
      ∃ missing, m.chart.states.get? missing = none ∧ last = .stateNotFound missing m.name ∧
        last.level = .error) := by
  cases h with
  | lost hs => exact ⟨[], _, rfl, by simp, .inr ⟨_, hs, rfl, rfl⟩⟩
  | unmatched => exact ⟨_, _, rfl, fun _ _ => rfl, .inl ⟨rfl, rfl⟩⟩
  | dangling _ _ ht => exact ⟨_, _, rfl, fun _ _ => rfl, .inr ⟨_, ht, rfl, rfl⟩⟩

theorem runActions_asStarted (m : Machine) (phase : Phase) (live : Live) (is : List Invocation) :
    (m.asStarted.runActions phase live is : Flow η _) = m.runActions phase live is := by
  induction is generalizing live with
  | nil => rfl
  | cons i is ih =>
    unfold runActions
    refine congrArg (Flow.bind (m.runAction phase live i)) (funext fun e => ?_)
    cases e with
    | ok live => exact ih live
    | failed f => simp only [ih]; rfl
    | broken f => rfl

/-- A call that has got through to a machine before makes no difference to an event. -/
theorem send_asStarted (m : Machine) (event : Event) :
    (m.asStarted.send event : Flow η _) = m.send event := by
  unfold send take enter
  simp only [runActions_asStarted]
  rfl

end Machine

/-! ## Engines -/

namespace Engine

variable [Recorder μ] {e : Engine μ} {i : Nat} {m : Machine} {event : Event} {rs : List Report}

/-- An engine whose machine has been sent an event that leads nowhere, with these reports. -/
def idled (e : Engine μ) (i : Nat) (m : Machine) (rs : List Report) : Engine μ :=
  rs.foldl (·.report i ·) (e.publish i m.asStarted.live)

theorem reports_eq (rs : List Report) (e : Engine μ) (i : Nat) :
    (rs.foldl (·.report i ·) e).machines = e.machines ∧
      (rs.foldl (·.report i ·) e).registry = e.registry := by
  induction rs generalizing e with
  | nil => exact ⟨rfl, rfl⟩
  | cons r rs ih =>
    obtain ⟨hm, hr⟩ := ih (e.report i r)
    exact ⟨hm.trans (report_machines ..), hr.trans (report_registry ..)⟩

theorem idled_self (hm : e.machines[i]? = some m) (rs : List Report) :
    (e.idled i m rs).machines[i]? = some m.asStarted := by
  rw [idled, (reports_eq rs _ i).1, publish, List.getElem?_modify_eq, hm]
  rfl

theorem idled_of_ne {j : Nat} (hj : j ≠ i) (m : Machine) (rs : List Report) :
    (e.idled i m rs).machines[j]? = e.machines[j]? := by
  rw [idled, (reports_eq rs _ i).1]
  exact List.getElem?_modify_ne _ _ (Ne.symm hj)

theorem comes_reports {held : Nat → Bool} {send : Sender μ} (rs : List Report) (e : Engine μ)
    {α : Type} (a : α) : (ofFlow send i (.reports rs (.done a))).Comes held e held
      (rs.foldl (·.report i ·) e) a := by
  induction rs generalizing e with
  | nil => exact .done a
  | cons r rs ih => exact .act (ih _)

/-- An event that leads nowhere comes to false. -/
theorem comes_idle (most : Nat) (hm : e.machines[i]? = some m) (h : m.Idles event rs) :
    (Engine.send most i event).Comes free e free (e.idled i m rs) (.ok false) := by
  show (underLock i fun m => ofFlow (sendWithin most) i (m.send event)).Comes free e free _ _
  refine comes_locked hm ?_
  rw [Machine.send_of_idles h]
  exact .act (comes_reports ..)

/-- A machine that a call has got through to is not started. -/
theorem comes_asStarted (most : Nat) (hm : e.machines[i]? = some m.asStarted) :
    (Engine.start most i).Comes free e free e (.ok false) := by
  refine comes_locked hm ?_
  rw [Machine.start_of_started _ rfl]
  exact .done _

end Engine

/-! ## Runs -/

/-- What a call has done that sends an event, when it leaves. -/
theorem Told.idle_left [Recorder μ] {e₀ : Engine μ} {ls : List (Line μ)} {l : Line μ}
    {event : Event} {r : Except CallFault Bool} (h : Told e₀ (l.engine, ls)) (hf : Fits ls l)
    (hc : l.call.event = some event) (hl : l.mark = .left r) (hb : ¬IsBusy r) :
    ∃ found m done, visit? l.call.machine ls = some ⟨l.call, found, done⟩ ∧
      found.machines[l.call.machine]? = some m ∧ (r = .ok false ↔ ∃ rs, m.Idles event rs) ∧
      ∀ rs, m.Idles event rs → done = .published m.asStarted.live :: rs.map .reported ∧
        l.engine.machines[l.call.machine]? = some m.asStarted := by
  cases hf with
  | beside h =>
    have hw := h l.call.machine
    simp [isWork, hl] at hw
  | @left c e found m done r' hv hm hr =>
    obtain rfl : r' = r := by simpa using hl
    have hs : (m.send event).Runs done r' := by
      unfold Call.flow at hr
      rwa [hc] at hr
    obtain ⟨hi, hd⟩ := Machine.runs_idle_iff hs
    refine ⟨found, m, done, hv, hm, hi, fun rs hrs => ⟨hd rs hrs, ?_⟩⟩
    obtain ⟨-, m', hm', he, -⟩ := h.visited hv
    cases hm.symm.trans hm'
    rw [he, hd rs hrs, List.foldl_cons]
    exact congrArg some (Machine.affect_reports rs m.asStarted)
  | turned =>
    obtain rfl := Mark.left.inj hl
    exact absurd ⟨_, rfl⟩ hb
  | admitted => cases hl
  | did => cases hl

/-- **An event that leads nowhere changes nothing.** Let calls nest as deep as there are machines,
and let tasks make calls on machines side by side. When a call leaves that sends an event, it comes
to false exactly if the event leads nowhere: the state of the machine that it has found is not
defined, no transition waits for the event with a guard that holds, or the target of the first that
does is not defined. Then it has published that a call has got through, and has reported the
failures of the guards that are tried, in their order, and one thing more, the event, a warning, or
the missing state, an error; no handler has been looked for, nothing announced, and state and
context of the machine are those that it has found. Sent on its own, such an event does come to
false, whoever listens: all that becomes of the engine is that the reports are made and that the
machine counts as started. It is not started any more, and all further events are to it what they
would have been. -/
theorem idle_exact [Recorder μ] (most : Nat) (e : Engine μ) (hd : e.machines.length ≤ most + 1) :
    (∀ xs b, Script.Comes most e xs b → ∀ before l after event r, b.2 = before ++ l :: after →
      l.call.event = some event → l.mark = .left r →
        ∃ found m done, visit? l.call.machine before = some ⟨l.call, found, done⟩ ∧
          found.machines[l.call.machine]? = some m ∧ (r = .ok false ↔ ∃ rs, m.Idles event rs) ∧
          ∀ rs, m.Idles event rs → done = .published m.asStarted.live :: rs.map .reported ∧
            l.engine.machines[l.call.machine]? = some m.asStarted) ∧
    ∀ i m event rs, e.machines[i]? = some m → m.Idles event rs →
      (∃ (fs : List Guard.Failure) (last : Report), rs = fs.map .guardFailed ++ [last] ∧
        (∀ f ∈ fs, (Report.guardFailed f).level = .error) ∧
        (last = .noTransition event.type m.live.state ∧ last.level = .warning ∨
          ∃ missing, m.chart.states.get? missing = none ∧ last = .stateNotFound missing m.name ∧
            last.level = .error)) ∧
      (Engine.send most i event).alone e = (e.idled i m rs, some (.ok false)) ∧
      (e.idled i m rs).registry = e.registry ∧ (e.idled i m rs).machines[i]? = some m.asStarted ∧
      (∀ j, j ≠ i → (e.idled i m rs).machines[j]? = e.machines[j]?) ∧
      (Engine.start most i).alone (e.idled i m rs) = (e.idled i m rs, some (.ok false)) ∧
      ∀ later, (m.asStarted.send later : Flow (Handler μ) _) = m.send later := by
  constructor
  · intro xs b hb before l after event r hl hc hr
    obtain ⟨ht, hf⟩ := hb.told.behind hl
    exact ht.idle_left hf hc hr ((hb.notBusy hd).left l (by rw [hl]; simp) r hr)
  · intro i m event rs hm h
    have hs := Engine.idled_self hm rs
    exact ⟨h.reports, (Engine.comes_idle most hm h).alone, (Engine.reports_eq rs _ i).2, hs,
      fun j hj => Engine.idled_of_ne hj m rs, (Engine.comes_asStarted most hs).alone,
      Machine.send_asStarted m⟩

/-- A state whose transitions lead to one that is not defined. -/
def edge : State where
  transitions := [{ target := "closed", event := "GO", guard := some "(" },
    { target := "closed", event := "GO" }]

/-- A machine in such a state. -/
def danglingMachine : Machine where
  chart := { initial := "open", states := [("open", edge)] }
  actions := []
  live := { state := "open", context := [("n", .int 1)] }

def danglingAlone : Engine Unit where
  board := { memory := (), channels := [{}, {}] }
  machines := [danglingMachine]

def go : Event where
  type := "GO"
  payload := some [("n", .int 2)]

def goReports : List Report :=
  [.guardFailed ⟨"(", .parse .ended⟩, .stateNotFound "closed" none]

theorem danglingMachine_idles : danglingMachine.Idles go goReports := by
  have hm : danglingMachine.Meets go [{ target := "closed", event := "GO", guard := some "(" }]
      { target := "closed", event := "GO" } :=
    ⟨edge, rfl, ⟨[], rfl⟩, rfl, by simp [Passes, danglingMachine, check_unclosed]⟩
  have hi := Machine.Idles.dangling hm (Guard.check_none _) rfl
  simpa [Machine.guardReports, guardFailure?, danglingMachine, go, goReports, check_unclosed]
    using hi

def sendGo : List (Script Unit) :=
  [.call { caller := 0, machine := 0, event := some go } fun _ => .stop]

theorem sendGo_words : ((Script.watched 0 danglingAlone sendGo).state.2.filterMap fun l =>
    l.mark.word?.map fun w => (l.call.event.isSome, w)) =
      [(true, "admitted"), (true, "false")] := by
  rw [Script.watched, Pool.run_eq_runFor 3 (by decide +kernel)]
  decide +kernel

theorem Mark.word?_false {mark : Mark μ} (h : mark.word? = some "false") :
    mark = .left (.ok false) := by
  unfold Mark.word? at h
  split at h
  · simp at h
  · simp at h
  · rename_i b
    cases b with
    | false => rfl
    | true => exact absurd (Option.some.inj h) (by decide)
  · cases h

/-- The event is sent to the machine, in a task and on its own. -/
theorem idle_exact_dangling : danglingAlone.machines.length ≤ 0 + 1 ∧
    danglingAlone.machines[0]? = some danglingMachine ∧ danglingMachine.Idles go goReports ∧
    (Engine.send 0 0 go).alone danglingAlone =
      (danglingAlone.idled 0 danglingMachine goReports, some (.ok false)) ∧
    ∃ before l after event, (Script.watched 0 danglingAlone sendGo).state.2 =
        before ++ l :: after ∧ l.call.event = some event ∧ l.mark = .left (.ok false) ∧
      ∃ (m : Machine) (found : Engine Unit) (done : List (Deed (Handler Unit)))
        (rs : List Report), visit? l.call.machine before = some ⟨l.call, found, done⟩ ∧
        m.Idles event rs ∧ done = .published m.asStarted.live :: rs.map .reported := by
  obtain ⟨hruns, hidle⟩ := idle_exact 0 danglingAlone (by decide)
  refine ⟨by decide, rfl, danglingMachine_idles,
    (hidle 0 danglingMachine go goReports rfl danglingMachine_idles).2.1, ?_⟩
  have hw : (true, "false") ∈ (Script.watched 0 danglingAlone sendGo).state.2.filterMap fun l =>
      l.mark.word?.map fun w => (l.call.event.isSome, w) := by
    rw [sendGo_words]
    simp
  obtain ⟨l, hl, hlw⟩ := List.mem_filterMap.mp hw
  obtain ⟨w, hlw, he⟩ := Option.map_eq_some_iff.mp hlw
  obtain ⟨hsome, rfl⟩ := Prod.mk.inj he
  obtain ⟨event, hc⟩ := Option.isSome_iff_exists.mp hsome
  have hr := Mark.word?_false hlw
  obtain ⟨before, after, hs⟩ := List.append_of_mem hl
  obtain ⟨found, m, done, hv, -, hi, hd⟩ := hruns sendGo _ (Script.comes_watched ..) before l
    after event (.ok false) hs hc hr
  obtain ⟨rs, hrs⟩ := hi.mp rfl
  exact ⟨before, l, after, event, hs, hc, hr, m, found, done, rs, hv, hrs, (hd rs hrs).1⟩

end Workflow
