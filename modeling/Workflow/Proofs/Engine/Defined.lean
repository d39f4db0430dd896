import Workflow.Catalog
import Workflow.CommandLine.Job
import Workflow.Proofs.Call.Defined
import Workflow.Proofs.Engine.Telling

/-!
# Machines stay in defined states

A workflow is accepted if it starts in one of its states, and a look at it tells which of its
transitions lead nowhere. Whatever calls are made on machines that are built from accepted
workflows, whatever handlers do, and in whatever order it happens: each machine is in one of the
states of its workflow at all times, and a state is reported missing only of a target that leads
nowhere from there.

Results:
* `Told.defined`: machines stay in defined states.
* `Told.dangles`: what they report not to have found.
* `states_defined`: wherever a run of scripts comes to.
-/
namespace Workflow

/-! ## What is known beforehand -/

/-- A machine as it is built for a workflow that was accepted. -/
structure Machine.Built (m : Machine) : Prop where
  accepted : m.chart.checked = .ok m.chart
  initial : m.live.state = m.chart.initial

theorem Machine.Built.defined {m : Machine} (h : m.Built) : m.Defined := by
  have hs := ((Chart.checked_ok_iff _ _).mp h.accepted).2
  unfold Machine.Defined
  rw [h.initial]
  exact hs

/-- A review of a document that finds no fault passes each of its workflows. -/
theorem dangling_of_review {d : Document} {name : String} {chart : Chart}
    (hm : (name, chart) ∈ d.workflows) (hr : (CommandLine.review d).code = 0) :
    chart.dangling = [] := by
  have hd : d.dangling = [] := by
    rw [CommandLine.review_code] at hr
    split at hr
    · rename_i he
      exact List.isEmpty_iff.mp he
    · cases hr
  have hc := List.flatMap_eq_nil_iff.mp hd (name, chart) hm
  exact List.map_eq_nil_iff.mp hc

/-! ## Calls -/

namespace Call

variable {η : Type} {c : Call} {m : Machine} {ds done more : List (Deed η)}
  {r : Except CallFault Bool}

theorem published_defined (h : (c.flow m).Runs ds r) (hd : m.Defined) {live : Live}
    (hl : .published live ∈ ds) : m.chart.states.has live.state = true := by
  rcases runs_flow_cases h with ⟨e, -, h⟩ | h
  · exact h.published_defined hd hl
  · exact h.published_defined hd hl

theorem dangles {target : String} {name : Option String} (hd : m.Defined)
    (h : (c.flow m).Runs (done ++ .reported (.stateNotFound target name) :: more) r) :
    name = m.name ∧ (m.live.state, target) ∈ m.chart.dangling ∧
      (done.foldl Deed.affect m).live.state = m.live.state := by
  rcases runs_flow_cases h with ⟨e, -, h⟩ | h
  · exact h.dangles hd rfl
  · exact absurd (List.mem_append_right _ (List.mem_cons_self ..)) (h.finds hd)

end Call

variable {μ : Type} [Recorder μ]

omit [Recorder μ] in
/-- What a call has found that is inside behind a line is the engine at that line, or it was inside
before. -/
theorem visit?_found {i : Nat} {ls : List (Line μ)} {l : Line μ} {v : Visit μ}
    (h : visit? i (ls ++ [l]) = some v) :
    v.found = l.engine ∨ ∃ v', visit? i ls = some v' ∧ v.found = v'.found := by
  rw [visit?_concat] at h
  unfold Visit.next? at h
  split at h
  · split at h
    · cases h
      exact .inl rfl
    · obtain ⟨v', hv, rfl⟩ := Option.map_eq_some_iff.mp h
      exact .inr ⟨v', hv, rfl⟩
    · cases h
    · exact .inr ⟨v, h, rfl⟩
    · exact .inr ⟨v, h, rfl⟩
    · exact .inr ⟨v, h, rfl⟩
  · exact .inr ⟨v, h, rfl⟩

namespace Told

variable {e₀ e : Engine μ} {ls : List (Line μ)} {l : Line μ}

/-- A line leaves a machine in a defined state, if it and the one that a call has found that is
inside are in one. -/
theorem affect_defined {i : Nat} {m : Machine} (h : Told e₀ (l.engine, ls)) (hf : Fits ls l)
    (hv : ∀ i v, visit? i ls = some v → ∀ m ∈ v.found.machines, m.Defined)
    (hm : l.engine.machines[i]? = some m) (hd : m.Defined) : (l.affect i m).Defined := by
  cases hf with
  | @did c e found m' done more d r hs hm' hr =>
    by_cases hc : c.machine = i
    · subst hc
      -- the machine is the one that the call has found, but for state and context
      obtain ⟨live, he, -⟩ := h.inside hs hm'
      obtain rfl : m = { m' with live } := Option.some.inj (hm.symm.trans he)
      have hd' : m'.Defined := hv _ _ hs m' (List.mem_of_getElem? hm')
      unfold Line.affect
      dsimp only
      rw [if_pos rfl]
      cases d with
      | published live' =>
        exact Call.published_defined hr hd' (List.mem_append_right _ (List.mem_cons_self ..))
      | _ => exact hd
    · rwa [Line.affect_elsewhere hc]
  | beside hw => rwa [Line.affect_of_ne (Line.ne_did hw)]
  | _ => exact hd

/-- Machines stay in defined states, and so are those that a call has found that is inside. -/
theorem defined (h : Told e₀ (e, ls)) (h₀ : ∀ m ∈ e₀.machines, m.Defined) :
    (∀ m ∈ e.machines, m.Defined) ∧
      ∀ i v, visit? i ls = some v → ∀ m ∈ v.found.machines, m.Defined := by
  generalize hb : (e, ls) = b at h
  induction h generalizing e ls with
  | start =>
    cases hb
    exact ⟨h₀, fun i v hv => by cases hv⟩
  | quiet _ hq ih =>
    cases hb
    rw [hq.machines]
    exact ih rfl
  | @line l ls h hf ih =>
    cases hb
    obtain ⟨ihm, ihv⟩ := ih rfl
    constructor
    · intro m hm
      obtain ⟨i, hi⟩ := List.mem_iff_getElem?.mp hm
      rw [l.after_machine] at hi
      obtain ⟨m', hm', rfl⟩ := Option.map_eq_some_iff.mp hi
      exact h.affect_defined hf ihv hm' (ihm m' (List.mem_of_getElem? hm'))
    · intro i v hv
      rcases visit?_found hv with hf | ⟨v', hv', hf⟩
      · rw [hf]
        exact ihm
      · rw [hf]
        exact ihv i v' hv'

/-- Machines keep their charts. -/
theorem charts (h : Told e₀ (e, ls)) (i : Nat) :
    (e.machines[i]?).map Machine.chart = (e₀.machines[i]?).map Machine.chart := by
  obtain ⟨now, hn⟩ := h.machine i
  rw [hn, Option.map_map]
  rfl

/-- What a machine reports not to have found is a target that leads nowhere from its state. -/
theorem dangles {before after : List (Line μ)} {target : String} {name : Option String}
    (h : Told e₀ (e, ls)) (h₀ : ∀ m ∈ e₀.machines, m.Defined) (hl : ls = before ++ l :: after)
    (hm : l.mark = .did (.reported (.stateNotFound target name))) :
    ∃ m, l.engine.machines[l.call.machine]? = some m ∧ m.name = name ∧
      (m.live.state, target) ∈ m.chart.dangling := by
  obtain ⟨hb, hf⟩ := h.behind hl
  cases hf with
  | beside hw => exact absurd hm (Line.ne_did hw _)
  | admitted => cases hm
  | left => cases hm
  | turned => cases hm
  | @did c e found m done more d r hv hf hr =>
    cases hm
    have hd : m.Defined := (hb.defined h₀).2 _ _ hv m (List.mem_of_getElem? hf)
    obtain ⟨rfl, ht, hs⟩ := Call.dangles hd hr
    obtain ⟨live, he, hl⟩ := hb.inside hv hf
    rw [hl] at hs
    have hs : live.state = m.live.state := hs
    exact ⟨_, he, rfl, hs ▸ ht⟩

end Told

/-- **Machines stay in defined states, and what looks sound is sound.** Scripts make calls on
machines that are built for accepted workflows, side by side, beside any handlers and under any
policies. Wherever their run comes to, each machine is in one of the states of its workflow, and so
it was at every line of the journal. A state was only ever reported missing that was the target of a
transition that leads nowhere from the state of the machine. So a workflow without such transitions,
as a review of its document finds it, has no state reported missing. -/
theorem states_defined (most : Nat) (e : Engine μ) (xs : List (Script μ))
    (hb : ∀ m ∈ e.machines, m.Built) :
    (∀ p, (Pool.ofTasks e (xs.map (Script.process most))).Reaches p →
      (∀ m ∈ p.state.machines, m.chart.states.has m.live.state = true) ∧
        ∃ ls, Script.Comes most e xs (p.state, ls)) ∧
    ∀ b : Book μ, Script.Comes most e xs b →
      (∀ i : Nat, (b.1.machines[i]?).map Machine.chart = (e.machines[i]?).map Machine.chart) ∧
      (∀ l ∈ b.2, ∀ m ∈ l.engine.machines, m.chart.states.has m.live.state = true) ∧
      (∀ l ∈ b.2, ∀ target name, l.mark = .did (.reported (.stateNotFound target name)) →
        ∃ m, l.engine.machines[l.call.machine]? = some m ∧ m.name = name ∧
          (m.live.state, target) ∈ m.chart.dangling ∧
          (e.machines[l.call.machine]?).map Machine.chart = some m.chart) ∧
      ∀ (i : Nat) (m : Machine), e.machines[i]? = some m →
        (m.chart.dangling = [] ∨
          ∃ d name, (name, m.chart) ∈ d.workflows ∧ (CommandLine.review d).code = 0) →
        ∀ l ∈ b.2, l.call.machine = i → ∀ target name,
          l.mark ≠ .did (.reported (.stateNotFound target name)) := by
  have h₀ (m : Machine) (hm : m ∈ e.machines) : m.Defined := (hb m hm).defined
  refine ⟨fun p hp => ?_, fun b hc => ?_⟩
  · obtain ⟨ls, hc⟩ := Script.exists_comes hp
    exact ⟨(hc.told.defined h₀).1, ls, hc⟩
  · have ht : Told e (b.1, b.2) := hc.told
    -- what is reported missing is a dangling target
    have hd : ∀ l ∈ b.2, ∀ target name, l.mark = .did (.reported (.stateNotFound target name)) →
        ∃ m, l.engine.machines[l.call.machine]? = some m ∧ m.name = name ∧
          (m.live.state, target) ∈ m.chart.dangling ∧
          (e.machines[l.call.machine]?).map Machine.chart = some m.chart := by
      intro l hl target name hm
      obtain ⟨before, after, hs⟩ := List.append_of_mem hl
      obtain ⟨m, he, hn, hd⟩ := ht.dangles h₀ hs hm
      refine ⟨m, he, hn, hd, ?_⟩
      rw [← (ht.behind hs).1.charts, he]
      rfl
    refine ⟨ht.charts, fun l hl => ?_, hd, fun i m hm hs l hl hi target name hmark => ?_⟩
    · obtain ⟨before, after, hs⟩ := List.append_of_mem hl
      exact ((ht.behind hs).1.defined h₀).1
    · have hnone : m.chart.dangling = [] := by
        rcases hs with hs | ⟨d, name, hd, hr⟩
        · exact hs
        · exact dangling_of_review hd hr
      obtain ⟨m', -, -, hd', hc'⟩ := hd l hl target name hmark
      rw [hi, hm] at hc'
      have hcm : m.chart = m'.chart := Option.some.inj hc'
      rw [← hcm, hnone] at hd'
      cases hd'

/-- A machine with a transition that leads nowhere, and one on the way to it. -/
def danglingEngine : Engine Unit where
  board := { memory := (), channels := [{}, {}] }
  machines := [{
    failure := .abort
    chart := { initial := "open", states := [
      ("open", { transitions := [{ target := "closed", event := "CLOSE" }] }),
      ("closed", { transitions := [{ target := "gone", event := "LEAVE" }] })] }
    actions := []
    live := { state := "open", context := [] } }]

/-- One task closes the machine and leaves, another one leaves at once. -/
def leavings : List (Script Unit) :=
  let close : Call := { caller := 0, machine := 0, event := some { type := "CLOSE" } }
  let leave : Call := { caller := 0, machine := 0, event := some { type := "LEAVE" } }
  [.call close fun _ => .call leave fun _ => .stop, .call leave fun _ => .stop]

theorem danglingEngine_built : ∀ m ∈ danglingEngine.machines, m.Built := by
  intro m hm
  rw [List.mem_singleton.mp hm]
  exact ⟨rfl, rfl⟩

/-- The target that a line reports missing, if it reports one. -/
def Line.missing? {μ : Type} (l : Line μ) : Option String :=
  match l.mark with
  | .did (.reported (.stateNotFound target _)) => some target
  | _ => none

/-- Both tasks come to the target that leads nowhere, from where the machine is closed. -/
theorem leavings_missing : ((Script.watched 1 danglingEngine leavings).state.2.filterMap fun l =>
    l.missing?.map fun target => ((l.engine.pair? 0).map (·.1), target)) =
      [(some "closed", "gone"), (some "closed", "gone")] := by
  rw [Script.watched, Pool.run_eq_runFor 8 (by decide +kernel)]
  decide +kernel

theorem states_defined_dangling : (∀ m ∈ danglingEngine.machines, m.Built) ∧
    (∃ l ∈ (Script.watched 1 danglingEngine leavings).state.2, l.missing? = some "gone") ∧
    ∀ l ∈ (Script.watched 1 danglingEngine leavings).state.2, ∀ target name,
      l.mark = .did (.reported (.stateNotFound target name)) →
        ∃ m, l.engine.machines[l.call.machine]? = some m ∧ m.name = name ∧
          (m.live.state, target) ∈ m.chart.dangling ∧
          (danglingEngine.machines[l.call.machine]?).map Machine.chart = some m.chart := by
  refine ⟨danglingEngine_built, ?_,
    ((states_defined 1 danglingEngine leavings danglingEngine_built).2 _
      (Script.comes_watched ..)).2.2.1⟩
  obtain ⟨l, hl, hm⟩ := List.mem_filterMap.mp (leavings_missing ▸ List.mem_cons_self ..)
  obtain ⟨target, ht, hp⟩ := Option.map_eq_some_iff.mp hm
  exact ⟨l, hl, ht.trans (congrArg some (Prod.mk.inj hp).2)⟩

end Workflow
