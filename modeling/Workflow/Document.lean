import Workflow.Value

/-!
# Documents

A document holds workflows, the actions that they name, and services. A workflow is a chart of
states; a state has actions that run when it is entered, and transitions that lead to other states.

Results:
* `mem_dangling`: what a chart's dangling targets are.
* `simple_dangling`: the document that stands in for a missing one has none.
-/
namespace Workflow

/-- A call of a named action with parameters; mirrors `ActionInvocation`. -/
structure Invocation where
  action : String
  params : Fields Value := []

/-- A way to another state; mirrors `TransitionDefinition`. -/
structure Transition where
  target : String
  event : String
  guard : Option String := none
  actions : List Invocation := []

/-- A state: what runs when it is entered, and the ways that lead on; mirrors `StateDefinition`. -/
structure State where
  entry : List Invocation := []
  transitions : List Transition := []

/-- A workflow: its states and the one that it starts in; mirrors `WorkflowDefinition`. -/
structure Chart where
  initial : String
  states : Fields State

/-- What stands behind the name of an action: the category of the handler that runs it; mirrors
`ActionDefinition`. -/
structure Action where
  category : String
  handler : String := ""
  description : Option String := none
  deriving DecidableEq, Repr

/-- A service and the names of its methods; mirrors `ServiceDefinition`. -/
structure Service where
  methods : List String := []
  description : Option String := none
  deriving DecidableEq, Repr

/-- Workflows, actions and services under their names; mirrors `LogicDocument`. -/
structure Document where
  workflows : Fields Chart := []
  actions : Fields Action := []
  services : Fields Service := []

namespace Chart

/-- The transitions that lead nowhere: the state that has one, and the target that is missing;
mirrors `WorkflowDefinition.dangling_targets`. -/
def dangling (c : Chart) : List (String × String) :=
  c.states.flatMap fun (name, state) =>
    (state.transitions.filter fun t => !c.states.has t.target).map fun t => (name, t.target)

/-- Is the initial state one of the states? Mirrors `WorkflowDefinition._require_initial_state`. -/
def startsInside (c : Chart) : Bool := c.states.has c.initial

theorem mem_dangling (c : Chart) (name target : String) :
    (name, target) ∈ c.dangling ↔ ∃ state t, (name, state) ∈ c.states ∧ t ∈ state.transitions ∧
      t.target = target ∧ c.states.has target = false := by
  simp only [dangling, List.mem_flatMap, List.mem_map, List.mem_filter, Prod.mk.injEq,
    Bool.not_eq_true', Prod.exists]
  constructor
  · rintro ⟨_, state, hs, t, ⟨ht, hm⟩, rfl, rfl⟩
    exact ⟨state, t, hs, ht, rfl, hm⟩
  · rintro ⟨state, t, hs, ht, rfl, hm⟩
    exact ⟨name, state, hs, t, ⟨ht, hm⟩, rfl, rfl⟩

end Chart

namespace Document

structure Dangling where
  workflow : String
  state : String
  target : String
  deriving DecidableEq, Repr

/-- The dangling targets of all workflows. -/
def dangling (d : Document) : List Dangling :=
  d.workflows.flatMap fun (name, chart) => chart.dangling.map fun (s, t) => ⟨name, s, t⟩

/-- The document that stands in for one that cannot be loaded; mirrors `default_logic_document`. -/
def simple : Document where
  workflows := [("simple", {
    initial := "start"
    states := [
      ("start", { transitions := [{ target := "end", event := "FINISH" }] }),
      ("end", {})] })]

theorem simple_dangling : simple.dangling = [] := by decide

end Document
end Workflow
