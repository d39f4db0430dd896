import Workflow.Document.Reading
import Workflow.Engine

/-!
# Catalogs

A document with the policies of the machines that are created from it. Opening a catalog warns of
every transition that leads nowhere. A machine is created from a workflow by name, and started.

Results:
* `warnings_eq_nil_iff`: a catalog opens in silence exactly if no target dangles.
-/
namespace Workflow

/-- A document, and the policies of the machines made from it; mirrors `WorkflowCatalog`. -/
structure Catalog where
  document : Document
  failure : FailurePolicy := .carryOn
  sends : SendPolicy := .queue

inductive CreateFault where
  | noWorkflow (name : String)
  | call (f : CallFault)
  deriving DecidableEq, Repr

def CreateFault.raised : CreateFault → Raised
  | .noWorkflow name => ⟨"WorkflowNotFound", "Workflow \"" ++ name ++ "\" not found"⟩
  | .call f => f.raised

def Document.Dangling.entry (d : Document.Dangling) : Log.Entry where
  level := .warning
  source := .catalog
  message := "Transition targets an undefined state"
  extra := [("workflow", .str d.workflow), ("state", .str d.state), ("target", .str d.target)]

namespace Catalog

/-- What is logged when a catalog is opened; mirrors `WorkflowCatalog.__init__`. -/
def warnings (c : Catalog) : List Log.Entry := c.document.dangling.map Document.Dangling.entry

/-- A machine for a workflow, not started. -/
def machine (c : Catalog) (name : Option String) (chart : Chart) (context : Option Context) :
    Machine where
  name := name
  failure := c.failure
  sends := c.sends
  chart := chart
  actions := c.document.actions
  live := { state := chart.initial, context := Context.update [] context }

def createdEntry (workflow state : String) : Log.Entry where
  level := .info
  source := .catalog
  message := "State machine created"
  extra := [("workflow", .str workflow), ("state", .str state)]

variable {μ : Type} [Recorder μ]

def logCreated (workflow : String) (i : Nat) (e : Engine μ) : Engine μ :=
  match e.machines[i]? with
  | some m => e.log (createdEntry workflow m.live.state)
  | none => e

/-- Creates a machine for a workflow and starts it, among at most so many machines. The result is
its number. Mirrors `WorkflowCatalog.create`. -/
def create (c : Catalog) (most : Nat) (workflow : String) (context : Option Context) :
    Process (Engine μ) (Except CreateFault Nat) :=
  match c.document.workflows.get? workflow with
  | none => .done (.error (.noWorkflow workflow))
  | some chart =>
    .act (·.add (c.machine (some workflow) chart context)) fun e =>
      (Engine.start most e.machines.length).bind fun
        | .error f => .done (.error (.call f))
        | .ok _ => .change (logCreated workflow e.machines.length) (.done (.ok e.machines.length))

theorem warnings_eq_nil_iff (c : Catalog) : c.warnings = [] ↔ c.document.dangling = [] := by
  simp [warnings]

end Catalog
end Workflow
