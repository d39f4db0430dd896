import Workflow.Document

/-!
# Documents as values

A document as an object in which every field is written out, defaults included.
-/
namespace Workflow

def Invocation.dump (i : Invocation) : Value :=
  .obj [("type", .str i.action), ("params", .obj i.params)]

def Transition.dump (t : Transition) : Value :=
  .obj [("target", .str t.target), ("event", .str t.event), ("condition", .ofText? t.guard),
    ("actions", .list (t.actions.map Invocation.dump))]

def State.dump (s : State) : Value :=
  .obj [("actions", .list (s.entry.map Invocation.dump)),
    ("transitions", .list (s.transitions.map Transition.dump))]

/-- A workflow as an object, its initial state under the given name. -/
def Chart.dump (initialName : String) (c : Chart) : Value :=
  .obj [(initialName, .str c.initial), ("states", .obj (c.states.map fun e => (e.1, e.2.dump)))]

def Action.dump (a : Action) : Value :=
  .obj [("type", .str a.category), ("handler", .str a.handler),
    ("description", .ofText? a.description)]

def Service.dump (s : Service) : Value :=
  .obj [("methods", .list (s.methods.map .str)), ("description", .ofText? s.description)]

def Document.dumpFields (initialName : String) (d : Document) : Fields Value :=
  [("workflows", .obj (d.workflows.map fun e => (e.1, e.2.dump initialName))),
    ("actions", .obj (d.actions.map fun e => (e.1, e.2.dump))),
    ("services", .obj (d.services.map fun e => (e.1, e.2.dump)))]

/-- A document as an object. -/
def Document.dump (initialName : String) (d : Document) : Value := .obj (d.dumpFields initialName)

end Workflow
