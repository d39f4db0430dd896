import Workflow.Catalog
import Workflow.Rehearsal.Handler
import Workflow.Rehearsal.Listener

/-!
# Steps of a rehearsal

What a host does with machines, by name: it creates them, starts them, sends them events, listens to
them, and looks at them. A step is a process, so that steps can run side by side.
-/
namespace Workflow.Rehearsal

/-- The engine of a rehearsal. -/
abbrev Stage := Engine Memory

/-- What a step comes to. -/
abbrev Answer := Except Raised Value

/-- A machine to be made without a catalog's policies and without being started. -/
structure Plan where
  workflow : String
  context : Option Context
  name : Option String
  failure : Option Value
  sends : Option Value
  initial : Option String

inductive Step where
  | create (machine workflow : String) (context : Option Context)
  | construct (machine : String) (plan : Plan)
  | start (machine : String)
  | send (machine : String) (event : Event)
  | sendFields (machine : String) (event : Fields Value)
  | subscribe (machine name : String) (b : Behavior)
  | onError (machine name : String) (b : Behavior)
  | unsubscribe (name : String)
  | register (category : String) (candidate : Nat → Candidate (Handler Memory))
  | unregister (category : String)
  | look (machine : String)
  | info (machine : String)

/-- What there is to know about a machine. -/
def description (m : Machine) : Value :=
  .obj [("name", .ofText? m.name), ("state", .str m.live.state),
    ("initial", .str m.chart.initial), ("keys", .list (m.live.context.keys.map .str)),
    ("failure_policy", .str m.failure.word), ("send_policy", .str m.sends.word)]

/-- A process that changes the stage and has an answer. -/
def change (f : Stage → Stage × Answer) : Process Stage Answer :=
  .act (fun e => (f e).1) fun e => .done (f e).2

/-- A process on the machine with a name. -/
def onMachine (name : String) (body : Nat → Process Stage Answer) : Process Stage Answer :=
  .read fun e =>
    match e.memory.machines.get? name with
    | none => .done (.error (unknownName name))
    | some i => body i

/-- The machine with a number, as a value. -/
def view (f : Machine → Value) (i : Nat) : Process Stage Answer :=
  .read fun e => .done (.ok (((e.machines[i]?).map f).getD .null))

/-- The answer to a call, its result left out or not. -/
def answer (full : Bool) : Except CallFault Bool → Answer
  | .ok b => .ok (if full then .bool b else .null)
  | .error f => .error f.raised

def UnknownPolicy.raised (u : UnknownPolicy) : Raised := ⟨"ValueError", u.message⟩

/-- The machine of a plan. -/
def Plan.machine (p : Plan) (d : Document) : Except Raised Machine :=
  match FailurePolicy.ofValue? (p.failure.getD (.str "continue")) with
  | .error u => .error (UnknownPolicy.raised u)
  | .ok failure =>
    match SendPolicy.ofValue? (p.sends.getD (.str "queue")) with
    | .error u => .error (UnknownPolicy.raised u)
    | .ok sends =>
      match d.workflows.get? p.workflow with
      | none => .error ⟨"AttributeError", "'NoneType' object has no attribute 'initial_state'"⟩
      | some chart =>
        let chart := { chart with initial := p.initial.getD chart.initial }
        .ok { ({ document := d, failure, sends } : Catalog).machine p.name chart p.context with }

/-- Adds the machine of a plan under a name. -/
def construct (d : Document) (name : String) (p : Plan) (e : Stage) : Stage × Answer :=
  match p.machine d with
  | .error x => (e, .error x)
  | .ok m => ((e.add m).touch (·.nameMachine name e.machines.length), .ok .null)

/-- Subscribes a listener with a script to a channel, under a name. -/
def subscribe (channel : Nat) (name : String) (b : Behavior) (e : Stage) : Stage × Answer :=
  let e' := e.touch (·.draw 1)
  match e'.subscribe channel (b.listener [e.memory.fresh] name) with
  | (e, .error x) => (e, .error x)
  | (e, .ok serial) => (e.touch (·.nameSubscription name channel serial), .ok .null)

/-- Ends the subscription with a name. -/
def unsubscribe (name : String) (e : Stage) : Stage × Answer :=
  match e.memory.subscriptions.get? name with
  | none => (e, .error (unknownName name))
  | some (channel, serial) => (e.unsubscribe channel serial, .ok .null)

/-- Registers a handler. -/
def register (category : String) (candidate : Nat → Candidate (Handler Memory)) (e : Stage) :
    Stage × Answer :=
  match e.registry.register category (candidate e.memory.fresh) with
  | .error n => (e, .error n.raised)
  | .ok (registry, logs) =>
    (({ e with registry }.touch (·.draw 1)).logAll logs, .ok .null)

/-- A step as a process, among at most so many machines. -/
def perform (c : Catalog) (most : Nat) : Step → Process Stage Answer
  | .create machine workflow context => (c.create most workflow context).bind fun
    | .error f => .done (.error f.raised)
    | .ok i => .change (·.touch (·.nameMachine machine i)) (.done (.ok .null))
  | .construct machine plan => change (construct c.document machine plan)
  | .start machine => onMachine machine fun i => (Engine.start most i).map (answer false)
  | .send machine event => onMachine machine fun i => (Engine.send most i event).map (answer true)
  | .sendFields machine fields => onMachine machine fun i =>
    match Event.ofFields? fields with
    | .error f => .done (.error ⟨"ValueError", f.message⟩)
    | .ok event => (Engine.send most i event).map (answer true)
  | .subscribe machine name b =>
    onMachine machine fun i => change (subscribe (stateChannel i) name b)
  | .onError machine name b =>
    onMachine machine fun i => change (subscribe (reportChannel i) name b)
  | .unsubscribe name => change (unsubscribe name)
  | .register category candidate => change (register category candidate)
  | .unregister category =>
    .change (fun e => { e with registry := e.registry.unregister category }) (.done (.ok .null))
  | .look machine => onMachine machine (view Machine.snapshot)
  | .info machine => onMachine machine (view description)

/-- Runs steps side by side; each adds one machine at most. A step that never ends has no answer. -/
def performAll (c : Catalog) (steps : List Step) (e : Stage) : Stage × List (Option Answer) :=
  let most := e.machines.length + steps.length
  let pool := (Pool.ofTasks e (steps.map (perform c most))).run
  (pool.state, (List.range steps.length).map pool.result?)

/-- The machines by name, with their states and contexts. -/
def machines (e : Stage) : Fields Value :=
  e.memory.machines.map fun (name, i) => (name, ((e.machines[i]?).map Machine.snapshot).getD .null)

end Workflow.Rehearsal
