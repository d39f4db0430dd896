import Workflow.Engine
import Workflow.Rehearsal.Memory

/-!
# Scripted listeners

A listener remembers that it was told, and from some call on follows its script: it writes into its
notice, ends a subscription, subscribes another listener, or raises an error.
-/
namespace Workflow.Rehearsal

inductive Act where
  | watch
  | write
  | raise (e : Raised)
  | unsubscribe (target : String)
  /-- Subscribes a watcher under a name, unless the name was used, on the channel that is found. -/
  | subscribe (target : String) (channel : Memory → Except Raised Nat)

/-- A script: what a listener does, and how many calls it lets pass before. -/
structure Behavior where
  act : Act := .watch
  after : Nat := 0

/-- Notices that can be remembered and written into. -/
class Notable (ν : Type) where
  values : ν → List Value
  write : String → ν → ν

/-- The object with the writer's name in it; other values have no place for it. -/
def written (name : String) : Value → Value
  | .obj fields => .obj (Fields.set fields "mutated" (.str name))
  | v => v

instance : Notable (List Value) where
  values vs := vs
  write name vs := vs.map (written name)

/-- The error behind a report under the name for it. -/
def causeField (r : Report) : Fields Value := r.cause.toList.map fun e => ("cause", .str e.kind)

/-- A report as an object. -/
def recordOf (r : Report) : Fields Value :=
  [("error", .str r.kind), ("message", .str r.message)] ++ r.attributes ++ causeField r

instance : Notable Notice where
  values
    | .state name context => [.str name, .obj context]
    | .report r => [.obj (recordOf r)]
  write name
    | .state s context => .state s (context.set "mutated" (.str name))
    | .report r => .report r

variable {ν : Type} [Notable ν]

def label (name : String) : String := "<" ++ name ++ ">"

/-- A watcher's reaction: it remembers the notice. -/
def observe (name : String) (notice : ν) : Reaction Memory ν :=
  .touch (·.mark (.notify name (Notable.values notice))) fun _ => .finish notice

/-- What a listener does when its time has come. -/
def Act.react (name : String) (notice : ν) (m : Memory) : Act → Reaction Memory ν
  | .watch => .finish notice
  | .write => .finish (Notable.write name notice)
  | .raise e => .raise notice e
  | .unsubscribe target =>
    match m.subscriptions.get? target with
    | none => .raise notice (unknownName target)
    | some (channel, serial) => .unsubscribe channel serial (.finish notice)
  | .subscribe target channel =>
    if m.subscriptions.has target then .finish notice
    else match channel m with
      | .error e => .raise notice e
      | .ok i => .subscribe i (label target) (observe target) fun
        | .error e => .raise notice e
        | .ok serial =>
          .touch (·.nameSubscription target i serial) fun _ => .finish notice

/-- The reaction of a listener whose calls are counted under a key. -/
def Behavior.react (b : Behavior) (key : List Nat) (name : String) (notice : ν) :
    Reaction Memory ν :=
  .touch (fun m => (m.mark (.notify name (Notable.values notice))).bump key) fun m =>
    if m.count key < b.after then .finish notice else b.act.react name notice m

/-- A listener with a script. -/
def Behavior.listener (b : Behavior) (key : List Nat) (name : String) : Listener Memory ν :=
  ⟨label name, b.react key name⟩

end Workflow.Rehearsal
