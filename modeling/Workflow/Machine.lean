import Workflow.Context
import Workflow.Document
import Workflow.Event
import Workflow.Flow
import Workflow.Policy

/-!
# Machines

A running workflow. An event takes the first transition of the current state that waits for it and
whose guard holds: the transition's actions run, the payload is merged into the context, the target
is entered and its entry actions run, and the new state is announced once. An action that fails is
reported; by policy it is passed over, or it ends the call.

Results:
* `select_chosen_mem`: a chosen transition is one of those offered, and waits for the event.
* `start_of_started`: a machine starts once.
-/
namespace Workflow

/-- A machine: its name, its policies, the workflow that it runs, and what of it changes; mirrors
`StateMachine`. -/
structure Machine where
  name : Option String := none
  failure : FailurePolicy := .carryOn
  sends : SendPolicy := .queue
  chart : Chart
  actions : Fields Action
  live : Live

inductive CallFault where
  /-- Another call is being processed. -/
  | busy (machine : Option String)
  | action (f : ActionFault)
  /-- A parameter has a numeral that cannot be read. -/
  | parameter (f : NumeralFault)
  /-- A guard has a numeral that is too long. -/
  | guardNumeral (t : Decimal.TooLong)
  deriving DecidableEq, Repr

def CallFault.raised : CallFault → Raised
  | .busy name =>
    ⟨"MachineBusy", "State machine for \"" ++ (Value.ofText? name).plainText ++
      "\" is already processing an event"⟩
  | .action f => ⟨f.kind, f.message⟩
  | .parameter f => f.raised
  | .guardNumeral t => t.raised

/-- A machine's state and context; mirrors `MachineSnapshot.to_json`. -/
def Machine.snapshot (m : Machine) : Value :=
  .obj [("state", .str m.live.state), ("context", .obj m.live.context)]

/-- When actions run: on the way out of a state, or when a state is entered. -/
inductive Phase where
  | transition | entry
  deriving DecidableEq, Repr

def Phase.word : Phase → String
  | .transition => "transition"
  | .entry => "entry"

/-- The guards that failed, and the transition that was chosen. -/
structure Selection where
  failures : List Guard.Failure := []
  chosen : Except Decimal.TooLong (Option Transition)

/-- The first transition that waits for an event and whose guard holds. A guard that fails does not
hold. Mirrors `StateMachine._select_transition`. -/
def select (context : Context) (event : String) : List Transition → Selection
  | [] => { chosen := .ok none }
  | t :: ts =>
    if t.event = event then
      match Guard.check t.guard context with
      | .ok true => { chosen := .ok (some t) }
      | .ok false => select context event ts
      | .error (.failure f) =>
        let s := select context event ts
        { s with failures := f :: s.failures }
      | .error (.tooLong t) => { chosen := .error t }
    else select context event ts

/-- How an action ends: with the machine as it then is, or with a fault. -/
inductive ActionEnd where
  | ok (live : Live)
  | failed (f : ActionFault)
  | broken (f : NumeralFault)

namespace Machine

variable {η : Type}

def runningEntry (m : Machine) (phase : Phase) (live : Live) (action category : String) :
    Log.Entry where
  level := .debug
  source := .machine
  message := "Executing action"
  extra := [("workflow", .ofText? m.name), ("state", .str live.state), ("action", .str action),
    ("category", .str category), ("phase", .str phase.word)]

/-- What becomes of a handler's outcome: an object is merged into the context. -/
def settle (live : Live) (action category : String) : Outcome → Flow η ActionEnd
  | .error cause => .done (.failed (.raised action category cause))
  | .ok .null => .done (.ok live)
  | .ok (.obj result) =>
    if result.isEmpty then .done (.ok live)
    else
      let live := { live with context := Fields.merge live.context result }
      .publish live (.done (.ok live))
  | .ok v => .done (.failed (.notAnObject action category v.kind))

/-- Runs an action; mirrors `StateMachine._execute_action`. -/
def runAction (m : Machine) (phase : Phase) (live : Live) (i : Invocation) : Flow η ActionEnd :=
  match m.actions.get? i.action with
  | none => .done (.failed (.undefined i.action))
  | some a => .resolve a.category fun
    | none => .done (.failed (.unregistered i.action a.category))
    | some handler =>
      match Context.resolveAll live.context i.params with
      | .error f => .done (.broken f)
      | .ok params =>
        .log (m.runningEntry phase live i.action a.category)
          (.invoke handler params live.context (settle live i.action a.category))

/-- Runs actions in turn. The result is the machine as it then is, and the fault that ended them, if
one did. Mirrors `StateMachine._run_actions`. -/
def runActions (m : Machine) (phase : Phase) (live : Live) :
    List Invocation → Flow η (Live × Option CallFault)
  | [] => .done (live, none)
  | i :: is => (m.runAction phase live i).bind fun
    | .ok live => m.runActions phase live is
    | .failed f => .report (.actionFailed f) <|
      match m.failure with
      | .carryOn => m.runActions phase live is
      | .abort => .done (live, some (.action f))
    | .broken f => .done (live, some (.parameter f))

/-- The result of a call that a fault may have ended. -/
def result (fault? : Option CallFault) (b : Bool) : Except CallFault Bool :=
  match fault? with
  | some f => .error f
  | none => .ok b

/-- Runs the entry actions of the state that a machine is in, and announces it. -/
def enter (m : Machine) (live : Live) (state : State) : Flow η (Except CallFault Bool) :=
  (m.runActions .entry live state.entry).bind fun r => .announce (.done (result r.2 true))

def transitionedEntry (m : Machine) (source target event : String) : Log.Entry where
  level := .info
  source := .machine
  message := "State machine transitioned"
  extra := [("workflow", .ofText? m.name), ("from_state", .str source),
    ("to_state", .str target), ("event", .str event)]

/-- Takes a transition. -/
def take (m : Machine) (live : Live) (e : Event) (t : Transition) :
    Flow η (Except CallFault Bool) :=
  match m.chart.states.get? t.target with
  | none => .report (.stateNotFound t.target m.name) (.done (.ok false))
  | some target => (m.runActions .transition live t.actions).bind fun
    | (_, some f) => .done (.error f)
    | (after, none) =>
      let entered := { after with
        state := t.target
        context := Context.update after.context e.payload }
      .publish entered <| .log (m.transitionedEntry live.state t.target e.type) <|
        m.enter entered target

/-- Sends an event to the machine. The result tells whether a transition was taken. Mirrors
`StateMachine._process`. -/
def send (m : Machine) (e : Event) : Flow η (Except CallFault Bool) :=
  let live := { m.live with started := true }
  .publish live <|
    match m.chart.states.get? live.state with
    | none => .report (.stateNotFound live.state m.name) (.done (.ok false))
    | some state =>
      let s := select live.context e.type state.transitions
      .reports (s.failures.map .guardFailed) <|
        match s.chosen with
        | .error t => .done (.error (.guardNumeral t))
        | .ok none => .report (.noTransition e.type live.state) (.done (.ok false))
        | .ok (some t) => m.take live e t

/-- Starts the machine: runs the entry actions of its state, unless a call has got through to it
before. The result tells whether a state was entered. Mirrors `StateMachine.start`. -/
def start (m : Machine) : Flow η (Except CallFault Bool) :=
  if m.live.started then .done (.ok false)
  else
    let live := { m.live with started := true }
    .publish live <|
      match m.chart.states.get? live.state with
      | none => .report (.stateNotFound live.state m.name) (.done (.ok false))
      | some state => m.enter live state

theorem start_of_started (m : Machine) (h : m.live.started = true) :
    (m.start : Flow η _) = .done (.ok false) := by simp [start, h]

end Machine

theorem select_chosen_mem {context : Context} {event : String} {ts : List Transition}
    {t : Transition} (h : (select context event ts).chosen = .ok (some t)) :
    t ∈ ts ∧ t.event = event := by
  induction ts with
  | nil => cases h
  | cons u us ih =>
    unfold select at h
    split at h
    · rename_i he
      split at h
      · cases h; exact ⟨List.mem_cons_self .., he⟩
      · exact (ih h).imp_left (List.mem_cons_of_mem _)
      · exact (ih h).imp_left (List.mem_cons_of_mem _)
      · cases h
    · exact (ih h).imp_left (List.mem_cons_of_mem _)

end Workflow
