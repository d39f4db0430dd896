import Workflow.Guard.Check
import Workflow.Value.Fault

/-!
# Reports

What a machine reports while it processes a call: states that are not defined, events that lead
nowhere, guards and actions that fail. A report is logged, and error listeners are told.

Results:
* `level_warning_iff`: only an event that leads nowhere is a mere warning.
-/
namespace Workflow

/-- Why a fault of evaluation happened, as an error. -/
def Guard.EvalFault.raised : Guard.EvalFault → Raised
  | .numeral f => f.raised
  | f => ⟨"TypeError", f.message⟩

/-- The error behind a guard's failure: reading a guard fails for no other error. -/
def Guard.Failure.cause (f : Guard.Failure) : Option Raised :=
  match f.reason with
  | .value f => some f.raised
  | _ => none

/-- Why an action failed; mirrors `ActionFailure`. -/
inductive ActionFault where
  | undefined (action : String)
  | unregistered (action category : String)
  | raised (action category : String) (cause : Raised)
  | notAnObject (action category : String) (kind : Kind)
  deriving DecidableEq, Repr

namespace ActionFault

def action : ActionFault → String
  | .undefined a => a
  | .unregistered a _ => a
  | .raised a _ _ => a
  | .notAnObject a _ _ => a

/-- The category of the action, where it is known. -/
def category? : ActionFault → Option String
  | .undefined _ => none
  | .unregistered _ c => some c
  | .raised _ c _ => some c
  | .notAnObject _ c _ => some c

/-- The reason, if a handler was at work. -/
def reason? : ActionFault → Option String
  | .raised _ _ cause => some cause.reason
  | .notAnObject _ _ k => some ("expected a mapping result, got " ++ k.word)
  | _ => none

/-- The error behind the failure, if a handler raised one. -/
def cause : ActionFault → Option Raised
  | .raised _ _ cause => some cause
  | _ => none

def kind : ActionFault → String
  | .undefined _ => "UndefinedAction"
  | .unregistered _ _ => "UnregisteredHandlerCategory"
  | _ => "HandlerExecutionError"

def message : ActionFault → String
  | .undefined a => "Action \"" ++ a ++ "\" not found"
  | .unregistered _ c => "No handler registered for action type \"" ++ c ++ "\""
  | .raised a _ cause => "Error executing action \"" ++ a ++ "\": " ++ cause.reason
  | .notAnObject a _ k =>
    "Error executing action \"" ++ a ++ "\": expected a mapping result, got " ++ k.word

end ActionFault

/-- What a machine reports. -/
inductive Report where
  | stateNotFound (state : String) (workflow : Option String)
  | noTransition (event state : String)
  | guardFailed (f : Guard.Failure)
  | actionFailed (f : ActionFault)

namespace Report

def kind : Report → String
  | .stateNotFound _ _ => "StateNotFound"
  | .noTransition _ _ => "NoMatchingTransition"
  | .guardFailed _ => "ConditionEvaluationError"
  | .actionFailed f => f.kind

def message : Report → String
  | .stateNotFound s _ => "State \"" ++ s ++ "\" not found in workflow"
  | .noTransition e s =>
    "No valid transition found for event \"" ++ e ++ "\" in state \"" ++ s ++ "\""
  | .guardFailed f => f.message
  | .actionFailed f => f.message

/-- The error behind a report. -/
def cause : Report → Option Raised
  | .guardFailed f => f.cause
  | .actionFailed f => f.cause
  | _ => none

/-- How urgent a report is. -/
def level : Report → Log.Level
  | .noTransition _ _ => .warning
  | _ => .error

/-- A text under a name, if there is one. -/
def optionalText (name : String) (s : Option String) : Fields Value :=
  s.toList.map fun s => (name, .str s)

/-- What a report is about. -/
def attributes : Report → Fields Value
  | .stateNotFound s w => [("state", .str s), ("workflow", Value.ofText? w)]
  | .noTransition e s => [("event", .str e), ("state", .str s)]
  | .guardFailed f => [("expression", .str f.expression), ("reason", .str f.reason.message)]
  | .actionFailed f =>
    [("action", .str f.action)] ++ optionalText "category" f.category? ++
      optionalText "reason" f.reason?

/-- The attributes that a log entry takes over, in its order. -/
def loggedNames : List String := ["action", "category", "event", "expression"]

/-- The log entry of a report from a machine with a name, in a state. -/
def entry (name : Option String) (state : String) (r : Report) : Log.Entry where
  level := r.level
  source := .machine
  message := r.message
  extra :=
    [("workflow", Value.ofText? name), ("state", .str state),
      ("error_type", .str r.kind)] ++
    loggedNames.filterMap fun k => (r.attributes.get? k).map fun v => (k, v)
  exception := r.cause

theorem level_warning_iff (r : Report) : r.level = .warning ↔ ∃ e s, r = .noTransition e s := by
  cases r <;> simp [level]

end Report
end Workflow
