import Workflow.Value.Fault

/-!
# Log entries

What the parts of the engine report while they work: a level, the part that reports, a message,
further fields, and the error that the entry is about, if it is about one.
-/
namespace Workflow.Log

/-- How urgent an entry is. -/
inductive Level where
  | debug | info | warning | error
  deriving DecidableEq, Repr

def Level.name : Level → String
  | .debug => "DEBUG"
  | .info => "INFO"
  | .warning => "WARNING"
  | .error => "ERROR"

/-- The number of a level; entries below a logger's number are dropped. -/
def Level.number : Level → Nat
  | .debug => 10
  | .info => 20
  | .warning => 30
  | .error => 40

/-- The parts that report. -/
inductive Source where
  | guards | registry | notifier | machine | catalog | handlers | ui | api | main
  deriving DecidableEq, Repr

def Source.name : Source → String
  | .guards => "conditions"
  | .registry => "registry"
  | .notifier => "notifier"
  | .machine => "state_machine"
  | .catalog => "catalog"
  | .handlers => "handlers"
  | .ui => "handlers.ui"
  | .api => "handlers.api"
  | .main => "main"

structure Entry where
  level : Level
  source : Source
  message : String
  extra : Fields Value := []
  exception : Option Raised := none

end Workflow.Log
