import Workflow.Guard.Parser
import Workflow.Guard.Eval
import Workflow.Log.Entry

/-!
# Checking guards

A guard is trimmed, cut into tokens, parsed and evaluated; the truth of its value is the answer. A
missing guard and a guard of blanks hold always. A guard that cannot be read or evaluated fails
with a reason.

Results:
* `holds_iff`: a guard counts as holding exactly if checking it says so.
-/
namespace Workflow.Guard

open Text Decimal

inductive Reason where
  | character (c : Char) (pos : Nat)
  | parse (f : ParseFault)
  | value (f : EvalFault)

def ParseFault.message : ParseFault → String
  | .unexpected t pos => "unexpected " ++ t.shown ++ " at " ++ toString pos
  | .chained pos => "chained comparison at " ++ toString pos
  | .unclosed pos => "expected ')' at " ++ toString pos
  | .ended => "unexpected end of expression"
  | .tooDeep => "expression nested too deeply (limit " ++ toString nestingLimit ++ ")"

def Reason.message : Reason → String
  | .character c pos =>
    "unexpected character " ++ quoted (String.singleton c) ++ " at " ++ toString pos
  | .parse f => f.message
  | .value f => f.message

/-- A guard without an answer: its text and the reason. -/
structure Failure where
  expression : String
  reason : Reason

def Failure.message (f : Failure) : String :=
  "Error evaluating condition \"" ++ f.expression ++ "\": " ++ f.reason.message

/-- How a check ends without an answer. A numeral that is too long is not the guard's failure. -/
inductive Fault where
  | failure (f : Failure)
  | tooLong (t : TooLong)

/-- Reads the expression of a trimmed guard; mirrors `parse_condition`. -/
def read (s : String) : Except Fault Expr :=
  match tokens s with
  | .error (.unexpected c pos) => .error (.failure ⟨s, .character c pos⟩)
  | .error (.tooLong t) => .error (.tooLong t)
  | .ok ts => (Guard.parse ts).mapError fun f => .failure ⟨s, .parse f⟩

/-- Checks a guard that is present. A fault of reading names the trimmed text, a fault of evaluation
the text as it was given. -/
def checkText (s : String) (context : Context) : Except Fault Bool :=
  if (trim s).isEmpty then .ok true
  else match read (trim s) with
    | .error f => .error f
    | .ok e => ((eval context e).map Value.truthy).mapError fun f => .failure ⟨s, .value f⟩

/-- Checks a guard; mirrors `ConditionEvaluator.check`. -/
def check (guard? : Option String) (context : Context) : Except Fault Bool :=
  match guard? with
  | none => .ok true
  | some s => checkText s context

def Failure.entry (guard? : Option String) (f : Failure) : Log.Entry where
  level := .error
  source := .guards
  message := f.message
  extra := [("condition", .ofText? guard?), ("reason", .str f.reason.message)]

/-- Checks a guard and takes a failure for false; the failure is logged; mirrors
`ConditionEvaluator.evaluate`. -/
def holds (guard? : Option String) (context : Context) : Except TooLong (Bool × List Log.Entry) :=
  match check guard? context with
  | .ok b => .ok (b, [])
  | .error (.failure f) => .ok (false, [f.entry guard?])
  | .error (.tooLong t) => .error t

theorem check_none (context : Context) : check none context = .ok true := rfl

theorem holds_iff (guard? : Option String) (context : Context) :
    (∃ logs, holds guard? context = .ok (true, logs)) ↔ check guard? context = .ok true := by
  unfold holds
  cases check guard? context with
  | ok b => simp
  | error f => cases f <;> simp

end Workflow.Guard
