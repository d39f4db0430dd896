import Workflow.Value.Arithmetic
import Workflow.Value.Numeral

/-!
# Errors

A handler or a listener can fail with an error of any kind. Such an error is known by the name of
its kind and by its text, which may be empty. The faults of values are known under such kinds when
they end an action.
-/
namespace Workflow

/-- An error as a handler or a listener raises it. -/
structure Raised where
  kind : String
  text : String
  deriving DecidableEq, Repr

/-- The text, or the kind of an error that has no text. -/
def Raised.reason (e : Raised) : String := if e.text = "" then e.kind else e.text

/-- The kind with the text behind it, as a log line shows an error. -/
def Raised.line (e : Raised) : String := if e.text = "" then e.kind else e.kind ++ ": " ++ e.text

open Decimal

def AccessFault.raised (f : AccessFault) : Raised := ⟨f.kind, f.message⟩

def Decimal.TooLong.raised (t : TooLong) : Raised := ⟨"ValueError", t.message⟩

def NumeralFault.raised (f : NumeralFault) : Raised where
  kind := match f with
    | .notANumber _ => "TypeError"
    | .infinite => "OverflowError"
    | _ => "ValueError"
  text := f.message

def ArithmeticFault.raised (f : ArithmeticFault) : Raised where
  kind := match f with
    | .beyondDoubles => "OverflowError"
    | .beyondSizes => "OverflowError"
    | .textTooLong => "OverflowError"
    | .listTooLong => "MemoryError"
    | _ => "TypeError"
  text := f.message

end Workflow
