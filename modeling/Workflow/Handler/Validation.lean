import Workflow.Context
import Workflow.Value.Access
import Workflow.Value.Fault

/-!
# Validation

Checks simple rules on a context: that a list has a least number of items, and that the values at
some paths are there and not empty. The rules come as parameters, and the result lists what is
wrong.

Results:
* `isBlankValue_iff`: the values that count as absent.
-/
namespace Workflow.Validation

inductive Fault where
  | numeral (f : NumeralFault)
  | access (f : AccessFault)
  deriving DecidableEq, Repr

def Fault.raised : Fault → Raised
  | .numeral f => f.raised
  | .access f => f.raised

/-- Does a value count as absent? -/
def isBlankValue : Value → Bool
  | .null => true
  | .str s => s = ""
  | .list items => items.isEmpty
  | .obj fields => fields.isEmpty
  | _ => false

/-- The items to count: those given, or those of the cart. -/
def itemsToCount (params : Fields Value) (context : Context) : Except NumeralFault Value :=
  match params.get? "items" with
  | some v => .ok v
  | none => Context.find context "cart.items"

/-- What is wrong if there are too few items. -/
def tooFew (params : Fields Value) (least : Value) : Value :=
  (params.getD "message").orElse
    (.str ("Cart must have at least " ++ least.plainText ++ " item(s)"))

/-- Checks the least number of items. What is no list cannot be counted and passes. -/
def checkItems (params : Fields Value) (context : Context) : Except Fault (List Value) :=
  let least := params.getD "minItems"
  if !least.truthy then .ok []
  else
    match itemsToCount params context with
    | .error f => .error (.numeral f)
    | .ok (.list items) =>
      match least.whole with
      | .error f => .error (.numeral f)
      | .ok n => .ok (if (items.length : Int) < n then [tooFew params least] else [])
    | .ok _ => .ok []

/-- The paths that must lead somewhere: one, or any number of them. -/
def requiredPaths (params : Fields Value) : Except AccessFault (List Value) :=
  match (params.getD "required").orElse (.list []) with
  | .str path => .ok [.str path]
  | v => v.items

def checkPath (context : Context) (path : Value) : Except Fault (List Value) :=
  match path with
  | .str s =>
    match Context.find context s with
    | .error f => .error (.numeral f)
    | .ok v => .ok (if isBlankValue v then [.str (s ++ " is required")] else [])
  | v => .error (.access (.noMember v.kind "split"))

def checkPaths (context : Context) : List Value → Except Fault (List Value)
  | [] => .ok []
  | path :: paths =>
    match checkPath context path with
    | .error f => .error f
    | .ok errors => (checkPaths context paths).map (errors ++ ·)

def result (errors : List Value) : Value :=
  .obj [("validation", .obj [("isValid", .bool errors.isEmpty), ("errors", .list errors)])]

/-- Checks the rules that parameters give; mirrors `ValidationHandler.execute`. -/
def run (params : Fields Value) (context : Context) : Except Fault Value :=
  match checkItems params context with
  | .error f => .error f
  | .ok few =>
    match requiredPaths params with
    | .error f => .error (.access f)
    | .ok paths => (checkPaths context paths).map fun missing => result (few ++ missing)

theorem isBlankValue_iff (v : Value) :
    isBlankValue v = true ↔ v = .null ∨ v = .str "" ∨ v = .list [] ∨ v = .obj [] := by
  cases v <;> simp [isBlankValue]

end Workflow.Validation
