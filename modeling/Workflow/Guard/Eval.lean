import Workflow.Guard.Expr
import Workflow.Value.Path

/-!
# The value of a guard

A guard is evaluated over a context. Conjunctions and disjunctions stop at the operand that decides
them, and their value is that operand's. A path may end in `length`, the size of a list, a text or
an object without such a name. An ordering with null is false.

Results:
* `ordered_null_left`, `ordered_null_right`: null is in no order, and that is no error.
-/
namespace Workflow.Guard

inductive EvalFault where
  | incomparable (i : Incomparable)
  | numeral (f : NumeralFault)
  | notNegatable (kind : Kind)
  deriving DecidableEq, Repr

def EvalFault.message : EvalFault → String
  | .incomparable i => i.message
  | .numeral f => f.message
  | .notNegatable k => "cannot negate " ++ k.word

/-- The name that stands for a size. -/
def sizeName : String := "length"

def size (n : Nat) : Option Value := some (.int n)

/-- The value one name below a value, sizes included. -/
def below? (v : Value) (name : String) : Except NumeralFault (Option Value) :=
  match v with
  | .obj fields =>
    match Fields.get? fields name with
    | some w => .ok (some w)
    | none => .ok (if name = sizeName then size fields.length else none)
  | .list items => if name = sizeName then .ok (size items.length) else Value.item? items name
  | .str s => .ok (if name = sizeName then size s.length else none)
  | _ => .ok none

/-- The value at the end of a path, null if it leads nowhere; mirrors `_Path.evaluate`. -/
def lookup (v : Value) : List String → Except NumeralFault Value
  | [] => .ok v
  | name :: names =>
    match below? v name with
    | .error f => .error f
    | .ok none => .ok .null
    | .ok (some w) => lookup w names

/-- The number with its sign changed; mirrors `_Negate.evaluate`. -/
def negated : Value → Except EvalFault Value
  | .int n => .ok (.int (-n))
  | .float x => .ok (.float (-x))
  | v => .error (.notNegatable v.kind)

/-- Is one value in the given order to another? Null is not. -/
def ordered (o : Ordering4) (v w : Value) : Except EvalFault Bool :=
  if v.isNull || w.isNull then .ok false else (Value.compare o v w).mapError .incomparable

/-- Does a comparison hold? Mirrors `_Compare.evaluate`. -/
def compared (c : Comparison) (v w : Value) : Except EvalFault Bool :=
  match c with
  | .equal => .ok (Value.same v w)
  | .notEqual => .ok (!Value.same v w)
  | .identical => .ok (Value.strictSame v w)
  | .notIdentical => .ok (!Value.strictSame v w)
  | .order o => ordered o v w

mutual

/-- The value of an expression. -/
def eval (context : Context) : Expr → Except EvalFault Value
  | .literal v => .ok v
  | .path names => (lookup (.obj context) names).mapError .numeral
  | .not e => (eval context e).map fun v => .bool !v.truthy
  | .negate e =>
    match eval context e with
    | .error f => .error f
    | .ok v => negated v
  | .all es => evalAll context (.bool true) es
  | .any es => evalAny context (.bool false) es
  | .compare c l r =>
    match eval context l with
    | .error f => .error f
    | .ok v =>
      match eval context r with
      | .error f => .error f
      | .ok w => (compared c v w).map .bool

/-- The value of the first operand that is not true, else of the last operand; mirrors
`_And.evaluate`. -/
def evalAll (context : Context) (last : Value) : List Expr → Except EvalFault Value
  | [] => .ok last
  | e :: es =>
    match eval context e with
    | .error f => .error f
    | .ok v => if v.truthy then evalAll context v es else .ok v

/-- The value of the first operand that is true, else of the last operand; mirrors
`_Or.evaluate`. -/
def evalAny (context : Context) (last : Value) : List Expr → Except EvalFault Value
  | [] => .ok last
  | e :: es =>
    match eval context e with
    | .error f => .error f
    | .ok v => if v.truthy then .ok v else evalAny context v es

end

theorem ordered_null_left (o : Ordering4) (w : Value) : ordered o .null w = .ok false := rfl

theorem ordered_null_right (o : Ordering4) (v : Value) : ordered o v .null = .ok false := by
  simp [ordered, Value.isNull]

end Workflow.Guard
