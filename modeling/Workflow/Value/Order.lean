import Workflow.Value
import Workflow.Decimal.Double

/-!
# Equality and order of values

Booleans count as the whole numbers one and zero; whole numbers and doubles are compared exactly.
Texts are ordered by code point, lists by their first differing item. Objects are equal when they
hold equal values under the same names, in whatever order. Other kinds have no order.

Results:
* `compare_swap_number`: turning a comparison of numbers around changes nothing.
-/
namespace Workflow

open Decimal

/-- A number as a place on the line; NaN has none. -/
inductive Number where
  | int (n : Int)
  | float (x : Float)

namespace Number

def place? : Number → Option Place
  | .int n => some (.ofInt n)
  | .float x => (Double.ofFloat x).place?

/-- Are two numbers the same place? NaN is not even equal to itself. -/
def same (a b : Number) : Bool :=
  match a.place?, b.place? with
  | some p, some q => p == q
  | _, _ => false

/-- Is the number NaN? -/
def isNaN (a : Number) : Bool := a.place?.isNone

end Number

inductive Ordering4 where
  | below | atMost | above | atLeast
  deriving DecidableEq, Repr

namespace Ordering4

def sign : Ordering4 → String
  | .below => "<"
  | .atMost => "<="
  | .above => ">"
  | .atLeast => ">="

/-- The ordering with its sides exchanged. -/
def swap : Ordering4 → Ordering4
  | .below => .above
  | .atMost => .atLeast
  | .above => .below
  | .atLeast => .atMost

/-- What the ordering says, given whether left is below right and right below left. -/
def holds (o : Ordering4) (lt gt : Bool) : Bool :=
  match o with
  | .below => lt
  | .atMost => !gt
  | .above => gt
  | .atLeast => !lt

end Ordering4

/-- Two values of kinds without a common order. -/
structure Incomparable where
  order : Ordering4
  left : Kind
  right : Kind
  deriving DecidableEq, Repr

def Incomparable.message (i : Incomparable) : String :=
  "'" ++ i.order.sign ++ "' not supported between instances of '" ++ i.left.word ++ "' and '" ++
    i.right.word ++ "'"

namespace Value

/-- The number that a boolean, whole number or double stands for. -/
def number? : Value → Option Number
  | .bool b => some (.int (if b then 1 else 0))
  | .int n => some (.int n)
  | .float x => some (.float x)
  | _ => none

/-- Is the value a number that is NaN? -/
def isNaN (v : Value) : Bool := (v.number?.map Number.isNaN).getD false

/-- Equality with a number. -/
def sameNumber (a : Number) (w : Value) : Bool := (w.number?.map a.same).getD false

mutual

/-- Equality of values. -/
def same : Value → Value → Bool
  | .null, w => w.isNull
  | .bool b, w => sameNumber (.int (if b then 1 else 0)) w
  | .int n, w => sameNumber (.int n) w
  | .float x, w => sameNumber (.float x) w
  | .str s, w => match w with
    | .str t => s == t
    | _ => false
  | .list xs, w => match w with
    | .list ys => sameItems xs ys
    | _ => false
  | .obj fs, w => match w with
    | .obj gs => fs.length == gs.length && sameFields fs gs
    | _ => false

def sameItems : List Value → List Value → Bool
  | [], [] => true
  | x :: xs, y :: ys => (same x y || (x.isNaN && y.isNaN)) && sameItems xs ys
  | _, _ => false

/-- Does the second object hold the fields of the first? -/
def sameFields : List (String × Value) → List (String × Value) → Bool
  | [], _ => true
  | (k, x) :: fs, gs =>
    (match Fields.get? gs k with
      | some y => same x y || (x.isNaN && y.isNaN)
      | none => false) && sameFields fs gs

end

/-- Equality of items of a container. -/
def sameItem (x y : Value) : Bool := same x y || (x.isNaN && y.isNaN)

/-- Strict equality: a boolean never equals a number; mirrors `_strict_equal`. -/
def strictSame (v w : Value) : Bool :=
  match v, w with
  | .bool a, .bool b => a == b
  | .bool _, _ => false
  | _, .bool _ => false
  | _, _ => same v w

/-- The order of two numbers; NaN is in no order to anything. -/
def compareNumbers (o : Ordering4) (a b : Number) : Bool :=
  match a.place?, b.place? with
  | some p, some q => o.holds (p.lt q) (q.lt p)
  | _, _ => false

/-- The order with a number on the left. -/
def compareNumber (o : Ordering4) (k : Kind) (a : Number) (w : Value) : Except Incomparable Bool :=
  match w.number? with
  | some b => .ok (compareNumbers o a b)
  | none => .error ⟨o, k, w.kind⟩

mutual

/-- The order of two values. -/
def compare (o : Ordering4) : Value → Value → Except Incomparable Bool
  | .null, w => .error ⟨o, .null, w.kind⟩
  | .bool b, w => compareNumber o .bool (.int (if b then 1 else 0)) w
  | .int n, w => compareNumber o .int (.int n) w
  | .float x, w => compareNumber o .float (.float x) w
  | .str s, w => match w with
    | .str t => .ok (o.holds (s < t) (t < s))
    | _ => .error ⟨o, .str, w.kind⟩
  | .list xs, w => match w with
    | .list ys => compareItems o xs ys
    | _ => .error ⟨o, .list, w.kind⟩
  | .obj _, w => .error ⟨o, .obj, w.kind⟩

/-- The order of two lists: their first differing items decide, else the longer is above. -/
def compareItems (o : Ordering4) : List Value → List Value → Except Incomparable Bool
  | [], [] => .ok (o.holds false false)
  | [], _ :: _ => .ok (o.holds true false)
  | _ :: _, [] => .ok (o.holds false true)
  | x :: xs, y :: ys => if sameItem x y then compareItems o xs ys else compare o x y

end

theorem compare_swap_number (o : Ordering4) (a b : Number) :
    compareNumbers o.swap b a = compareNumbers o a b := by
  unfold compareNumbers
  cases a.place? <;> cases b.place? <;> cases o <;> simp [Ordering4.swap, Ordering4.holds]

end Value
end Workflow
