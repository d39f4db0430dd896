import Workflow.Value.Access
import Workflow.Value.Order
import Workflow.Decimal.Reading

/-!
# Sums and products of values

Booleans count as whole numbers. A sum or product of a whole number and a double is a double. Texts
and lists can be joined with their like and repeated by a whole number; nothing else adds or
multiplies.

Results:
* `plus_int`, `times_int`: whole numbers are added and multiplied exactly.
-/
namespace Workflow

/-- Does a number fit in a word of so many bits? One bit is for the sign. -/
def Decimal.fits (bits : Nat) (n : Int) : Bool :=
  let limit : Int := (1 <<< (bits - 1) : Nat)
  decide (-limit ≤ n) && decide (n < limit)

open Decimal

inductive ArithmeticFault where
  /-- The sign of the operation and the kinds on both sides. -/
  | unsupported (sign : String) (left right : Kind)
  | notJoinable (container other : Kind)
  | notRepeatable (count : Kind)
  | notIterable (kind : Kind)
  /-- A whole number beyond the doubles meets a double. -/
  | beyondDoubles
  /-- A number of repetitions beyond any size. -/
  | beyondSizes
  | textTooLong
  | listTooLong
  deriving DecidableEq, Repr

def ArithmeticFault.message : ArithmeticFault → String
  | .unsupported sign l r =>
    "unsupported operand type(s) for " ++ sign ++ ": '" ++ l.word ++ "' and '" ++ r.word ++ "'"
  | .notJoinable c o =>
    "can only concatenate " ++ c.word ++ " (not \"" ++ o.word ++ "\") to " ++ c.word
  | .notRepeatable k => "can't multiply sequence by non-int of type '" ++ k.word ++ "'"
  | .notIterable k => "'" ++ k.word ++ "' object is not iterable"
  | .beyondDoubles => "int too large to convert to float"
  | .beyondSizes => "cannot fit 'int' into an index-sized integer"
  | .textTooLong => "repeated string is too long"
  | .listTooLong => ""

namespace Number

/-- The double that stands for a number. -/
def toFloat? : Number → Option Float
  | .int n => nearestWhole? n
  | .float x => some x

/-- Applies an operation on whole numbers, or one on doubles if either number is a double. -/
def lift (onInt : Int → Int → Int) (onFloat : Float → Float → Float) (a b : Number) :
    Except ArithmeticFault Value :=
  match a, b with
  | .int m, .int n => .ok (.int (onInt m n))
  | a, b => match a.toFloat?, b.toFloat? with
    | some x, some y => .ok (.float (onFloat x y))
    | _, _ => .error .beyondDoubles

end Number

namespace Value

/-- Is the sum taken in place, so that a list on the left takes up the items on the right? -/
inductive Place where
  | fresh | inPlace
  deriving DecidableEq, Repr

/-- The sign of a sum. -/
def Place.sign : Place → String
  | .fresh => "+"
  | .inPlace => "+="

/-- The sum of two values. -/
def plus (place : Place) (v w : Value) : Except ArithmeticFault Value :=
  match v.number?, w.number? with
  | some a, some b => a.lift (· + ·) (· + ·) b
  | _, _ =>
    match v, w with
    | .str s, .str t => .ok (.str (s ++ t))
    | .str _, w => .error (.notJoinable .str w.kind)
    | .list xs, .list ys => .ok (.list (xs ++ ys))
    | .list xs, w => match place with
      | .fresh => .error (.notJoinable .list w.kind)
      | .inPlace => match w.items? with
        | some ys => .ok (.list (xs ++ ys))
        | none => .error (.notIterable w.kind)
    | v, w => .error (.unsupported place.sign v.kind w.kind)

/-- More items than any list can hold. -/
def sizeLimit : Int := 0x8000000000000000

/-- More items than are ever built. -/
def buildLimit : Int := 0x1000000000

def repeatText (s : String) (n : Int) : Except ArithmeticFault Value :=
  if !fits 64 n then .error .beyondSizes
  else if s.length * n ≥ sizeLimit then .error .textTooLong
  else if s.length * n ≥ buildLimit then .error .listTooLong
  else .ok (.str (String.join (List.replicate (if s = "" then 0 else n.toNat) s)))

def repeatItems (xs : List Value) (n : Int) : Except ArithmeticFault Value :=
  if !fits 64 n then .error .beyondSizes
  else if xs.length * n ≥ buildLimit then .error .listTooLong
  else .ok (.list (List.replicate (if xs.isEmpty then 0 else n.toNat) xs).flatten)

/-- The product of two values. -/
def times (v w : Value) : Except ArithmeticFault Value :=
  match v.number?, w.number? with
  | some a, some b => a.lift (· * ·) (· * ·) b
  | some (.int n), none => match w with
    | .str s => repeatText s n
    | .list xs => repeatItems xs n
    | w => .error (.unsupported "*" v.kind w.kind)
  | none, some (.int n) => match v with
    | .str s => repeatText s n
    | .list xs => repeatItems xs n
    | v => .error (.unsupported "*" v.kind w.kind)
  | _, _ =>
    match v, w with
    | .str _, w => .error (.notRepeatable w.kind)
    | .list _, w => .error (.notRepeatable w.kind)
    | v, .str _ => .error (.notRepeatable v.kind)
    | v, .list _ => .error (.notRepeatable v.kind)
    | v, w => .error (.unsupported "*" v.kind w.kind)

/-- The sum of a list of values, from the whole number zero on. -/
def sum (vs : List Value) : Except ArithmeticFault Value :=
  vs.foldlM (plus .fresh) (.int 0)

theorem plus_int (p : Place) (m n : Int) : plus p (.int m) (.int n) = .ok (.int (m + n)) := rfl

theorem times_int (m n : Int) : times (.int m) (.int n) = .ok (.int (m * n)) := rfl

end Value
end Workflow
