import Workflow.Decimal.Double
import Workflow.Text.Digit

/-!
# Reading numbers

Whole numbers and doubles from their decimal digits. A numeral of more than 4300 digits is refused.

Results:
* `wholeOf_ok_iff`: a numeral is read exactly if it is short enough.
-/
namespace Workflow.Decimal

open Text

/-- The ASCII digits in front of a text. -/
def digits (cs : List Char) : List Char := cs.takeWhile Char.isDigit

def afterDigits (cs : List Char) : List Char := cs.dropWhile Char.isDigit

/-- The sign in front of a number: is it negative, and the rest. -/
def sign : List Char → Bool × List Char
  | '-' :: cs => (true, cs)
  | '+' :: cs => (false, cs)
  | cs => (false, cs)

/-- An exponent: the letter, a sign if there is one, and digits. -/
def exponent? : List Char → Option (Int × List Char)
  | [] => none
  | c :: cs =>
    if c = 'e' ∨ c = 'E' then
      let (negative, rest) := sign cs
      if (digits rest).isEmpty then none
      else
        let n : Int := ofDigits (digitValues (digits rest))
        some (if negative then -n else n, afterDigits rest)
    else none

/-- The most digits that a numeral may have. -/
def digitLimit : Nat := 4300

structure TooLong where
  digits : Nat
  deriving DecidableEq, Repr

def TooLong.message (t : TooLong) : String :=
  "Exceeds the limit (4300 digits) for integer string conversion: value has " ++
    toString t.digits ++ " digits; use sys.set_int_max_str_digits() to increase the limit"

/-- The number of a list of digit values, unless there are too many. -/
def wholeOf (ds : List Nat) : Except TooLong Nat :=
  if digitLimit < ds.length then .error ⟨ds.length⟩ else .ok (ofDigits ds)

/-- The bits of the double nearest to `digits * 10 ^ exponent`. Far beyond the range of doubles they
do not depend on the digits. -/
def decimalBits (digits : Nat) (exponent : Int) : Nat :=
  let first : Int := exponent + (toString digits).length
  if digits = 0 ∨ first < -400 then 0
  else if 400 < first then infinityBits
  else if 0 ≤ exponent then nearestBits (digits * Nat.pow 10 exponent.toNat) 1
  else nearestBits digits (Nat.pow 10 (-exponent).toNat)

/-- The double nearest to `digits * 10 ^ exponent`, with a sign. -/
def nearest (negative : Bool) (digits : Nat) (exponent : Int) : Float :=
  .ofBits (.ofNat (signBit negative + decimalBits digits exponent))

/-- The double nearest to a whole number, none if it is beyond the largest double. -/
def nearestWhole? (n : Int) : Option Float :=
  let x := Float.ofInt n
  if x.isInf then none else some x

/-- The parts of a decimal: whole digits, fraction digits, exponent. -/
def ofParts (negative : Bool) (whole fraction : List Nat) (exponent : Int) : Float :=
  nearest negative (ofDigits (whole ++ fraction)) (exponent - fraction.length)

theorem wholeOf_ok_iff (ds : List Nat) (n : Nat) :
    wholeOf ds = .ok n ↔ ds.length ≤ 4300 ∧ n = ofDigits ds := by
  unfold wholeOf digitLimit
  split
  · rename_i h; simp; omega
  · rename_i h
    constructor
    · intro e; cases e; exact ⟨by omega, rfl⟩
    · rintro ⟨_, rfl⟩; rfl

end Workflow.Decimal
