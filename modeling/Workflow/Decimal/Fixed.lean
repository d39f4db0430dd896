import Workflow.Decimal.Float

/-!
# Decimals with a fixed number of digits

A double is rounded to a number of places behind the point, or to a number of digits. It is rounded
exactly; a tie goes to the even neighbour.
-/
namespace Workflow.Decimal

/-- The number of units `10 ^ k` nearest to `m * 2 ^ e`. -/
def unitsNearest (m : Nat) (e k : Int) : Nat :=
  let (n, d) := ratio m e
  if 0 ≤ k then roundDiv n (d * Nat.pow 10 k.toNat) else roundDiv (n * Nat.pow 10 (-k).toNat) d

def Double.nearestWhole (negative : Bool) (m : Nat) (e : Int) : Int :=
  let n : Int := unitsNearest m e 0
  if negative then -n else n

/-- The digits of a number with a point in front of the last `places` of them. -/
def pointedText (alternate : Bool) (places n : Nat) : List Char :=
  let ds := (padded (places + 1) n).toList
  let whole := ds.take (ds.length - places)
  if places = 0 then if alternate then whole ++ ['.'] else whole
  else whole ++ '.' :: ds.drop (ds.length - places)

/-- A double with a number of places behind the point. -/
def fixedText (alternate : Bool) (places m : Nat) (e : Int) : List Char :=
  pointedText alternate places (unitsNearest m e (-places))

/-- The first `count` digits of a double, and the place of the first one. -/
def firstDigits (count m : Nat) (e : Int) : Nat × Int :=
  if m = 0 then (0, 0)
  else
    let k := leadingPlace m e
    let n := unitsNearest m e (k - count + 1)
    if n = Nat.pow 10 count then (Nat.pow 10 (count - 1), k + 1) else (n, k)

/-- A double with an exponent, and a number of places behind the point. -/
def scientificText (alternate : Bool) (places m : Nat) (e : Int) : List Char :=
  let (n, k) := firstDigits (places + 1) m e
  pointedText alternate places n ++ (exponentText plain k).toList

/-- The digits without zeros behind a point, and without a point behind them. -/
def dropPlaces (ds : List Char) : List Char :=
  if ds.contains '.' then
    let kept := ds.reverse.dropWhile (· = '0')
    (if kept.head? = some '.' then kept.drop 1 else kept).reverse
  else ds

/-- A double with a number of digits, written with an exponent if its magnitude is small, or too
large for these digits. Zeros at the end are dropped unless the form is the alternate one. -/
def generalText (alternate : Bool) (count m : Nat) (e : Int) : List Char :=
  let count := max count 1
  let (n, k) := firstDigits count m e
  let finish (ds : List Char) : List Char := if alternate then ds else dropPlaces ds
  if k < -4 ∨ (count : Int) ≤ k then
    finish (pointedText alternate (count - 1) n) ++ (exponentText plain k).toList
  else finish (pointedText alternate ((count : Int) - 1 - k).toNat n)

end Workflow.Decimal
