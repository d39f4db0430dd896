import Workflow.Decimal.Shortest

/-!
# The text of a float

A float is written with the shortest digits that read back. Small and middling magnitudes are
written in positions, the others with an exponent.
-/
namespace Workflow.Decimal

structure Style where
  /-- Exponents of the first digit that are written in positions: from here … -/
  lowest : Int
  /-- … to below here. -/
  limit : Int
  /-- What follows the digits of a whole number. -/
  wholeMark : String
  /-- The least number of digits of an exponent. -/
  exponentWidth : Nat
  nan : String
  infinity : String

/-- Floats of messages and documents: positions from 10^-4 to below 10^16, `.0` after a whole
number, at least two digits of exponent. -/
def plain : Style where
  lowest := -4
  limit := 16
  wholeMark := ".0"
  exponentWidth := 2
  nan := "nan"
  infinity := "inf"

def json : Style := { plain with nan := "NaN", infinity := "Infinity" }

def padded (width n : Nat) : String :=
  let s := toString n
  String.ofList (List.replicate (width - s.length) '0') ++ s

/-- The exponent behind a mantissa. -/
def exponentText (style : Style) (e : Int) : String :=
  (if e < 0 then "e-" else "e+") ++ padded style.exponentWidth e.natAbs

/-- A decimal in the given style. -/
def scaledText (style : Style) (s : Scaled) : String :=
  let ds := (toString s.digits).toList
  let first : Int := s.exponent + ds.length - 1
  if style.lowest ≤ first ∧ first < style.limit then
    if 0 ≤ s.exponent then
      String.ofList (ds ++ List.replicate s.exponent.toNat '0') ++ style.wholeMark
    else if 0 ≤ first then
      String.ofList (ds.take (first.toNat + 1)) ++ "." ++ String.ofList (ds.drop (first.toNat + 1))
    else
      "0." ++ String.ofList (List.replicate (-first - 1).toNat '0' ++ ds)
  else
    let tail := if ds.length ≤ 1 then "" else "." ++ String.ofList (ds.drop 1)
    String.ofList (ds.take 1) ++ tail ++ exponentText style first

def doubleText (style : Style) : Double → String
  | .nan => style.nan
  | .infinite negative => (if negative then "-" else "") ++ style.infinity
  | .finite negative m e => (if negative then "-" else "") ++ scaledText style (shortest m e)

def text (style : Style) (x : Float) : String := doubleText style (.ofFloat x)

end Workflow.Decimal
