import Workflow.Decimal.Reading

/-!
# Doubles in texts

A text denotes a double if it is a sign, if any, and either one of the words for infinity and for
what is no number, or ASCII digits with a point at most and an exponent, if any. Space around it
means nothing. A text without space around it may have single underscores inside.
-/
namespace Workflow.Decimal

open Text

/-- The words for doubles that have no digits. -/
def wordValue? (word : List Char) : Option Float :=
  match String.ofList (word.map Char.toLower) with
  | "inf" => some (1.0 / 0.0)
  | "infinity" => some (1.0 / 0.0)
  | "nan" => some (0.0 / 0.0)
  | _ => none

/-- Digits behind a point, if there is one. -/
def pointed : List Char → List Char × List Char
  | '.' :: cs => (digits cs, afterDigits cs)
  | cs => ([], cs)

/-- The double that a text without a sign denotes. -/
def unsigned? (negative : Bool) (cs : List Char) : Option Float :=
  match wordValue? cs with
  | some x => some (if negative then -x else x)
  | none =>
    let whole := digits cs
    let (fraction, rest) := pointed (afterDigits cs)
    let value := ofParts negative (digitValues whole) (digitValues fraction)
    if whole.isEmpty && fraction.isEmpty then none
    else if rest.isEmpty then some (value 0)
    else match exponent? rest with
      | some (e, []) => some (value e)
      | _ => none

/-- The double that a text denotes, nothing around it. -/
def exactLiteral? (cs : List Char) : Option Float := unsigned? (sign cs).1 (sign cs).2

/-- Does an underscore stand behind another one, or behind nothing? -/
def doubled : Bool → List Char → Bool
  | _, [] => false
  | before, c :: cs => (before && c = '_') || doubled (c = '_') cs

/-- A text without its underscores, if it has some and each of them stands between two other
characters. -/
def withoutUnderscores? (cs : List Char) : Option (List Char) :=
  if !cs.contains '_' || doubled true cs || cs.getLast? = some '_' then none
  else some (cs.filter (· ≠ '_'))

/-- The double that a text denotes. -/
def literal? (cs : List Char) : Option Float :=
  match exactLiteral? ((cs.dropWhile isSpace).reverse.dropWhile isSpace).reverse with
  | some x => some x
  | none => (withoutUnderscores? cs).bind exactLiteral?

end Workflow.Decimal
