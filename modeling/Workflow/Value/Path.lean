import Workflow.Value.Numeral

/-!
# Paths into values

A path is a list of names. A name leads from an object to the value under it, and from a list to
the item that it numbers, counted from zero. Where a path leads nowhere there is null.

Results:
* `find_append`: a path is walked piece by piece.
* `find_null`: nothing lies below null.
-/
namespace Workflow

open Text

namespace Path

/-- The names of a dotted path. -/
def segments (cs : List Char) : List String := (cs.splitOn '.').map String.ofList

/-- Does a name look like the number of an item? -/
def isNumber (name : String) : Bool := !name.isEmpty && name.toList.all isDigitLike

end Path

namespace Value

/-- The item of a list that a name numbers, if it numbers one. -/
def item? (items : List Value) (name : String) : Except NumeralFault (Option Value) :=
  if Path.isNumber name then (Numeral.read name).map fun i => items[i.toNat]? else .ok none

/-- The value one name below a value. -/
def below? (v : Value) (name : String) : Except NumeralFault (Option Value) :=
  match v with
  | .obj fields => .ok (Fields.get? fields name)
  | .list items => item? items name
  | _ => .ok none

/-- The value at the end of a path, null if it leads nowhere. -/
def find (v : Value) : List String → Except NumeralFault Value
  | [] => .ok v
  | name :: names =>
    match below? v name with
    | .error f => .error f
    | .ok none => .ok .null
    | .ok (some w) => find w names

theorem find_null (names : List String) : find .null names = .ok .null := by
  cases names <;> rfl

theorem find_append (v : Value) (names more : List String) :
    find v (names ++ more) = (find v names).bind (find · more) := by
  induction names generalizing v with
  | nil => rfl
  | cons name names ih =>
    simp only [List.cons_append, find]
    cases below? v name with
    | error f => rfl
    | ok w =>
      cases w with
      | none => exact (find_null more).symm
      | some w => exact ih w

end Value
end Workflow
