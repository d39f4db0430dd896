import Workflow.Value

/-!
# Access to values

Going through a value, looking up a field, and taking pairs for fields fail on values of the wrong
kinds.

Results:
* `field_ok_iff`: a field that is there is found.
-/
namespace Workflow

inductive AccessFault where
  | notIterable (kind : Kind)
  /-- Values of the kind have no member of the name. -/
  | noMember (kind : Kind) (name : String)
  | missing (field : String)
  | notAPair (index : Nat)
  | wrongLength (index length : Nat)
  | unhashable (kind : Kind)
  deriving DecidableEq, Repr

def AccessFault.kind : AccessFault → String
  | .noMember _ _ => "AttributeError"
  | .missing _ => "KeyError"
  | .wrongLength _ _ => "ValueError"
  | _ => "TypeError"

def AccessFault.message : AccessFault → String
  | .notIterable k => "'" ++ k.word ++ "' object is not iterable"
  | .noMember k name => "'" ++ k.word ++ "' object has no attribute '" ++ name ++ "'"
  | .missing field => Text.quoted field
  | .notAPair i =>
    "cannot convert dictionary update sequence element #" ++ toString i ++ " to a sequence"
  | .wrongLength i n =>
    "dictionary update sequence element #" ++ toString i ++ " has length " ++ toString n ++
      "; 2 is required"
  | .unhashable k => "unhashable type: '" ++ k.word ++ "'"

namespace Value

/-- The items that a value gives when it is gone through. -/
def items? : Value → Option (List Value)
  | .list items => some items
  | .str s => some (s.toList.map fun c => .str (String.singleton c))
  | .obj fields => some (fields.map fun e => .str e.1)
  | _ => none

/-- The items of a value that can be gone through. -/
def items (v : Value) : Except AccessFault (List Value) :=
  match v.items? with
  | some vs => .ok vs
  | none => .error (.notIterable v.kind)

/-- The field of an object that must have it. -/
def field (fields : Fields Value) (name : String) : Except AccessFault Value :=
  match fields.get? name with
  | some v => .ok v
  | none => .error (.missing name)

/-- The text under which a value names a field. -/
def name : Value → Except AccessFault String
  | .list _ => .error (.unhashable .list)
  | .obj _ => .error (.unhashable .obj)
  | v => .ok v.plainText

/-- The entry that the pair with a number describes. -/
def entry (i : Nat) (v : Value) : Except AccessFault (String × Value) :=
  match v.items? with
  | none => .error (.notAPair i)
  | some [k, w] => k.name.map fun k => (k, w)
  | some vs => .error (.wrongLength i vs.length)

/-- The entries that pairs describe, numbered from `i` on. -/
def entries (i : Nat) : List Value → Except AccessFault (List (String × Value))
  | [] => .ok []
  | v :: vs =>
    match entry i v with
    | .error f => .error f
    | .ok e => (entries (i + 1) vs).map (e :: ·)

/-- The fields of an object, or those that pairs describe. -/
def asFields (v : Value) : Except AccessFault (Fields Value) :=
  match v with
  | .obj fields => .ok fields
  | v =>
    match v.items with
    | .error f => .error f
    | .ok vs => (entries 0 vs).map Fields.ofEntries

theorem asFields_obj (fields : List (String × Value)) : asFields (.obj fields) = .ok fields := rfl

theorem field_ok_iff (fields : Fields Value) (name : String) (v : Value) :
    field fields name = .ok v ↔ fields.get? name = some v := by
  unfold field
  cases fields.get? name <;> simp

end Value
end Workflow
