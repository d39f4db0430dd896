import Workflow.Value

/-!
# Events

A named signal to a machine, with values for the machine's context if it carries any.

Results:
* `ofFields?_type_ne_empty`: an event that was read has a name.
-/
namespace Workflow

/-- An event; mirrors `Event`. -/
structure Event where
  type : String
  payload : Option Context := none

namespace Event

inductive Fault where
  | type | payload
  deriving DecidableEq, Repr

def Fault.message : Fault → String
  | .type => "Event requires a non-empty string 'type'"
  | .payload => "Event 'payload' must be an object"

/-- The event that fields describe; mirrors `Event.from_json`. -/
def ofFields? (fields : Fields Value) : Except Fault Event :=
  match fields.getD "type" with
  | .str type =>
    if type = "" then .error .type
    else match fields.getD "payload" with
      | .null => .ok { type }
      | .obj payload => .ok { type, payload := some payload }
      | _ => .error .payload
  | _ => .error .type

theorem ofFields?_type_ne_empty {fields : Fields Value} {e : Event}
    (h : ofFields? fields = .ok e) : e.type ≠ "" := by
  unfold ofFields? at h
  split at h
  · split at h
    · cases h
    · split at h <;> cases h <;> assumption
  · cases h

end Event
end Workflow
