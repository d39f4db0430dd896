import Workflow.Value

/-!
# Policies

What a machine does when an action fails, and what it does with a call that arrives while another
one is being processed.

Results:
* `FailurePolicy.ofValue?_word`, `SendPolicy.ofValue?_word`: a policy is known by its word.
-/
namespace Workflow

/-- What happens when an action fails: the machine carries on, or the call ends with the failure;
mirrors `ActionFailurePolicy`. -/
inductive FailurePolicy where
  | carryOn | abort
  deriving DecidableEq, Repr

/-- What happens to a call that meets another one: it waits its turn, or it is refused; mirrors
`SendPolicy`. -/
inductive SendPolicy where
  | queue | reject
  deriving DecidableEq, Repr

/-- A value that names no policy of a sort. -/
structure UnknownPolicy where
  sort : String
  value : Value

def UnknownPolicy.message (u : UnknownPolicy) : String :=
  u.value.shown ++ " is not a valid " ++ u.sort

namespace FailurePolicy

def word : FailurePolicy → String
  | .carryOn => "continue"
  | .abort => "abort"

/-- The policy that a word names. -/
def ofWord? (s : String) : Option FailurePolicy :=
  if s = "continue" then some .carryOn else if s = "abort" then some .abort else none

/-- The policy that a value names. -/
def ofValue? (v : Value) : Except UnknownPolicy FailurePolicy :=
  match v.str?.bind ofWord? with
  | some p => .ok p
  | none => .error ⟨"ActionFailurePolicy", v⟩

theorem ofValue?_word (p : FailurePolicy) : ofValue? (.str p.word) = .ok p := by cases p <;> rfl

end FailurePolicy

namespace SendPolicy

def word : SendPolicy → String
  | .queue => "queue"
  | .reject => "reject"

def ofWord? (s : String) : Option SendPolicy :=
  if s = "queue" then some .queue else if s = "reject" then some .reject else none

/-- The policy that a value names. -/
def ofValue? (v : Value) : Except UnknownPolicy SendPolicy :=
  match v.str?.bind ofWord? with
  | some p => .ok p
  | none => .error ⟨"SendPolicy", v⟩

theorem ofValue?_word (p : SendPolicy) : ofValue? (.str p.word) = .ok p := by cases p <;> rfl

end SendPolicy
end Workflow
