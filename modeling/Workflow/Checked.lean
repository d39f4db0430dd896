import Workflow.Value

/-!
# Values with issues

Reading a document, or settings, goes on behind a fault, so that all issues are reported at once.
Each issue has its place: the names and numbers that lead to it.

Results:
* `and_ok_iff`: two parts are read together exactly if each is read.
* `issues_and`: the issues of two parts stand in order.
-/
namespace Workflow

/-- A step down in a document: to a named field or a numbered item. -/
inductive PlaceStep where
  | name (s : String)
  | item (n : Nat)
  deriving DecidableEq, Repr

inductive Complaint where
  | missing
  | notText
  | emptyText
  /-- An object is expected that describes a thing of the given sort. -/
  | notRecord (sort : String)
  | notObject
  | notList
  | undefinedInitial (state : String)
  | notPath
  | noChoice (first last : String)
  | notNumber
  | unreadableNumber
  | notPositive
  deriving DecidableEq, Repr

def Complaint.code : Complaint → String
  | .missing => "missing"
  | .notText => "string_type"
  | .emptyText => "string_too_short"
  | .notRecord _ => "model_type"
  | .notObject => "dict_type"
  | .notList => "tuple_type"
  | .undefinedInitial _ => "value_error"
  | .notPath => "path_type"
  | .noChoice .. => "enum"
  | .notNumber => "float_type"
  | .unreadableNumber => "float_parsing"
  | .notPositive => "greater_than"

def Complaint.message : Complaint → String
  | .missing => "Field required"
  | .notText => "Input should be a valid string"
  | .emptyText => "String should have at least 1 character"
  | .notRecord sort => "Input should be a valid dictionary or instance of " ++ sort
  | .notObject => "Input should be a valid dictionary"
  | .notList => "Input should be a valid tuple"
  | .undefinedInitial s => "Value error, initialState \"" ++ s ++ "\" is not a defined state"
  | .notPath => "Input is not a valid path for <class 'pathlib.Path'>"
  | .noChoice first last => "Input should be '" ++ first ++ "' or '" ++ last ++ "'"
  | .notNumber => "Input should be a valid number"
  | .unreadableNumber => "Input should be a valid number, unable to parse string as a number"
  | .notPositive => "Input should be greater than 0"

structure Issue where
  complaint : Complaint
  place : List PlaceStep := []
  deriving DecidableEq, Repr

def placeText (place : List PlaceStep) : String :=
  ".".intercalate (place.map fun
    | .name s => s
    | .item n => toString n)

def Issue.text (i : Issue) : String := placeText i.place ++ ": " ++ i.complaint.message

/-- A part of a document that was read, or the issues that kept it from being read. -/
inductive Checked (α : Type) where
  | ok (a : α)
  | bad (issues : List Issue)

namespace Checked

variable {α β : Type}

/-- A part that cannot be read for one reason. -/
def fault (c : Complaint) : Checked α := .bad [{ complaint := c }]

def map (f : α → β) : Checked α → Checked β
  | .ok a => .ok (f a)
  | .bad issues => .bad issues

/-- Two parts, with the issues of both. -/
def and : Checked α → Checked β → Checked (α × β)
  | .ok a, .ok b => .ok (a, b)
  | .ok _, .bad issues => .bad issues
  | .bad issues, .ok _ => .bad issues
  | .bad issues, .bad more => .bad (issues ++ more)

/-- The part as it stands one step down. -/
def under (step : PlaceStep) : Checked α → Checked α
  | .ok a => .ok a
  | .bad issues => .bad (issues.map fun i => { i with place := step :: i.place })

def bind (c : Checked α) (f : α → Checked β) : Checked β :=
  match c with
  | .ok a => f a
  | .bad issues => .bad issues

def issues : Checked α → List Issue
  | .ok _ => []
  | .bad is => is

theorem and_ok_iff (x : Checked α) (y : Checked β) (a : α) (b : β) :
    x.and y = .ok (a, b) ↔ x = .ok a ∧ y = .ok b := by
  cases x <;> cases y <;> simp [and]

theorem issues_and (x : Checked α) (y : Checked β) : (x.and y).issues = x.issues ++ y.issues := by
  cases x <;> cases y <;> simp [and, issues]

theorem bind_ok_iff (x : Checked α) (f : α → Checked β) (b : β) :
    x.bind f = .ok b ↔ ∃ a, x = .ok a ∧ f a = .ok b := by
  cases x <;> simp [bind]

end Checked
end Workflow
