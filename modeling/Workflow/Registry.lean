import Workflow.Log.Entry
import Workflow.Text.Quoted

/-!
# Registries

The handlers under the categories that they serve. A handler is known by its identity: registering
another one for a category replaces the first, registering the same one again does not.

Results:
* `resolve_register_self`, `resolve_register_of_ne`: what a registration changes.
-/
namespace Workflow

/-- What is offered to a registry: a handler with its identity, or what handles nothing. -/
inductive Candidate (η : Type) where
  | handler (identity : Nat) (h : η)
  | other

/-- Handlers with their identities under categories; mirrors `ActionHandlerRegistry`. -/
structure Registry (η : Type) where
  entries : Fields (Nat × η) := []

structure NoHandler where
  category : String
  deriving DecidableEq, Repr

def NoHandler.message (n : NoHandler) : String :=
  "Handler for " ++ Text.quoted n.category ++ " must define execute(params, context)"

def NoHandler.raised (n : NoHandler) : Raised := ⟨"TypeError", n.message⟩

namespace Registry

variable {η : Type}

/-- The handler of a category; mirrors `ActionHandlerRegistry.resolve`. -/
def resolve (r : Registry η) (category : String) : Option η :=
  (r.entries.get? category).map Prod.snd

/-- The identity of the handler of a category. -/
def identity? (r : Registry η) (category : String) : Option Nat :=
  (r.entries.get? category).map Prod.fst

/-- Has the category a handler? Mirrors `ActionHandlerRegistry.__contains__`. -/
def contains (r : Registry η) (category : String) : Bool := r.entries.has category

/-- The categories in the order of their registration; mirrors
`ActionHandlerRegistry.categories`. -/
def categories (r : Registry η) : List String := r.entries.keys

/-- Takes out the handler of a category; mirrors `ActionHandlerRegistry.unregister`. -/
def unregister (r : Registry η) (category : String) : Registry η :=
  ⟨r.entries.erase category⟩

/-- Sets the handler of a category. -/
def insert (r : Registry η) (category : String) (identity : Nat) (h : η) : Registry η :=
  ⟨r.entries.set category (identity, h)⟩

/-- Would a handler take the place of another one? -/
def replaces (r : Registry η) (category : String) (identity : Nat) : Bool :=
  match r.identity? category with
  | some i => i != identity
  | none => false

/-- What is logged about a registration. -/
def registrationEntries (replaced : Bool) (category : String) : List Log.Entry :=
  let extra := [("category", .str category)]
  (if replaced then
    [{ level := .info, source := .registry, message := "Replacing action handler", extra }]
  else []) ++
  [{ level := .debug, source := .registry, message := "Action handler registered", extra }]

/-- Registers a candidate for a category; mirrors `ActionHandlerRegistry.register`. -/
def register (r : Registry η) (category : String) (c : Candidate η) :
    Except NoHandler (Registry η × List Log.Entry) :=
  match c with
  | .handler identity h =>
    .ok (r.insert category identity h,
      registrationEntries (r.replaces category identity) category)
  | .other => .error ⟨category⟩

/-- Registers candidates in turn, up to the first that handles nothing. -/
def registerAll (r : Registry η) : List (String × Candidate η) →
    Except NoHandler (Registry η × List Log.Entry)
  | [] => .ok (r, [])
  | (category, c) :: more =>
    match r.register category c with
    | .error e => .error e
    | .ok (r', logs) => (registerAll r' more).map fun (r'', logs') => (r'', logs ++ logs')

theorem resolve_register_self (r : Registry η) (category : String) (identity : Nat) (h : η) :
    (r.insert category identity h).resolve category = some h := by
  simp [resolve, insert]

theorem resolve_register_of_ne (r : Registry η) {category other : String} (identity : Nat) (h : η)
    (hne : other ≠ category) :
    (r.insert category identity h).resolve other = r.resolve other := by
  simp [resolve, insert, Fields.get?_set_of_ne _ _ hne]

end Registry
end Workflow
