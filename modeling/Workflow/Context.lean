import Workflow.Value.Path

/-!
# Contexts

A context is merged with updates name by name; a value is replaced whole. The parameters of an
action are resolved against it: a text with a point in it is a path into the context, and any other
value stands for itself.

Results:
* `resolve_keys`: resolving parameters keeps their names and the order of their names.
-/
namespace Workflow

namespace Context

/-- The context with the updates written over it, if there are any; mirrors `merge_context`. -/
def update (context : Context) (updates? : Option Context) : Context :=
  match updates? with
  | none => context
  | some updates => Fields.merge context updates

/-- The value at a dotted path, null if the path leads nowhere; mirrors `resolve_path`. -/
def find (context : Context) (path : String) : Except NumeralFault Value :=
  Value.find (.obj context) (Path.segments path.toList)

/-- The value that a parameter stands for. -/
def resolve (context : Context) : Value → Except NumeralFault Value
  | .str s => if s.toList.contains '.' then find context s else .ok (.str s)
  | v => .ok v

/-- The parameters with every value resolved; mirrors `resolve_params`. -/
def resolveAll (context : Context) : Fields Value → Except NumeralFault (Fields Value)
  | [] => .ok []
  | (name, v) :: params =>
    match resolve context v with
    | .error f => .error f
    | .ok w => (resolveAll context params).map ((name, w) :: ·)

theorem resolve_keys (context : Context) (params : Fields Value) {resolved : Fields Value}
    (h : resolveAll context params = .ok resolved) : resolved.keys = params.keys := by
  induction params generalizing resolved with
  | nil => cases h; rfl
  | cons p params ih =>
    simp only [resolveAll] at h
    split at h
    · cases h
    · cases hr : resolveAll context params with
      | error f => simp [hr, Except.map] at h
      | ok rest =>
        simp only [hr, Except.map, Except.ok.injEq] at h
        subst h
        simpa [Fields.keys] using ih hr

end Context
end Workflow
