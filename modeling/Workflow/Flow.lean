import Workflow.Report

/-!
# Flows

A call on a machine as the tree of what it does to the outside: it logs, reports, publishes its
state, announces it, asks for the handler of a category, and has a handler run, on whose outcome
the rest of the call depends. A flow is finite, whatever the handlers answer.

Results:
* `bind_assoc`: flows are joined end to end.
-/
namespace Workflow

/-- What of a machine changes: its state, its context, and whether a call has got through to it. -/
structure Live where
  state : String
  context : Context
  started : Bool := false

/-- What a handler comes to: a value, or an error. -/
abbrev Outcome := Except Raised Value

/-- What a call does to the outside, and what it results in. Handlers are of type `η`. -/
inductive Flow (η α : Type) where
  | done (a : α)
  | log (e : Log.Entry) (next : Flow η α)
  | report (r : Report) (next : Flow η α)
  | publish (live : Live) (next : Flow η α)
  | announce (next : Flow η α)
  | resolve (category : String) (next : Option η → Flow η α)
  | invoke (handler : η) (params : Fields Value) (context : Context) (next : Outcome → Flow η α)

namespace Flow

variable {η α β γ : Type}

/-- A flow and what follows its result. -/
def bind : Flow η α → (α → Flow η β) → Flow η β
  | .done a, f => f a
  | .log e next, f => .log e (next.bind f)
  | .report r next, f => .report r (next.bind f)
  | .publish live next, f => .publish live (next.bind f)
  | .announce next, f => .announce (next.bind f)
  | .resolve category next, f => .resolve category fun h => (next h).bind f
  | .invoke h params context next, f => .invoke h params context fun o => (next o).bind f

/-- Reports in turn, and what follows them. -/
def reports (rs : List Report) (next : Flow η α) : Flow η α := rs.foldr .report next

@[simp] theorem done_bind (a : α) (f : α → Flow η β) : (done a).bind f = f a := rfl

theorem bind_assoc (x : Flow η α) (f : α → Flow η β) (g : β → Flow η γ) :
    (x.bind f).bind g = x.bind fun a => (f a).bind g := by
  induction x <;> simp_all [bind]

end Flow
end Workflow
