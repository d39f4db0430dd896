import Workflow.Event
import Workflow.Log.Entry
import Workflow.Machine

/-!
# Work of handlers

What a handler does before it comes to an outcome: it logs, looks at the host's memory and changes
it, pauses, and sends events to machines.
-/
namespace Workflow

/-- Work with a result of type `α`, beside a host with a memory of type `μ`. -/
inductive Work (μ α : Type) where
  | finish (a : α)
  | log (e : Log.Entry) (next : Work μ α)
  | touch (change : μ → μ) (next : μ → Work μ α)
  | pause (next : Work μ α)
  | send (machine : Nat) (event : Event) (next : Except CallFault Bool → Work μ α)

/-- A handler: its work on parameters, beside a copy of the machine's context. -/
structure Handler (μ : Type) where
  run : Fields Value → Context → Work μ Outcome

namespace Work

variable {μ α β γ : Type}

/-- Work and what follows its result. -/
def bind : Work μ α → (α → Work μ β) → Work μ β
  | .finish a, f => f a
  | .log e next, f => .log e (next.bind f)
  | .touch change next, f => .touch change fun m => (next m).bind f
  | .pause next, f => .pause (next.bind f)
  | .send machine event next, f => .send machine event fun r => (next r).bind f

def map (f : α → β) (w : Work μ α) : Work μ β := w.bind fun a => .finish (f a)

def pauses : Nat → Work μ α → Work μ α
  | 0, w => w
  | n + 1, w => .pause (pauses n w)

/-- Changes the memory. -/
def remember (change : μ → μ) (next : Work μ α) : Work μ α := .touch change fun _ => next

end Work
end Workflow
