/-!
# Processes

A process acts on a state that it shares with others, pauses, and takes and gives back locks. It is
a finite tree: each step leads to one of its parts.

Results:
* `bind_assoc`: processes are joined end to end.
* `below_wf`: a process cannot take steps for ever.
-/
namespace Workflow

/-- A process on states of type `σ` with a result of type `α`. Taking a lock waits for it, or gives
up at once when `refuse` is set and another process holds it; what follows is told which. -/
inductive Process (σ α : Type) where
  | done (a : α)
  | act (change : σ → σ) (next : σ → Process σ α)
  | pause (next : Process σ α)
  | take (lock : Nat) (refuse : Bool) (next : Bool → Process σ α)
  | give (lock : Nat) (next : Process σ α)

namespace Process

variable {σ α β γ : Type}

/-- A process and what follows its result. -/
def bind : Process σ α → (α → Process σ β) → Process σ β
  | .done a, f => f a
  | .act change next, f => .act change fun s => (next s).bind f
  | .pause next, f => .pause (next.bind f)
  | .take lock refuse next, f => .take lock refuse fun b => (next b).bind f
  | .give lock next, f => .give lock (next.bind f)

def map (f : α → β) (p : Process σ α) : Process σ β := p.bind fun a => .done (f a)

def read (next : σ → Process σ α) : Process σ α := .act id next

def change (f : σ → σ) (next : Process σ α) : Process σ α := .act f fun _ => next

def pauses : Nat → Process σ α → Process σ α
  | 0, p => p
  | n + 1, p => .pause (pauses n p)

@[simp] theorem done_bind (a : α) (f : α → Process σ β) : (done a).bind f = f a := rfl

theorem bind_assoc (p : Process σ α) (f : α → Process σ β) (g : β → Process σ γ) :
    (p.bind f).bind g = p.bind fun a => (f a).bind g := by
  induction p with
  | done a => rfl
  | act change next ih => simp only [bind, ih]
  | pause next ih => simp only [bind, ih]
  | take lock refuse next ih => exact congrArg (take lock refuse) (funext ih)
  | give lock next ih => simp only [bind, ih]

/-- One process is what another one leads to in one step. -/
inductive Below : Process σ α → Process σ α → Prop where
  | act (change : σ → σ) (next : σ → Process σ α) (s : σ) : Below (next s) (.act change next)
  | pause (next : Process σ α) : Below next (.pause next)
  | take (lock : Nat) (refuse : Bool) (next : Bool → Process σ α) (b : Bool) :
    Below (next b) (.take lock refuse next)
  | give (lock : Nat) (next : Process σ α) : Below next (.give lock next)

theorem below_wf : WellFounded (Below : Process σ α → Process σ α → Prop) := by
  refine ⟨fun p => ?_⟩
  induction p with
  | done a => exact ⟨_, fun q h => by cases h⟩
  | act change next ih => exact ⟨_, fun q h => by cases h; exact ih _⟩
  | pause next ih => exact ⟨_, fun q h => by cases h; exact ih⟩
  | take lock refuse next ih => exact ⟨_, fun q h => by cases h; exact ih _⟩
  | give lock next ih => exact ⟨_, fun q h => by cases h; exact ih⟩

end Process
end Workflow
