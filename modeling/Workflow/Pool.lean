import Workflow.Process

/-!
# Pools of tasks

Tasks are processes on one state, of which one at a time runs. The tasks that can run stand in a
queue. The first one runs until it pauses, and then goes to the back of the queue, or until it
has to wait for a lock. A lock that is given back goes to the first task that waits for it, which
goes to the back of the queue.

Results:
* `step_smaller`: every step uses up a part of a task.
* `ready_run`: a run ends with an empty queue.
-/
namespace Workflow

/-- A lock: is it held, and the tasks that wait for it in the order of their arrival. -/
structure Lock where
  held : Bool := false
  waiting : List Nat := []
  deriving DecidableEq, Repr

/-- A task: what is left of it, or its result. -/
inductive Task (σ α : Type) where
  | running (p : Process σ α)
  | done (a : α)

/-- What tasks share: the state, the locks and the queue. -/
structure Shared (σ : Type) where
  state : σ
  locks : Nat → Lock := fun _ => {}
  ready : List Nat := []

namespace Shared

variable {σ : Type}

def setLock (s : Shared σ) (lock : Nat) (l : Lock) : Shared σ :=
  { s with locks := fun i => if i = lock then l else s.locks i }

/-- Puts a task at the back of the queue. -/
def enqueue (s : Shared σ) (task : Nat) : Shared σ := { s with ready := s.ready ++ [task] }

/-- A task takes a lock that nobody holds. -/
def hold (s : Shared σ) (lock : Nat) : Shared σ :=
  s.setLock lock { s.locks lock with held := true }

/-- A task waits for a lock. -/
def await (s : Shared σ) (lock task : Nat) : Shared σ :=
  s.setLock lock { s.locks lock with waiting := (s.locks lock).waiting ++ [task] }

/-- A lock is given back; it passes to the first task that waits for it. -/
def release (s : Shared σ) (lock : Nat) : Shared σ :=
  match (s.locks lock).waiting with
  | [] => s.setLock lock {}
  | task :: rest => (s.setLock lock { held := true, waiting := rest }).enqueue task

end Shared

namespace Process

variable {σ α : Type}

/-- Runs a task until it pauses, has to wait, or ends. -/
def turn (task : Nat) : Process σ α → Shared σ → Shared σ × Task σ α
  | .done a, s => (s, .done a)
  | .act change next, s => (next s.state).turn task { s with state := change s.state }
  | .pause next, s => (s.enqueue task, .running next)
  | .take lock refuse next, s =>
    if (s.locks lock).held = false then (next true).turn task (s.hold lock)
    else if refuse then (next false).turn task s
    else (s.await lock task, .running (next true))
  | .give lock next, s => next.turn task (s.release lock)

end Process

/-- Tasks by number, and what they share. -/
structure Pool (σ α : Type) extends Shared σ where
  tasks : List (Task σ α)

namespace Task

variable {σ α : Type}

/-- One task is what another one may have become after a turn. -/
inductive Smaller : Task σ α → Task σ α → Prop where
  | running {p q : Process σ α} (h : Relation.TransGen Process.Below p q) :
    Smaller (.running p) (.running q)
  | done (a : α) (q : Process σ α) : Smaller (.done a) (.running q)

theorem smaller_wf : WellFounded (Smaller : Task σ α → Task σ α → Prop) := by
  have hd (a : α) : Acc Smaller (.done a : Task σ α) := ⟨_, fun t h => by cases h⟩
  refine ⟨fun t => ?_⟩
  cases t with
  | done a => exact hd a
  | running p =>
    induction Process.below_wf.transGen.apply p with
    | intro p _ ih =>
      exact ⟨_, fun t h => by
        cases h with
        | running h => exact ih _ h
        | done a => exact hd a⟩

/-- One list differs from another in one place, where it is smaller. -/
inductive OneSmaller : List (Task σ α) → List (Task σ α) → Prop where
  | head {t u : Task σ α} (h : Smaller t u) (rest : List (Task σ α)) :
    OneSmaller (t :: rest) (u :: rest)
  | tail (t : Task σ α) {ts us : List (Task σ α)} (h : OneSmaller ts us) :
    OneSmaller (t :: ts) (t :: us)

theorem oneSmaller_wf : WellFounded (OneSmaller : List (Task σ α) → List (Task σ α) → Prop) := by
  refine ⟨fun ts => ?_⟩
  induction ts with
  | nil => exact ⟨_, fun us h => by cases h⟩
  | cons t ts ih =>
    induction smaller_wf.apply t generalizing ts with
    | intro t _ iht =>
      induction ih with
      | intro ts hts ihts =>
        refine ⟨_, fun us h => ?_⟩
        cases h with
        | head h => exact iht _ h _ ⟨_, hts⟩
        | tail _ h => exact ihts _ h

theorem oneSmaller_set {ts : List (Task σ α)} {i : Nat} {t u : Task σ α} (hi : ts[i]? = some u)
    (h : Smaller t u) : OneSmaller (ts.set i t) ts := by
  induction ts generalizing i with
  | nil => simp at hi
  | cons v ts ih =>
    cases i with
    | zero =>
      simp only [List.getElem?_cons_zero, Option.some.injEq] at hi
      subst hi
      exact .head h ts
    | succ i => exact .tail v (ih (by simpa using hi))

end Task

theorem Process.turn_smaller {σ α : Type} (task : Nat) (p : Process σ α) (s : Shared σ) :
    Task.Smaller (p.turn task s).2 (.running p) := by
  have trans {q r : Process σ α} {t : Task σ α} (h : Task.Smaller t (.running q))
      (hb : Below q r) : Task.Smaller t (.running r) := by
    cases h with
    | running h => exact .running (h.trans (.single hb))
    | done a => exact .done a r
  induction p generalizing s with
  | done a => exact .done a _
  | act change next ih => exact trans (ih _ _) (.act change next _)
  | pause next => exact .running (.single (.pause next))
  | take lock refuse next ih =>
    simp only [turn]
    split
    · exact trans (ih _ _) (.take lock refuse next true)
    · split
      · exact trans (ih _ _) (.take lock refuse next false)
      · exact .running (.single (.take lock refuse next true))
  | give lock next ih => exact trans (ih _) (.give lock next)

namespace Pool

variable {σ α : Type}

/-- Tasks in their order, all ready to run. -/
def ofTasks (state : σ) (ps : List (Process σ α)) : Pool σ α where
  state
  ready := List.range ps.length
  tasks := ps.map .running

/-- The task that stands first in the queue has its turn. -/
def step (p : Pool σ α) : Option (Pool σ α) :=
  match p.ready with
  | [] => none
  | task :: rest =>
    match p.tasks[task]? with
    | some (.running q) =>
      let r := q.turn task { p.toShared with ready := rest }
      some { toShared := r.1, tasks := p.tasks.set task r.2 }
    | _ => some { p with ready := rest }

/-- One pool has less left to do than another. -/
def Smaller : Pool σ α → Pool σ α → Prop :=
  InvImage (Prod.Lex Task.OneSmaller (· < ·)) fun p => (p.tasks, p.ready.length)

instance : WellFoundedRelation (Pool σ α) where
  rel := Smaller
  wf := InvImage.wf _ (Prod.lex ⟨_, Task.oneSmaller_wf⟩ Nat.lt_wfRel).wf

theorem step_smaller {p q : Pool σ α} (h : p.step = some q) : Smaller q p := by
  unfold step at h
  split at h
  · cases h
  · rename_i task rest hr
    split at h
    · rename_i r ht
      cases h
      exact .left _ _ (Task.oneSmaller_set ht (r.turn_smaller task _))
    · cases h
      simp only [Smaller, InvImage, hr, List.length_cons]
      exact .right _ (Nat.lt_succ_self _)

/-- Runs the tasks until none is ready. -/
def run (p : Pool σ α) : Pool σ α :=
  match _h : p.step with
  | none => p
  | some q => q.run
termination_by p
decreasing_by exact step_smaller (by assumption)

/-- The result of a task, if it has ended. -/
def result? (p : Pool σ α) (task : Nat) : Option α :=
  match p.tasks[task]? with
  | some (.done a) => some a
  | _ => none

theorem ready_run (p : Pool σ α) : p.run.ready = [] := by
  unfold run
  split
  · rename_i h
    unfold step at h
    split at h
    · assumption
    · split at h <;> cases h
  · rename_i q h
    exact ready_run q
termination_by p
decreasing_by exact step_smaller ‹_›

end Pool
end Workflow
