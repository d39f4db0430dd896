import Mathlib.Logic.Function.Basic
import Workflow.Proofs.Pool.Run

/-!
# Processes that run alone

A process that runs with no other one does what is left of it in turn. Nobody else holds a lock, so
that it waits only for a lock that it holds itself, and then for ever.

Results:
* `Process.Comes.bind`: what follows a process that comes to something.
* `Process.Comes.turn`: a turn, after which it has come there, or is on its way there.
* `Process.Comes.alone`: what a process comes to is what its run ends with.
* `Process.alone_eq_runFor`: such a run can be computed.
-/
namespace Workflow

variable {σ α β : Type}

namespace Process

/-- What becomes of a process that runs alone: the state, and what the process comes to, if it comes
to anything. -/
def alone (p : Process σ α) (s : σ) : σ × Option α :=
  let pool := (Pool.ofTasks s [p]).run
  (pool.state, pool.result? 0)

/-- From locks that are held and a state, a process comes to `a` with others. -/
inductive Comes : Process σ α → (Nat → Bool) → σ → (Nat → Bool) → σ → α → Prop where
  | done {held : Nat → Bool} {s : σ} (a : α) : Comes (.done a) held s held s a
  | act {held held' : Nat → Bool} {s s' : σ} {a : α} {change : σ → σ} {next : σ → Process σ α}
    (h : Comes (next s) held (change s) held' s' a) : Comes (.act change next) held s held' s' a
  | pause {held held' : Nat → Bool} {s s' : σ} {a : α} {next : Process σ α}
    (h : Comes next held s held' s' a) : Comes (.pause next) held s held' s' a
  | take {held held' : Nat → Bool} {s s' : σ} {a : α} {lock : Nat} {refuse : Bool}
    {next : Bool → Process σ α} (hl : held lock = false)
    (h : Comes (next true) (Function.update held lock true) s held' s' a) :
    Comes (.take lock refuse next) held s held' s' a
  | refused {held held' : Nat → Bool} {s s' : σ} {a : α} {lock : Nat} {next : Bool → Process σ α}
    (hl : held lock = true) (h : Comes (next false) held s held' s' a) :
    Comes (.take lock true next) held s held' s' a
  | give {held held' : Nat → Bool} {s s' : σ} {a : α} {lock : Nat} {next : Process σ α}
    (h : Comes next (Function.update held lock false) s held' s' a) :
    Comes (.give lock next) held s held' s' a

namespace Comes

variable {p : Process σ α} {held held' held'' : Nat → Bool} {s s' s'' : σ} {a : α} {b : β}

theorem bind (h : p.Comes held s held' s' a) {f : α → Process σ β}
    (hf : (f a).Comes held' s' held'' s'' b) : (p.bind f).Comes held s held'' s'' b := by
  induction h with
  | done a => exact hf
  | act _ ih => exact .act (ih hf)
  | pause _ ih => exact .pause (ih hf)
  | take hl _ ih => exact .take hl (ih hf)
  | refused hl _ ih => exact .refused hl (ih hf)
  | give _ ih => exact .give (ih hf)

theorem map (h : p.Comes held s held' s' a) (f : α → β) : (p.map f).Comes held s held' s' (f a) :=
  h.bind (.done _)

end Comes

end Process

structure Shared.Quiet (s : Shared σ) (held : Nat → Bool) : Prop where
  held : ∀ lock, (s.locks lock).held = held lock
  waiting : ∀ lock, (s.locks lock).waiting = []

namespace Shared.Quiet

variable {s : Shared σ} {held : Nat → Bool} {lock : Nat}

theorem setLock (h : s.Quiet held) (lock : Nat) (b : Bool) :
    (s.setLock lock { held := b }).Quiet (Function.update held lock b) where
  held i := by
    by_cases hi : i = lock
    · subst hi
      simp [Shared.setLock]
    · simp [Shared.setLock, hi, h.held]
  waiting i := by
    by_cases hi : i = lock <;> simp [Shared.setLock, hi, h.waiting]

theorem hold (h : s.Quiet held) (lock : Nat) :
    (s.hold lock).Quiet (Function.update held lock true) := by
  have hs : s.hold lock = s.setLock lock { held := true } := by
    simp only [Shared.hold, h.waiting lock]
  rw [hs]
  exact h.setLock lock true

theorem release_eq (h : s.Quiet held) (lock : Nat) : s.release lock = s.setLock lock {} := by
  unfold Shared.release
  rw [h.waiting lock]

end Shared.Quiet

namespace Process

/-- What is left of a task after a turn alone: it has come to `a`, or waits for its next turn. -/
inductive Left (held' : Nat → Bool) (s' : σ) (a : α) : Shared σ → Task σ α → Prop where
  | ended {t : Shared σ} (hq : t.ready = []) (hs : t.state = s') : Left held' s' a t (.done a)
  | paused {t : Shared σ} {held : Nat → Bool} {q : Process σ α} (hq : t.ready = [0])
    (hl : t.Quiet held) (h : q.Comes held t.state held' s' a) : Left held' s' a t (.running q)

/-- After a turn a process has come to where it comes, or is on its way there. -/
theorem Comes.turn {p : Process σ α} {held held' : Nat → Bool} {s s' : σ} {a : α}
    (h : p.Comes held s held' s' a) {t : Shared σ} (ht : t.state = s) (hl : t.Quiet held)
    (hq : t.ready = []) : Left held' s' a (p.turn 0 t).1 (p.turn 0 t).2 := by
  induction h generalizing t with
  | done a => exact .ended hq ht
  | act h ih =>
    subst ht
    exact ih rfl ⟨hl.held, hl.waiting⟩ hq
  | pause h =>
    subst ht
    exact .paused (congrArg (· ++ [0]) hq) ⟨hl.held, hl.waiting⟩ h
  | @take _ _ _ _ _ lock _ _ hf _ ih =>
    rw [Process.turn, if_pos ((hl.held lock).trans hf)]
    exact ih ht (hl.hold lock) hq
  | @refused _ _ _ _ _ lock _ hf _ ih =>
    rw [Process.turn, if_neg (by rw [hl.held, hf]; decide), if_pos rfl]
    exact ih ht hl hq
  | @give _ _ _ _ _ lock _ _ ih =>
    rw [Process.turn, hl.release_eq]
    exact ih ht (hl.setLock lock false) hq

/-- A pool of one task comes to where the task does. -/
theorem Comes.run {pool : Pool σ α} {p : Process σ α} {held held' : Nat → Bool} {s' : σ} {a : α}
    (h : p.Comes held pool.state held' s' a) (ht : pool.tasks = [.running p])
    (hl : pool.Quiet held) (hq : pool.ready = [0]) :
    pool.run.state = s' ∧ pool.run.result? 0 = some a := by
  have hstep := Pool.step_of_running hq (by rw [ht]; rfl : pool.tasks[0]? = some (.running p))
  have hturn := h.turn (t := { pool.toShared with ready := [] }) rfl ⟨hl.held, hl.waiting⟩ rfl
  rw [Pool.run_of_some hstep]
  generalize p.turn 0 { pool.toShared with ready := [] } = r at hstep hturn ⊢
  obtain ⟨t, task⟩ := r
  dsimp only at hturn
  cases hturn with
  | ended hr hs =>
    rw [Pool.run_of_none (Pool.step_of_nil hr)]
    exact ⟨hs, by simp [Pool.result?, ht]⟩
  | paused hr hl h => exact h.run (by simp [ht]) hl hr
termination_by pool
decreasing_by exact Pool.step_smaller hstep

/-- What a process comes to is what its run alone ends with. -/
theorem Comes.alone {p : Process σ α} {held' : Nat → Bool} {s s' : σ} {a : α}
    (h : p.Comes (fun _ => false) s held' s' a) : p.alone s = (s', some a) := by
  obtain ⟨hs, hr⟩ := h.run (rfl : (Pool.ofTasks s [p]).tasks = _) ⟨fun _ => rfl, fun _ => rfl⟩ rfl
  unfold Process.alone
  rw [← hs, ← hr]

/-- A process that runs alone can be computed. -/
theorem alone_eq_runFor (n : Nat) {p : Process σ α} {s : σ}
    (h : (Pool.runFor n (Pool.ofTasks s [p])).ready = []) :
    p.alone s = ((Pool.runFor n (Pool.ofTasks s [p])).state,
      (Pool.runFor n (Pool.ofTasks s [p])).result? 0) := by
  unfold alone
  rw [Pool.run_eq_runFor n h]

end Process
end Workflow
