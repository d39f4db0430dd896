import Workflow.Proofs.Pool.Run

/-!
# Twin runs

Two processes on states of their own are twins under a relation of the states if they go side by
side and keep the states related: they pause together, take and give back the same locks, and come
to the same result, whatever either does in between with its state alone. Pools of twins run side by
side, step by step.

Results:
* `Process.Twins.bind`: what follows twins.
* `Process.Twins.turn`, `Pool.Twins.step`: a turn, and a step.
* `Pool.Twins.runFor`, `Pool.Twins.run`: runs.
-/
namespace Workflow

variable {σ σ' α β : Type} {r : σ → σ' → Prop}

/-! ## Processes -/

/-- Two processes that keep states related and come to the same. Each may do something with its own
state where the other does nothing. -/
inductive Process.Twins (r : σ → σ' → Prop) : Process σ α → Process σ' α → Prop where
  | done (a : α) : Twins r (.done a) (.done a)
  | act {change : σ → σ} {next : σ → Process σ α} {change' : σ' → σ'}
    {next' : σ' → Process σ' α} (hc : ∀ s s', r s s' → r (change s) (change' s'))
    (hn : ∀ s s', r s s' → Twins r (next s) (next' s')) :
    Twins r (.act change next) (.act change' next')
  | first {change : σ → σ} {next : σ → Process σ α} {q : Process σ' α}
    (hc : ∀ s s', r s s' → r (change s) s') (hn : ∀ s, Twins r (next s) q) :
    Twins r (.act change next) q
  | second {p : Process σ α} {change' : σ' → σ'} {next' : σ' → Process σ' α}
    (hc : ∀ s s', r s s' → r s (change' s')) (hn : ∀ s', Twins r p (next' s')) :
    Twins r p (.act change' next')
  | pause {p : Process σ α} {q : Process σ' α} (h : Twins r p q) : Twins r (.pause p) (.pause q)
  | take {lock : Nat} {refuse : Bool} {next : Bool → Process σ α} {next' : Bool → Process σ' α}
    (hn : ∀ b, Twins r (next b) (next' b)) :
    Twins r (.take lock refuse next) (.take lock refuse next')
  | give {lock : Nat} {p : Process σ α} {q : Process σ' α} (h : Twins r p q) :
    Twins r (.give lock p) (.give lock q)

inductive Task.Twins (r : σ → σ' → Prop) : Task σ α → Task σ' α → Prop where
  | running {p : Process σ α} {q : Process σ' α} (h : p.Twins r q) :
    Twins r (.running p) (.running q)
  | done (a : α) : Twins r (.done a) (.done a)

/-- What twins share: related states, the same locks and the same queue. -/
structure Shared.Twins (r : σ → σ' → Prop) (s : Shared σ) (s' : Shared σ') : Prop where
  state : r s.state s'.state
  locks : s'.locks = s.locks
  ready : s'.ready = s.ready

namespace Process.Twins

variable {p : Process σ α} {q : Process σ' α}

theorem bind (h : p.Twins r q) {f : α → Process σ β} {g : α → Process σ' β}
    (hf : ∀ a, (f a).Twins r (g a)) : (p.bind f).Twins r (q.bind g) := by
  induction h with
  | done a => exact hf a
  | act hc _ ih => exact .act hc ih
  | first hc _ ih => exact .first hc ih
  | second hc _ ih => exact .second hc ih
  | pause _ ih => exact .pause ih
  | take _ ih => exact .take ih
  | give _ ih => exact .give ih

theorem pauses (h : p.Twins r q) (n : Nat) : (p.pauses n).Twins r (q.pauses n) := by
  induction n with
  | zero => exact h
  | succ n ih => exact .pause ih

end Process.Twins

/-! ## Turns -/

namespace Shared.Twins

variable {s : Shared σ} {s' : Shared σ'}

theorem setLock (h : s.Twins r s') (lock : Nat) (l : Lock) :
    (s.setLock lock l).Twins r (s'.setLock lock l) :=
  ⟨h.state, by simp only [Shared.setLock, h.locks], h.ready⟩

theorem enqueue (h : s.Twins r s') (task : Nat) : (s.enqueue task).Twins r (s'.enqueue task) :=
  ⟨h.state, h.locks, by simp only [Shared.enqueue, h.ready]⟩

theorem hold (h : s.Twins r s') (lock : Nat) : (s.hold lock).Twins r (s'.hold lock) := by
  unfold Shared.hold
  rw [h.locks]
  exact h.setLock lock _

theorem await (h : s.Twins r s') (lock task : Nat) :
    (s.await lock task).Twins r (s'.await lock task) := by
  unfold Shared.await
  rw [h.locks]
  exact h.setLock lock _

theorem release (h : s.Twins r s') (lock : Nat) : (s.release lock).Twins r (s'.release lock) := by
  unfold Shared.release
  rw [h.locks]
  cases (s.locks lock).waiting with
  | nil => exact h.setLock lock _
  | cons task rest => exact (h.setLock lock _).enqueue task

end Shared.Twins

/-- Twins go side by side for a turn. -/
theorem Process.Twins.turn {p : Process σ α} {q : Process σ' α} (h : p.Twins r q) (n : Nat)
    {s : Shared σ} {s' : Shared σ'} (hs : s.Twins r s') :
    (p.turn n s).1.Twins r (q.turn n s').1 ∧ (p.turn n s).2.Twins r (q.turn n s').2 := by
  induction h generalizing s s' with
  | done a => exact ⟨hs, .done a⟩
  | act hc _ ih => exact ih _ _ hs.state ⟨hc _ _ hs.state, hs.locks, hs.ready⟩
  | @first change next q hc _ ih =>
    have hs' : Shared.Twins r { s with state := change s.state } s' :=
      ⟨hc _ _ hs.state, hs.locks, hs.ready⟩
    exact ih s.state hs'
  | @second p change' next' hc _ ih =>
    have hs' : s.Twins r { s' with state := change' s'.state } :=
      ⟨hc _ _ hs.state, hs.locks, hs.ready⟩
    exact ih s'.state hs'
  | pause h => exact ⟨hs.enqueue n, .running h⟩
  | @take lock refuse next next' hn ih =>
    simp only [Process.turn, hs.locks]
    split
    · exact ih true (hs.hold lock)
    · split
      · exact ih false hs
      · exact ⟨hs.await lock n, .running (hn true)⟩
  | give _ ih => exact ih (hs.release _)

/-! ## Runs -/

namespace Pool

structure Twins (r : σ → σ' → Prop) (p : Pool σ α) (q : Pool σ' α) : Prop where
  shared : p.toShared.Twins r q.toShared
  tasks : List.Forall₂ (Task.Twins r) p.tasks q.tasks

namespace Twins

variable {p : Pool σ α} {q : Pool σ' α}

/-- Twins take a step together, or neither has one left. -/
theorem step (h : p.Twins r q) : Option.Rel (Twins r) p.step q.step := by
  obtain ⟨hs, ht⟩ := h
  cases hp : p.ready with
  | nil =>
    rw [step_of_nil hp, step_of_nil (hs.ready.trans hp)]
    exact .none
  | cons task rest =>
    have hq : q.ready = task :: rest := hs.ready.trans hp
    have hs' : ({ p.toShared with ready := rest } : Shared σ).Twins r
        { q.toShared with ready := rest } := ⟨hs.state, hs.locks, rfl⟩
    have he := forall₂_getElem? ht task
    generalize hpt : p.tasks[task]? = t at he
    generalize hqt : q.tasks[task]? = u at he
    -- the first task in the queue has its turn, or has ended
    rcases he with ⟨⟨hx⟩ | a⟩ | -
    · obtain ⟨h₁, h₂⟩ := hx.turn task hs'
      rw [step_of_running hp hpt, step_of_running hq hqt]
      exact .some ⟨h₁, forall₂_set ht h₂ task⟩
    all_goals
      rw [step_of_ended hp (by simp [hpt]), step_of_ended hq (by simp [hqt])]
      exact .some ⟨hs', ht⟩

theorem runFor (h : p.Twins r q) (n : Nat) : (p.runFor n).Twins r (q.runFor n) := by
  induction n generalizing p q with
  | zero => exact h
  | succ n ih =>
    have hs := h.step
    unfold Pool.runFor
    generalize p.step = p' at hs
    generalize q.step = q' at hs
    cases hs with
    | none => exact h
    | some hs => exact ih hs

theorem run {p : Pool σ α} {q : Pool σ' α} (h : p.Twins r q) : p.run.Twins r q.run := by
  have hs := h.step
  generalize hq : q.step = q' at hs
  cases hp : p.step with
  | none =>
    rw [hp] at hs
    cases hs
    rw [run_of_none hp, run_of_none hq]
    exact h
  | some p' =>
    rw [hp] at hs
    cases hs with
    | some hs =>
      rw [run_of_some hp, run_of_some hq]
      exact hs.run
termination_by p
decreasing_by exact step_smaller hp

theorem result? (h : p.Twins r q) (task : Nat) : q.result? task = p.result? task := by
  have he := forall₂_getElem? h.tasks task
  unfold Pool.result?
  generalize p.tasks[task]? = t at he
  generalize q.tasks[task]? = u at he
  cases he with
  | none => rfl
  | some he => cases he <;> rfl

end Twins

/-- Twins make pools of twins. -/
theorem twins_ofTasks {s : σ} {s' : σ'} (hs : r s s') {ps : List (Process σ α)}
    {qs : List (Process σ' α)} (h : List.Forall₂ (Process.Twins r) ps qs) :
    (ofTasks s ps).Twins r (ofTasks s' qs) where
  shared := ⟨hs, rfl, by simp [ofTasks, h.length_eq]⟩
  tasks := by
    simp only [ofTasks, List.forall₂_map_left_iff, List.forall₂_map_right_iff]
    exact h.imp fun _ _ => .running

end Pool
end Workflow
