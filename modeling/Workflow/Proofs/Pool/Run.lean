import Mathlib.Data.List.Forall2
import Workflow.Pool

/-!
# Runs of a pool

A run takes one step after another, so that what each step keeps holds at its end. A process on
states with notes mirrors a process on the states alone if it does the same and takes notes besides;
pools of such processes run alike.

Results:
* `run_keeps`: what each step keeps is kept by a run.
* `run_eq_runFor`: a run can be computed.
* `Mirrors.turn`, `Mirrors.step`: mirrored tasks and pools go side by side.
* `Mirrors.run`: taking notes changes neither what becomes of the state nor any result.
-/
namespace Workflow

namespace Pool

variable {σ α : Type}

theorem run_of_none {p : Pool σ α} (h : p.step = none) : p.run = p := by
  unfold run
  split
  · rfl
  · rename_i q hq
    rw [h] at hq
    cases hq

theorem run_of_some {p q : Pool σ α} (h : p.step = some q) : p.run = q.run := by
  rw [run.eq_def p]
  split
  · rename_i hq
    rw [h] at hq
    cases hq
  · rename_i q' hq
    rw [h] at hq
    cases hq
    rfl

theorem step_of_nil {p : Pool σ α} (h : p.ready = []) : p.step = none := by simp [step, h]

theorem step_of_running {p : Pool σ α} {task : Nat} {rest : List Nat} {q : Process σ α}
    (hr : p.ready = task :: rest) (ht : p.tasks[task]? = some (.running q)) :
    p.step = some
      { toShared := (q.turn task { p.toShared with ready := rest }).1
        tasks := p.tasks.set task (q.turn task { p.toShared with ready := rest }).2 } := by
  simp [step, hr, ht]

theorem step_of_ended {p : Pool σ α} {task : Nat} {rest : List Nat}
    (hr : p.ready = task :: rest) (ht : ∀ q, p.tasks[task]? ≠ some (.running q)) :
    p.step = some { p with ready := rest } := by
  unfold step
  rw [hr]
  dsimp only
  split
  · rename_i q hq
    exact absurd hq (ht q)
  · rfl

/-- What each step keeps is kept by a run, which ends where no step is left. -/
theorem run_keeps {inv : Pool σ α → Prop} (hs : ∀ {p q}, inv p → p.step = some q → inv q)
    (p : Pool σ α) (h : inv p) : inv p.run ∧ p.run.step = none := by
  cases hp : p.step with
  | none =>
    rw [run_of_none hp]
    exact ⟨h, hp⟩
  | some q =>
    rw [run_of_some hp]
    exact run_keeps hs q (hs h hp)
termination_by p
decreasing_by exact step_smaller hp

/-- So many steps of a run, or all of them if there are fewer. -/
def runFor : Nat → Pool σ α → Pool σ α
  | 0, p => p
  | n + 1, p =>
    match p.step with
    | none => p
    | some q => runFor n q

/-- A run can be computed step by step. -/
theorem run_eq_runFor {p : Pool σ α} (n : Nat) (h : (runFor n p).ready = []) :
    p.run = runFor n p := by
  induction n generalizing p with
  | zero => exact run_of_none (step_of_nil h)
  | succ n ih =>
    unfold runFor at h ⊢
    cases hp : p.step with
    | none => exact run_of_none hp
    | some q =>
      rw [hp] at h
      rw [run_of_some hp]
      exact ih h

end Pool

/-! ## Notes -/

variable {σ ω α β : Type}

namespace Process

/-- The second process does on states with notes what the first does on the states alone. -/
inductive Mirrors : Process σ α → Process (σ × ω) α → Prop where
  | done (a : α) : Mirrors (.done a) (.done a)
  | act {change : σ → σ} {next : σ → Process σ α} {change' : σ × ω → σ × ω}
    {next' : σ × ω → Process (σ × ω) α} (hc : ∀ s, (change' s).1 = change s.1)
    (hn : ∀ s, Mirrors (next s.1) (next' s)) : Mirrors (.act change next) (.act change' next')
  | note {p : Process σ α} {change' : σ × ω → σ × ω} {next' : σ × ω → Process (σ × ω) α}
    (hc : ∀ s, (change' s).1 = s.1) (hn : ∀ s, Mirrors p (next' s)) :
    Mirrors p (.act change' next')
  | pause {p : Process σ α} {q : Process (σ × ω) α} (h : Mirrors p q) :
    Mirrors (.pause p) (.pause q)
  | take {lock : Nat} {refuse : Bool} {next : Bool → Process σ α}
    {next' : Bool → Process (σ × ω) α} (hn : ∀ b, Mirrors (next b) (next' b)) :
    Mirrors (.take lock refuse next) (.take lock refuse next')
  | give {lock : Nat} {p : Process σ α} {q : Process (σ × ω) α} (h : Mirrors p q) :
    Mirrors (.give lock p) (.give lock q)

theorem Mirrors.bind {p : Process σ α} {q : Process (σ × ω) α} {f : α → Process σ β}
    {g : α → Process (σ × ω) β} (h : Mirrors p q) (hf : ∀ a, Mirrors (f a) (g a)) :
    Mirrors (p.bind f) (q.bind g) := by
  induction h with
  | done a => exact hf a
  | act hc _ ih => exact .act hc ih
  | note hc _ ih => exact .note hc ih
  | pause _ ih => exact .pause ih
  | take _ ih => exact .take ih
  | give _ ih => exact .give ih

theorem Mirrors.pauses {p : Process σ α} {q : Process (σ × ω) α} (h : Mirrors p q) (n : Nat) :
    Mirrors (p.pauses n) (q.pauses n) := by
  induction n with
  | zero => exact h
  | succ n ih => exact .pause ih

end Process

theorem Shared.release_state (s : Shared σ) (lock : Nat) : (s.release lock).state = s.state := by
  unfold release
  split <;> rfl

def Shared.bare (s : Shared (σ × ω)) : Shared σ := ⟨s.state.1, s.locks, s.ready⟩

theorem Shared.bare_release (s : Shared (σ × ω)) (lock : Nat) :
    (s.release lock).bare = s.bare.release lock := by
  simp only [release, bare]
  cases (s.locks lock).waiting <;> rfl

inductive Task.Mirrors : Task σ α → Task (σ × ω) α → Prop where
  | running {p : Process σ α} {q : Process (σ × ω) α} (h : p.Mirrors q) :
    Mirrors (.running p) (.running q)
  | done (a : α) : Mirrors (.done a) (.done a)

/-- A turn of a task that takes notes is a turn without them. -/
theorem Process.Mirrors.turn {p : Process σ α} {q : Process (σ × ω) α} (h : p.Mirrors q)
    (task : Nat) (s : Shared (σ × ω)) :
    (p.turn task s.bare).1 = (q.turn task s).1.bare ∧
      Task.Mirrors (p.turn task s.bare).2 (q.turn task s).2 := by
  induction h generalizing s with
  | done a => exact ⟨rfl, .done a⟩
  | @act change next change' next' hc _ ih =>
    have h := ih s.state { s with state := change' s.state }
    simp only [Shared.bare, hc] at h
    exact h
  | @note p change' next' hc _ ih =>
    have h := ih s.state { s with state := change' s.state }
    simp only [Shared.bare, hc] at h
    exact h
  | pause h => exact ⟨rfl, .running h⟩
  | @take lock refuse next next' hn ih =>
    show _ ∧ _
    simp only [Process.turn]
    have hl : s.bare.locks = s.locks := rfl
    rw [hl]
    split
    · exact ih true (s.hold lock)
    · split
      · exact ih false s
      · exact ⟨rfl, .running (hn true)⟩
  | @give lock p q _ ih =>
    have h := ih (s.release lock)
    rw [Shared.bare_release] at h
    exact h

namespace Pool

structure Mirrors (p : Pool σ α) (q : Pool (σ × ω) α) : Prop where
  shared : p.toShared = q.toShared.bare
  tasks : List.Forall₂ Task.Mirrors p.tasks q.tasks

theorem forall₂_getElem? {β γ : Type} {r : β → γ → Prop} {bs : List β} {cs : List γ}
    (h : List.Forall₂ r bs cs) (n : Nat) : Option.Rel r bs[n]? cs[n]? := by
  induction h generalizing n with
  | nil => exact .none
  | cons h _ ih =>
    cases n with
    | zero => exact .some h
    | succ n => exact ih n

theorem Mirrors.getElem? {p : Pool σ α} {q : Pool (σ × ω) α} (h : p.Mirrors q) (n : Nat) :
    Option.Rel Task.Mirrors p.tasks[n]? q.tasks[n]? := forall₂_getElem? h.tasks n

theorem forall₂_set {β γ : Type} {r : β → γ → Prop} {bs : List β} {cs : List γ}
    (h : List.Forall₂ r bs cs) {b : β} {c : γ} (hr : r b c) (n : Nat) :
    List.Forall₂ r (bs.set n b) (cs.set n c) := by
  induction h generalizing n with
  | nil => exact .nil
  | cons h hs ih =>
    cases n with
    | zero => exact .cons hr hs
    | succ n => exact .cons h (ih n)

theorem Mirrors.step {p : Pool σ α} {q : Pool (σ × ω) α} (h : p.Mirrors q) :
    Option.Rel Mirrors p.step q.step := by
  obtain ⟨hs, ht⟩ := h
  have hr : p.ready = q.ready := congrArg Shared.ready hs
  cases hq : q.ready with
  | nil =>
    rw [step_of_nil hq, step_of_nil (hr.trans hq)]
    exact .none
  | cons task rest =>
    have hb : { p.toShared with ready := rest } =
        Shared.bare { q.toShared with ready := rest } := by
      rw [hs]; rfl
    have he := Mirrors.getElem? ⟨hs, ht⟩ task
    have idle (hp : ∀ x, p.tasks[task]? ≠ some (.running x))
        (hq' : ∀ x, q.tasks[task]? ≠ some (.running x)) : Option.Rel Mirrors p.step q.step := by
      rw [step_of_ended hq hq', step_of_ended (hr.trans hq) hp]
      exact .some ⟨hb, ht⟩
    cases hpt : p.tasks[task]? with
    | none =>
      rw [hpt] at he
      cases hqt : q.tasks[task]? with
      | none => exact idle (by simp [hpt]) (by simp [hqt])
      | some u => rw [hqt] at he; cases he
    | some t =>
      rw [hpt] at he
      cases hqt : q.tasks[task]? with
      | none => rw [hqt] at he; cases he
      | some u =>
        rw [hqt] at he
        cases he with
        | some he =>
          cases he with
          | done a => exact idle (by simp [hpt]) (by simp [hqt])
          | running hm =>
            obtain ⟨h₁, h₂⟩ := hm.turn task { q.toShared with ready := rest }
            rw [step_of_running hq hqt, step_of_running (hr.trans hq) hpt, hb]
            exact .some ⟨h₁, forall₂_set ht h₂ task⟩

/-- Notes change nothing of a run. -/
theorem Mirrors.run {p : Pool σ α} {q : Pool (σ × ω) α} (h : p.Mirrors q) :
    p.run.Mirrors q.run := by
  have hs := h.step
  cases hp : p.step with
  | none =>
    rw [hp] at hs
    cases hq : q.step with
    | none =>
      rw [run_of_none hp, run_of_none hq]
      exact h
    | some q' => rw [hq] at hs; cases hs
  | some p' =>
    rw [hp] at hs
    cases hq : q.step with
    | none => rw [hq] at hs; cases hs
    | some q' =>
      rw [hq] at hs
      rw [run_of_some hp, run_of_some hq]
      cases hs with
      | some hs => exact hs.run
termination_by p
decreasing_by exact step_smaller hp

theorem Mirrors.result? {p : Pool σ α} {q : Pool (σ × ω) α} (h : p.Mirrors q) (task : Nat) :
    p.result? task = q.result? task := by
  have he := h.getElem? task
  unfold Pool.result?
  generalize p.tasks[task]? = t at he ⊢
  generalize q.tasks[task]? = u at he ⊢
  cases he with
  | none => rfl
  | some he => cases he <;> rfl

/-- Tasks that mirror each other make pools that do. -/
theorem mirrors_ofTasks (state : σ) (notes : ω) {ps : List (Process σ α)}
    {qs : List (Process (σ × ω) α)} (h : List.Forall₂ Process.Mirrors ps qs) :
    (ofTasks state ps).Mirrors (ofTasks (state, notes) qs) where
  shared := by simp [ofTasks, Shared.bare, h.length_eq]
  tasks := by
    simp only [ofTasks, List.forall₂_map_left_iff, List.forall₂_map_right_iff]
    exact h.imp fun _ _ => .running

end Pool
end Workflow
