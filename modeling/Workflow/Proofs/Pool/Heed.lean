import Workflow.Proofs.Pool.Locks
import Workflow.Proofs.Pool.Reach

/-!
# Locks that nobody waits for

Some locks are taken only by processes that give up at once when another one holds them. Nobody ever
waits for such a lock. If each process that takes one leaves a sign in the state, and takes it away
before it gives the lock back, then the state shows at every moment which of these locks are held.

Results:
* `Heedful.turn`: a turn of a process that heeds the signs leaves them right.
* `Heeds.step`, `heeds_ofTasks`: tasks that each heed the signs do so together, step by step.
-/
namespace Workflow

/-- Which locks are never waited for, how the state shows which of them are held, and what is true
of the state whenever a process lets the others go on. -/
structure Signals (σ : Type) where
  strict : Nat → Bool
  busy : Nat → σ → Bool
  always : σ → Prop

variable {σ α : Type}

/-- Others may go on where certain locks are held: the state shows which. -/
structure Signals.Settled (r : Signals σ) (taken : Nat → Bool) (s : σ) : Prop where
  always : r.always s
  shown : ∀ lock, r.strict lock = true → taken lock = r.busy lock s

/-- A process heeds the signs, where certain locks are held. Whether a strict lock is held when the
process takes it decides how it goes on, at once. -/
def Process.Heeds (r : Signals σ) : Process σ α → (Nat → Bool) → σ → Prop
  | .done _, taken, s => r.Settled taken s
  | .act change next, taken, s => Heeds r (next s) taken (change s)
  | .pause next, taken, s =>
    r.Settled taken s ∧ ∀ taken' s', r.Settled taken' s' → Heeds r next taken' s'
  | .take lock refuse next, taken, s =>
    if r.strict lock then
      refuse = true ∧ (taken lock = true → Heeds r (next false) taken s) ∧
        (taken lock = false → Heeds r (next true) (Function.update taken lock true) s)
    else
      r.Settled taken s ∧ ∀ taken' s', r.Settled taken' s' → ∀ b, Heeds r (next b) taken' s'
  | .give lock next, taken, s => Heeds r next (Function.update taken lock false) s

/-! ## All processes together -/

structure Heedful (r : Signals σ) (taken : Nat → Bool) (s : Shared σ) : Prop where
  held : ∀ lock, r.strict lock = true → (s.locks lock).held = taken lock
  waiting : ∀ lock, r.strict lock = true → (s.locks lock).waiting = []

namespace Heedful

variable {r : Signals σ} {taken : Nat → Bool} {s : Shared σ} {lock n : Nat} {p : Process σ α}

/-- What becomes of a lock. -/
theorem setLock (h : Heedful r taken s) {l : Lock} {b : Bool}
    (hl : r.strict lock = true → l.held = b ∧ l.waiting = []) :
    Heedful r (Function.update taken lock b) (s.setLock lock l) := by
  refine ⟨fun i hi => ?_, fun i hi => ?_⟩
  · by_cases hil : i = lock
    · subst hil
      simp [Shared.setLock, (hl hi).1]
    · simp [Shared.setLock, hil, h.held i hi]
  · by_cases hil : i = lock
    · subst hil
      simp [Shared.setLock, (hl hi).2]
    · simp [Shared.setLock, hil, h.waiting i hi]

/-- What becomes of other locks. -/
theorem setLock_of_lax (h : Heedful r taken s) (hl : r.strict lock = false) (l : Lock) :
    Heedful r taken (s.setLock lock l) := by
  have ne {i : Nat} (hi : r.strict i = true) : i ≠ lock := by
    rintro rfl
    rw [hl] at hi
    cases hi
  exact ⟨fun i hi => by simp [Shared.setLock, ne hi, h.held i hi],
    fun i hi => by simp [Shared.setLock, ne hi, h.waiting i hi]⟩

theorem release (h : Heedful r taken s) (lock : Nat) :
    Heedful r (Function.update taken lock false) (s.release lock) := by
  unfold Shared.release
  cases hw : (s.locks lock).waiting with
  | nil => exact h.setLock fun _ => ⟨rfl, rfl⟩
  | cons w ws =>
    -- somebody has waited, so the lock is no strict one
    have h' : Heedful r (Function.update taken lock false)
        (s.setLock lock { held := true, waiting := ws }) := by
      refine h.setLock fun hl => ?_
      rw [h.waiting lock hl] at hw
      cases hw
    exact ⟨h'.held, h'.waiting⟩

/-- A turn of a task that heeds the signs. -/
theorem turn (h : Heedful r taken s) (hp : p.Heeds r taken s.state) :
    (∃ taken', Heedful r taken' (p.turn n s).1 ∧ r.Settled taken' (p.turn n s).1.state) ∧
      ∀ q, (p.turn n s).2.left? = some q → ∀ taken' s', r.Settled taken' s' →
        q.Heeds r taken' s' := by
  induction p generalizing s taken with
  | done a => exact ⟨⟨taken, h, hp⟩, nofun⟩
  | act change next ih => exact ih s.state ⟨h.held, h.waiting⟩ hp
  | pause next =>
    refine ⟨⟨taken, ⟨h.held, h.waiting⟩, hp.1⟩, fun q hq => ?_⟩
    cases hq
    exact hp.2
  | take lock refuse next ih =>
    simp only [Process.turn]
    unfold Process.Heeds at hp
    by_cases hs : r.strict lock = true
    · -- the lock is free, or the process gives up
      rw [if_pos hs] at hp
      obtain ⟨hrefuse, hheld, hfree⟩ := hp
      rw [← h.held lock hs] at hheld hfree
      by_cases hl : (s.locks lock).held = false
      · rw [if_pos hl]
        exact ih true (h.setLock fun _ => ⟨rfl, h.waiting lock hs⟩) (hfree hl)
      · rw [if_neg hl, if_pos hrefuse]
        exact ih false h (hheld (by simpa using hl))
    · rw [if_neg hs] at hp
      obtain ⟨hset, hp⟩ := hp
      have hs : r.strict lock = false := by simpa using hs
      split
      · exact ih true (h.setLock_of_lax hs _) (hp taken _ hset true)
      · split
        · exact ih false h (hp taken _ hset false)
        · refine ⟨⟨taken, h.setLock_of_lax hs _, hset⟩, fun q hq => ?_⟩
          cases hq
          exact fun taken' s' hset' => hp taken' s' hset' true
  | give lock next ih =>
    exact ih (h.release lock) ((s.release_state lock).symm ▸ hp)

end Heedful

namespace Pool

variable {r : Signals σ}

structure Heeds (r : Signals σ) (p : Pool σ α) : Prop where
  shared : ∃ taken, Heedful r taken p.toShared ∧ r.Settled taken p.state
  tasks : ∀ n q, p.left n = some q → ∀ taken s, r.Settled taken s → q.Heeds r taken s

theorem Heeds.step {p q : Pool σ α} (h : p.Heeds r) (hs : p.step = some q) : q.Heeds r := by
  obtain ⟨⟨taken, hh, hset⟩, htasks⟩ := h
  cases hr : p.ready with
  | nil =>
    rw [step_of_nil hr] at hs
    cases hs
  | cons n rest =>
    by_cases hx : ∃ x, p.tasks[n]? = some (.running x)
    · obtain ⟨x, hx⟩ := hx
      have hl : p.left n = some x := by simp [left, hx, Task.left?]
      have hrest : Heedful r taken { p.toShared with ready := rest } := ⟨hh.held, hh.waiting⟩
      obtain ⟨hshared, hleft⟩ := hrest.turn (n := n) (htasks n x hl taken _ hset)
      rw [step_of_running hr hx] at hs
      cases hs
      refine ⟨hshared, fun k q hk => ?_⟩
      rw [left_set (List.getElem?_eq_some_iff.mp hx).1] at hk
      by_cases hkn : k = n
      · subst hkn
        rw [Function.update_self] at hk
        exact hleft q hk
      · rw [Function.update_of_ne hkn] at hk
        exact htasks k q hk
    · rw [step_of_ended hr fun x hq => hx ⟨x, hq⟩] at hs
      cases hs
      exact ⟨⟨taken, ⟨hh.held, hh.waiting⟩, hset⟩, htasks⟩

/-- Before the first step no lock is held. -/
theorem heeds_ofTasks {s : σ} {ps : List (Process σ α)} (ha : r.always s)
    (hb : ∀ lock, r.strict lock = true → r.busy lock s = false)
    (hp : ∀ p ∈ ps, ∀ taken s', r.Settled taken s' → p.Heeds r taken s') :
    (ofTasks s ps).Heeds r := by
  refine ⟨⟨fun _ => false, ⟨fun _ _ => rfl, fun _ _ => rfl⟩, ha, fun lock hl => (hb lock hl).symm⟩,
    fun n p hn => ?_⟩
  obtain ⟨t, ht, hl⟩ := Option.bind_eq_some_iff.mp hn
  obtain ⟨q, hq, rfl⟩ := List.mem_map.mp (List.mem_of_getElem? ht)
  cases hl
  exact hp _ hq

/-- The state shows which of the strict locks are held, and nobody waits for one. -/
theorem Heeds.shown {p : Pool σ α} (h : p.Heeds r) {lock : Nat} (hl : r.strict lock = true) :
    (p.locks lock).waiting = [] ∧ (p.locks lock).held = r.busy lock p.state := by
  obtain ⟨⟨taken, hh, hset⟩, -⟩ := h
  exact ⟨hh.waiting lock hl, (hh.held lock hl).trans (hset.shown lock hl)⟩

end Pool
end Workflow
