import Workflow.Proofs.Pool.Owned
import Workflow.Proofs.Pool.Run

/-!
# Processes that keep to their locks

Each lock protects a part of the state: while a process holds the lock, nobody else changes that
part, and while nobody holds it, the part is at rest. If each process keeps to this by itself, they
all keep to it together, whatever the order of their turns.

Results:
* `Orderly.turn`: a turn of a process that keeps to its locks leaves all in order.
* `Obeys.step`, `obeys_ofTasks`: tasks that each keep to their locks do so together, step by step.
-/
namespace Workflow

/-- What processes agree on: the part of the state that a lock protects, when such a part is at
rest, and what is true of the state whenever a process lets the others go on. -/
structure Rules (σ X : Type) where
  part : Nat → σ → X
  rest : X → Prop
  always : σ → Prop

variable {σ X α β : Type}

/-- From one state to another, only others have acted than a process that holds certain locks. -/
structure Rules.Goes (r : Rules σ X) (held : List Nat) (s s' : σ) : Prop where
  always : r.always s'
  same : ∀ lock ∈ held, r.part lock s' = r.part lock s

theorem Rules.Goes.trans {r : Rules σ X} {held : List Nat} {s s' s'' : σ} (h : r.Goes held s s')
    (h' : r.Goes held s' s'') : r.Goes held s s'' :=
  ⟨h'.always, fun lock hl => (h'.same lock hl).trans (h.same lock hl)⟩

theorem Rules.Goes.tail {r : Rules σ X} {lock : Nat} {held : List Nat} {s s' : σ}
    (h : r.Goes (lock :: held) s s') : r.Goes held s s' :=
  ⟨h.always, fun l hl => h.same l (List.mem_cons_of_mem _ hl)⟩

theorem Rules.Goes.refl {r : Rules σ X} {s : σ} (h : r.always s) (held : List Nat) :
    r.Goes held s s := ⟨h, fun _ _ => rfl⟩

/-- A process that holds certain locks keeps to the rules from a state on. The lock that it took
last it gives back first. -/
def Process.Obeys (r : Rules σ X) : Process σ α → List Nat → σ → Prop
  | .done _, held, s => held = [] ∧ r.always s
  | .act change next, held, s =>
    (∀ lock, lock ∉ held → r.part lock (change s) = r.part lock s) ∧
      Obeys r (next s) held (change s)
  | .pause next, held, s => r.always s ∧ ∀ s', r.Goes held s s' → Obeys r next held s'
  | .take lock _ next, held, s => r.always s ∧ ∀ s', r.Goes held s s' →
    Obeys r (next false) held s' ∧
      (lock ∉ held → r.rest (r.part lock s') → Obeys r (next true) (lock :: held) s')
  | .give lock next, held, s =>
    ∃ rest, held = lock :: rest ∧ r.rest (r.part lock s) ∧ Obeys r next rest s

/-! ## All processes together -/

/-- Tasks keep to the rules together: `held` has the locks that each task holds, and `left` what is
left of it. -/
structure Orderly (r : Rules σ X) (held : Nat → List Nat) (left : Nat → Option (Process σ α))
    (s : Shared σ) : Prop where
  owned : Owned (fun lock => (s.locks lock).held) held
  placed : Placed s.ready fun lock => (s.locks lock).waiting
  rest : ∀ lock, (s.locks lock).held = false → r.rest (r.part lock s.state)
  goes : ∀ n p, left n = some p → (∀ lock, n ∉ (s.locks lock).waiting) → ∀ s',
    r.Goes (held n) s.state s' → p.Obeys r (held n) s'
  waits : ∀ n lock p, left n = some p → n ∈ (s.locks lock).waiting → ∀ s',
    r.Goes (held n) s.state s' → lock ∉ held n → r.rest (r.part lock s') →
      p.Obeys r (lock :: held n) s'

def Task.left? : Task σ α → Option (Process σ α)
  | .running p => some p
  | .done _ => none

namespace Orderly

variable {r : Rules σ X} {held : Nat → List Nat} {left : Nat → Option (Process σ α)}
  {s : Shared σ} {n lock : Nat} {p : Process σ α}

theorem ne_of_left {k : Nat} {q : Process σ α} (hk : Function.update left n none k = some q) :
    k ≠ n := by
  rintro rfl
  simp at hk

/-- A task that has its turn changes the parts that its own locks protect. -/
theorem act {change : σ → σ} (h : Orderly r held (Function.update left n none) s)
    (hc : ∀ l, l ∉ held n → r.part l (change s.state) = r.part l s.state) :
    Orderly r held (Function.update left n none) { s with state := change s.state } := by
  have goes {k : Nat} {q : Process σ α} {s' : σ} (hk : Function.update left n none k = some q)
      (hs : r.Goes (held k) (change s.state) s') : r.Goes (held k) s.state s' := by
    refine ⟨hs.always, fun l hl => (hs.same l hl).trans (hc l fun hl' => ?_)⟩
    exact ne_of_left hk (h.owned.alone hl hl')
  refine ⟨h.owned, h.placed, fun l hl => ?_,
    fun k q hk hw s' hs => h.goes k q hk hw s' (goes hk hs),
    fun k l q hk hw s' hs => h.waits k l q hk hw s' (goes hk hs)⟩
  show r.rest (r.part l (change s.state))
  rw [hc l (h.owned.free hl n)]
  exact h.rest l hl

/-- The locks when one of them has changed. -/
theorem held_setLock (s : Shared σ) (lock : Nat) (l : Lock) :
    (fun j => ((s.setLock lock l).locks j).held) =
      Function.update (fun j => (s.locks j).held) lock l.held := by
  funext j
  by_cases hj : j = lock
  · subst hj
    simp [Shared.setLock]
  · simp [Shared.setLock, hj]

theorem waiting_setLock (s : Shared σ) (lock : Nat) (l : Lock) :
    (fun j => ((s.setLock lock l).locks j).waiting) =
      Function.update (fun j => (s.locks j).waiting) lock l.waiting := by
  funext j
  by_cases hj : j = lock
  · subst hj
    simp [Shared.setLock]
  · simp [Shared.setLock, hj]

theorem setLock_setLock (s : Shared σ) (lock : Nat) (l l' : Lock) :
    (s.setLock lock l).setLock lock l' = s.setLock lock l' := by
  unfold Shared.setLock
  congr 1
  funext j
  by_cases hj : j = lock
  · simp [hj]
  · simp [hj]

theorem waiting_hold (s : Shared σ) (lock : Nat) :
    (fun j => ((s.hold lock).locks j).waiting) = fun j => (s.locks j).waiting := by
  rw [Shared.hold, waiting_setLock]
  exact Function.update_eq_self lock _

/-- A task that has its turn takes a free lock. -/
theorem hold (h : Orderly r held (Function.update left n none) s)
    (hl : (s.locks lock).held = false) :
    Orderly r (Function.update held n (lock :: held n)) (Function.update left n none)
      (s.hold lock) := by
  have hw := waiting_hold s lock
  have hh : (fun l => ((s.hold lock).locks l).held) =
      Function.update (fun l => (s.locks l).held) lock true := held_setLock ..
  refine ⟨hh ▸ h.owned.take hl n, hw ▸ h.placed, fun l hf => ?_, fun k q hk hn => ?_,
    fun k l q hk hn => ?_⟩
  · have hf : Function.update (fun l => (s.locks l).held) lock true l = false := hh ▸ hf
    have hne : l ≠ lock := by
      rintro rfl
      rw [Function.update_self] at hf
      cases hf
    rw [Function.update_of_ne hne] at hf
    exact h.rest l hf
  · rw [Function.update_of_ne (ne_of_left hk)]
    exact h.goes k q hk fun l => by
      rw [← congrFun hw l]
      exact hn l
  · rw [Function.update_of_ne (ne_of_left hk)]
    exact h.waits k l q hk (congrFun hw l ▸ hn)

/-- A task that has its turn gives back the lock that it took last. -/
theorem drop {rest : List Nat} (h : Orderly r held (Function.update left n none) s)
    (hn : held n = lock :: rest) (hr : r.rest (r.part lock s.state)) :
    Orderly r (Function.update held n rest) (Function.update left n none)
      (s.setLock lock ⟨false, (s.locks lock).waiting⟩) := by
  have hw : (fun l => ((s.setLock lock ⟨false, (s.locks lock).waiting⟩).locks l).waiting) =
      fun l => (s.locks l).waiting := by
    rw [waiting_setLock]
    exact Function.update_eq_self lock _
  refine ⟨held_setLock .. ▸ h.owned.give hn, hw ▸ h.placed, fun l hf => ?_, fun k q hk hn => ?_,
    fun k l q hk hn => ?_⟩
  · by_cases hl : l = lock
    · rw [hl]
      exact hr
    · refine h.rest l ?_
      simpa [Shared.setLock, hl] using hf
  · rw [Function.update_of_ne (ne_of_left hk)]
    exact h.goes k q hk fun l => by
      rw [← congrFun hw l]
      exact hn l
  · rw [Function.update_of_ne (ne_of_left hk)]
    exact h.waits k l q hk (congrFun hw l ▸ hn)

/-- A free lock passes to the first task that waits for it. -/
theorem pass {w : Nat} {ws : List Nat} (h : Orderly r held left s)
    (hl : (s.locks lock).held = false) (hw : (s.locks lock).waiting = w :: ws) :
    Orderly r (Function.update held w (lock :: held w)) left
      ((s.setLock lock { held := true, waiting := ws }).enqueue w) := by
  obtain ⟨hp, hgone⟩ := h.placed.wake hw
  have hwait := waiting_setLock s lock { held := true, waiting := ws }
  rw [← hwait] at hp hgone
  have sub {k l : Nat}
      (hk : k ∈ ((s.setLock lock { held := true, waiting := ws }).locks l).waiting) :
      k ∈ (s.locks l).waiting := by
    have hk : k ∈ Function.update (fun j => (s.locks j).waiting) lock ws l := congrFun hwait l ▸ hk
    by_cases hl : l = lock
    · subst hl
      rw [Function.update_self] at hk
      rw [hw]
      exact List.mem_cons_of_mem _ hk
    · rwa [Function.update_of_ne hl] at hk
  refine ⟨held_setLock .. ▸ h.owned.take hl w, hp, fun l hf => ?_, fun k q hk hn => ?_,
    fun k l q hk hn => ?_⟩
  · by_cases hll : l = lock
    · rw [hll] at hf
      simp [Shared.setLock, Shared.enqueue] at hf
    · refine h.rest l ?_
      simpa [Shared.setLock, Shared.enqueue, hll] using hf
  · by_cases hkw : k = w
    · -- the task has waited for this moment
      subst hkw
      rw [Function.update_self]
      intro s' hs
      refine h.waits k lock q hk (by simp [hw]) s' ⟨hs.always, fun l hl => ?_⟩
        (h.owned.free hl k) ?_
      · exact hs.same l (List.mem_cons_of_mem _ hl)
      · rw [hs.same lock (by simp)]
        exact h.rest lock hl
    · rw [Function.update_of_ne hkw]
      refine h.goes k q hk fun l hm => ?_
      by_cases hll : l = lock
      · subst hll
        rw [hw] at hm
        have hm := (List.mem_cons.mp hm).resolve_left hkw
        exact hn l (by simpa [Shared.setLock, Shared.enqueue] using hm)
      · exact hn l (by simpa [Shared.setLock, Shared.enqueue, hll] using hm)
  · have hkw : k ≠ w := by
      rintro rfl
      exact hgone l hn
    rw [Function.update_of_ne hkw]
    exact h.waits k l q hk (sub hn)

/-- A lock that is given back is free, or it passes to the first task that waits for it. -/
theorem release {rest : List Nat} (h : Orderly r held (Function.update left n none) s)
    (hn : held n = lock :: rest) (hr : r.rest (r.part lock s.state)) (hq : n ∉ s.ready)
    (hw : ∀ l, n ∉ (s.locks l).waiting) :
    ∃ held', Orderly r held' (Function.update left n none) (s.release lock) ∧ held' n = rest ∧
      n ∉ (s.release lock).ready ∧ ∀ l, n ∉ ((s.release lock).locks l).waiting := by
  have hd := h.drop hn hr
  unfold Shared.release
  cases hl : (s.locks lock).waiting with
  | nil =>
    rw [hl] at hd
    refine ⟨_, hd, Function.update_self .., hq, fun l => ?_⟩
    by_cases hll : l = lock
    · simp [Shared.setLock, hll]
    · simpa [Shared.setLock, hll] using hw l
  | cons w ws =>
    have hwn : n ≠ w := by
      rintro rfl
      exact hw lock (by simp [hl])
    have hfree : ((s.setLock lock ⟨false, (s.locks lock).waiting⟩).locks lock).held = false := by
      simp [Shared.setLock]
    have hp := hd.pass hfree ((congrArg Lock.waiting (if_pos rfl)).trans hl)
    rw [setLock_setLock] at hp
    refine ⟨_, hp, ?_, by simp [Shared.enqueue, Shared.setLock, hq, hwn], fun l hm => ?_⟩
    · rw [Function.update_of_ne hwn, Function.update_self]
    · by_cases hll : l = lock
      · refine hw lock ?_
        have hm : n ∈ ws := by simpa [Shared.enqueue, Shared.setLock, hll] using hm
        rw [hl]
        exact List.mem_cons_of_mem _ hm
      · exact hw l (by simpa [Shared.enqueue, Shared.setLock, hll] using hm)

/-- A task that has its turn waits for a lock. -/
theorem await (h : Orderly r held (Function.update left n none) s) (hq : n ∉ s.ready)
    (hw : ∀ l, n ∉ (s.locks l).waiting)
    (hp : ∀ s', r.Goes (held n) s.state s' → lock ∉ held n → r.rest (r.part lock s') →
      p.Obeys r (lock :: held n) s') :
    Orderly r held (Function.update left n (some p)) (s.await lock n) := by
  have hh : (fun l => ((s.await lock n).locks l).held) = fun l => (s.locks l).held := by
    rw [Shared.await, held_setLock]
    exact Function.update_eq_self lock _
  have hwait : (fun l => ((s.await lock n).locks l).waiting) = _ := waiting_setLock ..
  have mem {k l : Nat} : k ∈ ((s.await lock n).locks l).waiting ↔
      k ∈ (s.locks l).waiting ∨ l = lock ∧ k = n := by
    rw [congrFun hwait l]
    by_cases hl : l = lock
    · subst hl
      simp
    · simp [hl]
  refine ⟨hh ▸ h.owned, hwait ▸ h.placed.await hq hw, fun l hl => h.rest l (congrFun hh l ▸ hl),
    fun k q hk hkw => ?_, fun k l q hk hkl => ?_⟩
  · have hkn : k ≠ n := by
      rintro rfl
      exact hkw lock (mem.mpr (.inr ⟨rfl, rfl⟩))
    rw [Function.update_of_ne hkn] at hk
    exact h.goes k q (by rwa [Function.update_of_ne hkn]) fun l hl => hkw l (mem.mpr (.inl hl))
  · rw [mem] at hkl
    rcases hkl with hkl | ⟨rfl, rfl⟩
    · have hkn : k ≠ n := by
        rintro rfl
        exact hw l hkl
      rw [Function.update_of_ne hkn] at hk
      exact h.waits k l q (by rwa [Function.update_of_ne hkn]) hkl
    · cases (Function.update_self ..).symm.trans hk
      exact hp

/-- The others than one task keep to the rules. -/
theorem without (h : Orderly r held left s) (n : Nat) :
    Orderly r held (Function.update left n none) s := by
  have sub {k : Nat} {q : Process σ α} (hk : Function.update left n none k = some q) :
      left k = some q := by rwa [Function.update_of_ne (ne_of_left hk)] at hk
  exact ⟨h.owned, h.placed, h.rest, fun k q hk => h.goes k q (sub hk),
    fun k l q hk => h.waits k l q (sub hk)⟩

/-- A turn of a task that keeps to the rules leaves all in order. -/
theorem turn (h : Orderly r held (Function.update left n none) s) (hq : n ∉ s.ready)
    (hw : ∀ l, n ∉ (s.locks l).waiting) (hp : p.Obeys r (held n) s.state) :
    ∃ held', Orderly r held' (Function.update left n (p.turn n s).2.left?) (p.turn n s).1 ∧
      r.always (p.turn n s).1.state := by
  induction p generalizing s held with
  | done a => exact ⟨held, h, hp.2⟩
  | act change next ih => exact ih _ (h.act hp.1) hq hw hp.2
  | pause next =>
    refine ⟨held, ⟨h.owned, h.placed.enqueue hq hw, h.rest, fun k q hk hkw => ?_,
      fun k l q hk hkl => ?_⟩, hp.1⟩
    · by_cases hkn : k = n
      · subst hkn
        cases (Function.update_self ..).symm.trans hk
        exact hp.2
      · rw [Function.update_of_ne hkn] at hk
        exact h.goes k q (by rwa [Function.update_of_ne hkn]) hkw
    · have hkn : k ≠ n := by
        rintro rfl
        exact hw l hkl
      rw [Function.update_of_ne hkn] at hk
      exact h.waits k l q (by rwa [Function.update_of_ne hkn]) hkl
  | take lock refuse next ih =>
    obtain ⟨ha, hp⟩ := hp
    simp only [Process.turn]
    by_cases hl : (s.locks lock).held = false
    · -- the lock is free
      rw [if_pos hl]
      refine ih true (h.hold hl) hq (fun l => ?_) ?_
      · have := congrFun (waiting_hold s lock) l
        exact this ▸ hw l
      · rw [Function.update_self]
        exact (hp s.state (.refl ha _)).2 (h.owned.free hl n) (h.rest lock hl)
    · rw [if_neg hl]
      cases refuse with
      | true => exact ih false h hq hw (hp s.state (.refl ha _)).1
      | false => exact ⟨held, h.await hq hw fun s' hs => (hp s' hs).2, ha⟩
  | give lock next ih =>
    obtain ⟨rest, hh, hr, hp⟩ := hp
    obtain ⟨held', h', hn, hq', hw'⟩ := h.release hh hr hq hw
    refine ih h' hq' hw' ?_
    rwa [hn, s.release_state lock]

end Orderly

namespace Pool

variable {r : Rules σ X}

/-- What is left of each task. -/
def left (p : Pool σ α) (n : Nat) : Option (Process σ α) := p.tasks[n]?.bind Task.left?

theorem left_set {p : Pool σ α} {n : Nat} (hn : n < p.tasks.length) (s : Shared σ)
    (t : Task σ α) : ({ toShared := s, tasks := p.tasks.set n t } : Pool σ α).left =
      Function.update p.left n t.left? := by
  funext k
  by_cases hk : k = n
  · subst hk
    simp [left, hn]
  · rw [Function.update_of_ne hk]
    simp only [left]
    rw [List.getElem?_set_ne (Ne.symm hk)]

/-- The tasks of a pool keep to the rules. -/
def Obeys (r : Rules σ X) (p : Pool σ α) : Prop :=
  r.always p.state ∧ ∃ held, Orderly r held p.left p.toShared

theorem Obeys.step {p q : Pool σ α} (h : p.Obeys r) (hs : p.step = some q) : q.Obeys r := by
  obtain ⟨ha, held, h⟩ := h
  cases hr : p.ready with
  | nil =>
    rw [step_of_nil hr] at hs
    cases hs
  | cons n rest =>
    have hd := h.placed.line
    rw [hr] at hd
    obtain ⟨hn, hd⟩ := List.nodup_cons.mp hd
    have hw (l : Nat) : n ∉ (p.locks l).waiting := fun hl => h.placed.apart hl (by simp [hr])
    have hrest : Orderly r held p.left { p.toShared with ready := rest } := by
      refine ⟨h.owned, ⟨hd, h.placed.queues, h.placed.once, fun hk hm => ?_⟩, h.rest, h.goes,
        h.waits⟩
      exact h.placed.apart hk (by simp [hr, hm])
    by_cases hx : ∃ x, p.tasks[n]? = some (.running x)
    · obtain ⟨x, hx⟩ := hx
      have hl : p.left n = some x := by simp [left, hx, Task.left?]
      obtain ⟨held', h', ha'⟩ := (hrest.without n).turn hn hw (h.goes n x hl hw _ (.refl ha _))
      rw [step_of_running hr hx] at hs
      cases hs
      refine ⟨ha', held', ?_⟩
      rwa [← left_set (List.getElem?_eq_some_iff.mp hx).1] at h'
    · rw [step_of_ended hr fun x hq => hx ⟨x, hq⟩] at hs
      cases hs
      exact ⟨ha, held, hrest⟩

/-- Before the first step nobody holds a lock. -/
theorem obeys_ofTasks {s : σ} {ps : List (Process σ α)} (ha : r.always s)
    (hr : ∀ lock, r.rest (r.part lock s)) (hp : ∀ p ∈ ps, ∀ s', r.always s' → p.Obeys r [] s') :
    (ofTasks s ps).Obeys r := by
  refine ⟨ha, fun _ => [], ⟨fun lock => ?_, nofun, fun _ => List.nodup_nil⟩,
    ⟨List.nodup_range, fun _ => List.nodup_nil, nofun, nofun⟩,
    fun lock _ => hr lock, fun n p hn _ s' hs => ?_, nofun⟩
  · simp [ofTasks]
  · obtain ⟨t, ht, hl⟩ := Option.bind_eq_some_iff.mp hn
    obtain ⟨q, hq, rfl⟩ := List.mem_map.mp (List.mem_of_getElem? ht)
    cases hl
    exact hp _ hq s' hs.always

end Pool
end Workflow
