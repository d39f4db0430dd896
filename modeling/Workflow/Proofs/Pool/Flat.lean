import Workflow.Proofs.Pool.Locks
import Workflow.Proofs.Pool.Reach

/-!
# Processes that take one lock at a time

A process that gives back each lock before it takes another one never waits while it holds a lock.
So where such processes run side by side, whoever holds a lock can go on, and so the first that
waits for the lock will: nobody waits for ever.

Results:
* `Flowing.turn`, `Flowing.step`: who does not wait for a lock is ready, and who waits holds none.
* `Pool.flowing_ofTasks`: so it is from the first step on.
* `Flowing.ended`: if nobody is ready, all have ended, and all locks are free.
* `Pool.exists_ready_runFor`: after so many steps nobody is ready.
-/
namespace Workflow

variable {σ α : Type}

/-- A process that takes no lock while it holds one, as long as the states are as they have to be,
and that leaves them so. -/
def Process.Flat (inv : σ → Prop) : Process σ α → Option Nat → Prop
  | .done _, held? => held? = none
  | .act change next, held? => ∀ s, inv s → inv (change s) ∧ Flat inv (next s) held?
  | .pause next, held? => Flat inv next held?
  | .take lock _ next, held? =>
    held? = none ∧ Flat inv (next false) none ∧ Flat inv (next true) (some lock)
  | .give lock next, held? => held? = some lock ∧ Flat inv next none

theorem Process.Flat.pauses {inv : σ → Prop} {p : Process σ α} {held? : Option Nat}
    (h : p.Flat inv held?) (n : Nat) : (p.pauses n).Flat inv held? := by
  induction n with
  | zero => exact h
  | succ n ih => exact ih

/-! ## All processes together -/

/-- Who does not wait for a lock is ready, but one perhaps that has its turn; who waits holds no
lock. `holds` has the lock that each task holds, and `left` what is left of it. -/
structure Flowing (inv : σ → Prop) (turn? : Option Nat) (holds : Nat → Option Nat)
    (left : Nat → Option (Process σ α)) (s : Shared σ) : Prop where
  state : inv s.state
  placed : Placed s.ready fun lock => (s.locks lock).waiting
  holder : ∀ lock, (s.locks lock).held = true → ∃ n, holds n = some lock
  used : ∀ lock, (s.locks lock).waiting ≠ [] → (s.locks lock).held = true
  apart : ∀ n, turn? = some n → n ∉ s.ready ∧ ∀ lock, n ∉ (s.locks lock).waiting
  waits : ∀ n lock, n ∈ (s.locks lock).waiting →
    holds n = none ∧ ∃ p, left n = some p ∧ p.Flat inv (some lock)
  gone : ∀ n, turn? ≠ some n → left n = none → holds n = none
  goes : ∀ n p, turn? ≠ some n → left n = some p → (∀ lock, n ∉ (s.locks lock).waiting) →
    n ∈ s.ready ∧ p.Flat inv (holds n)

namespace Flowing

variable {inv : σ → Prop} {holds : Nat → Option Nat} {left : Nat → Option (Process σ α)}
  {s : Shared σ} {n lock : Nat} {p : Process σ α}

/-- A lock that nobody holds has nobody waiting. -/
theorem waiting_of_free {turn? : Option Nat} (h : Flowing inv turn? holds left s)
    (hl : (s.locks lock).held = false) : (s.locks lock).waiting = [] := by
  by_contra hw
  rw [h.used lock hw] at hl
  cases hl

/-- Between turns nobody is an exception. -/
theorem between (state : inv s.state) (placed : Placed s.ready fun lock => (s.locks lock).waiting)
    (holder : ∀ lock, (s.locks lock).held = true → ∃ n, holds n = some lock)
    (used : ∀ lock, (s.locks lock).waiting ≠ [] → (s.locks lock).held = true)
    (waits : ∀ n lock, n ∈ (s.locks lock).waiting →
      holds n = none ∧ ∃ p, left n = some p ∧ p.Flat inv (some lock))
    (gone : ∀ n, left n = none → holds n = none)
    (goes : ∀ n p, left n = some p → (∀ lock, n ∉ (s.locks lock).waiting) →
      n ∈ s.ready ∧ p.Flat inv (holds n)) : Flowing inv none holds left s where
  state := state
  placed := placed
  holder := holder
  used := used
  apart n hn := (Option.some_ne_none n hn.symm).elim
  waits := waits
  gone n _ := gone n
  goes n p _ := goes n p

theorem gone_between (h : Flowing inv none holds left s) (hl : left n = none) : holds n = none :=
  h.gone n (Option.some_ne_none n).symm hl

theorem goes_between (h : Flowing inv none holds left s) (hl : left n = some p)
    (hw : ∀ lock, n ∉ (s.locks lock).waiting) : n ∈ s.ready ∧ p.Flat inv (holds n) :=
  h.goes n p (Option.some_ne_none n).symm hl hw

theorem ne_of_waits {k i : Nat} (hn : ∀ lock, n ∉ (s.locks lock).waiting)
    (hk : k ∈ (s.locks i).waiting) : k ≠ n := by
  rintro rfl
  exact hn i hk

/-- A task that has its turn changes the state. -/
theorem act (h : Flowing inv (some n) holds left s) {state : σ} (hs : inv state) :
    Flowing inv (some n) holds left { s with state } where
  state := hs
  placed := h.placed
  holder := h.holder
  used := h.used
  apart := h.apart
  waits := h.waits
  gone := h.gone
  goes := h.goes

theorem mem_waiting_setLock {l : Lock} {k i : Nat} :
    k ∈ ((s.setLock lock l).locks i).waiting ↔
      if i = lock then k ∈ l.waiting else k ∈ (s.locks i).waiting := by
  by_cases hi : i = lock <;> simp [Shared.setLock, hi]

/-- A task that has its turn and holds no lock takes a free one. -/
theorem hold (h : Flowing inv (some n) holds left s) (hn : holds n = none)
    (hl : (s.locks lock).held = false) :
    Flowing inv (some n) (Function.update holds n (some lock)) left (s.hold lock) := by
  have hw := Orderly.waiting_hold s lock
  have hw' (i : Nat) : ((s.hold lock).locks i).waiting = (s.locks i).waiting := congrFun hw i
  have other {k : Nat} (hk : some n ≠ some k) : Function.update holds n (some lock) k = holds k :=
    Function.update_of_ne (fun hkn => hk (congrArg some hkn.symm)) ..
  refine ⟨h.state, hw ▸ h.placed, fun i hi => ?_, fun i hi => ?_, fun k hk => ?_, fun k i hk => ?_,
    fun k hk hleft => ?_, fun k q hk hleft hkw => ?_⟩
  · by_cases hil : i = lock
    · exact ⟨n, hil ▸ Function.update_self ..⟩
    · obtain ⟨k, hk⟩ := h.holder i (by simpa [Shared.hold, Shared.setLock, hil] using hi)
      refine ⟨k, (other ?_).trans hk⟩
      rintro hkn
      cases hkn
      rw [hn] at hk
      cases hk
  · rw [hw'] at hi
    by_cases hil : i = lock
    · exact absurd (h.waiting_of_free hl) (hil ▸ hi)
    · simpa [Shared.hold, Shared.setLock, hil] using h.used i hi
  · refine ⟨(h.apart k hk).1, fun i => ?_⟩
    rw [hw']
    exact (h.apart k hk).2 i
  · rw [hw'] at hk
    rw [other fun hkn => (h.apart n rfl).2 i (Option.some.inj hkn ▸ hk)]
    exact h.waits k i hk
  · exact (other hk).trans (h.gone k hk hleft)
  · rw [other hk]
    exact h.goes k q hk hleft fun i => hw' i ▸ hkw i

/-- A task that has its turn and holds no lock waits for one that is held. -/
theorem await (h : Flowing inv (some n) holds left s) (hn : holds n = none)
    (hl : (s.locks lock).held = true) (hp : p.Flat inv (some lock)) :
    Flowing inv none holds (Function.update left n (some p)) (s.await lock n) := by
  obtain ⟨hq, hw⟩ := h.apart n rfl
  have mem {k i : Nat} : k ∈ ((s.await lock n).locks i).waiting ↔
      k ∈ (s.locks i).waiting ∨ i = lock ∧ k = n := by
    rw [Shared.await, mem_waiting_setLock]
    by_cases hi : i = lock
    · subst hi
      simp
    · simp [hi]
  have held (i : Nat) : ((s.await lock n).locks i).held = (s.locks i).held := by
    by_cases hi : i = lock <;> simp [Shared.await, Shared.setLock, hi]
  have other {k : Nat} (hk : k ≠ n) : Function.update left n (some p) k = left k :=
    Function.update_of_ne hk ..
  refine between h.state (Orderly.waiting_setLock s lock _ ▸ h.placed.await hq hw) (fun i hi => ?_)
    (fun i hi => ?_) (fun k i hk => ?_) (fun k hleft => ?_) fun k q hleft hkw => ?_
  · exact h.holder i (held i ▸ hi)
  · rw [held]
    obtain ⟨k, hk⟩ := List.exists_mem_of_ne_nil _ hi
    rcases mem.mp hk with hk | ⟨rfl, -⟩
    · exact h.used i (List.ne_nil_of_mem hk)
    · exact hl
  · rcases mem.mp hk with hk | ⟨rfl, rfl⟩
    · rw [other fun hkn => hw i (hkn ▸ hk)]
      exact h.waits k i hk
    · exact ⟨hn, p, Function.update_self .., hp⟩
  · by_cases hkn : k = n
    · exact hkn ▸ hn
    · exact h.gone k (mt Option.some.inj (Ne.symm hkn)) (other hkn ▸ hleft)
  · have hkn : k ≠ n := by
      rintro rfl
      exact hkw lock (mem.mpr (.inr ⟨rfl, rfl⟩))
    exact h.goes k q (mt Option.some.inj (Ne.symm hkn)) (other hkn ▸ hleft) fun i hi =>
      hkw i (mem.mpr (.inl hi))

/-- A task that has its turn gives back its lock, and nobody waits for it. -/
theorem free (h : Flowing inv (some n) holds left s) (hn : holds n = some lock)
    (hw : (s.locks lock).waiting = []) :
    Flowing inv (some n) (Function.update holds n none) left (s.setLock lock {}) := by
  have same (i : Nat) : ((s.setLock lock {}).locks i).waiting = (s.locks i).waiting := by
    by_cases hi : i = lock
    · simp [Shared.setLock, hi, hw]
    · simp [Shared.setLock, hi]
  have other {k : Nat} (hk : some n ≠ some k) : Function.update holds n none k = holds k :=
    Function.update_of_ne (fun hkn => hk (congrArg some hkn.symm)) ..
  refine ⟨h.state, (funext same : (fun i => _) = fun i => _) ▸ h.placed, fun i hi => ?_,
    fun i hi => ?_, fun k hk => ?_, fun k i hk => ?_, fun k hk hleft => ?_,
    fun k q hk hleft hkw => ?_⟩
  · have hil : i ≠ lock := by
      rintro rfl
      simp [Shared.setLock] at hi
    obtain ⟨k, hk⟩ := h.holder i (by simpa [Shared.setLock, hil] using hi)
    refine ⟨k, (other ?_).trans hk⟩
    intro hkn
    cases hkn
    rw [hn] at hk
    exact hil (Option.some.inj hk).symm
  · rw [same] at hi
    have hil : i ≠ lock := fun hil => hi (hil ▸ hw)
    simpa [Shared.setLock, hil] using h.used i hi
  · refine ⟨(h.apart k hk).1, fun i => ?_⟩
    rw [same]
    exact (h.apart k hk).2 i
  · rw [same] at hk
    rw [other fun hkn => (h.apart n rfl).2 i (Option.some.inj hkn ▸ hk)]
    exact h.waits k i hk
  · exact (other hk).trans (h.gone k hk hleft)
  · rw [other hk]
    exact h.goes k q hk hleft fun i => same i ▸ hkw i

/-- A task that has its turn gives back its lock, and the first that waits for it is ready. -/
theorem pass {w : Nat} {ws : List Nat} (h : Flowing inv (some n) holds left s)
    (hn : holds n = some lock) (hw : (s.locks lock).waiting = w :: ws) :
    Flowing inv (some n) (Function.update (Function.update holds n none) w (some lock)) left
      ((s.setLock lock { held := true, waiting := ws }).enqueue w) := by
  obtain ⟨hp, hgone⟩ := h.placed.wake hw
  have hmem : w ∈ (s.locks lock).waiting := by simp [hw]
  obtain ⟨hnw, p, hleft, hflat⟩ := h.waits w lock hmem
  have hwn : w ≠ n := fun hwn => (h.apart n rfl).2 lock (hwn ▸ hmem)
  have hwait := Orderly.waiting_setLock s lock { held := true, waiting := ws }
  rw [← hwait] at hp hgone
  have mem {k i : Nat} : k ∈ (((s.setLock lock { held := true, waiting := ws }).enqueue w).locks
      i).waiting ↔ k ∈ (s.locks i).waiting ∧ k ≠ w := by
    refine ⟨fun hk => ⟨?_, fun hkw => hgone i (hkw ▸ hk)⟩, fun hk => ?_⟩
    · have hk := mem_waiting_setLock.mp hk
      split at hk
      · rename_i hi
        rw [hi, hw]
        exact List.mem_cons_of_mem _ hk
      · exact hk
    · refine mem_waiting_setLock.mpr ?_
      split
      · rename_i hi
        rw [hi, hw] at hk
        exact (List.mem_cons.mp hk.1).resolve_left hk.2
      · exact hk.1
  have other {k : Nat} (hkn : k ≠ n) (hkw : k ≠ w) :
      Function.update (Function.update holds n none) w (some lock) k = holds k := by
    rw [Function.update_of_ne hkw, Function.update_of_ne hkn]
  refine ⟨h.state, hp, fun i hi => ?_, fun i hi => ?_, fun k hk => ?_, fun k i hk => ?_,
    fun k hk hleft' => ?_, fun k q hk hleft' hkw => ?_⟩
  · by_cases hil : i = lock
    · exact ⟨w, hil ▸ Function.update_self ..⟩
    · obtain ⟨k, hk⟩ := h.holder i (by simpa [Shared.setLock, Shared.enqueue, hil] using hi)
      refine ⟨k, (other ?_ ?_).trans hk⟩
      · rintro rfl
        rw [hn] at hk
        exact hil (Option.some.inj hk).symm
      · rintro rfl
        rw [hnw] at hk
        cases hk
  · by_cases hil : i = lock
    · simp [Shared.setLock, Shared.enqueue, hil]
    · obtain ⟨k, hk⟩ := List.exists_mem_of_ne_nil _ hi
      simpa [Shared.setLock, Shared.enqueue, hil] using h.used i (List.ne_nil_of_mem (mem.mp hk).1)
  · cases hk
    refine ⟨?_, fun i hi => (h.apart n rfl).2 i (mem.mp hi).1⟩
    simp [Shared.enqueue, Shared.setLock, (h.apart n rfl).1, Ne.symm hwn]
  · obtain ⟨hk, hkw⟩ := mem.mp hk
    rw [other (fun hkn => (h.apart n rfl).2 i (hkn ▸ hk)) hkw]
    exact h.waits k i hk
  · have hkn : k ≠ n := fun hkn => hk (congrArg some hkn.symm)
    have hkw : k ≠ w := by
      rintro rfl
      rw [hleft] at hleft'
      cases hleft'
    exact (other hkn hkw).trans (h.gone k hk hleft')
  · have hkn : k ≠ n := fun hkn => hk (congrArg some hkn.symm)
    by_cases hkw' : k = w
    · subst hkw'
      rw [hleft] at hleft'
      cases hleft'
      exact ⟨by simp [Shared.enqueue], by rwa [Function.update_self]⟩
    · rw [other hkn hkw']
      obtain ⟨hr, hq⟩ := h.goes k q hk hleft' fun i hi => hkw i (mem.mpr ⟨hi, hkw'⟩)
      exact ⟨List.mem_append_left _ hr, hq⟩

/-- A turn of a task that takes one lock at a time. -/
theorem turn (h : Flowing inv (some n) holds left s) (hp : p.Flat inv (holds n)) :
    ∃ holds', Flowing inv none holds' (Function.update left n (p.turn n s).2.left?)
      (p.turn n s).1 := by
  induction p generalizing s holds with
  | done a =>
    obtain ⟨-, hw⟩ := h.apart n rfl
    refine ⟨holds, between h.state h.placed h.holder h.used (fun k i hk => ?_)
      (fun k hleft => ?_) fun k q hleft hkw => ?_⟩
    · rw [Function.update_of_ne (ne_of_waits hw hk)]
      exact h.waits k i hk
    · by_cases hkn : k = n
      · exact hkn ▸ hp
      · rw [Function.update_of_ne hkn] at hleft
        exact h.gone k (mt Option.some.inj (Ne.symm hkn)) hleft
    · have hkn : k ≠ n := by
        rintro rfl
        cases (Function.update_self ..).symm.trans hleft
      rw [Function.update_of_ne hkn] at hleft
      exact h.goes k q (mt Option.some.inj (Ne.symm hkn)) hleft hkw
  | act change next ih =>
    obtain ⟨hs, hp⟩ := hp s.state h.state
    exact ih s.state (h.act hs) hp
  | pause next =>
    obtain ⟨hq, hw⟩ := h.apart n rfl
    refine ⟨holds, between h.state (h.placed.enqueue hq hw) h.holder h.used (fun k i hk => ?_)
      (fun k hleft => ?_) fun k q hleft hkw => ?_⟩
    · rw [Function.update_of_ne (ne_of_waits hw hk)]
      exact h.waits k i hk
    · have hkn : k ≠ n := by
        rintro rfl
        cases (Function.update_self ..).symm.trans hleft
      rw [Function.update_of_ne hkn] at hleft
      exact h.gone k (mt Option.some.inj (Ne.symm hkn)) hleft
    · by_cases hkn : k = n
      · subst hkn
        cases (Function.update_self ..).symm.trans hleft
        exact ⟨by simp [Process.turn, Shared.enqueue], hp⟩
      · rw [Function.update_of_ne hkn] at hleft
        obtain ⟨hr, hq⟩ := h.goes k q (mt Option.some.inj (Ne.symm hkn)) hleft hkw
        exact ⟨List.mem_append_left _ hr, hq⟩
  | take lock refuse next ih =>
    obtain ⟨hn, hp, hp'⟩ := hp
    simp only [Process.turn]
    by_cases hl : (s.locks lock).held = false
    · rw [if_pos hl]
      exact ih true (h.hold hn hl) (by rwa [Function.update_self])
    · rw [if_neg hl]
      cases refuse with
      | true => exact ih false h (by rwa [hn])
      | false => exact ⟨holds, h.await hn (by simpa using hl) hp'⟩
  | give lock next ih =>
    obtain ⟨hn, hp⟩ := hp
    simp only [Process.turn, Shared.release]
    cases hw : (s.locks lock).waiting with
    | nil => exact ih (h.free hn hw) (by rwa [Function.update_self])
    | cons w ws =>
      refine ih (h.pass hn hw) ?_
      have hwn : n ≠ w := by
        rintro rfl
        exact (h.apart n rfl).2 lock (by simp [hw])
      rwa [Function.update_of_ne hwn, Function.update_self]

end Flowing

namespace Pool

variable {inv : σ → Prop}

/-- The tasks of a pool take one lock at a time each. -/
def Flowing (inv : σ → Prop) (p : Pool σ α) : Prop :=
  ∃ holds, Workflow.Flowing inv none holds p.left p.toShared

theorem Flowing.step {p q : Pool σ α} (h : p.Flowing inv) (hs : p.step = some q) :
    q.Flowing inv := by
  obtain ⟨holds, h⟩ := h
  cases hr : p.ready with
  | nil =>
    rw [step_of_nil hr] at hs
    cases hs
  | cons n rest =>
    have hd := h.placed.line
    rw [hr] at hd
    obtain ⟨hn, hd⟩ := List.nodup_cons.mp hd
    have hw (l : Nat) : n ∉ (p.locks l).waiting := fun hl => h.placed.apart hl (by simp [hr])
    have hplaced : Placed rest fun lock => (p.locks lock).waiting :=
      ⟨hd, h.placed.queues, h.placed.once, fun hk hm => h.placed.apart hk (by simp [hr, hm])⟩
    have ready {k : Nat} (hk : some n ≠ some k) (hm : k ∈ p.ready) : k ∈ rest := by
      rw [hr] at hm
      exact (List.mem_cons.mp hm).resolve_left fun hkn => hk (congrArg some hkn.symm)
    have hrest : Workflow.Flowing inv (some n) holds p.left { p.toShared with ready := rest } := by
      refine ⟨h.state, hplaced, h.holder, h.used, fun k hk => ?_, h.waits,
        fun k _ => h.gone_between, fun k q hk hleft hkw => ?_⟩
      · cases hk
        exact ⟨hn, hw⟩
      · obtain ⟨hm, hq⟩ := h.goes_between hleft hkw
        exact ⟨ready hk hm, hq⟩
    by_cases hx : ∃ x, p.tasks[n]? = some (.running x)
    · obtain ⟨x, hx⟩ := hx
      have hl : p.left n = some x := by simp [left, hx, Task.left?]
      obtain ⟨holds', h'⟩ := hrest.turn (h.goes_between hl hw).2
      rw [step_of_running hr hx] at hs
      cases hs
      refine ⟨holds', ?_⟩
      rwa [← left_set (List.getElem?_eq_some_iff.mp hx).1] at h'
    · have hl : p.left n = none := by
        cases ht : p.tasks[n]? with
        | none => simp [left, ht]
        | some t =>
          cases t with
          | running x => exact absurd ⟨x, ht⟩ hx
          | done a => simp [left, ht, Task.left?]
      rw [step_of_ended hr fun x hq => hx ⟨x, hq⟩] at hs
      cases hs
      refine ⟨holds, .between hrest.state hrest.placed hrest.holder hrest.used hrest.waits
        (fun k => h.gone_between) fun k q hleft hkw => hrest.goes k q ?_ hleft hkw⟩
      rintro ⟨⟩
      cases hl.symm.trans hleft

/-- Before the first step all are ready and nobody holds a lock. -/
theorem flowing_ofTasks {s : σ} {ps : List (Process σ α)} (hs : inv s)
    (hp : ∀ p ∈ ps, p.Flat inv none) : (ofTasks s ps).Flowing inv := by
  refine ⟨fun _ => none, .between hs ⟨List.nodup_range, fun _ => List.nodup_nil, nofun, nofun⟩ nofun
    (fun i hi => absurd rfl hi) nofun (fun _ _ => rfl) fun n p hn _ => ?_⟩
  obtain ⟨t, ht, hl⟩ := Option.bind_eq_some_iff.mp hn
  obtain ⟨q, hq, rfl⟩ := List.mem_map.mp (List.mem_of_getElem? ht)
  cases hl
  obtain ⟨hlt, -⟩ := List.getElem?_eq_some_iff.mp ht
  exact ⟨List.mem_range.mpr (by simpa [ofTasks] using hlt), hp _ hq⟩

/-- If nobody is ready, all tasks have ended, and all locks are free. -/
theorem Flowing.ended {p : Pool σ α} (h : p.Flowing inv) (hr : p.ready = []) :
    (∀ n < p.tasks.length, ∃ a, p.result? n = some a) ∧ ∀ lock, p.locks lock = {} := by
  obtain ⟨holds, h⟩ := h
  -- who does not wait has ended
  have idle (n : Nat) (hw : ∀ lock, n ∉ (p.locks lock).waiting) : p.left n = none := by
    cases hl : p.left n with
    | none => rfl
    | some x =>
      have hm := (h.goes_between hl hw).1
      rw [hr] at hm
      cases hm
  -- so nobody holds a lock, and nobody waits
  have hfree (lock : Nat) : (p.locks lock).held = false := by
    by_contra hl
    obtain ⟨n, hn⟩ := h.holder lock (by simpa using hl)
    by_cases hw : ∃ i, n ∈ (p.locks i).waiting
    · obtain ⟨i, hi⟩ := hw
      rw [(h.waits n i hi).1] at hn
      cases hn
    · rw [h.gone_between (idle n fun i hi => hw ⟨i, hi⟩)] at hn
      cases hn
  have hnone (lock : Nat) : (p.locks lock).waiting = [] := h.waiting_of_free (hfree lock)
  refine ⟨fun n hn => ?_, fun lock => ?_⟩
  · have hl := idle n fun lock => by simp [hnone lock]
    simp only [left, List.getElem?_eq_getElem hn, Option.bind_some] at hl
    simp only [result?, List.getElem?_eq_getElem hn]
    cases ht : p.tasks[n] with
    | running x =>
      rw [ht] at hl
      cases hl
    | done a => exact ⟨a, rfl⟩
  · have hf := hfree lock
    have hw := hnone lock
    cases hp : p.locks lock with
    | mk held waiting =>
      rw [hp] at hf hw
      exact Lock.mk.injEq .. ▸ ⟨hf, hw⟩

theorem reaches_length {p q : Pool σ α} (h : p.Reaches q) : q.tasks.length = p.tasks.length := by
  induction h with
  | refl => rfl
  | @tail q r _ hs ih =>
    rw [← ih]
    unfold step at hs
    split at hs
    · cases hs
    · split at hs <;> cases hs
      · exact List.length_set
      · rfl

/-- After so many steps no task is ready. -/
theorem exists_ready_runFor (p : Pool σ α) : ∃ n, (runFor n p).ready = [] := by
  cases hp : p.step with
  | none =>
    have hr := ready_run p
    rw [run_of_none hp] at hr
    exact ⟨0, hr⟩
  | some q =>
    obtain ⟨n, hn⟩ := exists_ready_runFor q
    refine ⟨n + 1, ?_⟩
    simpa [runFor, hp] using hn
termination_by p
decreasing_by exact step_smaller hp

end Pool
end Workflow
