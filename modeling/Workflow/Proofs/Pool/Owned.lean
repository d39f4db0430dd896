import Mathlib.Data.List.Nodup
import Mathlib.Logic.Function.Basic

/-!
# Locks and places of tasks

Each lock is held by one task at most, and each task stands in one place at most: in the queue of
those that are ready, or in the queue of a lock.

Results:
* `Owned.take`, `Owned.give`: a lock is taken and given back.
* `Placed.await`, `Placed.wake`: a task waits for a lock, and gets ready again.
-/
namespace Workflow

/-- Each lock that is taken is held by one task. -/
structure Owned (taken : Nat → Bool) (held : Nat → List Nat) : Prop where
  taken : ∀ lock, taken lock = true ↔ ∃ n, lock ∈ held n
  alone : ∀ {lock n n'}, lock ∈ held n → lock ∈ held n' → n = n'
  nodup : ∀ n, (held n).Nodup

theorem Owned.free {taken : Nat → Bool} {held : Nat → List Nat} {lock : Nat} (h : Owned taken held)
    (hl : taken lock = false) (n : Nat) : lock ∉ held n := fun hn => by
  rw [(h.taken lock).mpr ⟨n, hn⟩] at hl
  cases hl

theorem mem_update_cons {n k lock l : Nat} {held : Nat → List Nat} :
    l ∈ Function.update held n (lock :: held n) k ↔ k = n ∧ l = lock ∨ l ∈ held k := by
  by_cases hk : k = n
  · subst hk
    simp
  · simp [hk]

theorem Owned.take {taken : Nat → Bool} {held : Nat → List Nat} {lock : Nat}
    (h : Owned taken held) (hl : taken lock = false) (n : Nat) :
    Owned (Function.update taken lock true) (Function.update held n (lock :: held n)) := by
  refine ⟨fun l => ?_, fun {l k k'} hk hk' => ?_, fun k => ?_⟩
  · by_cases hll : l = lock
    · subst hll
      rw [Function.update_self]
      exact ⟨fun _ => ⟨n, mem_update_cons.mpr (.inl ⟨rfl, rfl⟩)⟩, fun _ => rfl⟩
    · rw [Function.update_of_ne hll, h.taken l]
      simp only [mem_update_cons, hll, and_false, false_or]
  · rw [mem_update_cons] at hk hk'
    rcases hk with ⟨hk, hl'⟩ | hk
    · rcases hk' with ⟨hk', -⟩ | hk'
      · exact hk.trans hk'.symm
      · rw [hl'] at hk'
        exact absurd hk' (h.free hl _)
    · rcases hk' with ⟨-, hl'⟩ | hk'
      · rw [hl'] at hk
        exact absurd hk (h.free hl _)
      · exact h.alone hk hk'
  · by_cases hk : k = n
    · subst hk
      rw [Function.update_self]
      exact List.nodup_cons.mpr ⟨h.free hl k, h.nodup k⟩
    · rw [Function.update_of_ne hk]
      exact h.nodup k

theorem Owned.give {taken : Nat → Bool} {held : Nat → List Nat} {lock n : Nat} {rest : List Nat}
    (h : Owned taken held) (hh : held n = lock :: rest) :
    Owned (Function.update taken lock false) (Function.update held n rest) := by
  have hn := h.nodup n
  rw [hh] at hn
  obtain ⟨hl, hr⟩ := List.nodup_cons.mp hn
  have mem (k l : Nat) : l ∈ Function.update held n rest k ↔ l ∈ held k ∧ l ≠ lock := by
    by_cases hk : k = n
    · subst hk
      rw [Function.update_self, hh, List.mem_cons]
      refine ⟨fun h => ⟨.inr h, ?_⟩, fun h => h.1.resolve_left h.2⟩
      rintro rfl
      exact hl h
    · rw [Function.update_of_ne hk]
      refine ⟨fun hm => ⟨hm, ?_⟩, And.left⟩
      rintro rfl
      exact hk (h.alone hm (by rw [hh]; simp))
  refine ⟨fun l => ?_, fun {l k k'} hk hk' => ?_, fun k => ?_⟩
  · by_cases hll : l = lock
    · subst hll
      simp [mem]
    · rw [Function.update_of_ne hll, h.taken l]
      simp only [mem, ne_eq, hll, not_false_eq_true, and_true]
  · exact h.alone ((mem k l).mp hk).1 ((mem k' l).mp hk').1
  · by_cases hk : k = n
    · subst hk
      rw [Function.update_self]
      exact hr
    · rw [Function.update_of_ne hk]
      exact h.nodup k

/-- Each task stands in the queue of those that are ready, or waits for one lock, or neither. -/
structure Placed (ready : List Nat) (waiting : Nat → List Nat) : Prop where
  line : ready.Nodup
  queues : ∀ lock, (waiting lock).Nodup
  once : ∀ {n lock lock'}, n ∈ waiting lock → n ∈ waiting lock' → lock = lock'
  apart : ∀ {n lock}, n ∈ waiting lock → n ∉ ready

namespace Placed

variable {ready : List Nat} {waiting : Nat → List Nat} {n lock : Nat}

theorem enqueue (h : Placed ready waiting) (hn : n ∉ ready) (hw : ∀ lock, n ∉ waiting lock) :
    Placed (ready ++ [n]) waiting where
  line := List.concat_eq_append ▸ List.Nodup.concat hn h.line
  queues := h.queues
  once := h.once
  apart {k l} hk hm := by
    rcases List.mem_append.mp hm with hm | hm
    · exact h.apart hk hm
    · rw [List.mem_singleton.mp hm] at hk
      exact hw l hk

theorem await (h : Placed ready waiting) (hn : n ∉ ready) (hw : ∀ lock, n ∉ waiting lock) :
    Placed ready (Function.update waiting lock (waiting lock ++ [n])) := by
  have mem (k l : Nat) : k ∈ Function.update waiting lock (waiting lock ++ [n]) l ↔
      k ∈ waiting l ∨ l = lock ∧ k = n := by
    by_cases hl : l = lock
    · subst hl
      simp
    · simp [hl]
  refine ⟨h.line, fun l => ?_, fun {k l l'} hk hk' => ?_, fun {k l} hk => ?_⟩
  · by_cases hl : l = lock
    · subst hl
      rw [Function.update_self]
      exact List.concat_eq_append ▸ List.Nodup.concat (hw l) (h.queues l)
    · rw [Function.update_of_ne hl]
      exact h.queues l
  · rw [mem] at hk hk'
    rcases hk with hk | ⟨hl, rfl⟩
    · rcases hk' with hk' | ⟨-, rfl⟩
      · exact h.once hk hk'
      · exact absurd hk (hw l)
    · rcases hk' with hk' | ⟨hl', -⟩
      · exact absurd hk' (hw l')
      · exact hl.trans hl'.symm
  · rcases (mem k l).mp hk with hk | ⟨-, rfl⟩
    · exact h.apart hk
    · exact hn

/-- The first task that waits for a lock gets ready. -/
theorem wake {ns : List Nat} (h : Placed ready waiting) (hw : waiting lock = n :: ns) :
    Placed (ready ++ [n]) (Function.update waiting lock ns) ∧
      ∀ l, n ∉ Function.update waiting lock ns l := by
  have hn : n ∈ waiting lock := by simp [hw]
  have hq := h.queues lock
  rw [hw] at hq
  obtain ⟨hns, hq⟩ := List.nodup_cons.mp hq
  have sub {k l : Nat} (hk : k ∈ Function.update waiting lock ns l) : k ∈ waiting l := by
    by_cases hl : l = lock
    · subst hl
      rw [Function.update_self] at hk
      rw [hw]
      exact List.mem_cons_of_mem _ hk
    · rwa [Function.update_of_ne hl] at hk
  have gone (l : Nat) : n ∉ Function.update waiting lock ns l := by
    intro hk
    obtain rfl := h.once (sub hk) hn
    rw [Function.update_self] at hk
    exact hns hk
  refine ⟨⟨List.concat_eq_append ▸ List.Nodup.concat (h.apart hn) h.line, fun l => ?_,
    fun hk hk' => h.once (sub hk) (sub hk'), fun {k l} hk hm => ?_⟩, gone⟩
  · by_cases hl : l = lock
    · subst hl
      rw [Function.update_self]
      exact hq
    · rw [Function.update_of_ne hl]
      exact h.queues l
  · rcases List.mem_append.mp hm with hm | hm
    · exact h.apart (sub hk) hm
    · rw [List.mem_singleton.mp hm] at hk
      exact gone l hk

end Placed

end Workflow
