import Workflow.Proofs.Pool.Locks

/-!
# What a run comes to

The pools that a run comes to on its way, one for each step. What each step keeps holds of all of
them, and notes change none of them.

Results:
* `reaches_run`: a run comes to its end.
* `Reaches.always`: what processes keep that obey rules holds wherever a run comes to.
* `Mirrors.reaches`: a run with notes comes to the same pools.
-/
namespace Workflow

variable {σ ω X α : Type}

namespace Pool

/-- The pools that a pool comes to step by step. -/
inductive Reaches (p : Pool σ α) : Pool σ α → Prop where
  | refl : Reaches p p
  | tail {q r : Pool σ α} (h : Reaches p q) (hs : q.step = some r) : Reaches p r

theorem Reaches.keeps {inv : Pool σ α → Prop} {p q : Pool σ α} (h : p.Reaches q) (hp : inv p)
    (hs : ∀ {p q}, inv p → p.step = some q → inv q) : inv q := by
  induction h with
  | refl => exact hp
  | tail _ hq ih => exact hs ih hq

theorem reaches_run (p : Pool σ α) : p.Reaches p.run := by
  have h : p.Reaches p.run ∧ p.run.step = none := run_keeps (fun h hs => h.tail hs) p .refl
  exact h.1

/-- What tasks that keep to the rules have always kept holds wherever a run comes to. -/
theorem Reaches.always {r : Rules σ X} {s : σ} {ps : List (Process σ α)} {p : Pool σ α}
    (h : (ofTasks s ps).Reaches p) (ha : r.always s) (hr : ∀ lock, r.rest (r.part lock s))
    (hp : ∀ p ∈ ps, ∀ s', r.always s' → p.Obeys r [] s') : r.always p.state := by
  have ho : p.Obeys r := h.keeps (obeys_ofTasks ha hr hp) fun h hs => h.step hs
  exact ho.1

/-- Pools that mirror each other come to pools that do. -/
theorem Mirrors.reaches {p p' : Pool σ α} {q : Pool (σ × ω) α} (h : p.Mirrors q)
    (hr : p.Reaches p') : ∃ q', q.Reaches q' ∧ p'.Mirrors q' := by
  induction hr with
  | refl => exact ⟨q, .refl, h⟩
  | tail _ hs ih =>
    obtain ⟨q₁, hq, hm⟩ := ih
    have hm := hm.step
    rw [hs] at hm
    cases hq₁ : q₁.step with
    | none =>
      rw [hq₁] at hm
      cases hm
    | some q₂ =>
      rw [hq₁] at hm
      cases hm with
      | some hm => exact ⟨q₂, hq.tail hq₁, hm⟩

end Pool
end Workflow
