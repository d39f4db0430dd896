import Workflow.Proofs.Engine.Relaxed

/-!
# Runs on relaxed engines

Scripts run alike on an engine and on the relaxed one, turn by turn, until a call is refused on the
one that has to wait on the other. From then on the journals tell that they have parted.

Results:
* `Process.Follows.turn`: a turn.
* `Pool.Follows.step`, `Pool.Follows.run`: a step, and a run.
* `Script.follows_watched`: runs of scripts.
-/
namespace Workflow

variable {μ α : Type} {which : Nat → Bool}

inductive Task.Follows (which : Nat → Bool) : Task (Book μ) α → Task (Book μ) α → Prop where
  | running {p q : Process (Book μ) α} (h : p.Follows which q) :
    Follows which (.running p) (.running q)
  | done (a : α) : Follows which (.done a) (.done a)

/-- Two runs have parted: after the same lines a call was refused in the first one only. -/
structure Parted (which : Nat → Bool) (b b' : Book μ) (ls : List (Line μ)) (c : Call)
    (e : Engine μ) : Prop where
  relaxed : which c.machine = true
  refused : ls ++ [⟨c, .refused, e⟩] <+: b.2
  common : ls.map (Line.relaxed which) <+: b'.2

/-- Two runs that have parted stay so. -/
theorem Parted.mono {b b' b₁ b₁' : Book μ} {ls : List (Line μ)} {c : Call} {e : Engine μ}
    (h : Parted which b b' ls c e) (hb : b.2 <+: b₁.2) (hb' : b'.2 <+: b₁'.2) :
    Parted which b₁ b₁' ls c e where
  relaxed := h.relaxed
  refused := h.refused.trans hb
  common := h.common.trans hb'

/-! ## Turns -/

namespace Process.Follows

variable {p q : Process (Book μ) α}

theorem relaxed_release (s : Shared (Book μ)) (lock : Nat) :
    (s.relaxed which).release lock = (s.release lock).relaxed which := by
  simp only [Shared.release, Shared.relaxed]
  cases (s.locks lock).waiting <;> rfl

/-- A turn adds to the journal. -/
theorem grows (h : p.Follows which q) (n : Nat) (s : Shared (Book μ)) :
    s.state.2 <+: (p.turn n s).1.state.2 := by
  induction h generalizing s with
  | done a => exact List.prefix_rfl
  | act hl _ _ ih => exact (hl s.state).trans (ih _ { s with state := _ })
  | pause _ _ => exact List.prefix_rfl
  | @take lock refuse next next' _ ih =>
    simp only [turn]
    split
    · exact ih true (s.hold lock)
    · split
      · exact ih false s
      · exact List.prefix_rfl
  | @relaxed c next next' p q _ hf _ _ ihp ihn =>
    simp only [turn, if_true]
    split
    · exact ihn (s.hold c.machine)
    · rw [hf]
      exact (List.prefix_append ..).trans (ihp { s with state := Book.noted s.state c .refused })
  | @give lock p q _ ih =>
    have h := ih (s.release lock)
    rwa [Shared.release_state] at h

/-- Turns on both engines go side by side, unless a call is refused. -/
theorem turn (h : p.Follows which q) (n : Nat) (s : Shared (Book μ)) :
    ((q.turn n (s.relaxed which)).1 = (p.turn n s).1.relaxed which ∧
      (p.turn n s).2.Follows which (q.turn n (s.relaxed which)).2) ∨
    ∃ ls c e, Parted which (p.turn n s).1.state (q.turn n (s.relaxed which)).1.state ls c e := by
  induction h generalizing s with
  | done a => exact .inl ⟨rfl, .done a⟩
  | @act change change' next next' _ hc _ ih =>
    have h := ih s.state { s with state := change s.state }
    simp only [Shared.relaxed, ← hc] at h
    exact h
  | pause h => exact .inl ⟨rfl, .running h⟩
  | @take lock refuse next next' hn ih =>
    have hl : (s.relaxed which).locks = s.locks := rfl
    simp only [Process.turn, hl]
    split
    · exact ih true (s.hold lock)
    · split
      · exact ih false s
      · exact .inl ⟨rfl, .running (hn true)⟩
  | @relaxed c next next' p q hw hf hp hn _ ihn =>
    have hl : (s.relaxed which).locks = s.locks := rfl
    simp only [Process.turn, hl, if_true]
    split
    · exact ihn (s.hold c.machine)
    · -- the call is refused here, and has to wait there
      refine .inr ⟨s.state.2, c, s.state.1, hw, ?_, List.prefix_rfl⟩
      rw [hf]
      exact hp.grows n { s with state := Book.noted s.state c .refused }
  | @give lock p q _ ih =>
    have h := ih (s.release lock)
    rw [← relaxed_release] at h
    exact h

end Process.Follows

/-! ## Runs -/

namespace Pool

variable {p q : Pool (Book μ) α}

structure Follows (which : Nat → Bool) (p q : Pool (Book μ) α) : Prop where
  shared : q.toShared = p.toShared.relaxed which
  tasks : List.Forall₂ (Task.Follows which) p.tasks q.tasks

/-- A step on the one engine goes beside a step on the other. -/
theorem Follows.step (h : p.Follows which q) : p.step = none ∧ q.step = none ∨
    ∃ p' q', p.step = some p' ∧ q.step = some q' ∧ p.state.2 <+: p'.state.2 ∧
      (p'.Follows which q' ∨ ∃ ls c e, Parted which p'.state q'.state ls c e) := by
  obtain ⟨hs, ht⟩ := h
  have hr : q.ready = p.ready := by
    rw [hs]
    rfl
  cases hp : p.ready with
  | nil => exact .inl ⟨step_of_nil hp, step_of_nil (hr.trans hp)⟩
  | cons n rest =>
    right
    have hb : { q.toShared with ready := rest } =
        Shared.relaxed which { p.toShared with ready := rest } := by
      rw [hs]
      rfl
    have he := forall₂_getElem? ht n
    have idle (hp' : ∀ x, p.tasks[n]? ≠ some (.running x))
        (hq' : ∀ x, q.tasks[n]? ≠ some (.running x)) : ∃ p' q', p.step = some p' ∧
          q.step = some q' ∧ p.state.2 <+: p'.state.2 ∧
          (p'.Follows which q' ∨ ∃ ls c e, Parted which p'.state q'.state ls c e) :=
      ⟨_, _, step_of_ended hp hp', step_of_ended (hr.trans hp) hq', List.prefix_rfl,
        .inl ⟨hb, ht⟩⟩
    generalize hpt : p.tasks[n]? = t, hqt : q.tasks[n]? = u at he
    cases he with
    | none => exact idle (by simp [hpt]) (by simp [hqt])
    | some he =>
      cases he with
      | done a => exact idle (by simp [hpt]) (by simp [hqt])
      | @running x y hx =>
        refine ⟨_, _, step_of_running hp hpt, step_of_running (hr.trans hp) hqt,
          hx.grows n { p.toShared with ready := rest }, ?_⟩
        rw [hb]
        rcases hx.turn n { p.toShared with ready := rest } with ⟨h₁, h₂⟩ | h
        · exact .inl ⟨h₁, forall₂_set ht h₂ n⟩
        · exact .inr h

theorem Follows.result? (h : p.Follows which q) (n : Nat) : q.result? n = p.result? n := by
  have he := forall₂_getElem? h.tasks n
  unfold Pool.result?
  generalize p.tasks[n]? = t, q.tasks[n]? = u at he
  cases he with
  | none => rfl
  | some he => cases he <;> rfl

/-- The tasks of a pool add to the journal only. -/
def Adds (p : Pool (Book μ) α) : Prop := p.Follows (fun _ => false) p

theorem relaxed_none_of_adds (h : p.Adds) {p' : Pool (Book μ) α} (hs : p.step = some p') :
    p'.Adds ∧ p.state.2 <+: p'.state.2 := by
  rcases Follows.step h with ⟨hn, -⟩ | ⟨p₁, p₂, h₁, h₂, hl, h⟩
  · rw [hs] at hn
    cases hn
  · rw [hs] at h₁ h₂
    cases h₁
    cases h₂
    refine ⟨h.resolve_right ?_, hl⟩
    -- no machine has been changed, so no call is refused on one engine only
    rintro ⟨ls, c, e, hw, -, -⟩
    cases hw

/-- A run adds to the journal. -/
theorem Adds.run (h : p.Adds) : p.state.2 <+: p.run.state.2 := by
  have keeps {p₁ p₂ : Pool (Book μ) α} (h : p₁.Adds ∧ p.state.2 <+: p₁.state.2)
      (hs : p₁.step = some p₂) : p₂.Adds ∧ p.state.2 <+: p₂.state.2 := by
    obtain ⟨ha, hl⟩ := relaxed_none_of_adds h.1 hs
    exact ⟨ha, h.2.trans hl⟩
  exact (run_keeps keeps p ⟨h, List.prefix_rfl⟩).1.2

/-- A run on the one engine goes beside a run on the other, unless a call is refused. -/
theorem Follows.run {p q : Pool (Book μ) α} (h : p.Follows which q) (hp : p.Adds) (hq : q.Adds) :
    p.run.Follows which q.run ∨ ∃ ls c e, Parted which p.run.state q.run.state ls c e := by
  rcases h.step with ⟨hpn, hqn⟩ | ⟨p', q', hp', hq', -, h⟩
  · rw [run_of_none hpn, run_of_none hqn]
    exact .inl h
  · obtain ⟨hpa, -⟩ := relaxed_none_of_adds hp hp'
    obtain ⟨hqa, -⟩ := relaxed_none_of_adds hq hq'
    rw [run_of_some hp', run_of_some hq']
    rcases h with h | ⟨ls, c, e, h⟩
    · exact h.run hpa hqa
    · exact .inr ⟨ls, c, e, h.mono hpa.run hqa.run⟩
termination_by p
decreasing_by exact step_smaller hp'

end Pool

variable [Recorder μ]

theorem Script.adds_watch (most : Nat) (e : Engine μ) (xs : List (Script μ)) :
    (Pool.ofTasks (e, []) (xs.map (watch most))).Adds where
  shared := by simp [Pool.ofTasks, Shared.relaxed, Book.relaxed_none]
  tasks := by
    simp only [Pool.ofTasks, List.map_map]
    exact List.forall₂_same.mpr fun t ht => by
      obtain ⟨x, -, rfl⟩ := List.mem_map.mp ht
      exact .running (follows_watch most x)

/-- Scripts run alike where certain machines have calls wait, unless a call is refused. -/
theorem Script.follows_watched (most : Nat) (e : Engine μ) (xs : List (Script μ)) :
    (watched most e xs).Follows which (watched most (e.relaxed which) xs) ∨
      ∃ ls c e', Parted which (watched most e xs).state (watched most (e.relaxed which) xs).state
        ls c e' := by
  refine Pool.Follows.run ⟨rfl, ?_⟩ (adds_watch ..) (adds_watch ..)
  simp only [Pool.ofTasks, List.map_map]
  exact List.forall₂_same.mpr fun t ht => by
    obtain ⟨x, -, rfl⟩ := List.mem_map.mp ht
    exact .running (follows_watch most x)

end Workflow
