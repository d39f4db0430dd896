import Workflow.Proofs.Call.Defined

/-!
# Announcements

A call announces its machine once at most, and then it has nothing more to do. A call that does not
announce its machine leaves it as it was, unless it breaks off: the actions of a transition have
changed the context, a fault ends them, and as no transition is taken nobody is told.

Results:
* `Sent.announced_last`, `Started.announced_last`: an announcement is the last thing a call does.
* `Sent.unannounced`, `Started.unannounced`: what a call changes without announcing it.
* `BreaksOff.affect`, `BreaksOff.failure`: what a call that breaks off leaves, and why it does.
-/
namespace Workflow.Machine

variable {η : Type} {m : Machine} {phase : Phase} {live final : Live} {is : List Invocation}
  {ds : List (Deed η)} {e : Event} {f : CallFault} {r : Except CallFault Bool}

theorem trying_unannounced (m : Machine) (e : Event) (tried : List Transition) :
    (.announced : Deed η) ∉ m.trying e tried := by simp [trying]

/-! ## The end of a call -/

/-- A call announces its machine at its end, if it does. -/
theorem Sent.announced_last (h : m.Sent e ds r) : .announced ∉ ds.dropLast := by
  have never {ds : List (Deed η)} (hd : .announced ∉ ds) : .announced ∉ ds.dropLast :=
    fun hx => hd (List.dropLast_subset _ hx)
  have tried {ds : List (Deed η)} {tried : List Transition} (hd : .announced ∉ ds) :
      .announced ∉ m.trying e tried ++ ds := fun hx =>
    (List.mem_append.mp hx).elim (trying_unannounced m e tried) hd
  cases h with
  | lost => exact never (tried (by simp))
  | unmatched => exact never (tried (by simp))
  | overlong => exact never (trying_unannounced m e _)
  | taken _ _ ht =>
    cases ht with
    | dangling => exact never (tried (by simp))
    | halted _ ha => exact never (tried ha.unannounced)
    | entered _ ha he =>
      rw [List.dropLast_append_of_ne_nil (by simp), List.dropLast_append_of_ne_nil (by simp)]
      refine tried fun hx => ?_
      rcases List.mem_append.mp hx with hx | hx
      · exact ha.unannounced hx
      · rw [List.dropLast_cons_of_ne_nil (by simp), List.dropLast_cons_of_ne_nil (by simp),
          List.dropLast_concat] at hx
        simp only [List.mem_cons, reduceCtorEq, false_or] at hx
        exact he.unannounced hx

theorem Started.announced_last (h : m.Started ds r) : .announced ∉ ds.dropLast := by
  cases h with
  | again => simp
  | lost => simp
  | entered _ _ he =>
    rw [← List.cons_append, List.dropLast_concat]
    simpa using he.unannounced

/-! ## Calls that break off -/

/-- A call breaks off: it comes to a transition whose guard holds and whose target is there, and a
fault ends the actions of the transition when they have changed the context. -/
inductive BreaksOff (m : Machine) (e : Event) : List (Deed η) → CallFault → Prop where
  | intro {before : List Transition} {t : Transition} {target : State} {ds : List (Deed η)}
    {after : Live} {f : CallFault} (h : m.Meets e before t)
    (hg : Guard.check t.guard m.live.context = .ok true)
    (ht : m.chart.states.get? t.target = some target)
    (ha : m.Acts .transition { m.live with started := true } t.actions ds after (some f))
    (hc : after.context ≠ m.live.context) : BreaksOff m e (m.trying e before ++ ds) f

/-- Of the faults that end actions, those of actions end them only on a machine that aborts. -/
theorem Acts.failure {a : ActionFault} (h : m.Acts phase live is ds final (some (.action a))) :
    m.failure = .abort := by
  generalize hf : some (CallFault.action a) = fault? at h
  induction h with
  | nil => cases hf
  | ran _ _ ih => exact ih hf
  | skipped _ _ _ ih => exact ih hf
  | aborted hp => exact hp
  | stuck => cases hf

theorem BreaksOff.failure {a : ActionFault} (h : m.BreaksOff e ds (.action a)) :
    m.failure = .abort := by
  obtain ⟨-, -, -, ha, -⟩ := h
  exact ha.failure

/-- A call that breaks off leaves its machine in its state, with another context. -/
theorem BreaksOff.affect (h : m.BreaksOff e ds f) : ∃ after : Live,
    ds.foldl Deed.affect m = { m with live := after } ∧ after.state = m.live.state ∧
      after.context ≠ m.live.context := by
  obtain ⟨-, -, -, ha, hc⟩ := h
  refine ⟨_, ?_, ha.state_eq, hc⟩
  rw [List.foldl_append, trying_affect, ha.affect]

/-- A call that announces nothing leaves the state and the context of its machine as they were, or
breaks off. -/
theorem Sent.unannounced (h : m.Sent e ds r) (hd : .announced ∉ ds) :
    (∃ started, ds.foldl Deed.affect m = { m with live := { m.live with started } }) ∨
      ∃ f, r = .error f ∧ m.BreaksOff e ds f := by
  -- a call that tries transitions and takes none
  have tried (tried : List Transition) (x : Report) :
      ∃ started, (m.trying e tried ++ [(.reported x : Deed η)]).foldl Deed.affect m =
        { m with live := { m.live with started } } := by
    rw [List.foldl_append, trying_affect]
    exact ⟨true, rfl⟩
  cases h with
  | lost => exact .inl (tried _ _)
  | unmatched => exact .inl (tried _ _)
  | overlong => exact .inl ⟨true, trying_affect m e _⟩
  | @taken before t ds r hm hg ht =>
    cases ht with
    | dangling => exact .inl (tried _ _)
    | @halted target ds after f ht ha =>
      by_cases hc : after.context = m.live.context
      · obtain ⟨state, context, started⟩ := after
        obtain rfl : state = m.live.state := ha.state_eq
        obtain rfl : context = m.live.context := hc
        refine .inl ⟨started, ?_⟩
        rw [List.foldl_append, trying_affect, ha.affect]
      · exact .inr ⟨f, rfl, .intro hm hg ht ha hc⟩
    | entered => exact absurd (by simp) hd

theorem Started.unannounced (h : m.Started ds r) (hd : .announced ∉ ds) :
    ∃ started, ds.foldl Deed.affect m = { m with live := { m.live with started } } := by
  cases h with
  | again => exact ⟨m.live.started, rfl⟩
  | lost => exact ⟨true, rfl⟩
  | entered => exact absurd (by simp) hd

end Workflow.Machine
