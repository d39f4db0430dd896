import Workflow.Proofs.Call.Course

/-!
# What actions write

Actions change nothing but the context of their machine, and that by merging the objects that
handlers come to. An action that fails writes nothing. How an action goes depends neither on the
chart nor on the policy for failures.

Results:
* `Acted.now_eq`, `Acts.final_eq`: the context behind actions is the one before with all results
  merged.
* `Acts.affect`: a machine that is affected by all that actions do is the machine behind them.
* `Acts.of_quiet`: actions among which none fails go alike under either policy.
-/
namespace Workflow

variable {η : Type}

/-- The failed action that a deed reports, if it reports one. -/
def Deed.failure? : Deed η → Option ActionFault
  | .reported (.actionFailed f) => some f
  | _ => none

/-- The objects that handlers come to, in their order. -/
def results (ds : List (Deed η)) : List Context :=
  ds.filterMap fun
    | .answered (.ok (.obj result)) => some result
    | _ => none

/-- What a machine has once the objects are merged into its context that handlers come to, one after
another. -/
def Live.merging (live : Live) (ds : List (Deed η)) : Live :=
  { live with context := (results ds).foldl Fields.merge live.context }

theorem Live.merging_append (live : Live) (ds ds' : List (Deed η)) :
    live.merging (ds ++ ds') = (live.merging ds).merging ds' := by
  simp [merging, results, List.filterMap_append]

theorem Live.merging_reported (live : Live) (r : Report) :
    live.merging [(.reported r : Deed η)] = live := rfl

/-- What a machine has behind an action. -/
def ActionEnd.now (live : Live) : ActionEnd → Live
  | .ok after => after
  | _ => live

/-! ## Lists cut at a deed -/

/-- What stands in the second of two lists if it is not in the first. -/
theorem split_behind {α : Type} {a : α} {xs ys before after : List α}
    (h : before ++ a :: after = xs ++ ys) (ha : a ∉ xs) :
    ∃ zs, before = xs ++ zs ∧ ys = zs ++ a :: after := by
  rcases List.append_eq_append_iff.mp h with ⟨zs, rfl, hz⟩ | ⟨zs, hb, hz⟩
  · cases zs with
    | nil => exact ⟨[], by simp, hz.symm⟩
    | cons z zs =>
      obtain ⟨rfl, -⟩ := List.cons.inj hz
      simp at ha
  · exact ⟨zs, hb, hz⟩

/-- What stands in the first of two lists if it is not in the second. -/
theorem split_ahead {α : Type} {a : α} {xs ys before after : List α}
    (h : before ++ a :: after = xs ++ ys) (ha : a ∉ ys) : ∃ zs, xs = before ++ a :: zs := by
  rcases List.append_eq_append_iff.mp h with ⟨zs, rfl, hz⟩ | ⟨zs, -, hz⟩
  · cases zs with
    | nil =>
      rw [List.nil_append] at hz
      simp [← hz] at ha
    | cons z zs =>
      obtain ⟨rfl, -⟩ := List.cons.inj hz
      exact ⟨zs, rfl⟩
  · simp [hz] at ha

namespace Machine

variable {m m' : Machine} {phase : Phase} {live final : Live} {i : Invocation}
  {is : List Invocation} {ds : List (Deed η)} {e : ActionEnd} {fault? : Option CallFault}

/-! ## One action -/

theorem runAction_congr (ha : m'.actions = m.actions) (hn : m'.name = m.name) :
    m'.runAction phase live i = (m.runAction phase live i : Flow η ActionEnd) := by
  simp only [runAction, runningEntry, ha, hn]

theorem Acted.congr (h : m.Acted phase live i ds e) (ha : m'.actions = m.actions)
    (hn : m'.name = m.name) : m'.Acted phase live i ds e := by
  rw [← runAction_runs_iff] at h ⊢
  rwa [runAction_congr ha hn]

theorem Acted.quiet (h : m.Acted phase live i ds e) : ∀ d ∈ ds, d.failure? = none := by
  cases h <;> simp [calling, Deed.failure?]

/-- An action writes the object that its handler comes to, if it comes to one. -/
theorem Acted.now_eq (h : m.Acted phase live i ds e) :
    e.now live = live.merging ds := by
  cases h with
  | undefined => rfl
  | unregistered => rfl
  | blocked => rfl
  | raised => rfl
  | @strange a handler params v _ _ hv =>
    cases v with
    | obj result => exact absurd rfl hv.2
    | _ => rfl
  | idle _ _ hv => rcases hv with rfl | rfl <;> rfl
  | merged _ _ _ he => exact he

theorem Acted.affect (h : m.Acted phase live i ds e) :
    ds.foldl Deed.affect { m with live } = { m with live := e.now live } := by
  cases h <;> rfl

theorem Acted.unannounced (h : m.Acted phase live i ds e) : .announced ∉ ds := by
  cases h <;> simp [calling]

/-! ## Actions in turn -/

theorem Acts.final_eq (h : m.Acts phase live is ds final fault?) : final = live.merging ds := by
  induction h with
  | nil live => rfl
  | @ran live after final i is ds ds' fault? h _ ih =>
    have hn : after = live.merging ds := h.now_eq
    rw [ih, hn, Live.merging_append]
  | @skipped live final i is ds ds' f fault? _ h _ ih =>
    have hn : live = live.merging ds := h.now_eq
    rw [ih, List.append_cons, Live.merging_append, Live.merging_append, Live.merging_reported, ← hn]
  | aborted _ h =>
    rw [Live.merging_append, Live.merging_reported]
    exact h.now_eq
  | stuck h => exact h.now_eq

theorem Acts.affect (h : m.Acts phase live is ds final fault?) :
    ds.foldl Deed.affect { m with live } = { m with live := final } := by
  induction h with
  | nil live => rfl
  | ran h _ ih =>
    rw [List.foldl_append, h.affect]
    exact ih
  | skipped _ h _ ih =>
    rw [List.foldl_append, h.affect]
    exact ih
  | aborted _ h =>
    rw [List.foldl_append, h.affect]
    rfl
  | stuck h => exact h.affect

/-- Actions among which none fails go alike whatever the policy is. -/
theorem Acts.of_quiet (h : m.Acts phase live is ds final fault?)
    (hq : ∀ d ∈ ds, d.failure? = none) (ha : m'.actions = m.actions) (hn : m'.name = m.name) :
    m'.Acts phase live is ds final fault? := by
  induction h with
  | nil live => exact .nil live
  | ran h _ ih =>
    exact .ran (h.congr ha hn) (ih fun d hd => hq d (List.mem_append_right _ hd))
  | @skipped _ _ _ _ _ _ f =>
    have := hq (.reported (.actionFailed f)) (by simp)
    cases this
  | @aborted _ _ _ _ f =>
    have := hq (.reported (.actionFailed f)) (by simp)
    cases this
  | stuck h => exact .stuck (h.congr ha hn)

/-- Actions announce nothing. -/
theorem Acts.unannounced (h : m.Acts phase live is ds final fault?) : .announced ∉ ds := by
  induction h with
  | nil live => simp
  | ran h _ ih => simp [h.unannounced, ih]
  | skipped _ h _ ih => simp [h.unannounced, ih]
  | aborted _ h => simp [h.unannounced]
  | stuck h => exact h.unannounced

/-! ## Trying transitions -/

theorem trying_quiet (m : Machine) (e : Event) (tried : List Transition) :
    ∀ d ∈ (m.trying e tried : List (Deed η)), d.failure? = none := by
  intro d hd
  rcases List.mem_cons.mp hd with rfl | hd
  · rfl
  · obtain ⟨g, -, rfl⟩ := List.mem_map.mp hd
    rfl

/-- Reports leave a machine as it is. -/
theorem affect_reports (rs : List Report) (m : Machine) :
    (rs.map (.reported : Report → Deed η)).foldl Deed.affect m = m := by
  induction rs with
  | nil => rfl
  | cons r rs ih => exact ih

theorem trying_affect (m : Machine) (e : Event) (tried : List Transition) :
    (m.trying e tried : List (Deed η)).foldl Deed.affect m =
      { m with live := { m.live with started := true } } := by
  have h := affect_reports (η := η)
    ((tried.filterMap (guardFailure? m.live.context e.type)).map .guardFailed)
    { m with live := { m.live with started := true } }
  rw [List.map_map] at h
  exact h

end Machine
end Workflow
