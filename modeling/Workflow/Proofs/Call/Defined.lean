import Workflow.Proofs.Call.Merged
import Workflow.Proofs.Context.Merge

/-!
# Defined states

A machine whose state is one of its chart never comes to another state. It reports that a state is
not found only where a transition that it would take leads nowhere, and it reports it of the target.

Results:
* `Sent.published_defined`, `Started.published_defined`: where a machine comes to.
* `Sent.dangles`, `Started.finds`: what it reports not to have found.
-/
namespace Workflow

namespace Machine

variable {η : Type} {m : Machine} {phase : Phase} {live final : Live} {i : Invocation}
  {is : List Invocation} {ds done more : List (Deed η)} {fault? : Option CallFault} {e : Event}
  {r : Except CallFault Bool}

/-- The state of a machine is one of its chart. -/
def Defined (m : Machine) : Prop := m.chart.states.has m.live.state = true

/-- Actions leave a machine in its state. -/
theorem Acts.state_eq (h : m.Acts phase live is ds final fault?) : final.state = live.state := by
  rw [h.final_eq]
  rfl

theorem Acted.published_state {a : ActionEnd} (h : m.Acted phase live i ds a) :
    ∀ {live'}, .published live' ∈ ds → live'.state = live.state := by
  intro live' hd
  cases h with
  | merged _ _ _ ha =>
    subst ha
    simp only [calling, List.cons_append, List.nil_append, List.mem_cons, reduceCtorEq,
      Deed.published.injEq, List.not_mem_nil, or_false, false_or] at hd
    rw [hd]
  | _ => simp [calling] at hd

theorem Acts.published_state (h : m.Acts phase live is ds final fault?) :
    ∀ {live'}, .published live' ∈ ds → live'.state = live.state := by
  intro live' hd
  induction h with
  | nil live => cases hd
  | @ran live after final i is ds ds' fault? h _ ih =>
    rcases List.mem_append.mp hd with hd | hd
    · exact h.published_state hd
    · have hn : after = live.merging ds := h.now_eq
      rw [ih hd, hn]
      rfl
  | skipped _ h _ ih =>
    rcases List.mem_append.mp hd with hd | hd
    · exact h.published_state hd
    · exact ih ((List.mem_cons.mp hd).resolve_left nofun)
  | aborted _ h =>
    rcases List.mem_append.mp hd with hd | hd
    · exact h.published_state hd
    · cases List.mem_singleton.mp hd
  | stuck h => exact h.published_state hd

theorem Acted.unreported {a : ActionEnd} {x : Report} (h : m.Acted phase live i ds a) :
    .reported x ∉ ds := by
  cases h <;> simp [calling]

/-- Actions report nothing but failed actions. -/
theorem Acts.reported {x : Report} (h : m.Acts phase live is ds final fault?)
    (hx : .reported x ∈ ds) : ∃ f, x = .actionFailed f := by
  induction h with
  | nil live => cases hx
  | ran h _ ih =>
    rcases List.mem_append.mp hx with hx | hx
    · exact absurd hx h.unreported
    · exact ih hx
  | skipped _ h _ ih =>
    rcases List.mem_append.mp hx with hx | hx
    · exact absurd hx h.unreported
    · rcases List.mem_cons.mp hx with hx | hx
      · cases hx
        exact ⟨_, rfl⟩
      · exact ih hx
  | aborted _ h =>
    rcases List.mem_append.mp hx with hx | hx
    · exact absurd hx h.unreported
    · cases List.mem_singleton.mp hx
      exact ⟨_, rfl⟩
  | stuck h => exact absurd hx h.unreported

/-! ## Calls -/

theorem trying_published {tried : List Transition}
    (hl : .published live ∈ (m.trying e tried : List (Deed η))) : live.state = m.live.state := by
  rcases List.mem_cons.mp hl with hl | hl
  · cases hl
    rfl
  · obtain ⟨g, -, hg⟩ := List.mem_map.mp hl
    cases hg

theorem trying_reported {tried : List Transition} {x : Report}
    (hx : .reported x ∈ (m.trying e tried : List (Deed η))) : ∃ g, x = .guardFailed g := by
  rcases List.mem_cons.mp hx with hx | hx
  · cases hx
  · obtain ⟨g, -, hg⟩ := List.mem_map.mp hx
    cases hg
    exact ⟨g, rfl⟩

theorem Defined.ne_none (h : m.Defined) : m.chart.states.get? m.live.state ≠ none := by
  intro hn
  have hd : m.chart.states.has m.live.state = true := h
  rw [Fields.has_eq_isSome, hn] at hd
  cases hd

theorem has_of_get? {name : String} {state : State} (h : m.chart.states.get? name = some state) :
    m.chart.states.has name = true := by
  rw [Fields.has_eq_isSome, h]
  rfl

/-- A machine in a defined state comes to defined states only. -/
theorem Sent.published_defined (h : m.Sent e ds r) (hd : m.Defined) (hl : .published live ∈ ds) :
    m.chart.states.has live.state = true := by
  have here {live : Live} (hs : live.state = m.live.state) :
      m.chart.states.has live.state = true := hs ▸ hd
  cases h with
  | lost h => exact absurd h hd.ne_none
  | unmatched =>
    rcases List.mem_append.mp hl with hl | hl
    · exact here (trying_published hl)
    · cases List.mem_singleton.mp hl
  | overlong => exact here (trying_published hl)
  | @taken before t ds r _ _ ht =>
    rcases List.mem_append.mp hl with hl | hl
    · exact here (trying_published hl)
    · cases ht with
      | dangling => cases List.mem_singleton.mp hl
      | halted _ ha => exact here (ha.published_state hl)
      | entered ht ha he =>
        have there {live : Live} (hs : live.state = t.target) :
            m.chart.states.has live.state = true := hs ▸ has_of_get? ht
        simp only [List.mem_append, List.mem_cons, Deed.published.injEq, reduceCtorEq,
          List.not_mem_nil, or_false, false_or] at hl
        rcases hl with hl | rfl | hl
        · exact here (ha.published_state hl)
        · exact there rfl
        · exact there (he.published_state hl)

theorem Started.published_defined (h : m.Started ds r) (hd : m.Defined)
    (hl : .published live ∈ ds) : m.chart.states.has live.state = true := by
  have here {live : Live} (hs : live.state = m.live.state) :
      m.chart.states.has live.state = true := hs ▸ hd
  cases h with
  | again => cases hl
  | lost _ h => exact absurd h hd.ne_none
  | entered _ _ he =>
    simp only [List.mem_append, List.mem_cons, Deed.published.injEq, reduceCtorEq,
      List.not_mem_nil, or_false] at hl
    rcases hl with rfl | hl
    · exact here rfl
    · exact here (he.published_state hl)

/-- A machine in a defined state finds a state missing only where a transition leads nowhere that it
would take. It is in its state then, and the report names the target. -/
theorem Sent.dangles {target : String} {name : Option String} (h : m.Sent e ds r) (hd : m.Defined)
    (he : done ++ .reported (.stateNotFound target name) :: more = ds) :
    name = m.name ∧ (m.live.state, target) ∈ m.chart.dangling ∧
      (done.foldl Deed.affect m).live.state = m.live.state := by
  have none_tried (tried : List Transition) :
      (.reported (.stateNotFound target name) : Deed η) ∉ m.trying e tried := fun hx => by
    obtain ⟨g, hg⟩ := trying_reported hx
    cases hg
  cases h with
  | lost h => exact absurd h hd.ne_none
  | unmatched h hp =>
    obtain ⟨zs, -, hz⟩ := split_behind he (none_tried _)
    cases zs <;> simp at hz
  | @overlong before =>
    have hm : .reported (.stateNotFound target name) ∈ (m.trying e before : List (Deed η)) :=
      he ▸ List.mem_append_right _ (List.mem_cons_self ..)
    exact absurd hm (none_tried _)
  | @taken before t ds r h hg ht =>
    obtain ⟨zs, rfl, hz⟩ := split_behind he (none_tried _)
    have no_action {x : Report} (hx : ∃ f, x = .actionFailed f) :
        x ≠ .stateNotFound target name := by
      rintro rfl
      obtain ⟨f, hf⟩ := hx
      cases hf
    cases ht with
    | dangling ht =>
      cases zs with
      | nil =>
        cases hz
        obtain ⟨state, hs, ⟨after, hts⟩, -⟩ := h
        refine ⟨rfl, (Chart.mem_dangling ..).mpr ⟨state, t, Fields.mem_of_get? hs, ?_, rfl, ?_⟩, ?_⟩
        · simp [hts]
        · rw [Fields.has_eq_isSome, ht]
          rfl
        · rw [List.append_nil, trying_affect]
      | cons z zs => simp at hz
    | halted _ ha =>
      have hx := ha.reported (hz ▸ List.mem_append_right _ (List.mem_cons_self ..))
      exact absurd rfl (no_action hx)
    | entered _ ha hn =>
      have hm : (.reported (.stateNotFound target name) : Deed η) ∈
        zs ++ .reported (.stateNotFound target name) :: more := by simp
      rw [← hz] at hm
      simp only [List.mem_append, List.mem_cons, reduceCtorEq, List.not_mem_nil, or_false,
        false_or] at hm
      rcases hm with hm | hm
      · exact absurd rfl (no_action (ha.reported hm))
      · exact absurd rfl (no_action (hn.reported hm))

/-- A machine that is started in a defined state finds no state missing. -/
theorem Started.finds {target : String} {name : Option String} (h : m.Started ds r)
    (hd : m.Defined) : .reported (.stateNotFound target name) ∉ ds := by
  intro hm
  cases h with
  | again => cases hm
  | lost _ h => exact absurd h hd.ne_none
  | entered _ _ he =>
    simp only [List.mem_append, List.mem_cons, reduceCtorEq, List.not_mem_nil, or_false,
      false_or] at hm
    obtain ⟨f, hf⟩ := he.reported hm
    cases hf

end Machine
end Workflow
