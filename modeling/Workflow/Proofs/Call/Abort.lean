import Workflow.Proofs.Call.Beside
import Workflow.Proofs.Call.Merged

/-!
# Aborted calls

A machine that aborts goes like one that carries on, up to the first failed action. There the call
ends with the failure. A machine that has left its state for another one by then is announced.

Results:
* `Acts.cut`: actions that are carried on come to the first failure like those that are aborted.
* `Sent.fails`: where the first failed action of an event is found.
* `abort_cuts`: an aborted event is one that is carried on, cut behind the first failed action.
-/
namespace Workflow

variable {η : Type}

/-- What a call still does when an action of a phase has failed that ends it. -/
def Phase.closing : Phase → List (Deed η)
  | .transition => []
  | .entry => [.announced]

theorem not_mem_of_quiet {ds : List (Deed η)} (h : ∀ d ∈ ds, d.failure? = none) (f : ActionFault) :
    .reported (.actionFailed f) ∉ ds := fun hm => nomatch h _ hm

/-- Of deeds among which failures are reported, one reports the first. -/
theorem first_failure {ds : List (Deed η)} (h : ¬ ∀ d ∈ ds, d.failure? = none) :
    ∃ before f after, ds = before ++ .reported (.actionFailed f) :: after ∧
      ∀ d ∈ before, d.failure? = none := by
  induction ds with
  | nil => exact absurd nofun h
  | cons d ds ih =>
    by_cases hd : d.failure? = none
    · have hn : ¬ ∀ d ∈ ds, d.failure? = none := fun hn => h (List.forall_mem_cons.mpr ⟨hd, hn⟩)
      obtain ⟨before, f, after, rfl, hb⟩ := ih hn
      exact ⟨d :: before, f, after, rfl, List.forall_mem_cons.mpr ⟨hd, hb⟩⟩
    · refine ⟨[], ?_⟩
      unfold Deed.failure? at hd
      split at hd
      · exact ⟨_, ds, rfl, nofun⟩
      · exact absurd rfl hd

namespace Machine

variable {m : Machine} {phase : Phase} {live final : Live} {is : List Invocation}
  {ds before after : List (Deed η)} {fault? : Option CallFault} {f : ActionFault} {e : Event}
  {r : Except CallFault Bool}

/-- The machine under another policy for failures. -/
def under (m : Machine) (p : FailurePolicy) : Machine := { m with failure := p }

/-- Some actions come in turn without failing, and then one that fails. -/
inductive Stumbles (m : Machine) (phase : Phase) (f : ActionFault) :
    Live → List Invocation → List (Deed η) → Live → Prop where
  | here {live : Live} {i : Invocation} {is : List Invocation} {ds : List (Deed η)}
    (h : m.Acted phase live i ds (.failed f)) : Stumbles m phase f live (i :: is) ds live
  | later {live after now : Live} {i : Invocation} {is : List Invocation} {ds ds' : List (Deed η)}
    (h : m.Acted phase live i ds (.ok after)) (hs : Stumbles m phase f after is ds' now) :
    Stumbles m phase f live (i :: is) (ds ++ ds') now

theorem Stumbles.merging (h : m.Stumbles phase f live is ds final) : final = live.merging ds := by
  induction h with
  | here h => exact h.now_eq
  | @later live after now i is ds ds' h _ ih =>
    have hn : after = live.merging ds := h.now_eq
    rw [ih, hn, Live.merging_append]

/-- Where actions are aborted, they end with the first that fails. -/
theorem Stumbles.acts (h : m.Stumbles phase f live is ds final) (hp : m.failure = .abort) :
    m.Acts phase live is (ds ++ [.reported (.actionFailed f)]) final (some (.action f)) := by
  induction h with
  | here h => exact .aborted hp h
  | later h _ ih =>
    rw [List.append_assoc]
    exact .ran h ih

/-- Actions that are carried on come to the first failure like those that are aborted. -/
theorem Acts.cut (h : (m.under .carryOn).Acts phase live is ds final fault?)
    (he : before ++ .reported (.actionFailed f) :: after = ds)
    (hb : ∀ d ∈ before, d.failure? = none) :
    ∃ now, (m.under .abort).Stumbles phase f live is before now := by
  induction h generalizing before with
  | nil live => simp at he
  | ran h _ ih =>
    obtain ⟨zs, rfl, hz⟩ := split_behind he (not_mem_of_quiet h.quiet f)
    obtain ⟨now, hn⟩ := ih hz.symm fun d hd => hb d (List.mem_append_right _ hd)
    exact ⟨now, .later (h.congr rfl rfl) hn⟩
  | skipped _ h _ _ =>
    obtain ⟨zs, rfl, hz⟩ := split_behind he (not_mem_of_quiet h.quiet f)
    cases zs with
    | nil =>
      cases hz
      rw [List.append_nil]
      exact ⟨_, .here (h.congr rfl rfl)⟩
    | cons z zs =>
      obtain ⟨rfl, -⟩ := List.cons.inj hz
      exact absurd (hb _ (List.mem_append_right _ (List.mem_cons_self ..))) nofun
  | aborted ha _ => cases ha
  | stuck h =>
    exact absurd (he ▸ List.mem_append_right _ (List.mem_cons_self ..)) (not_mem_of_quiet h.quiet f)

/-! ## Events -/

/-- How an event comes to its first failed action: in which phase, what is done until then, and what
the machine has by then. An action of the transition fails in the old state, before the payload is
merged; an entry action fails in the new state, when the payload has been merged. All that the
actions before have come to is merged in its turn. -/
inductive Fails (m : Machine) (e : Event) (f : ActionFault) :
    Phase → List (Deed η) → Live → Prop where
  | leaving {tried : List Transition} {t : Transition} {target : State} {ds : List (Deed η)}
    {now : Live} (h : m.Meets e tried t) (hg : Guard.check t.guard m.live.context = .ok true)
    (ht : m.chart.states.get? t.target = some target)
    (hs : m.Stumbles .transition f { m.live with started := true } t.actions ds now) :
    Fails m e f .transition (m.trying e tried ++ ds)
      (Live.merging { m.live with started := true } ds)
  | entering {tried : List Transition} {t : Transition} {target : State}
    {ds ds' : List (Deed η)} {left now : Live} (h : m.Meets e tried t)
    (hg : Guard.check t.guard m.live.context = .ok true)
    (ht : m.chart.states.get? t.target = some target)
    (ha : m.Acts .transition { m.live with started := true } t.actions ds left none)
    (hs : m.Stumbles .entry f (entering left e t) target.entry ds' now) :
    Fails m e f .entry
      (m.trying e tried ++ (ds ++ .published (entering left e t) ::
        .logged (m.transitionedEntry m.live.state t.target e.type) :: ds'))
      ((entering (Live.merging { m.live with started := true } ds) e t).merging ds')

/-- An event that is carried on and has no failed action goes alike when it is aborted. -/
theorem Sent.of_quiet (h : (m.under .carryOn).Sent e ds r) (hq : ∀ d ∈ ds, d.failure? = none) :
    (m.under .abort).Sent e ds r := by
  cases h with
  | lost h => exact .lost h
  | unmatched h hp => exact .unmatched h hp
  | overlong h hg => exact .overlong h hg
  | taken h hg ht =>
    refine .taken h hg ?_
    have hq := fun d hd => hq d (List.mem_append_right _ hd)
    cases ht with
    | dangling ht => exact .dangling ht
    | halted ht ha => exact .halted ht (ha.of_quiet hq rfl rfl)
    | entered ht ha he =>
      refine .entered ht (ha.of_quiet (fun d hd => hq d ?_) rfl rfl)
        (he.of_quiet (fun d hd => hq d ?_) rfl rfl)
      · simp [hd]
      · simp [hd]

/-- Where the first failed action of an event is found. -/
theorem Sent.fails (h : (m.under .carryOn).Sent e ds r)
    (he : before ++ .reported (.actionFailed f) :: after = ds)
    (hb : ∀ d ∈ before, d.failure? = none) :
    ∃ phase live, (m.under .abort).Fails e f phase before live := by
  have none_tried (tried : List Transition) :
      (.reported (.actionFailed f) : Deed η) ∉ (m.under .carryOn).trying e tried :=
    not_mem_of_quiet (trying_quiet _ e tried) f
  cases h with
  | lost h =>
    obtain ⟨zs, -, hz⟩ := split_behind he (none_tried _)
    cases zs <;> simp at hz
  | unmatched h hp =>
    obtain ⟨zs, -, hz⟩ := split_behind he (none_tried _)
    cases zs <;> simp at hz
  | overlong h hg =>
    have hm : (.reported (.actionFailed f) : Deed η) ∈ (m.under .carryOn).trying e _ :=
      he ▸ List.mem_append_right _ (List.mem_cons_self ..)
    exact absurd hm (none_tried _)
  | taken h hg ht =>
    obtain ⟨zs, rfl, hz⟩ := split_behind he (none_tried _)
    have hb := fun d hd => hb d (List.mem_append_right _ hd)
    cases ht with
    | dangling ht => cases zs <;> simp at hz
    | halted ht ha =>
      obtain ⟨now, hs⟩ := ha.cut hz.symm hb
      exact ⟨_, _, .leaving h hg ht hs⟩
    | @entered target ds₁ ds₂ left final fault? ht ha hn =>
      rcases List.append_eq_append_iff.mp hz with ⟨ys, rfl, hy⟩ | ⟨ys, rfl, hy⟩
      · -- the actions of the transition have gone well
        change [_, _] ++ ds₂ ++ _ = _ at hy
        rw [List.append_assoc] at hy
        obtain ⟨ws, rfl, hw⟩ := split_behind hy.symm (by simp)
        obtain ⟨us, rfl⟩ := split_ahead hw.symm (by simp)
        obtain ⟨now, hs⟩ := hn.cut rfl fun d hd => hb d (by simp [hd])
        exact ⟨_, _, .entering h hg ht
          (ha.of_quiet (fun d hd => hb d (List.mem_append_left _ hd)) rfl rfl) hs⟩
      · cases ys with
        | nil => cases hy
        | cons y ys =>
          obtain ⟨rfl, -⟩ := List.cons.inj hy
          obtain ⟨now, hs⟩ := ha.cut rfl hb
          exact ⟨_, _, .leaving h hg ht hs⟩

/-- What becomes of an event that is aborted at its first failed action. -/
theorem Fails.sent (h : m.Fails e f phase before live) (hp : m.failure = .abort) :
    m.Sent e (before ++ .reported (.actionFailed f) :: phase.closing) (.error (.action f)) ∧
      (List.foldl Deed.affect m
        (before ++ .reported (.actionFailed f) :: phase.closing)).live = live := by
  cases h with
  | @leaving tried t target ds now h hg ht hs =>
    have ha := hs.acts hp
    have hf := ha.affect
    rw [List.append_assoc]
    refine ⟨.taken h hg (.halted ht ha), ?_⟩
    rw [List.foldl_append, trying_affect]
    exact (congrArg Machine.live hf).trans hs.merging
  | @entering tried t target ds ds' left now h hg ht ha hs =>
    have he := hs.acts hp
    have hr : m.Sent e _ (.error (.action f)) := .taken h hg (.entered ht ha he)
    have hf := he.affect
    rw [List.foldl_append] at hf
    refine ⟨by simpa [Phase.closing] using hr, ?_⟩
    rw [List.foldl_append, List.foldl_append, trying_affect, List.foldl_append, ha.affect]
    refine (congrArg Machine.live hf).trans ?_
    rw [hs.merging, ha.final_eq]

/-- What a machine has behind some deeds does not depend on anything else about it. -/
theorem affect_live_congr {m m' : Machine} (h : m.live = m'.live) (ds : List (Deed η)) :
    (ds.foldl Deed.affect m).live = (ds.foldl Deed.affect m').live := by
  induction ds generalizing m m' with
  | nil => exact h
  | cons d ds ih =>
    refine ih ?_
    cases d with
    | published live => rfl
    | _ => exact h

/-- **An aborted event is one that is carried on, cut behind the first failed action**, beside any
host. If no action fails when the machine carries on, nothing differs. Otherwise the aborted event
is the same up to and including the report of the first failure, `send` raises that failure, and
nothing more is done but for one announcement if an entry action has failed. What the machine then
has is what `Fails` says of the phase of the failure. -/
theorem abort_cuts (m : Machine) (host : Host η) (past : List (Deed η)) (e : Event) :
    let c := ((m.under .carryOn).send e).play host past
    let a := ((m.under .abort).send e).play host past
    let left (p : FailurePolicy) (ds : List (Deed η)) := (ds.foldl Deed.affect (m.under p)).live
    ((∀ d ∈ c.1, d.failure? = none) ∧ a = c ∧ left .abort a.1 = left .carryOn c.1) ∨
      ∃ phase before f after live, (m.under .abort).Fails e f phase before live ∧
        (∀ d ∈ before, d.failure? = none) ∧
        c.1 = before ++ .reported (.actionFailed f) :: after ∧
        a = (before ++ .reported (.actionFailed f) :: phase.closing, .error (.action f)) ∧
        left .abort a.1 = live := by
  intro c a left
  have hc : (m.under .carryOn).Sent e c.1 c.2 := send_runs_iff.mp (Flow.play_runs ..)
  have hh : host.Agrees past c.1 := Flow.play_agrees ..
  by_cases hq : ∀ d ∈ c.1, d.failure? = none
  · have ha : a = c := Flow.play_eq_of_runs (send_runs_iff.mpr (hc.of_quiet hq)) hh
    refine .inl ⟨hq, ha, ?_⟩
    rw [ha]
    exact affect_live_congr (show (m.under .abort).live = (m.under .carryOn).live from rfl) c.1
  · right
    obtain ⟨before, f, after, he, hb⟩ := first_failure hq
    obtain ⟨phase, live, hf⟩ := hc.fails he.symm hb
    obtain ⟨hs, hl⟩ := hf.sent rfl
    have ha : a = (before ++ .reported (.actionFailed f) :: phase.closing, .error (.action f)) := by
      refine Flow.play_eq_of_runs (send_runs_iff.mpr hs) ?_
      rw [he] at hh
      rw [List.append_cons]
      refine hh.upTo.append ?_
      cases phase with
      | transition => exact .nil _
      | entry => exact .announced (.nil _)
    exact ⟨phase, before, f, after, live, hf, hb, he, ha, ha ▸ hl⟩

end Machine
end Workflow
