import Mathlib
import Workflow.Proofs.Call.Beside
import Workflow.Proofs.Call.Merged

/-!
# Failures that leave nothing behind

On a machine that carries on, a failing action might as well not be there. Beside a host whose
answers do not depend on the past, the workflow without the actions that fail on an event does the
same with it, but for what the failing actions do themselves.

Results:
* `Acts.surviving`: actions in turn, without those that fail.
* `reduced_send`: an event on the workflow without the actions that fail on it.
-/
namespace Workflow

variable {η : Type}

/-! ## What is left of some deeds -/

/-- A call of a handler, and what it came to. -/
structure HandlerCall (η : Type) where
  handler : η
  params : Fields Value
  context : Context
  outcome : Outcome

/-- The handler came to an object, or to nothing. -/
def HandlerCall.succeeded (c : HandlerCall η) : Bool :=
  match c.outcome with
  | .ok .null | .ok (.obj _) => true
  | _ => false

/-- The calls of handlers among some deeds. -/
def handlerCalls : List (Deed η) → List (HandlerCall η)
  | .called handler params context :: .answered outcome :: ds =>
    ⟨handler, params, context, outcome⟩ :: handlerCalls ds
  | _ :: ds => handlerCalls ds
  | [] => []

/-- What some deeds of a call on a machine announce. -/
def announcements : Machine → List (Deed η) → List (String × Context)
  | m, .announced :: ds => (m.live.state, m.live.context) :: announcements m ds
  | m, d :: ds => announcements (d.affect m) ds
  | _, [] => []

/-- Some deeds are others without the failures: part of them, in their order, with the same calls of
handlers but for those that do not succeed. -/
structure Thins (ds ds' : List (Deed η)) : Prop where
  part : ds'.Sublist ds
  calls : handlerCalls ds' = (handlerCalls ds).filter HandlerCall.succeeded
  quiet : ∀ d ∈ ds', d.failure? = none

theorem announcements_append (m : Machine) (ds ds' : List (Deed η)) :
    announcements m (ds ++ ds') = announcements m ds ++
      announcements (ds.foldl Deed.affect m) ds' := by
  induction ds generalizing m with
  | nil => rfl
  | cons d ds ih => cases d <;> simp [announcements, ih, Deed.affect]

theorem announcements_of_not_mem {ds : List (Deed η)} (h : .announced ∉ ds) (m : Machine) :
    announcements m ds = [] := by
  induction ds generalizing m with
  | nil => rfl
  | cons d ds ih =>
    have hd := ih fun hm => h (List.mem_cons_of_mem _ hm)
    cases d with
    | announced => exact absurd (List.mem_cons_self ..) h
    | _ => exact hd _

/-- Behind a whole run the calls start anew. -/
theorem Flow.Runs.handlerCalls_append {α : Type} {x : Flow η α} {ds : List (Deed η)} {a : α}
    (h : x.Runs ds a) (ds' : List (Deed η)) :
    handlerCalls (ds ++ ds') = handlerCalls ds ++ handlerCalls ds' := by
  induction h with
  | done a => rfl
  | invoke o _ ih => simp [handlerCalls, ih]
  | _ => simpa [handlerCalls]

namespace Machine

variable {m : Machine} {host : Host η} {phase : Phase} {live after final : Live} {i : Invocation}
  {is : List Invocation} {past ds ds' : List (Deed η)} {r : ActionEnd} {f : ActionFault}
  {fault? : Option CallFault} {e : Event}

/-! ## Actions -/

/-- How an action ends beside a host. -/
def ending (m : Machine) (host : Host η) (phase : Phase) (live : Live) (i : Invocation) :
    ActionEnd :=
  ((m.runAction phase live i).play host []).2

/-- Those of some actions that do not fail when their turn comes. -/
def surviving (m : Machine) (host : Host η) (phase : Phase) : Live → List Invocation →
    List Invocation
  | _, [] => []
  | live, i :: is =>
    match m.ending host phase live i with
    | .ok after => i :: m.surviving host phase after is
    | .failed _ => m.surviving host phase live is
    | .broken _ => i :: is

theorem Acted.ending_eq (hs : host.Steady) (h : m.Acted phase live i ds r)
    (hh : host.Agrees past ds) : m.ending host phase live i = r := by
  have hp := Flow.play_eq_of_runs (runAction_runs_iff.mpr h) (hh.after hs [])
  rw [ending, hp]

/-- An action that goes well calls no handler in vain. -/
theorem Acted.thins (h : m.Acted phase live i ds (.ok after)) : Thins ds ds where
  part := .refl ds
  quiet := h.quiet
  calls := by
    cases h with
    | idle _ _ hv => rcases hv with rfl | rfl <;> rfl
    | merged => rfl

/-- An action that fails calls no handler that succeeds. -/
theorem Acted.calls_of_failed (h : m.Acted phase live i ds (.failed f)) :
    (handlerCalls ds).filter HandlerCall.succeeded = [] := by
  cases h with
  | undefined => rfl
  | unregistered => rfl
  | raised => rfl
  | @strange a handler params v _ _ hv =>
    cases v with
    | null => exact absurd rfl hv.1
    | obj result => exact absurd rfl hv.2
    | _ => rfl

theorem Acted.handlerCalls_append (h : m.Acted phase live i ds r) (ds' : List (Deed η)) :
    handlerCalls (ds ++ ds') = handlerCalls ds ++ handlerCalls ds' :=
  (runAction_runs_iff.mpr h).handlerCalls_append ds'

/-- **Actions in turn, without those that fail.** They come to the same, and do the rest. -/
theorem Acts.surviving (hs : host.Steady) (h : m.Acts phase live is ds final none)
    (hh : host.Agrees past ds) : ∃ ds', m.Acts phase live (m.surviving host phase live is) ds' final
      none ∧ host.Agrees [] ds' ∧ Thins ds ds' := by
  generalize hn : (none : Option CallFault) = none? at h
  induction h generalizing past with
  | nil live => exact ⟨[], .nil live, .nil _, .slnil, rfl, nofun⟩
  | @ran live after final i is ds₁ ds₂ fault? h _ ih =>
    obtain ⟨hh₁, hh₂⟩ := (runAction_runs_iff.mpr h).agrees_append hh
    obtain ⟨ds', ha, hd, ht⟩ := ih hh₂ hn
    refine ⟨ds₁ ++ ds', ?_, (hh₁.after hs []).append (hd.after hs _), ?_⟩
    · rw [Machine.surviving, h.ending_eq hs hh₁]
      exact .ran h ha
    · refine ⟨(List.append_sublist_append_left ds₁).mpr ht.part, ?_, ?_⟩
      · rw [h.handlerCalls_append, h.handlerCalls_append, List.filter_append, ht.calls,
          h.thins.calls]
        simp
      · simpa [or_imp, forall_and] using ⟨h.quiet, ht.quiet⟩
  | @skipped live final i is ds₁ ds₂ f fault? _ h _ ih =>
    obtain ⟨hh₁, hh₂⟩ := (runAction_runs_iff.mpr h).agrees_append hh
    cases hh₂ with
    | reported _ hh₂ =>
      obtain ⟨ds', ha, hd, ht⟩ := ih hh₂ hn
      refine ⟨ds', ?_, hd, ht.part.trans ?_, ?_, ht.quiet⟩
      · rw [Machine.surviving, h.ending_eq hs hh₁]
        exact ha
      · exact (List.sublist_cons_self _ _).trans (List.sublist_append_right _ _)
      · rw [h.handlerCalls_append, List.filter_append, h.calls_of_failed, ht.calls]
        rfl
  | aborted => cases hn
  | stuck => cases hn

end Machine

/-! ## Charts -/

/-- A chart with one state changed. -/
def Chart.amend (c : Chart) (name : String) (change : State → State) : Chart :=
  match c.states.get? name with
  | none => c
  | some state => { c with states := c.states.set name (change state) }

theorem Chart.amend_get? (c : Chart) (name other : String) (change : State → State) :
    (c.amend name change).states.get? other =
      (c.states.get? other).map fun s => if other = name then change s else s := by
  unfold amend
  by_cases h : other = name
  · subst h
    cases hs : c.states.get? other <;> simp [hs]
  · cases hs : c.states.get? name <;> simp [h, Fields.get?_set_of_ne]

/-- Transitions with the one changed that an event takes. -/
def retake (context : Context) (event : String) (change : Transition → Transition) :
    List Transition → List Transition
  | [] => []
  | t :: ts =>
    if t.event = event ∧ Guard.check t.guard context matches .ok true then change t :: ts
    else t :: retake context event change ts

theorem retake_eq {context : Context} {event : String} {change : Transition → Transition}
    {before after : List Transition} {t : Transition} (he : t.event = event)
    (hb : ∀ u ∈ before, Passes context event u) (hg : Guard.check t.guard context = .ok true) :
    retake context event change (before ++ t :: after) = before ++ change t :: after := by
  induction before with
  | nil => simp [retake, he, hg]
  | cons u us ih =>
    have hu : ¬ (u.event = event ∧ Guard.check u.guard context matches .ok true) := by
      rintro ⟨hu, hc⟩
      rcases hb u (List.mem_cons_self ..) hu with h | ⟨f, h⟩ <;> simp [h] at hc
    rw [List.cons_append, retake, if_neg hu, ih fun u hu => hb u (List.mem_cons_of_mem _ hu)]
    rfl

namespace Machine

variable {m : Machine} {host : Host η} {past ds : List (Deed η)} {e : Event} {b : Bool}

/-- What the actions of a transition leave of a machine beside a host. -/
def leaving (m : Machine) (host : Host η) (t : Transition) : Live :=
  ((m.runActions .transition { m.live with started := true } t.actions).play host []).2.1

/-- A transition without the actions that fail when the machine takes it. -/
def withoutFailing (m : Machine) (host : Host η) (t : Transition) : Transition :=
  { t with actions := m.surviving host .transition { m.live with started := true } t.actions }

/-- The chart of a machine without the actions that fail when it takes a transition. -/
def reducedChart (m : Machine) (host : Host η) (e : Event) (t : Transition) : Chart :=
  let chart := m.chart.amend m.live.state fun s =>
    { s with transitions := retake m.live.context e.type (m.withoutFailing host) s.transitions }
  chart.amend t.target fun s =>
    { s with entry := m.surviving host .entry (entering (m.leaving host t) e t) s.entry }

/-- A machine without the actions that fail on an event, if that takes a transition. -/
def reduced (m : Machine) (host : Host η) (e : Event) : Machine :=
  match m.chart.states.get? m.live.state with
  | none => m
  | some state =>
    match (select m.live.context e.type state.transitions).chosen with
    | .ok (some t) =>
      if m.chart.states.has t.target then { m with chart := m.reducedChart host e t } else m
    | _ => m

/-- What two runs of a call have in common, the second without what fails in the first: the result,
what they leave of the machine, what they announce. -/
structure Transparent (m m' : Machine) (all kept : List (Deed η) × Except CallFault Bool) :
    Prop where
  result : kept.2 = all.2
  live : (kept.1.foldl Deed.affect m').live = (all.1.foldl Deed.affect m).live
  announcements : announcements m' kept.1 = announcements m all.1
  thins : Thins all.1 kept.1

theorem handlerCalls_trying (m : Machine) (e : Event) (tried : List Transition)
    (ds : List (Deed η)) : handlerCalls (m.trying e tried ++ ds) = handlerCalls ds := by
  have hr (fs : List Guard.Failure) : handlerCalls
      ((fs.map fun g => (.reported (.guardFailed g) : Deed η)) ++ ds) = handlerCalls ds := by
    induction fs with
    | nil => rfl
    | cons g fs ih => exact ih
  exact hr _

theorem reducedChart_get? (m : Machine) (host : Host η) (e : Event) (t : Transition)
    (name : String) :
    (m.reducedChart host e t).states.get? name = (m.chart.states.get? name).map fun s =>
      { entry := if name = t.target then
          m.surviving host .entry (entering (m.leaving host t) e t) s.entry else s.entry
        transitions := if name = m.live.state then
          retake m.live.context e.type (m.withoutFailing host) s.transitions
          else s.transitions } := by
  rw [reducedChart, Chart.amend_get?, Chart.amend_get?, Option.map_map]
  congr 1
  funext s
  dsimp only [Function.comp]
  split <;> split <;> rfl

theorem reducedChart_target {t : Transition} {target : State} {left : Live}
    (ht : m.chart.states.get? t.target = some target) (hl : m.leaving host t = left) :
    ∃ target', (m.reducedChart host e t).states.get? t.target = some target' ∧
      target'.entry = m.surviving host .entry (entering left e t) target.entry := by
  refine ⟨_, (reducedChart_get? ..).trans (by rw [ht]; rfl), ?_⟩
  rw [← hl]
  exact if_pos rfl

theorem reduced_of_meets {before : List Transition} {t : Transition} (h : m.Meets e before t)
    (hg : Guard.check t.guard m.live.context = .ok true) : m.reduced host e =
      if m.chart.states.has t.target then { m with chart := m.reducedChart host e t } else m := by
  obtain ⟨state, hs, hc⟩ := h
  have hsel := selects_iff.mp (.chosen hc hg)
  simp [reduced, hs, hsel]

/-- The reduced machine comes to the same transition, without the actions that fail. -/
theorem Meets.withoutFailing {before : List Transition} {t : Transition} (h : m.Meets e before t)
    (hg : Guard.check t.guard m.live.context = .ok true) :
    ({ m with chart := m.reducedChart host e t } : Machine).Meets e before
      (m.withoutFailing host t) := by
  obtain ⟨state, hs, ⟨after, hts⟩, he, hb⟩ := h
  refine ⟨_, (reducedChart_get? ..).trans (by rw [hs]; rfl), ⟨after, ?_⟩, he, hb⟩
  simp only [if_true, hts]
  exact retake_eq he hb hg

/-- Where no action runs there is nothing to leave out. -/
theorem Transparent.of_idle {r : Except CallFault Bool} (hq : ∀ d ∈ ds, d.failure? = none)
    (hc : handlerCalls ds = []) : Transparent m m (ds, r) (ds, r) := by
  refine ⟨rfl, rfl, rfl, .refl ds, ?_, hq⟩
  rw [hc]
  rfl

/-- What is tried before a call comes to its end, and a report of its end. -/
theorem Transparent.of_tried {r : Except CallFault Bool} {tried : List Transition} {end_ : Report}
    (he : (.reported end_ : Deed η).failure? = none) :
    Transparent m m (m.trying e tried ++ [(.reported end_ : Deed η)], r)
      (m.trying e tried ++ [.reported end_], r) := by
  refine .of_idle (fun d hd => ?_) (handlerCalls_trying ..)
  rcases List.mem_append.mp hd with hd | hd
  · exact trying_quiet m e tried d hd
  · rw [List.mem_singleton.mp hd]
    exact he

theorem trying_runs (m : Machine) (e : Event) (tried : List Transition) :
    (Flow.publish { m.live with started := true } (Flow.reports
      ((tried.filterMap (guardFailure? m.live.context e.type)).map .guardFailed)
      (.done ())) : Flow η Unit).Runs (m.trying e tried) () := by
  refine .publish (Flow.runs_reports_iff.mpr ⟨[], ?_, .done ()⟩)
  rw [List.append_nil, List.map_map]
  rfl

theorem leaving_eq {t : Transition} {left : Live} {fault? : Option CallFault} (hs : host.Steady)
    (h : m.Acts .transition { m.live with started := true } t.actions ds left fault?)
    (hh : host.Agrees past ds) : m.leaving host t = left := by
  have hp := Flow.play_eq_of_runs (runActions_runs_iff (r := (left, fault?)).mpr h) (hh.after hs [])
  rw [leaving, hp]

/-- What is done for an event that takes a transition: behind the transitions that are tried come
the actions of the transition, and in the target those of its entry. -/
def taking (m : Machine) (e : Event) (tried : List Transition) (t : Transition)
    (ds : List (Deed η)) (left : Live) (ds' : List (Deed η)) : List (Deed η) :=
  m.trying e tried ++ (ds ++ .published (entering left e t) ::
    .logged (m.transitionedEntry m.live.state t.target e.type) :: (ds' ++ [.announced]))

section Taking

variable {tried : List Transition} {t : Transition} {is js : List Invocation} {ds' : List (Deed η)}
  {left final : Live} {fault? : Option CallFault}

theorem taking_calls (tried : List Transition)
    (ha : m.Acts .transition { m.live with started := true } is ds left none)
    (he : m.Acts .entry (entering left e t) js ds' final none) :
    handlerCalls (m.taking e tried t ds left ds') = handlerCalls ds ++ handlerCalls ds' := by
  have h₁ := (runActions_runs_iff (r := (left, none)).mpr ha).handlerCalls_append
  have h₂ := (runActions_runs_iff (r := (final, none)).mpr he).handlerCalls_append
  rw [taking, handlerCalls_trying, h₁]
  simp [handlerCalls, h₂]

theorem taking_affect (tried : List Transition)
    (ha : m.Acts .transition { m.live with started := true } is ds left none)
    (he : m.Acts .entry (entering left e t) js ds' final none) :
    (m.taking e tried t ds left ds').foldl Deed.affect m = { m with live := final } := by
  have hf := he.affect
  rw [taking, List.foldl_append, trying_affect, List.foldl_append, ha.affect, List.foldl_cons,
    List.foldl_cons, List.foldl_append]
  exact hf

theorem taking_announcements (tried : List Transition)
    (ha : m.Acts .transition { m.live with started := true } is ds left none)
    (he : m.Acts .entry (entering left e t) js ds' final none) :
    announcements m (m.taking e tried t ds left ds') = [(final.state, final.context)] := by
  have ht : .announced ∉ (m.trying e tried : List (Deed η)) := by simp [trying]
  have hf := he.affect
  rw [taking, announcements_append, announcements_of_not_mem ht, trying_affect,
    announcements_append, announcements_of_not_mem ha.unannounced, ha.affect]
  change announcements { m with live := entering left e t } (ds' ++ [.announced]) = _
  rw [announcements_append, announcements_of_not_mem he.unannounced, hf]
  rfl

theorem taking_agrees (hs : host.Steady) (ht : host.Agrees [] (m.trying e tried : List (Deed η)))
    (hd : host.Agrees [] ds) (hd' : host.Agrees [] ds') :
    host.Agrees [] (m.taking e tried t ds left ds') := by
  refine ht.append ((hd.after hs _).append (.published _ (.logged _ ?_)))
  exact (hd'.after hs _).append (.announced (.nil _))

theorem taking_sublist {ds₁ ds₁' : List (Deed η)} (h : ds'.Sublist ds) (h' : ds₁'.Sublist ds₁) :
    (m.taking e tried t ds' left ds₁').Sublist (m.taking e tried t ds left ds₁) :=
  (List.append_sublist_append_left _).mpr
    (h.append (((h'.append (.refl _)).cons_cons _).cons_cons _))

theorem taking_quiet (h : ∀ d ∈ ds, d.failure? = none) (h' : ∀ d ∈ ds', d.failure? = none) :
    ∀ d ∈ m.taking e tried t ds left ds', d.failure? = none := by
  intro d hd
  simp only [taking, List.mem_append, List.mem_cons, List.not_mem_nil, or_false] at hd
  rcases hd with hd | hd | rfl | rfl | hd | rfl
  · exact trying_quiet m e tried d hd
  · exact h d hd
  · rfl
  · rfl
  · exact h' d hd
  · rfl

/-- Where a transition is taken alike but for failing actions, they leave nothing behind. -/
theorem Transparent.of_taking {c : Chart} {is' js' : List Invocation} {ds₁ ds₁' : List (Deed η)}
    {r : Except CallFault Bool}
    (ha : m.Acts .transition { m.live with started := true } is ds left none)
    (he : m.Acts .entry (entering left e t) js ds₁ final none)
    (ka : ({ m with chart := c } : Machine).Acts .transition { m.live with started := true } is' ds'
      left none)
    (ke : ({ m with chart := c } : Machine).Acts .entry (entering left e t) js' ds₁' final none)
    (ht : Thins ds ds') (ht' : Thins ds₁ ds₁') :
    Transparent m { m with chart := c } (m.taking e tried t ds left ds₁, r)
      (m.taking e tried t ds' left ds₁', r) where
  result := rfl
  live := by
    have hm := taking_affect tried ha he
    have hk := taking_affect tried ka ke
    exact (congrArg Machine.live hk).trans (congrArg Machine.live hm).symm
  announcements := (taking_announcements tried ka ke).trans (taking_announcements tried ha he).symm
  thins := by
    refine ⟨taking_sublist ht.part ht'.part, ?_, taking_quiet ht.quiet ht'.quiet⟩
    have hk := taking_calls tried ka ke
    change handlerCalls (m.taking e tried t ds' left ds₁') = _ at hk
    rw [hk, taking_calls tried ha he, List.filter_append, ht.calls, ht'.calls]

end Taking

/-- How an event can be processed without the actions that fail on it. -/
theorem Sent.reduced (h : m.Sent e ds (.ok b)) (hs : host.Steady) (hh : host.Agrees [] ds) :
    ∃ ds', (m.reduced host e).Sent e ds' (.ok b) ∧ host.Agrees [] ds' ∧
      Transparent m (m.reduced host e) (ds, .ok b) (ds', .ok b) := by
  generalize hr : (.ok b : Except CallFault Bool) = r at h
  cases h with
  | lost h =>
    have hm : m.reduced host e = m := by rw [Machine.reduced, h]
    rw [hm]
    exact ⟨_, .lost h, hh, .of_tried rfl⟩
  | @unmatched state h hp =>
    have hm : m.reduced host e = m := by
      have hsel := selects_iff.mp (.unmatched hp)
      simp only [Machine.reduced, h, hsel]
    rw [hm]
    exact ⟨_, .unmatched h hp, hh, .of_tried rfl⟩
  | overlong h hg => cases hr
  | @taken before t ds' r h hg ht =>
    rw [reduced_of_meets h hg]
    cases ht with
    | dangling ht =>
      have hd : m.chart.states.has t.target = false := by rw [Fields.has_eq_isSome, ht]; rfl
      rw [hd]
      exact ⟨_, .taken h hg (.dangling ht), hh, .of_tried rfl⟩
    | halted ht ha => cases hr
    | @entered target ds₁ ds₂ left final fault? ht ha he =>
      have hd : m.chart.states.has t.target = true := by rw [Fields.has_eq_isSome, ht]; rfl
      rw [hd, if_pos rfl]
      have hn : fault? = none := by cases fault? <;> simp_all [result]
      subst hn
      obtain ⟨hh₀, hh⟩ := (trying_runs m e before).agrees_append hh
      obtain ⟨hh₁, hh⟩ := (runActions_runs_iff (r := (left, none)).mpr ha).agrees_append hh
      cases hh with
      | published _ hh =>
        cases hh with
        | logged _ hh =>
          obtain ⟨hh₂, -⟩ := (runActions_runs_iff (r := (final, none)).mpr he).agrees_append hh
          obtain ⟨ds₁', ha', hd₁, ht₁⟩ := ha.surviving hs hh₁
          obtain ⟨ds₂', he', hd₂, ht₂⟩ := he.surviving hs hh₂
          obtain ⟨target', ht', hj⟩ := reducedChart_target (e := e) ht (leaving_eq hs ha hh₁)
          -- the same actions on the reduced machine
          have ka : ({ m with chart := m.reducedChart host e t } : Machine).Acts .transition _
            (m.withoutFailing host t).actions ds₁' left none := ha'.of_quiet ht₁.quiet rfl rfl
          have ke : ({ m with chart := m.reducedChart host e t } : Machine).Acts .entry
            (entering left e t) target'.entry ds₂' final none := hj ▸ he'.of_quiet ht₂.quiet rfl rfl
          exact ⟨m.taking e before t ds₁' left ds₂',
            .taken (h.withoutFailing hg) hg (.entered ht' ka ke),
            taking_agrees hs hh₀ hd₁ hd₂, .of_taking ha he ka ke ht₁ ht₂⟩

/-- **Failures leave nothing behind.** Of an event that returns on a machine that carries on, beside
a host whose answers do not depend on the past: once the actions that fail on it are taken out of
the transition and out of the entry of the target, the event has the same result, leaves the machine
the same, announces the same, and calls the same handlers alike but for those that have not
succeeded. No action fails any more, and nothing is done that was not done before. -/
theorem reduced_send (m : Machine) (host : Host η) (e : Event) {b : Bool} (hs : host.Steady)
    (hb : ((m.send e).play host []).2 = .ok b) :
    Transparent m (m.reduced host e) ((m.send e).play host [])
      (((m.reduced host e).send e).play host []) := by
  have hr : m.Sent e ((m.send e).play host []).1 (.ok b) :=
    hb ▸ send_runs_iff.mp (Flow.play_runs ..)
  obtain ⟨ds', hr', hd', ht⟩ := hr.reduced hs (Flow.play_agrees ..)
  have hk : ((m.reduced host e).send e).play host [] = (ds', .ok b) :=
    Flow.play_eq_of_runs (send_runs_iff.mpr hr') hd'
  have hall : (m.send e).play host [] = (((m.send e).play host []).1, .ok b) :=
    Prod.ext rfl hb
  rw [hk, hall]
  exact ht

/-- A machine with actions that fail on the way out and on the way in, in three ways. -/
def failingMachine : Machine where
  chart := { initial := "open", states := [
    ("open", { transitions := [{
      target := "closed", event := "CLOSE"
      actions := [{ action := "lost" }, { action := "mark" },
        { action := "show", params := [("seen", .str "x")] }] }] }),
    ("closed", { entry := [{ action := "count" }, { action := "mark" }] })] }
  actions := [("mark", { category := "data" }), ("show", { category := "ui" }),
    ("count", { category := "api" })]
  live := { state := "open", context := [] }

/-- A host whose handlers are known by their category. One comes to an object, one to a number, one
to an error. -/
def categoryHost : Host String where
  find _ category := some category
  answer _ handler _ _ :=
    if handler = "data" then .ok (.obj [("x", .int 1)])
    else if handler = "api" then .ok (.int 2)
    else .error ⟨"RuntimeError", "boom"⟩

theorem categoryHost_steady : categoryHost.Steady := ⟨fun _ _ => rfl, fun _ _ => rfl⟩

theorem reduced_send_failing : categoryHost.Steady ∧
    ((failingMachine.send { type := "CLOSE" }).play categoryHost []).2 = .ok true ∧
    ((failingMachine.reduced categoryHost { type := "CLOSE" }).chart.states.map fun s =>
      (s.1, s.2.entry.map (·.action), s.2.transitions.map fun t => t.actions.map (·.action))) =
      [("open", [], [["mark"]]), ("closed", ["mark"], [])] ∧
    Transparent failingMachine (failingMachine.reduced categoryHost { type := "CLOSE" })
      ((failingMachine.send { type := "CLOSE" }).play categoryHost [])
      (((failingMachine.reduced categoryHost { type := "CLOSE" }).send { type := "CLOSE" }).play
        categoryHost []) := by
  have hb : ((failingMachine.send { type := "CLOSE" }).play categoryHost []).2 = .ok true := by cbv
  exact ⟨categoryHost_steady, hb, by cbv, reduced_send _ _ _ categoryHost_steady hb⟩

end Machine
end Workflow
