import Workflow.Proofs.Call.Merged

/-!
# What a call writes

What a call merges into the context of its machine can be read off its deeds: the objects that
handlers come to, and the payload of its event once the transition is logged. At each deed, and at
the end, the context is what the call has found with all of that merged into it, in this order. Each
handler is handed that context, and parameters that are resolved against it. Handlers of the
transition's actions come before the payload, those of entry actions behind it.

Results:
* `records_send`, `records_start`: every call is a flow whose deeds record what it merges.
* `Records.ends`, `Records.tells`: what a run of such a flow has merged, at its end and on its way.
-/
namespace Workflow

variable {η α β : Type}

/-! ## Records -/

/-- The entry with which a machine logs that it has taken a transition. -/
def Log.Entry.transitioned (e : Log.Entry) : Bool := e.message == "State machine transitioned"

/-- A deed tells that a transition is taken. -/
def Deed.moves : Deed η → Bool
  | .logged e => e.transitioned
  | _ => false

/-- What has been merged just before a deed and is told by it: the payload of the event. -/
def Deed.merged? (payload : Option Context) (d : Deed η) : Option Context :=
  if d.moves then payload else none

/-- What is merged into the context according to a deed: the object that a handler comes to, or the
payload of the event. -/
def Deed.update? (payload : Option Context) : Deed η → Option Context
  | .answered (.ok (.obj result)) => some result
  | d => d.merged? payload

/-- What is merged into the context according to deeds, in this order. -/
def recorded (payload : Option Context) (ds : List (Deed η)) : List Context :=
  ds.filterMap (Deed.update? payload)

/-- The context behind deeds, if the machine had a certain one before. -/
def Context.behind (now : Context) (ds : List (Deed η)) : Context :=
  ds.foldl (fun context d => match d with
    | .published live => live.context
    | _ => context) now

/-- A context with the object merged into it that a handler comes to, if it comes to one. -/
def Context.answered (context : Context) : Outcome → Context
  | .ok (.obj result) => Fields.merge context result
  | _ => context

theorem Context.behind_affect (ds : List (Deed η)) (m : Machine) :
    (ds.foldl Deed.affect m).live.context = Context.behind m.live.context ds := by
  induction ds generalizing m with
  | nil => rfl
  | cons d ds ih => cases d <;> exact ih _

theorem Context.merged_eq (payload : Option Context) (context : Context) :
    payload.toList.foldl Fields.merge context = Context.update context payload := by
  cases payload <;> rfl

theorem Context.behind_append (now : Context) (ds ds' : List (Deed η)) :
    now.behind (ds ++ ds') = (now.behind ds).behind ds' := List.foldl_append

theorem recorded_append (payload : Option Context) (ds ds' : List (Deed η)) :
    recorded payload (ds ++ ds') = recorded payload ds ++ recorded payload ds' :=
  List.filterMap_append

theorem recorded_cons (payload : Option Context) (d : Deed η) (ds : List (Deed η)) :
    recorded payload (d :: ds) = recorded payload [d] ++ recorded payload ds :=
  recorded_append payload [d] ds

theorem recorded_single (payload : Option Context) (d : Deed η) :
    recorded payload [d] = (d.update? payload).toList := by
  cases h : d.update? payload <;> simp [recorded, h]

theorem recorded_answered (context : Context) (payload : Option Context) (o : Outcome) :
    (recorded payload [(.answered o : Deed η)]).foldl Fields.merge context =
      context.answered o := by
  rcases o with e | v
  · rfl
  · cases v <;> rfl

theorem recorded_moves {d : Deed η} (h : d.moves = true) (context : Context)
    (payload : Option Context) : (recorded payload [d]).foldl Fields.merge context =
      context.update payload := by
  obtain ⟨e, rfl⟩ : ∃ e, d = .logged e := by
    cases d with
    | logged e => exact ⟨e, rfl⟩
    | _ => cases h
  have hu : (Deed.logged e : Deed η).update? payload = payload := if_pos h
  rw [recorded_single, hu, Context.merged_eq]

/-- What is recorded from a deed on, if it is what has been merged, is so from the one before on. -/
theorem Context.behind_cons {payload : Option Context} {now now' due due' : Context} {d : Deed η}
    {ds : List (Deed η)} (h : now'.behind ds = (recorded payload ds).foldl Fields.merge due')
    (hn : now' = now.behind [d]) (hd : due' = (recorded payload [d]).foldl Fields.merge due) :
    now.behind (d :: ds) = (recorded payload (d :: ds)).foldl Fields.merge due := by
  subst hn hd
  rw [recorded_cons, List.foldl_append]
  exact h

/-! ## Flows -/

/-- A chart lists an action for a phase: for a transition, or for the entry of a state. -/
inductive Chart.Lists (c : Chart) : Phase → Invocation → Prop where
  | transition {name : String} {state : State} {t : Transition} {i : Invocation}
    (hs : c.states.get? name = some state) (ht : t ∈ state.transitions) (hi : i ∈ t.actions) :
    Lists c .transition i
  | entry {name : String} {state : State} {i : Invocation}
    (hs : c.states.get? name = some state) (hi : i ∈ state.entry) : Lists c .entry i

namespace Flow

/-- A flow whose deeds record what it merges. Where it begins, the machine has one context, and by
what is recorded so far it should have another one; they differ only until what is due is published.
The phase is the one that the flow has come to: with a transition, that of entry actions. -/
inductive Records (m : Machine) (payload : Option Context) (post : Phase → α → Context → Prop) :
    Phase → Context → Context → Flow η α → Prop where
  | done {phase : Phase} {context : Context} {a : α} (h : post phase a context) :
    Records m payload post phase context context (.done a)
  | report {phase : Phase} {context : Context} (r : Report) {next : Flow η α}
    (h : Records m payload post phase context context next) :
    Records m payload post phase context context (.report r next)
  | announce {phase : Phase} {context : Context} {next : Flow η α}
    (h : Records m payload post phase context context next) :
    Records m payload post phase context context (.announce next)
  | resolve {phase : Phase} {context : Context} {category : String} {next : Option η → Flow η α}
    (h : ∀ found, Records m payload post phase context context (next found)) :
    Records m payload post phase context context (.resolve category next)
  | publish {phase : Phase} {now due : Context} {live : Live} {next : Flow η α}
    (h : Records m payload post phase live.context due next) :
    Records m payload post phase now due (.publish live next)
  /-- An action runs: it is logged, and its handler is called. -/
  | act {phase : Phase} {live : Live} {i : Invocation} {a : Action} {handler : η}
    {params : Fields Value} {next : Outcome → Flow η α} (hc : m.chart.Lists phase i)
    (ha : m.actions.get? i.action = some a)
    (hp : Context.resolveAll live.context i.params = .ok params)
    (h : ∀ o, Records m payload post phase live.context (live.context.answered o) (next o)) :
    Records m payload post phase live.context live.context
      (.log (m.runningEntry phase live i.action a.category)
        (.invoke handler params live.context next))
  /-- A transition is taken: the payload has been merged, and it is logged. -/
  | move {due : Context} {e : Log.Entry} {next : Flow η α} (he : e.transitioned = true)
    (h : Records m payload post .entry (due.update payload) (due.update payload) next) :
    Records m payload post .transition (due.update payload) due (.log e next)

namespace Records

variable {m : Machine} {payload : Option Context} {post : Phase → α → Context → Prop}
  {post' : Phase → β → Context → Prop} {phase : Phase} {now due : Context} {x : Flow η α}

theorem bind {f : α → Flow η β} (h : x.Records m payload post phase now due)
    (hf : ∀ phase a context, post phase a context →
      (f a).Records m payload post' phase context context) :
    (x.bind f).Records m payload post' phase now due := by
  induction h with
  | done h => exact hf _ _ _ h
  | report r _ ih => exact .report r ih
  | announce _ ih => exact .announce ih
  | resolve _ ih => exact .resolve ih
  | publish _ ih => exact .publish ih
  | act hc ha hp _ ih => exact .act hc ha hp ih
  | move he _ ih => exact .move he ih

theorem reports (h : x.Records m payload post phase now now) (rs : List Report) :
    (Flow.reports rs x).Records m payload post phase now now := by
  induction rs with
  | nil => exact h
  | cons r rs ih => exact .report r ih

end Records
end Flow

/-! ## Calls -/

namespace Machine

variable {payload : Option Context} {phase : Phase}

theorem records_settle (m : Machine) (live : Live) (action category : String) (o : Outcome) :
    (settle live action category o : Flow η ActionEnd).Records m payload
      (fun p e context => p = phase ∧ (e.now live).context = context) phase live.context
      (live.context.answered o) := by
  unfold settle
  split
  · exact .done ⟨rfl, rfl⟩
  · exact .done ⟨rfl, rfl⟩
  · split
    · rename_i hr
      rw [List.isEmpty_iff.mp hr]
      exact .done ⟨rfl, rfl⟩
    · exact .publish (.done ⟨rfl, rfl⟩)
  · rename_i v _ hobj
    have hv : live.context.answered (.ok v) = live.context := by
      cases v with
      | obj r => exact absurd rfl (hobj r)
      | _ => rfl
    rw [hv]
    exact .done ⟨rfl, rfl⟩

theorem records_runAction {m : Machine} (live : Live) {i : Invocation}
    (hi : m.chart.Lists phase i) :
    (m.runAction phase live i : Flow η ActionEnd).Records m payload
      (fun p e context => p = phase ∧ (e.now live).context = context) phase live.context
      live.context := by
  unfold runAction
  split
  · exact .done ⟨rfl, rfl⟩
  · rename_i a ha
    refine .resolve fun found => ?_
    cases found with
    | none => exact .done ⟨rfl, rfl⟩
    | some handler =>
      dsimp only
      split
      · exact .done ⟨rfl, rfl⟩
      · rename_i hp
        exact .act hi ha hp fun o => records_settle ..

theorem records_runActions {m : Machine} (live : Live) {is : List Invocation}
    (hi : ∀ i ∈ is, m.chart.Lists phase i) :
    (m.runActions phase live is : Flow η _).Records m payload
      (fun p r context => p = phase ∧ r.1.context = context) phase live.context live.context := by
  induction is generalizing live with
  | nil => exact .done ⟨rfl, rfl⟩
  | cons i is ih =>
    have ih (live : Live) := ih live fun j hj => hi j (List.mem_cons_of_mem _ hj)
    refine (records_runAction live (hi i (List.mem_cons_self ..))).bind fun p e context h => ?_
    obtain ⟨rfl, rfl⟩ := h
    cases e with
    | ok after => exact ih after
    | failed f =>
      refine .report _ ?_
      cases m.failure with
      | carryOn => exact ih live
      | abort => exact .done ⟨rfl, rfl⟩
    | broken f => exact .done ⟨rfl, rfl⟩

/-- A call records what it merges; it ends in any phase, with any result. -/
abbrev Recording (m : Machine) (payload : Option Context) (phase : Phase)
    (x : Flow η (Except CallFault Bool)) (now : Context) : Prop :=
  x.Records m payload (fun _ _ _ => True) phase now now

theorem records_enter {m : Machine} (live : Live) {name : String} {state : State}
    (hs : m.chart.states.get? name = some state) :
    m.Recording payload .entry (m.enter live state : Flow η _) live.context :=
  (records_runActions live fun _ hi => .entry hs hi).bind fun _ _ _ _ =>
    .announce (.done trivial)

theorem records_take {m : Machine} (live : Live) (e : Event) {name : String} {state : State}
    {t : Transition} (hs : m.chart.states.get? name = some state) (ht : t ∈ state.transitions) :
    m.Recording e.payload .transition (m.take live e t : Flow η _) live.context := by
  unfold take
  split
  · exact .report _ (.done trivial)
  · rename_i target hg
    refine (records_runActions live fun _ hi => .transition hs ht hi).bind
      fun p r context h => ?_
    obtain ⟨rfl, rfl⟩ := h
    obtain ⟨after, _ | f⟩ := r
    · have hn : m.Recording e.payload .entry (m.enter (entering after e t) target : Flow η _)
          (entering after e t).context := records_enter _ hg
      exact .publish (.move rfl hn)
    · exact .done trivial

theorem records_send (m : Machine) (e : Event) :
    m.Recording e.payload .transition (m.send e : Flow η _) m.live.context := by
  refine .publish ?_
  split
  · exact .report _ (.done trivial)
  · rename_i state hs
    refine .reports ?_ _
    split
    · exact .done trivial
    · exact .report _ (.done trivial)
    · rename_i t ht
      exact records_take { m.live with started := true } e hs (select_chosen_mem ht).1

theorem records_start (m : Machine) :
    m.Recording none .entry (m.start : Flow η _) m.live.context := by
  unfold start
  split
  · exact .done trivial
  · refine .publish ?_
    split
    · exact .report _ (.done trivial)
    · rename_i hs
      exact records_enter { m.live with started := true } hs

end Machine

/-! ## Runs -/

namespace Flow

/-- What a flow has merged when it comes to a deed, and what the deed says of it. The flow began in
a phase, with one context of the machine and another one that was due. -/
structure Tells (m : Machine) (payload : Option Context) (phase : Phase) (now due : Context)
    (done : List (Deed η)) (d : Deed η) : Prop where
  /-- The context is what is recorded, also of what the deed tells to be merged already. -/
  context : (∀ live, d ≠ .published live) → now.behind done =
    (recorded payload done ++ (d.merged? payload).toList).foldl Fields.merge due
  /-- A handler is handed what is recorded, and parameters that are resolved against it. -/
  called : ∀ handler params context, d = .called handler params context →
    context = (recorded payload done).foldl Fields.merge due ∧
    ∃ phase' live i a before, done = before ++ [.logged (m.runningEntry phase' live i.action a)] ∧
      m.chart.Lists phase' i ∧ (m.actions.get? i.action).map Action.category = some a ∧
      Context.resolveAll context i.params = .ok params ∧
      (phase' = .entry ↔ phase = .entry ∨ ∃ d' ∈ done, d'.moves = true)
  /-- What is answered is answered by the handler that was called last. -/
  answered : ∀ o, d = .answered o → ∃ handler params context before,
    done = before ++ [.called handler params context]
  /-- A transition is taken once at most, and not where entry actions run from the beginning. -/
  moved : d.moves = true → phase = .transition ∧ ∀ d' ∈ done, d'.moves = false

namespace Tells

variable {m : Machine} {payload : Option Context} {phase phase' : Phase}
  {now now' due due' : Context} {done : List (Deed η)} {d d₀ : Deed η}

/-- The first deed of a flow. -/
theorem first (hn : (∀ live, d ≠ .published live) →
      now = (d.merged? payload).toList.foldl Fields.merge due)
    (hc : ∀ handler params context, d ≠ .called handler params context) (ha : ∀ o, d ≠ .answered o)
    (hm : d.moves = true → phase = .transition) : Tells m payload phase now due [] d where
  context := hn
  called handler params context hd := absurd hd (hc handler params context)
  answered o hd := absurd hd (ha o)
  moved hd := ⟨hm hd, nofun⟩

/-- What is told from a deed on is told from the one before it on. -/
theorem cons (h : Tells m payload phase' now' due' done d) (hn : now' = now.behind [d₀])
    (hd : due' = (recorded payload [d₀]).foldl Fields.merge due)
    (hp : phase' = .entry ↔ phase = .entry ∨ d₀.moves = true) :
    Tells m payload phase now due (d₀ :: done) d := by
  subst hn hd
  have hr := recorded_cons payload d₀ done
  refine ⟨fun hx => ?_, fun handler params context hx => ?_, fun o hx => ?_, fun hx => ?_⟩
  · rw [hr, List.append_assoc, List.foldl_append]
    exact h.context hx
  · obtain ⟨hc, phase'', live, i, a, before, hb, hl, ha, hres, he⟩ := h.called _ _ _ hx
    refine ⟨by rw [hr, List.foldl_append, hc], phase'', live, i, a, d₀ :: before, by rw [hb]; rfl,
      hl, ha, hres, ?_⟩
    rw [he, hp, or_assoc]
    simp
  · obtain ⟨handler, params, context, before, hb⟩ := h.answered o hx
    exact ⟨handler, params, context, d₀ :: before, by rw [hb]; rfl⟩
  · obtain ⟨hphase, hmoves⟩ := h.moved hx
    have hne : ¬ (phase = .entry ∨ d₀.moves = true) := by
      rw [← hp, hphase]
      nofun
    rw [not_or, Bool.not_eq_true] at hne
    refine ⟨?_, ?_⟩
    · cases phase with
      | transition => rfl
      | entry => exact absurd rfl hne.1
    · simpa using ⟨hne.2, hmoves⟩

end Tells

namespace Records

variable {m : Machine} {payload : Option Context} {post : Phase → α → Context → Prop}
  {phase : Phase} {now due : Context} {x : Flow η α} {done more ds : List (Deed η)} {d : Deed η}
  {a : α}

/-- At the end of its run, a flow has merged what is recorded. -/
theorem ends (h : x.Records m payload post phase now due) (hr : x.Runs ds a) :
    now.behind ds = (recorded payload ds).foldl Fields.merge due := by
  induction h generalizing ds with
  | done =>
    obtain ⟨rfl, -⟩ := runs_done_iff.mp hr
    rfl
  | report r _ ih => cases hr with | report hr => exact Context.behind_cons (ih hr) rfl rfl
  | announce _ ih => cases hr with | announce hr => exact Context.behind_cons (ih hr) rfl rfl
  | resolve _ ih =>
    cases hr with | resolve found hr => exact Context.behind_cons (ih found hr) rfl rfl
  | publish _ ih => cases hr with | publish hr => exact Context.behind_cons (ih hr) rfl rfl
  | act _ _ _ _ ih =>
    cases hr with
    | log hr =>
      cases hr with
      | invoke o hr =>
        have h := Context.behind_cons (ih o hr) rfl (recorded_answered _ payload o).symm
        exact Context.behind_cons (Context.behind_cons h rfl rfl) rfl rfl
  | @move _ e _ he _ ih =>
    have hm : (Deed.logged e : Deed η).moves = true := he
    cases hr with
    | log hr => exact Context.behind_cons (ih hr) rfl (recorded_moves hm _ payload).symm

/-- On its way, a flow has merged what is recorded and told. -/
theorem tells (h : x.Records m payload post phase now due) (hr : x.Runs (done ++ d :: more) a) :
    Tells m payload phase now due done d := by
  induction h generalizing done with
  | done =>
    obtain ⟨hd, -⟩ := runs_done_iff.mp hr
    simp at hd
  | report r _ ih =>
    cases done with
    | nil =>
      cases hr
      exact .first (fun _ => rfl) nofun nofun nofun
    | cons d₀ done => cases hr with | report hr => exact (ih hr).cons rfl rfl (by simp [Deed.moves])
  | announce _ ih =>
    cases done with
    | nil =>
      cases hr
      exact .first (fun _ => rfl) nofun nofun nofun
    | cons d₀ done =>
      cases hr with | announce hr => exact (ih hr).cons rfl rfl (by simp [Deed.moves])
  | resolve _ ih =>
    cases done with
    | nil =>
      cases hr
      exact .first (fun _ => rfl) nofun nofun nofun
    | cons d₀ done =>
      cases hr with | resolve found hr => exact (ih found hr).cons rfl rfl (by simp [Deed.moves])
  | publish _ ih =>
    cases done with
    | nil =>
      cases hr
      exact .first (fun h => absurd rfl (h _)) nofun nofun nofun
    | cons d₀ done =>
      cases hr with | publish hr => exact (ih hr).cons rfl rfl (by simp [Deed.moves])
  | @act phase live i a handler params next hc ha hp _ ih =>
    have hm : (m.runningEntry phase live i.action a.category).transitioned = false := rfl
    have idle {phase : Phase} {d : Deed η} (hd : d.moves = false) :
      phase = .entry ↔ phase = .entry ∨ d.moves = true := by simp [hd]
    -- the action is logged, its handler is called, and it is answered
    rcases done with _ | ⟨d₀, _ | ⟨d₁, _ | ⟨d₂, done⟩⟩⟩
    · cases hr
      exact .first (fun _ => rfl) nofun nofun fun h => by
        rw [Deed.moves, hm] at h
        cases h
    · cases hr with
      | log hr =>
        cases hr
        refine ⟨fun _ => rfl, fun handler params context h => ?_, nofun, nofun⟩
        cases h
        exact ⟨rfl, phase, live, i, a.category, [], rfl, hc, by rw [ha]; rfl, hp,
          by simp [Deed.moves, hm]⟩
    · cases hr with
      | log hr =>
        cases hr
        refine ⟨fun _ => rfl, nofun, fun o _ => ⟨handler, params, live.context, [_], rfl⟩, nofun⟩
    · cases hr with
      | log hr =>
        cases hr with
        | invoke o hr =>
          have h := (ih o hr).cons rfl (recorded_answered _ payload o).symm (idle rfl)
          exact (h.cons rfl rfl (idle rfl)).cons rfl rfl (idle hm)
  | @move _ e _ he _ ih =>
    have hm : (Deed.logged e : Deed η).moves = true := he
    cases done with
    | nil =>
      cases hr
      refine .first (fun _ => ?_) nofun nofun fun _ => rfl
      rw [Deed.merged?, if_pos hm, Context.merged_eq]
    | cons d₀ done =>
      cases hr with
      | log hr => exact (ih hr).cons rfl (recorded_moves hm _ payload).symm (by simp [hm])

end Records

end Flow
end Workflow
