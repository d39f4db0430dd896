import Workflow.Engine
import Workflow.Proofs.Call.Beside
import Workflow.Proofs.Call.Entered
import Workflow.Proofs.Call.Written
import Workflow.Proofs.Context.Merge

/-!
# When a payload is seen

An event is processed in two parts. In the first one a transition is chosen and its actions run; for
that only the name of the event matters. In the second one the payload is merged and the target is
entered. So events of one name do the same up to there, whatever they carry. From there on each name
in the payload has its value, until an entry action writes the name.

Results:
* `send_eq_bind`, `engineSend_eq`: an event in two parts, the first without the payload.
* `Acts.faithful`: which names keep their values while actions run, and what handlers are handed.
* `payload_unseen`: events of one name differ first where their payloads are merged.
-/
namespace Workflow

variable {η α β : Type}

/-! ## Flows that are joined -/

namespace Flow

theorem reports_bind (rs : List Report) (x : Flow η α) (f : α → Flow η β) :
    (reports rs x).bind f = reports rs (x.bind f) := by
  induction rs with
  | nil => rfl
  | cons r rs ih => exact congrArg (report r) ih

/-- A host plays joined flows one behind the other. -/
theorem play_bind (host : Host η) (x : Flow η α) (f : α → Flow η β) (past : List (Deed η)) :
    (x.bind f).play host past =
      ((x.play host past).1 ++
          ((f (x.play host past).2).play host (past ++ (x.play host past).1)).1,
        ((f (x.play host past).2).play host (past ++ (x.play host past).1)).2) := by
  induction x generalizing past with
  | done a => simp [play]
  | log e next ih => simp [bind, play, ih]
  | report r next ih => simp [bind, play, ih]
  | publish live next ih => simp [bind, play, ih]
  | announce next ih => simp [bind, play, ih]
  | resolve category next ih => simp [bind, play, ih]
  | invoke handler params context next ih => simp [bind, play, ih]

end Flow

theorem Engine.ofFlow_bind {μ : Type} [Recorder μ] (send : Sender μ) (machine : Nat)
    (x : Flow (Handler μ) α) (f : α → Flow (Handler μ) β) :
    ofFlow send machine (x.bind f) =
      (ofFlow send machine x).bind fun a => ofFlow send machine (f a) := by
  induction x with
  | done a => rfl
  | resolve category next ih =>
    exact congrArg (Process.act id) (funext fun e => ih _)
  | invoke h params context next ih =>
    rw [Flow.bind, ofFlow, ofFlow, Process.bind_assoc]
    exact congrArg _ (funext ih)
  | _ => simp_all [Flow.bind, ofFlow, Process.bind, Process.change]

/-! ## The part without the payload -/

/-- How the part of an event ends that comes before its payload is merged. -/
inductive Departure where
  /-- The call is over. -/
  | stays (r : Except CallFault Bool)
  /-- The actions of a transition have run, and its target is there. -/
  | leaves (left : Live) (t : Transition) (target : State)

namespace Machine

/-- Runs the actions of a transition, if its target is there. -/
def leave (m : Machine) (live : Live) (t : Transition) : Flow η Departure :=
  match m.chart.states.get? t.target with
  | none => .report (.stateNotFound t.target m.name) (.done (.stays (.ok false)))
  | some target => (m.runActions .transition live t.actions).bind fun
    | (_, some f) => .done (.stays (.error f))
    | (left, none) => .done (.leaves left t target)

/-- Chooses a transition for the events of a name, and runs its actions. -/
def depart (m : Machine) (event : String) : Flow η Departure :=
  let live := { m.live with started := true }
  .publish live <|
    match m.chart.states.get? live.state with
    | none => .report (.stateNotFound live.state m.name) (.done (.stays (.ok false)))
    | some state =>
      let s := select live.context event state.transitions
      .reports (s.failures.map .guardFailed) <|
        match s.chosen with
        | .error t => .done (.stays (.error (.guardNumeral t)))
        | .ok none => .report (.noTransition event live.state) (.done (.stays (.ok false)))
        | .ok (some t) => m.leave live t

/-- Merges the payload of an event and enters the target. -/
def arrive (m : Machine) (e : Event) : Departure → Flow η (Except CallFault Bool)
  | .stays r => .done r
  | .leaves left t target => .publish (entering left e t) <|
    .log (m.transitionedEntry m.live.state t.target e.type) <| m.enter (entering left e t) target

theorem take_eq_bind (m : Machine) (e : Event) (t : Transition) :
    (m.take { m.live with started := true } e t : Flow η _) =
      (m.leave { m.live with started := true } t).bind (m.arrive e) := by
  unfold take leave
  cases m.chart.states.get? t.target with
  | none => rfl
  | some target =>
    dsimp only
    rw [Flow.bind_assoc]
    refine congrArg _ (funext fun r => ?_)
    obtain ⟨left, _ | f⟩ := r <;> rfl

/-- An event in two parts, the first of which depends on its name alone. -/
theorem send_eq_bind (m : Machine) (e : Event) :
    (m.send e : Flow η _) = (m.depart e.type).bind (m.arrive e) := by
  refine congrArg (Flow.publish _) ?_
  dsimp only
  cases m.chart.states.get? m.live.state with
  | none => rfl
  | some state =>
    dsimp only
    rw [Flow.reports_bind]
    refine congrArg (Flow.reports _) ?_
    rcases (select m.live.context e.type state.transitions).chosen with x | (_ | t)
    · rfl
    · rfl
    · exact take_eq_bind m e t

end Machine

/-- An event that is sent to a machine of an engine, in two parts. -/
theorem engineSend_eq {μ : Type} [Recorder μ] (most machine : Nat) (e : Event) :
    (Engine.send most machine e : Process (Engine μ) _) =
      Engine.underLock machine fun m =>
        (Engine.ofFlow (Engine.sendWithin most) machine (m.depart e.type)).bind fun d =>
          Engine.ofFlow (Engine.sendWithin most) machine (m.arrive e d) := by
  rw [Engine.send, Engine.sendWithin]
  refine congrArg (Engine.underLock machine) (funext fun m => ?_)
  rw [Machine.send_eq_bind, Engine.ofFlow_bind]

/-! ## What actions keep -/

/-- At each point of some deeds, the names that no object has had to which a handler has come stand
for what they stood for before. Each handler is handed the context of the machine at that point. -/
structure Faithful (now : Context) (ds : List (Deed η)) : Prop where
  keeps : ∀ before after k, ds = before ++ after → (∀ r ∈ results before, r.has k = false) →
    (now.behind before).get? k = now.get? k
  called : ∀ before after handler params context,
    ds = before ++ .called handler params context :: after → context = now.behind before

namespace Faithful

variable {now : Context} {ds ds' : List (Deed η)}

theorem nil (now : Context) : Faithful now ([] : List (Deed η)) where
  keeps before after k he _ := by
    obtain ⟨rfl, -⟩ := List.nil_eq_append_iff.mp he
    rfl
  called before after handler params context he := by simp at he

theorem append (h : Faithful now ds) (h' : Faithful (now.behind ds) ds') :
    Faithful now (ds ++ ds') where
  keeps before after k he hr := by
    rcases List.append_eq_append_iff.mp he with ⟨zs, rfl, hz⟩ | ⟨zs, rfl, -⟩
    · simp only [results, List.filterMap_append, List.mem_append, or_imp, forall_and] at hr
      rw [Context.behind_append, h'.keeps zs after k hz hr.2]
      exact h.keeps ds [] k (List.append_nil _).symm hr.1
    · exact h.keeps before zs k rfl hr
  called before after handler params context he := by
    rcases List.append_eq_append_iff.mp he with ⟨zs, rfl, hz⟩ | ⟨zs, rfl, hz⟩
    · rw [Context.behind_append]
      exact h'.called zs after handler params context hz
    · cases zs with
      | nil =>
        rw [List.append_nil] at h'
        exact h'.called [] after handler params context hz.symm
      | cons z zs =>
        obtain ⟨rfl, -⟩ := List.cons.inj hz
        exact h.called before zs handler params context rfl

/-- A deed that publishes nothing, in front of others. -/
theorem cons {d : Deed η} (hp : ∀ live, d ≠ .published live)
    (hc : ∀ handler params context, d = .called handler params context → context = now)
    (h : Faithful now ds) : Faithful now (d :: ds) := by
  have hb : now.behind [d] = now := by
    cases d with
    | published live => exact absurd rfl (hp live)
    | _ => rfl
  have hd : Faithful now [d] := by
    refine ⟨fun before after k he _ => ?_, fun before after handler params context he => ?_⟩
    · rcases List.cons_eq_append_iff.mp he with ⟨rfl, -⟩ | ⟨zs, rfl, hz⟩
      · rfl
      · obtain ⟨rfl, -⟩ := List.nil_eq_append_iff.mp hz
        rw [hb]
    · rcases List.cons_eq_append_iff.mp he with ⟨rfl, hz⟩ | ⟨zs, rfl, hz⟩
      · exact hc handler params context (List.cons.inj hz).1.symm
      · simp at hz
  exact hd.append (hb.symm ▸ h)

theorem single {d : Deed η} (hp : ∀ live, d ≠ .published live)
    (hc : ∀ handler params context, d ≠ .called handler params context) : Faithful now [d] :=
  cons hp (fun handler params context he => absurd he (hc handler params context)) (nil now)

/-- A handler comes to an object, which is merged. -/
theorem merged {result : Context} {live : Live} (hl : live.context = Fields.merge now result) :
    Faithful now [(.answered (.ok (.obj result)) : Deed η), .published live] where
  keeps before after k he hr := by
    obtain _ | ⟨d, _ | ⟨d', _ | ⟨d'', before⟩⟩⟩ := before
    · rfl
    · obtain ⟨rfl, -⟩ := List.cons.inj he
      rfl
    · obtain ⟨rfl, hz⟩ := List.cons.inj he
      obtain ⟨rfl, -⟩ := List.cons.inj hz
      have hk : ([result].foldl Fields.merge now).get? k = now.get? k :=
        Fields.get?_foldl_merge_of_none fun u hu => hr u (by simpa [results] using hu)
      simpa [Context.behind, hl] using hk
    · simp at he
  called before after handler params context he := by
    -- neither of the two is a call
    obtain _ | ⟨d, _ | ⟨d', before⟩⟩ := before <;> simp at he

end Faithful

namespace Machine

variable {m : Machine} {phase : Phase} {live final : Live} {i : Invocation} {is : List Invocation}
  {ds : List (Deed η)} {r : ActionEnd} {fault? : Option CallFault}

theorem faithful_calling (m : Machine) (phase : Phase) (live : Live) (i : Invocation) (a : Action)
    (handler : η) (params : Fields Value) (o : Outcome) :
    Faithful live.context (m.calling phase live i a handler params o) := by
  refine .cons nofun nofun (.cons nofun nofun (.cons nofun ?_ (.single nofun nofun)))
  intro handler params context he
  cases he
  rfl

theorem Acted.faithful (h : m.Acted phase live i ds r) : Faithful live.context ds := by
  cases h with
  | undefined => exact .nil _
  | unregistered => exact .single nofun nofun
  | blocked => exact .single nofun nofun
  | raised => exact faithful_calling ..
  | strange => exact faithful_calling ..
  | idle => exact faithful_calling ..
  | @merged a handler params result after _ _ _ he =>
    refine .cons nofun nofun (.cons nofun nofun (.cons nofun ?_ (.merged (by rw [he]))))
    intro handler params context he
    cases he
    rfl

theorem Acted.behind (h : m.Acted phase live i ds r) :
    live.context.behind ds = (r.now live).context := by
  have hb := Context.behind_affect ds { m with live }
  rw [h.affect] at hb
  exact hb.symm

/-- Actions change no name but those of the objects that their handlers come to, and each handler is
handed the context that the machine has by then. -/
theorem Acts.faithful (h : m.Acts phase live is ds final fault?) : Faithful live.context ds := by
  induction h with
  | nil live => exact .nil _
  | ran h _ ih => exact h.faithful.append (by rw [h.behind]; exact ih)
  | skipped _ h _ ih =>
    exact h.faithful.append (by rw [h.behind]; exact .cons nofun nofun ih)
  | aborted _ h => exact h.faithful.append (.single nofun nofun)
  | stuck h => exact h.faithful

/-! ## The two parts of an event -/

section

variable {event : String} {payload : Option Context} {d : Departure}

/-- What is known where the part before the payload has led to a target. -/
structure Leaves (m : Machine) (e : Event) (front : List (Deed η)) (left : Live) (t : Transition)
    (target : State) (tried : List Transition) (ds : List (Deed η)) : Prop where
  front : front = m.trying e tried ++ ds
  meets : m.Meets e tried t
  guard : Guard.check t.guard m.live.context = .ok true
  target : m.chart.states.get? t.target = some target
  acts : m.Acts .transition { m.live with started := true } t.actions ds left none

/-- How the part before the payload can go: the call stays, or the actions of a transition run. -/
theorem runs_depart (h : (m.depart event).Runs ds d) (payload : Option Context) :
    (∃ r, d = .stays r ∧ m.Stays (some ⟨event, payload⟩) ds r) ∨
      ∃ left t target, d = .leaves left t target ∧
        ∃ tried ds', m.Leaves ⟨event, payload⟩ ds left t target tried ds' := by
  obtain ⟨ds₁, rfl, h₁⟩ := Flow.runs_publish_iff.mp h
  cases hs : m.chart.states.get? m.live.state with
  | none =>
    simp only [hs, Flow.runs_report_iff, Flow.runs_done_iff] at h₁
    obtain ⟨_, rfl, rfl, rfl⟩ := h₁
    exact .inl ⟨_, rfl, .idle (.lost hs)⟩
  | some state =>
    have hsel := selects_iff.mpr (rfl : select m.live.context event state.transitions = _)
    simp only [hs, Flow.runs_reports_iff] at h₁
    obtain ⟨ds₂, rfl, h₂⟩ := h₁
    generalize select m.live.context event state.transitions = s at hsel h₂ ⊢
    rw [List.map_map]
    cases hsel with
    | unmatched hp =>
      simp only [Flow.runs_report_iff, Flow.runs_done_iff] at h₂
      obtain ⟨_, rfl, rfl, rfl⟩ := h₂
      exact .inl ⟨_, rfl, .idle (.unmatched hs hp)⟩
    | overlong hc hg =>
      obtain ⟨rfl, rfl⟩ := Flow.runs_done_iff.mp h₂
      rw [List.append_nil]
      exact .inl ⟨_, rfl, .overlong ⟨state, hs, hc⟩ hg⟩
    | @chosen before t hc hg =>
      have hm : m.Meets ⟨event, payload⟩ before t := ⟨state, hs, hc⟩
      replace h₂ : (m.leave { m.live with started := true } t).Runs ds₂ d := h₂
      unfold leave at h₂
      cases ht : m.chart.states.get? t.target with
      | none =>
        simp only [ht, Flow.runs_report_iff, Flow.runs_done_iff] at h₂
        obtain ⟨_, rfl, rfl, rfl⟩ := h₂
        exact .inl ⟨_, rfl, .idle (.taken hm hg (.dangling ht))⟩
      | some target =>
        simp only [ht, Flow.runs_bind_iff, runActions_runs_iff] at h₂
        obtain ⟨ds₃, ds₄, ⟨left, _ | f⟩, rfl, ha, hd⟩ := h₂
        · obtain ⟨rfl, rfl⟩ := Flow.runs_done_iff.mp hd
          rw [List.append_nil]
          exact .inr ⟨left, t, target, rfl, before, ds₃, rfl, hm, hg, ht, ha⟩
        · obtain ⟨rfl, rfl⟩ := Flow.runs_done_iff.mp hd
          rw [List.append_nil]
          exact .inl ⟨_, rfl, .halted hm hg ht ha⟩

/-- What a host plays of the part behind the payload. -/
theorem play_arrive (m : Machine) (e : Event) (host : Host η) (past : List (Deed η)) (left : Live)
    (t : Transition) (target : State) : ∃ ds final fault?,
      m.Acts .entry (entering left e t) target.entry ds final fault? ∧
      (m.arrive e (.leaves left t target)).play host past =
        (.published (entering left e t) ::
          .logged (m.transitionedEntry m.live.state t.target e.type) :: (ds ++ [.announced]),
          result fault? true) := by
  have hr := Flow.play_runs host (m.arrive e (.leaves left t target)) past
  unfold arrive at hr ⊢
  simp only [Flow.runs_publish_iff, Flow.runs_log_iff, enter_runs_iff] at hr
  obtain ⟨_, h₁, _, h₂, ds, final, fault?, ha, h₃, h₄⟩ := hr
  exact ⟨ds, final, fault?, ha, Prod.ext (by rw [h₁, h₂, h₃]) h₄⟩

/-- Where a target is entered, the names of the payload have its values, whatever was there. -/
theorem entering_get? (left : Live) (event : String) {u : Context} (t : Transition) {k : String}
    (hk : u.has k = true) :
    (entering left ⟨event, some u⟩ t).context.get? k = (Fields.ofEntries u).get? k := by
  show (([] ++ u :: []).foldl Fields.merge left.context).get? k = _
  exact Fields.get?_foldl_merge_of_last hk (by simp)

end

/-- **A payload is not seen until the actions of the transition are done.** The first part of an
event depends on its name alone, on any machine and in any engine. So beside any host all events of
one name do the same at first: the same guards fail, the same transition is chosen, or none is, and
its actions go the same way, with the same handlers called and answering alike. There all of them
are over, with the same result, or all of them enter the same target, each with its own payload
merged. From then on, until an entry action comes to an object with the name, each name in the
payload has its value in the context of the machine, and that context is what handlers are
handed. -/
theorem payload_unseen (m : Machine) (event : String) :
    (∀ payload, (m.send ⟨event, payload⟩ : Flow η _) =
      (m.depart event).bind (m.arrive ⟨event, payload⟩)) ∧
    (∀ (μ : Type) [Recorder μ] (most machine : Nat) (payload : Option Context),
      (Engine.send most machine ⟨event, payload⟩ : Process (Engine μ) _) =
        Engine.underLock machine fun m =>
          (Engine.ofFlow (Engine.sendWithin most) machine (m.depart event)).bind fun d =>
            Engine.ofFlow (Engine.sendWithin most) machine (m.arrive ⟨event, payload⟩ d)) ∧
    ∀ (host : Host η) (past : List (Deed η)),
      (∃ front r, ∀ payload, (m.send ⟨event, payload⟩).play host past = (front, r) ∧
        m.Stays (some ⟨event, payload⟩) front r) ∨
      ∃ front left t target tried ds, ∀ payload,
        m.Leaves ⟨event, payload⟩ front left t target tried ds ∧
        ∃ ds' final fault?,
          m.Acts .entry (entering left ⟨event, payload⟩ t) target.entry ds' final fault? ∧
          (m.send ⟨event, payload⟩).play host past =
            (front ++ .published (entering left ⟨event, payload⟩ t) ::
              .logged (m.transitionedEntry m.live.state t.target event) :: (ds' ++ [.announced]),
              result fault? true) ∧
          ∀ before after, ds' = before ++ after →
            (∀ u k, payload = some u → u.has k = true → (∀ r ∈ results before, r.has k = false) →
              ((entering left ⟨event, payload⟩ t).context.behind before).get? k =
                (Fields.ofEntries u).get? k) ∧
            ∀ handler params context rest, after = .called handler params context :: rest →
              context = (entering left ⟨event, payload⟩ t).context.behind before := by
  refine ⟨fun payload => send_eq_bind m _, fun μ _ most machine payload => engineSend_eq .., ?_⟩
  intro host past
  have hruns : (m.depart event).Runs _ _ := Flow.play_runs host _ past
  have hplay (payload : Option Context) :
      (m.send ⟨event, payload⟩).play host past = _ :=
    (congrArg (Flow.play host · past) (send_eq_bind m ⟨event, payload⟩)).trans
      (Flow.play_bind host (m.depart event) (m.arrive ⟨event, payload⟩) past)
  generalize (m.depart event).play host past = p at hruns hplay
  obtain ⟨front, d⟩ := p
  rcases runs_depart hruns none with ⟨r, rfl, -⟩ | ⟨left, t, target, rfl, tried, ds, hl⟩
  · refine .inl ⟨front, r, fun payload => ⟨(hplay payload).trans (by simp [arrive, Flow.play]), ?_⟩⟩
    rcases runs_depart hruns payload with ⟨_, hd, hs⟩ | ⟨_, _, _, hd, -⟩
    · cases hd
      exact hs
    · cases hd
  · refine .inr ⟨front, left, t, target, tried, ds, fun payload =>
      ⟨⟨hl.front, hl.meets, hl.guard, hl.target, hl.acts⟩, ?_⟩⟩
    obtain ⟨ds', final, fault?, ha, hp⟩ :=
      play_arrive m ⟨event, payload⟩ host (past ++ front) left t target
    refine ⟨ds', final, fault?, ha, (hplay payload).trans (by simp only [hp]), ?_⟩
    rintro before after rfl
    refine ⟨fun u k hu hk hr => ?_, fun handler params context rest hr => ?_⟩
    · subst hu
      rw [ha.faithful.keeps before after k rfl hr]
      exact entering_get? left event t hk
    · exact ha.faithful.called before rest handler params context (by rw [hr])

end Machine
end Workflow
