import Workflow.Proofs.Call.Written
import Workflow.Proofs.Context.Merge
import Workflow.Proofs.Engine.Telling
import Workflow.Proofs.Engine.Waiting

/-!
# Contexts are what the journal records

The journal records what is merged into the context of a machine: the objects that handlers come to,
and the payloads of the events whose transitions are taken. Wherever a run of scripts comes to, and
at each line of its journal, the context is the one that the machine had at first with all of that
merged into it, in the order of the journal. Nothing else is ever written.

Results:
* `Told.accounts`: what is recorded, before, while and after a call is inside.
* `Told.records`: what each line says of the context.
* `context_recorded`: wherever a run of scripts comes to.
-/
namespace Workflow

/-! ## Calls -/

namespace Call

/-- The payload that a call brings along. -/
def payload (c : Call) : Option Context := c.event.bind (·.payload)

/-- The phase in which the first actions of a call run. -/
def phase (c : Call) : Phase := if c.event.isSome then .transition else .entry

theorem recording {η : Type} (c : Call) (m : Machine) :
    m.Recording c.payload c.phase (c.flow m : Flow η _) m.live.context := by
  obtain ⟨caller, delay, machine, _ | e⟩ := c
  · exact m.records_start
  · exact m.records_send e

end Call

variable {μ : Type}

/-! ## What a journal records -/

/-- The context of a machine. -/
def Engine.context? (e : Engine μ) (i : Nat) : Option Context :=
  (e.machines[i]?).map fun m => m.live.context

namespace Line

/-- What is merged into the context of a machine according to a line. -/
def update? (i : Nat) (l : Line μ) : Option Context :=
  (l.deed? i).bind (Deed.update? l.call.payload)

/-- What is merged already into the context of a machine when a line tells it: the payload, when the
transition is logged. -/
def merged? (i : Nat) (l : Line μ) : Option Context :=
  (l.deed? i).bind (Deed.merged? l.call.payload)

variable {i : Nat} {l : Line μ}

theorem update?_beside (h : isWork i (l.call, l.mark) = false) : l.update? i = none := by
  rw [update?, deed?_beside h, Option.bind_none]

theorem merged?_beside (h : isWork i (l.call, l.mark) = false) : l.merged? i = none := by
  rw [merged?, deed?_beside h, Option.bind_none]

end Line

/-- What is merged into the context of a machine according to a journal, in this order. -/
def updates (i : Nat) (ls : List (Line μ)) : List Context := ls.filterMap (Line.update? i)

theorem updates_concat (i : Nat) (ls : List (Line μ)) (l : Line μ) :
    updates i (ls ++ [l]) = updates i ls ++ (l.update? i).toList := by
  unfold updates
  rw [List.filterMap_append]
  cases h : l.update? i <;> simp [h]

/-- The context of a machine as a journal records it, if it was a certain one at first. -/
def Context.after (context : Context) (i : Nat) (ls : List (Line μ)) : Context :=
  (updates i ls).foldl Fields.merge context

theorem Context.after_concat (context : Context) (i : Nat) (ls : List (Line μ)) (l : Line μ) :
    context.after i (ls ++ [l]) = (context.after i ls).update (l.update? i) := by
  rw [after, updates_concat, List.foldl_append, merged_eq]
  rfl

/-- What is recorded of a machine: while no call is inside, its context, and while one is, the
context that the call has found with all merged into it that is recorded by its deeds. -/
inductive Accounts (context : Context) (i : Nat) (b : Book μ) : Prop where
  | outside (hv : visit? i b.2 = none) (h : b.1.context? i = some (context.after i b.2))
  | inside {v : Visit μ} {m : Machine} (hv : visit? i b.2 = some v)
    (hm : v.found.machines[i]? = some m)
    (h : context.after i b.2 = (recorded v.call.payload v.done).foldl Fields.merge m.live.context)

/-- A line that is no work of a machine neither records anything of it nor changes it. -/
theorem Accounts.beside {context : Context} {i : Nat} {b b' : Book μ} {l : Line μ}
    (h : Accounts context i b) (hl : isWork i (l.call, l.mark) = false) (hb : b'.2 = b.2 ++ [l])
    (hm : b'.1.machines[i]? = b.1.machines[i]?) : Accounts context i b' := by
  have hv : visit? i b'.2 = visit? i b.2 := hb ▸ visit?_beside hl b.2
  have hc : context.after i b'.2 = context.after i b.2 := by
    rw [hb, Context.after_concat, Line.update?_beside hl]
    rfl
  cases h with
  | outside h he =>
    refine .outside (hv.trans h) ?_
    rw [Engine.context?, hm, hc]
    exact he
  | inside h hf he => exact .inside (hv.trans h) hf (hc.trans he)

variable [Recorder μ]

theorem Line.after_beside {i : Nat} {l : Line μ} (hl : isWork i (l.call, l.mark) = false) :
    l.after.machines[i]? = l.engine.machines[i]? := by
  rw [l.after_machine]
  have ha : l.affect i = id := by
    funext m
    unfold Line.affect
    split
    · rename_i d hd
      refine if_neg fun hi => ?_
      simp [isWork, hd, hi] at hl
    · rfl
  rw [ha, Option.map_id, id]

namespace Told

variable {e₀ e : Engine μ} {ls : List (Line μ)} {l : Line μ} {i : Nat} {m₀ : Machine}
  {context : Context}

/-- Where all is merged that is recorded by a call that is inside, the context of its machine is
what the journal records. -/
theorem context?_settled {v : Visit μ} (h : Told e₀ (e, ls)) (ha : Accounts context i (e, ls))
    (hv : visit? i ls = some v) (hs : ∀ m, v.found.machines[i]? = some m →
      m.live.context.behind v.done =
        (recorded v.call.payload v.done).foldl Fields.merge m.live.context) :
    e.context? i = some (context.after i ls) := by
  cases ha with
  | outside hn => cases hn.symm.trans hv
  | inside hv' hm hc =>
    cases hv.symm.trans hv'
    obtain ⟨-, m', hm', he, -⟩ := h.visited hv
    cases hm.symm.trans hm'
    have hc : context.after i ls = _ := hc
    rw [Engine.context?, he, Option.map_some, Context.behind_affect, hs _ hm, hc]

/-- What a journal records of a machine. -/
theorem accounts (h : Told e₀ (e, ls)) (hc : e₀.context? i = some context) :
    Accounts context i (e, ls) := by
  generalize hb : (e, ls) = b at h
  induction h generalizing e ls with
  | start => exact .outside rfl hc
  | @quiet e₁ e' ls _ hq ih =>
    cases ih rfl with
    | outside hv h => exact .outside hv (by rw [Engine.context?, hq.machines]; exact h)
    | inside hv hm h => exact .inside hv hm h
  | @line l ls h hf ih =>
    cases hb
    have ih := ih rfl
    by_cases hw : isWork i (l.call, l.mark) = false
    · exact ih.beside hw rfl (l.after_beside hw)
    · cases hf with
      | beside h => exact absurd (h i) hw
      | @admitted c e m hn hm =>
        obtain rfl : c.machine = i := by simpa [isWork] using hw
        cases ih with
        | inside hv => cases hn.symm.trans hv
        | outside _ h =>
          refine .inside (visit?_admitted ..) hm ?_
          rw [Context.after_concat]
          have h : e.context? c.machine = _ := h
          rw [Engine.context?, hm] at h
          exact (Option.some.inj h).symm
      | @did c e found m done more d r hv hm hr =>
        obtain rfl : c.machine = i := by simpa [isWork] using hw
        cases ih with
        | outside hn => cases hn.symm.trans hv
        | inside hv' hm' h =>
          cases hv.symm.trans hv'
          cases hm.symm.trans hm'
          refine .inside (visit?_did hv d e) hm ?_
          have hu : (⟨c, .did d, e⟩ : Line μ).update? c.machine = d.update? c.payload := by
            simp [Line.update?, Line.deed?]
          have hc : context.after c.machine ls = _ := h
          rw [Context.after_concat, hu, hc, recorded_append, List.foldl_append, recorded_single,
            Context.merged_eq]
      | @left c e found m done r hv hm hr =>
        obtain rfl : c.machine = i := by simpa [isWork] using hw
        refine .outside (visit?_left ..) ?_
        rw [Context.after_concat]
        refine h.context?_settled ih hv fun m' hm' => ?_
        cases hm.symm.trans hm'
        exact (c.recording m).ends hr
      | @turned c e found name hv =>
        obtain rfl : c.machine = i := by simpa [isWork] using hw
        refine .outside (visit?_left ..) ?_
        rw [Context.after_concat]
        exact h.context?_settled ih hv fun _ _ => rfl

/-- While a call waits for a handler, or none is inside, the context is what the journal records. -/
theorem rested (h : Told e₀ (e, ls)) (hc : e₀.context? i = some context) (hw : Waits i ls) :
    e.context? i = some (context.after i ls) := by
  have ha := h.accounts hc
  cases hv : visit? i ls with
  | none =>
    cases ha with
    | outside _ h => exact h
    | inside hs => cases hs.symm.trans hv
  | some v =>
    refine h.context?_settled ha hv fun m hm => ?_
    obtain ⟨before, handler, params, context, hd⟩ := hw v hv
    obtain ⟨-, m', hm', -, more, r, hr⟩ := h.visited hv
    cases hm.symm.trans hm'
    rw [hd, List.append_assoc] at hr
    have ht := ((v.call.recording m).tells hr).context nofun
    rw [hd, recorded_append, Context.behind_append]
    exact ht

/-- The machine that a call has found that is inside is the one that was there at first, but for
what of a machine changes. -/
theorem found_machine {v : Visit μ} {m : Machine} (h : Told e₀ (e, ls))
    (hm₀ : e₀.machines[i]? = some m₀) (hv : visit? i ls = some v)
    (hm : v.found.machines[i]? = some m) :
    m = { m₀ with live := m.live } := by
  obtain ⟨now, hn⟩ := h.machine i
  obtain ⟨live, he, -⟩ := h.inside hv hm
  rw [hm₀, Option.map_some, he] at hn
  have hn := Option.some.inj hn
  obtain ⟨name, failure, sends, chart, actions, live'⟩ := m
  rw [Machine.mk.injEq] at hn
  obtain ⟨rfl, rfl, rfl, rfl, rfl, -⟩ := hn
  rfl

end Told

/-! ## Lines -/

/-- What a line says of the context of a machine that was a certain one at first. -/
structure Line.Records (i : Nat) (m : Machine) (before : List (Line μ)) (l : Line μ) : Prop where
  /-- The context is what is recorded, with the payload if the line tells of a transition; unless
  just there something is written that is recorded already. -/
  context : (l.call.machine = i → ∀ live, l.mark ≠ .did (.published live)) →
    l.engine.context? i = some ((m.live.context.after i before).update (l.merged? i))
  /-- A handler is handed what is recorded, and parameters that are resolved against it. -/
  called : ∀ handler params context, l.call.machine = i →
    l.mark = .did (.called handler params context) → context = m.live.context.after i before ∧
      ∃ v done phase live a category, visit? i before = some v ∧ v.call = l.call ∧
        v.done = done ++ [.logged (m.runningEntry phase live a.action category)] ∧
        m.chart.Lists phase a ∧ (m.actions.get? a.action).map Action.category = some category ∧
        Context.resolveAll context a.params = .ok params ∧
        (phase = .entry ↔ l.call.event = none ∨ ∃ d ∈ v.done, d.moves = true)
  /-- What is answered is answered by the handler that the call has called last. -/
  answered : ∀ o, l.call.machine = i → l.mark = .did (.answered o) →
    ∃ v done handler params context, visit? i before = some v ∧ v.call = l.call ∧
      v.done = done ++ [.called handler params context]
  /-- Only events take transitions, and only one each. -/
  moved : ∀ d, l.call.machine = i → l.mark = .did d → d.moves = true →
    ∃ v, visit? i before = some v ∧ v.call = l.call ∧ l.call.event.isSome ∧
      ∀ d' ∈ v.done, d'.moves = false

omit [Recorder μ] in
/-- A line that tells of nothing that is done says what the context is. -/
theorem Line.Records.idle {i : Nat} {m : Machine} {before : List (Line μ)} {l : Line μ}
    (hd : ∀ d, l.call.machine = i → l.mark ≠ .did d)
    (hc : l.engine.context? i = some ((m.live.context.after i before).update (l.merged? i))) :
    l.Records i m before where
  context _ := hc
  called _ _ _ hi h := absurd h (hd _ hi)
  answered _ hi h := absurd h (hd _ hi)
  moved _ hi h := absurd h (hd _ hi)

theorem Call.phase_eq_entry {c : Call} : c.phase = .entry ↔ c.event = none := by
  unfold phase
  cases c.event <;> simp

namespace Told

variable {e₀ e : Engine μ} {before : List (Line μ)} {l : Line μ} {i : Nat} {m : Machine}

/-- What each line says of the context of a machine, if calls wait at it that are inside others. -/
theorem records (h : Told e₀ (l.engine, before)) (hf : Fits before l)
    (hm : e₀.machines[i]? = some m)
    (hw : isWork i (l.call, l.mark) = false → Waits i before) : l.Records i m before := by
  have hc : e₀.context? i = some m.live.context := by rw [Engine.context?, hm]; rfl
  by_cases hwork : isWork i (l.call, l.mark) = false
  · refine .idle (fun d hi hd => ?_) ?_
    · simp [isWork, hd, hi] at hwork
    · rw [Line.merged?_beside hwork]
      exact h.rested hc (hw hwork)
  · cases hf with
    | beside h => exact absurd (h i) hwork
    | @admitted c e m' hn hm' =>
      obtain rfl : c.machine = i := by simpa [isWork] using hwork
      refine .idle (fun _ _ hd => by cases hd) ?_
      exact h.rested hc fun v hv => by cases hn.symm.trans hv
    | @left c e found m' done r hv hm' hr =>
      obtain rfl : c.machine = i := by simpa [isWork] using hwork
      refine .idle (fun _ _ hd => by cases hd) ?_
      refine h.context?_settled (h.accounts hc) hv fun m'' hm'' => ?_
      cases hm'.symm.trans hm''
      exact (c.recording m').ends hr
    | @turned c e found name hv =>
      obtain rfl : c.machine = i := by simpa [isWork] using hwork
      refine .idle (fun _ _ hd => by cases hd) ?_
      exact h.context?_settled (h.accounts hc) hv fun _ _ => rfl
    | @did c e found m' done more d r hv hm' hr =>
      obtain rfl : c.machine = i := by simpa [isWork] using hwork
      have ht := (c.recording m').tells hr
      have hsame := h.found_machine hm hv hm'
      obtain ⟨-, m'', hm'', he, -⟩ := h.visited hv
      cases hm'.symm.trans hm''
      -- what the call has found, with all merged into it that is recorded of it
      have ha : m.live.context.after c.machine before =
          (recorded c.payload done).foldl Fields.merge m'.live.context := by
        cases h.accounts hc with
        | outside hn => cases hn.symm.trans hv
        | inside hv' hm'' ha =>
          cases hv.symm.trans hv'
          cases hm'.symm.trans hm''
          exact ha
      refine ⟨fun hd => ?_, fun handler params context _ hd => ?_, fun o _ hd => ?_,
        fun d' _ hd hmv => ?_⟩
      · have hmerged : (⟨c, .did d, e⟩ : Line μ).merged? c.machine = d.merged? c.payload := by
          simp [Line.merged?, Line.deed?]
        have hx := ht.context fun live hx => hd rfl live (congrArg Mark.did hx)
        rw [List.foldl_append, Context.merged_eq, ← ha] at hx
        rw [Engine.context?, he, Option.map_some, Context.behind_affect, hx, hmerged]
      · obtain rfl : d = _ := Mark.did.inj hd
        obtain ⟨hx, phase, live, a, category, done', hdone, hl, hcat, hp, hphase⟩ :=
          ht.called handler params context rfl
        rw [hsame] at hdone hl hcat
        rw [Call.phase_eq_entry] at hphase
        exact ⟨hx.trans ha.symm, _, done', phase, live, a, category, hv, rfl, hdone, hl, hcat, hp,
          hphase⟩
      · obtain rfl : d = _ := Mark.did.inj hd
        obtain ⟨handler, params, context, done', hdone⟩ := ht.answered o rfl
        exact ⟨_, done', handler, params, context, hv, rfl, hdone⟩
      · obtain rfl : d = d' := Mark.did.inj hd
        obtain ⟨hphase, hmoves⟩ := ht.moved hmv
        refine ⟨_, hv, rfl, ?_, hmoves⟩
        cases hev : c.event with
        | some ev => rfl
        | none =>
          rw [Call.phase_eq_entry.mpr hev] at hphase
          cases hphase

end Told

/-- **A context is what is recorded of it**, whatever scripts, handlers and listeners do. Wherever a
run of scripts comes to, the context of a machine is the one that it had at first with all merged
into it that the journal records: the objects that handlers came to, and the payloads of the events
whose transitions were taken, in their order. So it is at each line. A handler is handed just this
context, and the parameters of its action, resolved against it. In a call, handlers of a
transition's actions are called before the transition is taken, and those of entry actions behind
it. So names stay in their places, new ones follow in the order in which they are first written, and
under a name stands what was written there last. -/
theorem context_recorded (most : Nat) (e : Engine μ) (xs : List (Script μ)) :
    (∀ p, (Pool.ofTasks e (xs.map (Script.process most))).Reaches p →
      ∃ ls, Script.Comes most e xs (p.state, ls)) ∧
    ∀ b : Book μ, Script.Comes most e xs b → ∀ i m, e.machines[i]? = some m →
      (∃ context, b.1.context? i = some context ∧
        context = (updates i b.2).foldl Fields.merge m.live.context ∧
        context.keys = m.live.context.keys ++
          (((updates i b.2).flatMap Fields.keys).filter fun k =>
            !m.live.context.has k).eraseDups ∧
        (∀ k (u : Context) past later, updates i b.2 = past ++ u :: later → u.has k = true →
          (∀ w ∈ later, Fields.has w k = false) → context.get? k = (Fields.ofEntries u).get? k) ∧
        ∀ k, (∀ u ∈ updates i b.2, Fields.has u k = false) →
          context.get? k = m.live.context.get? k) ∧
      ∀ before l after, b.2 = before ++ l :: after → l.Records i m before ∧
        (m.live.context.after i before).keys <+: (m.live.context.after i b.2).keys := by
  refine ⟨fun p hp => Script.exists_comes hp, fun b hb i m hm => ⟨?_, fun before l after hl => ?_⟩⟩
  · have hc : e.context? i = some m.live.context := by rw [Engine.context?, hm]; rfl
    have ht : Told e (b.1, b.2) := hb.told
    refine ⟨_, ht.rested hc (hb.paced.now i nofun), rfl, Fields.keys_foldl_merge ..,
      fun k u past later hu hk hl => ?_, fun k hk => Fields.get?_foldl_merge_of_none hk⟩
    rw [Context.after, hu]
    exact Fields.get?_foldl_merge_of_last hk hl
  · have ht : Told e (b.1, b.2) := hb.told
    obtain ⟨ht, hf⟩ := ht.behind hl
    refine ⟨ht.records hf hm (hb.paced.before _ _ _ hl i), ?_⟩
    have hu : updates i b.2 = updates i before ++ updates i (l :: after) := by
      rw [hl]
      exact List.filterMap_append
    unfold Context.after
    rw [hu]
    exact Fields.keys_foldl_merge_prefix ..

end Workflow
