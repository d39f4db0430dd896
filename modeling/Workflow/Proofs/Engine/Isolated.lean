import Workflow.Catalog
import Workflow.Proofs.Engine.StartOnce
import Workflow.Proofs.Handler.Local
import Workflow.Proofs.Pool.Alone

/-!
# Calls that run alone

An engine is isolated if its handlers are local, its machines have distinct names, and nobody
listens. On such an engine a call that runs alone comes to a result, gives its lock back and leaves
the engine isolated. Of the machines it changes its own alone, as the deeds of the call say, and if
it has no handler called, nothing is remembered of it but log entries.

Results:
* `Isolated.comes_ofFlow`: what becomes of a flow.
* `Isolated.comes_send`: an event that is sent.
* `Isolated.comes_ignored`: an event that no transition waits for.
* `Catalog.comes_create`: a machine that is created.
-/
namespace Workflow

variable {μ η α : Type}

/-! ## Log entries -/

/-- One memory is another one with some log entries. -/
def Noted [Recorder μ] (m m' : μ) : Prop :=
  ∃ entries : List Log.Entry, m' = entries.foldl (fun m entry => Recorder.record entry m) m

namespace Noted

variable [Recorder μ] {m m' m'' : μ}

theorem refl (m : μ) : Noted m m := ⟨[], rfl⟩

theorem trans (h : Noted m m') (h' : Noted m' m'') : Noted m m'' := by
  obtain ⟨entries, rfl⟩ := h
  obtain ⟨entries', rfl⟩ := h'
  exact ⟨entries ++ entries', List.foldl_append.symm⟩

theorem record (entry : Log.Entry) (m : μ) : Noted m (Recorder.record entry m) := ⟨[entry], rfl⟩

end Noted

/-- Is the deed a call of a handler? -/
def Deed.isCall : Deed η → Bool
  | .called .. => true
  | _ => false

/-! ## Isolated engines -/

/-- All handlers are local, all machines have distinct names, and no channel has a listener. -/
structure Engine.Isolated (e : Engine μ) : Prop where
  registry : e.registry.Local
  machines : ∀ m ∈ e.machines, m.Distinct
  unheard : ∀ channel, (e.board.channel channel).current = []

/-- What is done by a flow on machine `i`, from one engine to another. -/
structure Effect [Recorder μ] (i : Nat) (x : Flow (Handler μ) α) (e e' : Engine μ) (a : α)
    (ds : List (Deed (Handler μ))) : Prop where
  runs : x.Runs ds a
  machines : e'.machines = e.machines.modify i (ds.foldl Deed.affect)
  noted : (∀ d ∈ ds, d.isCall = false) → Noted e.memory e'.memory

/-- No lock is held. -/
def free : Nat → Bool := fun _ => false

variable {e : Engine μ} {held : Nat → Bool} {send : Engine.Sender μ} {i : Nat}

namespace Engine

namespace Isolated

theorem of_eq {e' : Engine μ} (h : e.Isolated) (hr : e'.registry = e.registry)
    (hm : e'.machines = e.machines) (hc : e'.board.channels = e.board.channels) : e'.Isolated where
  registry := hr ▸ h.registry
  machines := hm ▸ h.machines
  unheard i := by
    rw [Board.channel, hc]
    exact h.unheard i

theorem publish (h : e.Isolated) (i : Nat) {live : Live} (hl : live.Distinct) :
    (e.publish i live).Isolated where
  registry := h.registry
  machines m hm := by
    obtain ⟨k, hk⟩ := List.mem_iff_getElem?.mp hm
    rw [Engine.publish, List.getElem?_modify] at hk
    obtain ⟨m', hm', rfl⟩ := Option.map_eq_some_iff.mp hk
    have hd := h.machines m' (List.mem_of_getElem? hm')
    split
    · exact ⟨hl, hd.chart⟩
    · exact hd
  unheard := h.unheard

theorem add (h : e.Isolated) {m : Machine} (hm : m.Distinct) : (e.add m).Isolated where
  registry := h.registry
  machines := List.forall_mem_append.mpr ⟨h.machines, List.forall_mem_singleton.mpr hm⟩
  unheard i := by
    have hu := h.unheard i
    unfold Board.channel Engine.add at *
    by_cases hi : i < e.board.channels.length
    · rw [List.getElem?_append_left hi]
      exact hu
    · obtain ⟨k, rfl⟩ := Nat.exists_eq_add_of_le (Nat.le_of_not_lt hi)
      rw [List.getElem?_append_right (Nat.le_add_right _ _), Nat.add_sub_cancel_left]
      match k with
      | 0 => rfl
      | 1 => rfl
      | k + 2 => rfl

end Isolated

variable [Recorder μ]

/-- Of an engine, only the memory changes when entries are taken. -/
theorem logAll_eq (entries : List Log.Entry) (e : Engine μ) :
    (e.logAll entries).registry = e.registry ∧ (e.logAll entries).machines = e.machines ∧
      (e.logAll entries).board.channels = e.board.channels := by
  induction entries generalizing e with
  | nil => exact ⟨rfl, rfl, rfl⟩
  | cons entry entries ih => exact ih (e.log entry)

theorem noted_logAll (entries : List Log.Entry) (e : Engine μ) :
    Noted e.memory (e.logAll entries).memory := by
  induction entries generalizing e with
  | nil => exact .refl _
  | cons entry entries ih => exact (Noted.record entry e.memory).trans (ih (e.log entry))

theorem Isolated.logAll (h : e.Isolated) (entries : List Log.Entry) : (e.logAll entries).Isolated :=
  h.of_eq (logAll_eq entries e).1 (logAll_eq entries e).2.1 (logAll_eq entries e).2.2

theorem Isolated.log (h : e.Isolated) (entry : Log.Entry) : (e.log entry).Isolated :=
  h.of_eq rfl rfl rfl

/-- A report that nobody listens to is logged, or lost. -/
theorem Isolated.report (h : e.Isolated) (i : Nat) (r : Report) :
    (e.report i r).Isolated ∧ Noted e.memory (e.report i r).memory := by
  unfold Engine.report
  cases e.machines[i]? with
  | none => exact ⟨h, .refl _⟩
  | some m =>
    have hl := h.log (r.entry m.name m.live.state)
    dsimp only
    rw [Board.post_nil _ _ _ _ (hl.unheard _)]
    exact ⟨hl, .record ..⟩

theorem Isolated.announce (h : e.Isolated) (i : Nat) : e.announce i = e := by
  unfold Engine.announce
  cases e.machines[i]? with
  | none => rfl
  | some m =>
    dsimp only
    rw [Board.post_nil _ _ _ _ (h.unheard _)]

/-- Work that sends nothing comes to something good, and leaves all but the memory alone. -/
theorem comes_ofWork {good : α → Prop} {w : Work μ α} (hw : w.Gives good) (e : Engine μ) :
    ∃ e' a, (ofWork send w).Comes held e held e' a ∧ good a ∧ e'.registry = e.registry ∧
      e'.machines = e.machines ∧ e'.board.channels = e.board.channels := by
  induction hw generalizing e with
  | finish h => exact ⟨e, _, .done _, h, rfl, rfl, rfl⟩
  | @log entry next _ ih =>
    obtain ⟨e', a, hc, ha, h⟩ := ih (e.log entry)
    exact ⟨e', a, .act hc, ha, h⟩
  | @touch change next _ ih =>
    obtain ⟨e', a, hc, ha, h⟩ := ih e.memory (e.touch change)
    exact ⟨e', a, .act hc, ha, h⟩
  | pause _ ih =>
    obtain ⟨e', a, hc, h⟩ := ih e
    exact ⟨e', a, .pause hc, h⟩

omit [Recorder μ] in
/-- What a call comes to with its lock, it comes to under its lock, and gives the lock back. -/
theorem comes_locked {body : Machine → Process (Engine μ) (Except CallFault Bool)} {m : Machine}
    {e' : Engine μ} {r : Except CallFault Bool} (hm : e.machines[i]? = some m)
    (h : (body m).Comes (Function.update free i true) e (Function.update free i true) e' r) :
    (underLock i body).Comes free e free e' r := by
  refine .act ?_
  simp only [hm]
  refine .take rfl (.act ?_)
  have hfree : Function.update (Function.update free i true) i false = free := by
    rw [Function.update_idem]
    exact Function.update_eq_self i free
  rw [id_eq, hm, Option.getD_some]
  refine h.bind (.give ?_)
  rw [hfree]
  exact .done r

namespace Isolated

/-- What becomes of a flow that keeps names distinct. -/
theorem comes_ofFlow {good : α → Prop} {x : Flow (Handler μ) α}
    (hx : x.KeepsDistinct Handler.Local good) (h : e.Isolated) :
    ∃ e' a ds, (ofFlow send i x).Comes held e held e' a ∧ e'.Isolated ∧ good a ∧
      Effect i x e e' a ds := by
  induction hx generalizing e with
  | done ha => exact ⟨e, _, [], .done _, h, ha, .done _, (List.modify_id ..).symm, fun _ => .refl _⟩
  | @log entry next _ ih =>
    obtain ⟨e', a, ds, hc, ht, ha, hr, hm, hn⟩ := ih (h.log entry)
    exact ⟨e', a, _, .act hc, ht, ha, .log hr, hm,
      fun hd => (Noted.record entry _).trans (hn (List.forall_mem_cons.mp hd).2)⟩
  | @report r next _ ih =>
    obtain ⟨htr, hnr⟩ := h.report i r
    obtain ⟨e', a, ds, hc, ht, ha, hr, hm, hn⟩ := ih htr
    exact ⟨e', a, _, .act hc, ht, ha, .report hr, by rw [hm, report_machines]; rfl,
      fun hd => hnr.trans (hn (List.forall_mem_cons.mp hd).2)⟩
  | @publish live next hl _ ih =>
    obtain ⟨e', a, ds, hc, ht, ha, hr, hm, hn⟩ := ih (h.publish i hl)
    refine ⟨e', a, _, .act hc, ht, ha, .publish hr, ?_, fun hd => hn (List.forall_mem_cons.mp hd).2⟩
    rw [hm, Engine.publish, List.modify_modify_eq]
    rfl
  | @announce next _ ih =>
    obtain ⟨e', a, ds, hc, ht, ha, hr, hm, hn⟩ := ih h
    refine ⟨e', a, _, .act ?_, ht, ha, .announce hr, hm,
      fun hd => hn (List.forall_mem_cons.mp hd).2⟩
    rw [h.announce i]
    exact hc
  | @resolve category next _ ih =>
    obtain ⟨e', a, ds, hc, ht, ha, hr, hm, hn⟩ := ih (e.registry.resolve category)
      (fun g hg => h.registry category g hg) h
    exact ⟨e', a, _, .act hc, ht, ha, .resolve _ hr, hm,
      fun hd => hn (List.forall_mem_cons.mp hd).2⟩
  | @invoke handler params context next hh hp hd _ ih =>
    obtain ⟨e₁, o, hc₁, ho, hr₁, hm₁, hb₁⟩ :=
      @comes_ofWork _ _ held send _ _ _ (hh params context hp hd) e
    obtain ⟨e', a, ds, hc, ht, ha, hr, hm, -⟩ := ih o ho (h.of_eq hr₁ hm₁ hb₁)
    exact ⟨e', a, _, hc₁.bind hc, ht, ha, .invoke o hr, by rw [hm, hm₁]; rfl,
      fun hd => by cases (List.forall_mem_cons.mp hd).1⟩

/-- What becomes of a call, under the lock of its machine. -/
theorem comes_underLock {flow : Machine → Flow (Handler μ) (Except CallFault Bool)}
    (hf : ∀ m, m.Distinct → (flow m).KeepsDistinct Handler.Local fun _ => True) (h : e.Isolated) :
    ∃ e' r, (underLock i fun m => ofFlow send i (flow m)).Comes free e free e' r ∧ e'.Isolated ∧
      ∀ m, e.machines[i]? = some m → ∃ ds, Effect i (flow m) e e' r ds := by
  cases hm : e.machines[i]? with
  | none =>
    refine ⟨e, .error (.busy none), .act ?_, h, fun m hn => by cases hn⟩
    simp only [hm]
    exact .done _
  | some m =>
    obtain ⟨e', r, ds, hc, ht, -, hdid⟩ := @comes_ofFlow _ _ _ (Function.update free i true) send i
      _ _ _ (hf m (h.machines m (List.mem_of_getElem? hm))) h
    refine ⟨e', r, comes_locked hm hc, ht, fun m' hm' => ⟨ds, ?_⟩⟩
    cases hm'
    exact hdid

/-- An event that is sent comes to a result. -/
theorem comes_send (h : e.Isolated) (most i : Nat) {event : Event} (he : event.Distinct) :
    ∃ e' r, (Engine.send most i event).Comes free e free e' r ∧ e'.Isolated ∧
      ∀ m, e.machines[i]? = some m → ∃ ds, Effect i (m.send event) e e' r ds :=
  comes_underLock (fun _ hm => Machine.keepsDistinct_send hm he) h

/-- So does a machine that is started. -/
theorem comes_start (h : e.Isolated) (most i : Nat) :
    ∃ e' r, (Engine.start most i).Comes free e free e' r ∧ e'.Isolated ∧
      ∀ m, e.machines[i]? = some m → ∃ ds, Effect i m.start e e' r ds :=
  comes_underLock (fun _ hm => Machine.keepsDistinct_start hm) h

end Isolated
end Engine

/-! ## Machines that are started -/

/-- A machine is there, and has been started. -/
def Engine.Running (i : Nat) (e : Engine μ) : Prop :=
  ∃ m, e.machines[i]? = some m ∧ m.live.started = true

/-- No transition waits for an event in the machine's state with a guard that holds. -/
def Machine.Ignores (m : Machine) (event : Event) : Prop :=
  ∀ state, m.chart.states.get? m.live.state = some state →
    ∀ t ∈ state.transitions, Passes m.live.context event.type t

section

variable {m : Machine} {event : Event} {ds : List (Deed η)} {r : Except CallFault Bool}

/-- An event that is ignored leaves a started machine as it is, and calls no handler. -/
theorem Machine.Ignores.sent (h : m.Ignores event) (hs : m.live.started = true)
    (hr : m.Sent event ds r) :
    r = .ok false ∧ ds.foldl Deed.affect m = m ∧ ∀ d ∈ ds, d.isCall = false := by
  have same : { m with live := { m.live with started := true } } = m := by
    rw [← hs]
  have quiet (ts : List Transition) (d : Deed η) (hd : d.isCall = false) :
      ∀ d' ∈ m.trying event ts ++ [d], d'.isCall = false := by
    refine List.forall_mem_append.mpr ⟨?_, List.forall_mem_singleton.mpr hd⟩
    simp only [trying, List.forall_mem_cons, List.forall_mem_map]
    exact ⟨rfl, fun _ _ => rfl⟩
  have passed {before : List Transition} {t : Transition} (hm : m.Meets event before t) :
      Guard.check t.guard m.live.context = .ok false ∨
        ∃ f, Guard.check t.guard m.live.context = .error (.failure f) := by
    obtain ⟨state, hst, ⟨after, he⟩, ht, -⟩ := hm
    exact h state hst t (by simp [he]) ht
  cases hr with
  | lost => exact ⟨rfl, by rw [List.foldl_append, trying_affect]; exact same, quiet _ _ rfl⟩
  | unmatched => exact ⟨rfl, by rw [List.foldl_append, trying_affect]; exact same, quiet _ _ rfl⟩
  | overlong hm hg =>
    obtain ho | ⟨f, ho⟩ := passed hm
    · cases hg.symm.trans ho
    · cases hg.symm.trans ho
  | taken hm hg =>
    obtain ho | ⟨f, ho⟩ := passed hm
    · cases hg.symm.trans ho
    · cases hg.symm.trans ho

end

variable [Recorder μ]

theorem Effect.running {x : Flow (Handler μ) α} {e' : Engine μ} {a : α}
    {ds : List (Deed (Handler μ))} (h : Effect i x e e' a ds) {m : Machine}
    (hm : e.machines[i]? = some m) (hs : (ds.foldl Deed.affect m).live.started = true) :
    e'.Running i := by
  refine ⟨_, ?_, hs⟩
  rw [h.machines, List.getElem?_modify_eq, hm]
  rfl

/-- An event that is ignored is logged at most. -/
theorem Engine.Isolated.comes_ignored (h : e.Isolated) (most : Nat) {event : Event}
    (he : event.Distinct)
    {m : Machine} (hm : e.machines[i]? = some m) (hs : m.live.started = true)
    (hi : m.Ignores event) :
    ∃ e', (Engine.send most i event).Comes free e free e' (.ok false) ∧ e'.Isolated ∧
      e'.machines = e.machines ∧ Noted e.memory e'.memory := by
  obtain ⟨e', r, hc, ht, hdid⟩ := h.comes_send most i he
  obtain ⟨ds, hd⟩ := hdid m hm
  obtain ⟨rfl, ha, hq⟩ := hi.sent hs (Machine.send_runs_iff.mp hd.runs)
  refine ⟨e', hc, ht, ?_, hd.noted hq⟩
  have hid : ∀ m', e.machines[i]? = some m' → ds.foldl Deed.affect m' = m' := by
    rintro m' hm'
    obtain rfl : m = m' := Option.some.inj (hm.symm.trans hm')
    exact ha
  rw [hd.machines]
  refine List.ext_getElem? fun k => ?_
  rw [List.getElem?_modify]
  split
  · rename_i hk
    subst hk
    cases hk : e.machines[i]? with
    | none => rfl
    | some m' => exact congrArg some (hid m' hk)
  · simp

namespace Catalog

variable {c : Catalog} {workflow : String} {context : Option Context}

theorem logCreated_logs (workflow : String) (i : Nat) (e : Engine μ) :
    ∃ entries, logCreated workflow i e = e.logAll entries := by
  unfold logCreated
  split
  · exact ⟨[_], rfl⟩
  · exact ⟨[], rfl⟩

/-- A machine is created, unless there is no such workflow, or the start of the machine ends with an
error. -/
theorem comes_create (h : e.Isolated) (most : Nat) (hd : c.document.Distinct)
    (hc : ∀ fields, context = some fields → (Value.obj fields).Distinct) :
    ∃ e' r, (c.create most workflow context).Comes free e free e' r ∧ e'.Isolated ∧
      (c.document.workflows.get? workflow = none ∧ r = .error (.noWorkflow workflow) ∨
        ∃ chart, c.document.workflows.get? workflow = some chart ∧
          ((∃ f, r = .error (.call f)) ∨ ∃ i, r = .ok i ∧ e'.Running i)) := by
  cases hw : c.document.workflows.get? workflow with
  | none =>
    refine ⟨e, .error (.noWorkflow workflow), ?_, h, .inl ⟨rfl, rfl⟩⟩
    rw [create, hw]
    exact .done _
  | some chart =>
    have hm : (c.machine (some workflow) chart context).Distinct := by
      refine ⟨?_, hd _ (Fields.mem_of_get? hw)⟩
      cases context with
      | none => exact .empty
      | some fields => exact Value.Distinct.empty.merge fun _ => (hc fields rfl).field
    obtain ⟨e₁, r, hrun, ht, hdid⟩ := (h.add hm).comes_start most e.machines.length
    obtain ⟨ds, hd⟩ := hdid _ List.getElem?_concat_length
    have hcreate (r' : Except CreateFault Nat) (e' : Engine μ)
        (hr' : (match r with
          | .error f => .done (.error (.call f))
          | .ok _ => .change (logCreated workflow e.machines.length)
              (.done (.ok e.machines.length)) : Process (Engine μ) (Except CreateFault Nat)).Comes
            free e₁ free e' r') :
        (c.create most workflow context).Comes free e free e' r' := by
      rw [create, hw]
      refine .act (hrun.bind ?_)
      cases r <;> exact hr'
    cases r with
    | error f => exact ⟨e₁, _, hcreate _ _ (.done _), ht, .inr ⟨chart, rfl, .inl ⟨f, rfl⟩⟩⟩
    | ok b =>
      obtain ⟨entries, hl⟩ := logCreated_logs workflow e.machines.length e₁
      refine ⟨_, _, hcreate _ _ (.act (.done _)), ?_, .inr ⟨chart, rfl, .inr ⟨_, rfl, ?_⟩⟩⟩
      · rw [hl]
        exact ht.logAll entries
      · rw [hl, Engine.Running, (Engine.logAll_eq entries e₁).2.1]
        exact hd.running List.getElem?_concat_length (Machine.start_runs_iff.mp hd.runs).started

end Catalog
end Workflow
