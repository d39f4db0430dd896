import Workflow.Proofs.Call.Course
import Workflow.Proofs.Engine.Sound

/-!
# What a journal tells

A journal tells all that becomes of the machines. Each line takes the engine from what it is just
before to what it is just behind, and between the lines the machines stay as they are. While a call
is inside a machine, the machine is what the call has found with all the deeds of the call done to
it, and these are deeds that the flow of the call may do.

Results:
* `Told.behind`: a journal that tells how an engine came about does so up to each of its lines.
* `Told.machine`: of a machine only state and context change.
* `Told.visited`: what a machine is while a call is inside.
-/
namespace Workflow

variable {μ : Type}

/-! ## Calls that are inside -/

/-- A call that has got through to a machine: the engine that it found, and what it has done. -/
structure Visit (μ : Type) where
  call : Call
  found : Engine μ
  done : List (Deed (Handler μ))

/-- The call that is inside a machine behind a line. -/
def Visit.next? (i : Nat) (v? : Option (Visit μ)) (l : Line μ) : Option (Visit μ) :=
  if l.call.machine = i then
    match l.mark with
    | .admitted => some ⟨l.call, l.engine, []⟩
    | .did d => v?.map fun v => { v with done := v.done ++ [d] }
    | .left _ => none
    | .arrived | .refused | .subscribed .. => v?
  else v?

/-- The call that is inside a machine behind a journal. -/
def visit? (i : Nat) (ls : List (Line μ)) : Option (Visit μ) := ls.foldl (Visit.next? i) none

theorem visit?_concat (i : Nat) (ls : List (Line μ)) (l : Line μ) :
    visit? i (ls ++ [l]) = Visit.next? i (visit? i ls) l := List.foldl_concat ..

theorem visit?_elsewhere {i : Nat} {l : Line μ} (h : l.call.machine ≠ i) (ls : List (Line μ)) :
    visit? i (ls ++ [l]) = visit? i ls := (visit?_concat ..).trans (if_neg h)

/-- A line that is no work of a machine lets in no call and lets none out. -/
theorem visit?_beside {i : Nat} {l : Line μ} (h : isWork i (l.call, l.mark) = false)
    (ls : List (Line μ)) : visit? i (ls ++ [l]) = visit? i ls := by
  by_cases hi : l.call.machine = i
  · obtain ⟨c, mark, e⟩ := l
    rw [visit?_concat]
    unfold Visit.next?
    rw [if_pos hi]
    cases mark with
    | arrived => rfl
    | refused => rfl
    | subscribed => rfl
    | admitted => exact absurd hi (by simpa [isWork] using h)
    | did d => exact absurd hi (by simpa [isWork] using h)
    | left r => exact absurd hi (by simpa [isWork] using h)
  · exact visit?_elsewhere hi ls

theorem visit?_admitted (c : Call) (e : Engine μ) (ls : List (Line μ)) :
    visit? c.machine (ls ++ [⟨c, .admitted, e⟩]) = some ⟨c, e, []⟩ :=
  (visit?_concat ..).trans (if_pos rfl)

theorem visit?_did {c : Call} {v : Visit μ} {ls : List (Line μ)} (h : visit? c.machine ls = some v)
    (d : Deed (Handler μ)) (e : Engine μ) : visit? c.machine (ls ++ [⟨c, .did d, e⟩]) =
      some { v with done := v.done ++ [d] } := by
  rw [visit?_concat, h]
  exact if_pos rfl

theorem visit?_left (c : Call) (r : Except CallFault Bool) (e : Engine μ) (ls : List (Line μ)) :
    visit? c.machine (ls ++ [⟨c, .left r, e⟩]) = none :=
  (visit?_concat ..).trans (if_pos rfl)

/-! ## Lines -/

/-- What a call on a machine does with a line, if it does something. -/
def Line.deed? (i : Nat) (l : Line μ) : Option (Deed (Handler μ)) :=
  match l.mark with
  | .did d => if l.call.machine = i then some d else none
  | _ => none

theorem Line.deed?_eq_some {i : Nat} {l : Line μ} {d : Deed (Handler μ)} :
    l.deed? i = some d ↔ l.call.machine = i ∧ l.mark = .did d := by
  obtain ⟨c, mark, e⟩ := l
  cases mark <;> simp [Line.deed?]

theorem Line.deed?_beside {i : Nat} {l : Line μ} (h : isWork i (l.call, l.mark) = false) :
    l.deed? i = none := by
  unfold Line.deed?
  split
  · rename_i d hd
    refine if_neg fun hi => ?_
    simp [isWork, hd, hi] at h
  · rfl

/-- A call sends an event, or it starts its machine. -/
theorem Call.runs_flow_cases {η : Type} {c : Call} {m : Machine} {ds : List (Deed η)}
    {r : Except CallFault Bool} (h : (c.flow m).Runs ds r) :
    (∃ e, c.event = some e ∧ m.Sent e ds r) ∨ m.Started ds r := by
  unfold Call.flow at h
  split at h
  · rename_i e he
    exact .inl ⟨e, he, Machine.send_runs_iff.mp h⟩
  · exact .inr (Machine.start_runs_iff.mp h)

/-- What a line may say behind a journal. -/
inductive Fits (ls : List (Line μ)) : Line μ → Prop where
  | beside {l : Line μ} (h : ∀ i, isWork i (l.call, l.mark) = false) : Fits ls l
  | admitted {c : Call} {e : Engine μ} {m : Machine} (hn : visit? c.machine ls = none)
    (hm : e.machines[c.machine]? = some m) : Fits ls ⟨c, .admitted, e⟩
  | did {c : Call} {e found : Engine μ} {m : Machine} {done more : List (Deed (Handler μ))}
    {d : Deed (Handler μ)} {r : Except CallFault Bool}
    (hv : visit? c.machine ls = some ⟨c, found, done⟩) (hm : found.machines[c.machine]? = some m)
    (hr : (c.flow m).Runs (done ++ d :: more) r) : Fits ls ⟨c, .did d, e⟩
  | left {c : Call} {e found : Engine μ} {m : Machine} {done : List (Deed (Handler μ))}
    {r : Except CallFault Bool} (hv : visit? c.machine ls = some ⟨c, found, done⟩)
    (hm : found.machines[c.machine]? = some m) (hr : (c.flow m).Runs done r) :
    Fits ls ⟨c, .left r, e⟩
  /-- A call from within too many further calls does nothing. -/
  | turned {c : Call} {e found : Engine μ} {name : Option String}
    (hv : visit? c.machine ls = some ⟨c, found, []⟩) : Fits ls ⟨c, .left (.error (.busy name)), e⟩

namespace Engine

/-- What happens between the lines of a journal: something is remembered, or a subscription
ends. -/
inductive Quiet : Engine μ → Engine μ → Prop where
  | touch (e : Engine μ) (change : μ → μ) : Quiet e (e.touch change)
  | unsubscribe (e : Engine μ) (channel serial : Nat) : Quiet e (e.unsubscribe channel serial)

theorem Quiet.machines {e e' : Engine μ} (h : e.Quiet e') : e'.machines = e.machines := by
  cases h <;> rfl

end Engine

variable [Recorder μ]

/-- The engine just behind a line. -/
def Line.after (l : Line μ) : Engine μ :=
  match l.mark with
  | .did (.logged entry) => l.engine.log entry
  | .did (.reported r) => l.engine.report l.call.machine r
  | .did (.published live) => l.engine.publish l.call.machine live
  | .did .announced => l.engine.announce l.call.machine
  | .subscribed channel listener => (l.engine.subscribe channel listener).1
  | _ => l.engine

/-- What a line makes of a machine. -/
def Line.affect (i : Nat) (l : Line μ) (m : Machine) : Machine :=
  match l.mark with
  | .did d => if l.call.machine = i then d.affect m else m
  | _ => m

/-- Behind a line the machines are what the line makes of them. -/
theorem Line.after_machine (i : Nat) (l : Line μ) :
    l.after.machines[i]? = (l.engine.machines[i]?).map (l.affect i) := by
  have same {e e' : Engine μ} {f : Machine → Machine} (h : e'.machines = e.machines)
      (hf : f = id) : e'.machines[i]? = (e.machines[i]?).map f := by
    rw [h, hf, Option.map_id, id]
  have here {c : Call} {d : Deed (Handler μ)} {e : Engine μ} (h : ∀ m, d.affect m = m) :
      Line.affect i ⟨c, .did d, e⟩ = id := by
    funext m
    show (if c.machine = i then d.affect m else m) = m
    rw [h, ite_self]
  obtain ⟨c, mark, e⟩ := l
  cases mark with
  | did d =>
    cases d with
    | published live => exact List.getElem?_modify ..
    | reported r => exact same (Engine.report_machines ..) (here fun _ => rfl)
    | announced => exact same (Engine.announce_machines ..) (here fun _ => rfl)
    | _ => exact same rfl (here fun _ => rfl)
  | _ => exact same rfl rfl

omit [Recorder μ] in
theorem Line.affect_eq (i : Nat) (l : Line μ) (m : Machine) :
    l.affect i m = { m with live := (l.affect i m).live } := by
  unfold Line.affect
  split
  · rename_i d _
    split
    · cases d <;> rfl
    · rfl
  · rfl

omit [Recorder μ] in
theorem Line.affect_elsewhere {i : Nat} {l : Line μ} (h : l.call.machine ≠ i) (m : Machine) :
    l.affect i m = m := by
  unfold Line.affect
  split
  · exact if_neg h
  · rfl

omit [Recorder μ] in
theorem Line.affect_of_ne {i : Nat} {l : Line μ} (h : ∀ d, l.mark ≠ .did d) (m : Machine) :
    l.affect i m = m := by
  unfold Line.affect
  split
  · rename_i d hd
    exact absurd hd (h d)
  · rfl

/-- A book whose journal tells how its engine came about. -/
inductive Told (e₀ : Engine μ) : Book μ → Prop where
  | start : Told e₀ (e₀, [])
  | quiet {e e' : Engine μ} {ls : List (Line μ)} (h : Told e₀ (e, ls)) (hq : e.Quiet e') :
    Told e₀ (e', ls)
  | line {l : Line μ} {ls : List (Line μ)} (h : Told e₀ (l.engine, ls)) (hf : Fits ls l) :
    Told e₀ (l.after, ls ++ [l])

namespace Told

variable {e₀ e : Engine μ} {ls before after : List (Line μ)} {l : Line μ} {i : Nat}

/-- A journal that tells how an engine came about does so up to each of its lines. -/
theorem behind (h : Told e₀ (e, ls)) (hl : ls = before ++ l :: after) :
    Told e₀ (l.engine, before) ∧ Fits before l := by
  generalize hb : (e, ls) = b at h
  induction h generalizing e ls before l after with
  | start =>
    cases hb
    cases before <;> cases hl
  | quiet _ _ ih =>
    cases hb
    exact ih hl rfl
  | line h hf ih =>
    cases hb
    rcases concat_eq_split hl with ⟨-, rfl, rfl⟩ | ⟨after', -, hl⟩
    · exact ⟨h, hf⟩
    · exact ih hl rfl

/-- Of a machine only the state and the context change. -/
theorem machine (h : Told e₀ (e, ls)) (i : Nat) : ∃ now : Machine → Live,
    e.machines[i]? = (e₀.machines[i]?).map fun m => { m with live := now m } := by
  generalize hb : (e, ls) = b at h
  induction h generalizing e ls with
  | start =>
    cases hb
    exact ⟨fun m => m.live, (Option.map_id' ..).symm⟩
  | quiet _ hq ih =>
    cases hb
    rw [hq.machines]
    exact ih rfl
  | @line l ls h hf ih =>
    cases hb
    obtain ⟨now, hn⟩ := ih rfl
    refine ⟨fun m => (l.affect i { m with live := now m }).live, ?_⟩
    rw [l.after_machine, hn, Option.map_map]
    congr 1
    funext m
    exact l.affect_eq i _

/-- While a call is inside, its machine is what it has found with all its deeds done to it, and
these may be the first deeds of its flow. -/
theorem visited {v : Visit μ} (h : Told e₀ (e, ls)) (hv : visit? i ls = some v) :
    v.call.machine = i ∧ ∃ m, v.found.machines[i]? = some m ∧
      e.machines[i]? = some (v.done.foldl Deed.affect m) ∧
        ∃ more r, (v.call.flow m).Runs (v.done ++ more) r := by
  generalize hb : (e, ls) = b at h
  induction h generalizing e ls v with
  | start =>
    cases hb
    cases hv
  | quiet _ hq ih =>
    cases hb
    rw [hq.machines]
    exact ih hv rfl
  | @line l ls h hf ih =>
    cases hb
    -- a line that is about other calls
    have other (hs : visit? i (ls ++ [l]) = visit? i ls) (ha : ∀ m, l.affect i m = m) :
        v.call.machine = i ∧ ∃ m, v.found.machines[i]? = some m ∧
          l.after.machines[i]? = some (v.done.foldl Deed.affect m) ∧
            ∃ more r, (v.call.flow m).Runs (v.done ++ more) r := by
      obtain ⟨hi, m, hm, he, hr⟩ := ih (hs.symm.trans hv) rfl
      refine ⟨hi, m, hm, ?_, hr⟩
      rw [l.after_machine, he]
      exact congrArg some (ha _)
    by_cases hi : l.call.machine = i
    · subst hi
      cases hf with
      | beside h =>
        exact other (visit?_beside (h _) ls) (Line.affect_of_ne (Line.ne_did h))
      | @admitted c e m hn hm =>
        rw [visit?_admitted] at hv
        cases hv
        exact ⟨rfl, m, hm, hm, Flow.exists_runs (c.flow m)⟩
      | @did c e found m done more d r hs hm hr =>
        rw [visit?_did hs] at hv
        cases hv
        obtain ⟨-, m', hm', he, -⟩ := ih hs rfl
        rw [hm] at hm'
        cases hm'
        refine ⟨rfl, m, hm, ?_, more, r, by simpa using hr⟩
        rw [Line.after_machine, he, List.foldl_append]
        exact congrArg some (if_pos rfl)
      | left hs =>
        rw [visit?_left] at hv
        cases hv
      | turned hs =>
        rw [visit?_left] at hv
        cases hv
    · exact other (visit?_elsewhere hi ls) (Line.affect_elsewhere hi)

/-- The machine of a call that is inside differs from the one that it has found by its state and its
context. -/
theorem inside {v : Visit μ} {m : Machine} (h : Told e₀ (e, ls)) (hv : visit? i ls = some v)
    (hm : v.found.machines[i]? = some m) : ∃ live, e.machines[i]? = some { m with live } ∧
      v.done.foldl Deed.affect m = { m with live } := by
  obtain ⟨-, m', hm', he, -⟩ := h.visited hv
  rw [hm] at hm'
  cases hm'
  obtain ⟨live, hl⟩ := Deed.foldl_affect v.done m
  exact ⟨live, hl ▸ he, hl⟩

end Told
end Workflow
