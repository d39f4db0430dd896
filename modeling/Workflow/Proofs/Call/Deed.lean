import Workflow.Machine

/-!
# Deeds

What a call does to the outside, one deed after another. A flow is a tree, and a run of it is a way
through the tree: `x.Runs ds a` says that the flow may do `ds` and come to `a`, whatever handlers
are found and whatever they come to. A host settles both, with all that was done before it: it plays
every flow to its end, in one run.

Results:
* `Runs.unique`: what is done settles where a run ends and what it comes to.
* `runs_bind_iff`: a run of joined flows is a run of the first and one of the second.
* `play_runs`: what a host plays is a run.
-/
namespace Workflow

/-- Something that a call does. Handlers are of type `η`. -/
inductive Deed (η : Type) where
  | logged (e : Log.Entry)
  | reported (r : Report)
  | published (live : Live)
  | announced
  | looked (category : String) (found : Option η)
  | called (handler : η) (params : Fields Value) (context : Context)
  | answered (o : Outcome)

/-- A machine after a deed of a call on it. -/
def Deed.affect {η : Type} (m : Machine) : Deed η → Machine
  | .published live => { m with live }
  | _ => m

/-- Deeds change nothing of a machine but its state and its context. -/
theorem Deed.foldl_affect {η : Type} (ds : List (Deed η)) (m : Machine) :
    ∃ live, ds.foldl Deed.affect m = { m with live } := by
  induction ds generalizing m with
  | nil => exact ⟨m.live, rfl⟩
  | cons d ds ih =>
    obtain ⟨live, hl⟩ := ih (d.affect m)
    refine ⟨live, hl.trans ?_⟩
    cases d <;> rfl

namespace Flow

variable {η α β : Type}

/-- A flow may do `ds` and come to `a`. -/
inductive Runs : Flow η α → List (Deed η) → α → Prop where
  | done (a : α) : Runs (.done a) [] a
  | log {e : Log.Entry} {next : Flow η α} {ds : List (Deed η)} {a : α} (h : Runs next ds a) :
    Runs (.log e next) (.logged e :: ds) a
  | report {r : Report} {next : Flow η α} {ds : List (Deed η)} {a : α} (h : Runs next ds a) :
    Runs (.report r next) (.reported r :: ds) a
  | publish {live : Live} {next : Flow η α} {ds : List (Deed η)} {a : α} (h : Runs next ds a) :
    Runs (.publish live next) (.published live :: ds) a
  | announce {next : Flow η α} {ds : List (Deed η)} {a : α} (h : Runs next ds a) :
    Runs (.announce next) (.announced :: ds) a
  | resolve {category : String} {next : Option η → Flow η α} {ds : List (Deed η)} {a : α}
    (found : Option η) (h : Runs (next found) ds a) :
    Runs (.resolve category next) (.looked category found :: ds) a
  | invoke {handler : η} {params : Fields Value} {context : Context} {next : Outcome → Flow η α}
    {ds : List (Deed η)} {a : α} (o : Outcome) (h : Runs (next o) ds a) :
    Runs (.invoke handler params context next)
      (.called handler params context :: .answered o :: ds) a

variable {ds : List (Deed η)} {a : α}

@[simp] theorem runs_done_iff {b : α} : (done b).Runs ds a ↔ ds = [] ∧ a = b := by
  constructor
  · rintro ⟨⟩; exact ⟨rfl, rfl⟩
  · rintro ⟨rfl, rfl⟩; exact .done a

@[simp] theorem runs_log_iff {e : Log.Entry} {next : Flow η α} :
    (log e next).Runs ds a ↔ ∃ ds', ds = .logged e :: ds' ∧ next.Runs ds' a := by
  constructor
  · rintro ⟨⟩; exact ⟨_, rfl, by assumption⟩
  · rintro ⟨ds', rfl, h⟩; exact .log h

@[simp] theorem runs_report_iff {r : Report} {next : Flow η α} :
    (report r next).Runs ds a ↔ ∃ ds', ds = .reported r :: ds' ∧ next.Runs ds' a := by
  constructor
  · rintro ⟨⟩; exact ⟨_, rfl, by assumption⟩
  · rintro ⟨ds', rfl, h⟩; exact .report h

@[simp] theorem runs_publish_iff {live : Live} {next : Flow η α} :
    (publish live next).Runs ds a ↔ ∃ ds', ds = .published live :: ds' ∧ next.Runs ds' a := by
  constructor
  · rintro ⟨⟩; exact ⟨_, rfl, by assumption⟩
  · rintro ⟨ds', rfl, h⟩; exact .publish h

@[simp] theorem runs_announce_iff {next : Flow η α} :
    (announce next).Runs ds a ↔ ∃ ds', ds = .announced :: ds' ∧ next.Runs ds' a := by
  constructor
  · rintro ⟨⟩; exact ⟨_, rfl, by assumption⟩
  · rintro ⟨ds', rfl, h⟩; exact .announce h

@[simp] theorem runs_resolve_iff {category : String} {next : Option η → Flow η α} :
    (resolve category next).Runs ds a ↔
      ∃ found ds', ds = .looked category found :: ds' ∧ (next found).Runs ds' a := by
  constructor
  · rintro ⟨⟩; exact ⟨_, _, rfl, by assumption⟩
  · rintro ⟨found, ds', rfl, h⟩; exact .resolve found h

@[simp] theorem runs_invoke_iff {handler : η} {params : Fields Value} {context : Context}
    {next : Outcome → Flow η α} : (invoke handler params context next).Runs ds a ↔
      ∃ o ds', ds = .called handler params context :: .answered o :: ds' ∧ (next o).Runs ds' a := by
  constructor
  · rintro ⟨⟩; exact ⟨_, _, rfl, by assumption⟩
  · rintro ⟨o, ds', rfl, h⟩; exact .invoke o h

theorem Runs.bind {x : Flow η α} {f : α → Flow η β} {ds' : List (Deed η)} {b : β}
    (h : x.Runs ds a) (h' : (f a).Runs ds' b) : (x.bind f).Runs (ds ++ ds') b := by
  induction h with
  | done a => exact h'
  | log _ ih => exact .log (ih h')
  | report _ ih => exact .report (ih h')
  | publish _ ih => exact .publish (ih h')
  | announce _ ih => exact .announce (ih h')
  | resolve found _ ih => exact .resolve found (ih h')
  | invoke o _ ih => exact .invoke o (ih h')

theorem runs_bind_iff {x : Flow η α} {f : α → Flow η β} {ds : List (Deed η)} {b : β} :
    (x.bind f).Runs ds b ↔ ∃ ds₁ ds₂ a, ds = ds₁ ++ ds₂ ∧ x.Runs ds₁ a ∧ (f a).Runs ds₂ b := by
  constructor
  · intro h
    induction x generalizing ds with
    | done a => exact ⟨[], ds, a, rfl, .done a, h⟩
    | log e next ih =>
      obtain ⟨ds', rfl, hr⟩ := runs_log_iff.mp h
      obtain ⟨ds₁, ds₂, a, rfl, h₁, h₂⟩ := ih hr
      exact ⟨_ :: ds₁, ds₂, a, rfl, .log h₁, h₂⟩
    | report r next ih =>
      obtain ⟨ds', rfl, hr⟩ := runs_report_iff.mp h
      obtain ⟨ds₁, ds₂, a, rfl, h₁, h₂⟩ := ih hr
      exact ⟨_ :: ds₁, ds₂, a, rfl, .report h₁, h₂⟩
    | publish live next ih =>
      obtain ⟨ds', rfl, hr⟩ := runs_publish_iff.mp h
      obtain ⟨ds₁, ds₂, a, rfl, h₁, h₂⟩ := ih hr
      exact ⟨_ :: ds₁, ds₂, a, rfl, .publish h₁, h₂⟩
    | announce next ih =>
      obtain ⟨ds', rfl, hr⟩ := runs_announce_iff.mp h
      obtain ⟨ds₁, ds₂, a, rfl, h₁, h₂⟩ := ih hr
      exact ⟨_ :: ds₁, ds₂, a, rfl, .announce h₁, h₂⟩
    | resolve category next ih =>
      obtain ⟨found, ds', rfl, hr⟩ := runs_resolve_iff.mp h
      obtain ⟨ds₁, ds₂, a, rfl, h₁, h₂⟩ := ih found hr
      exact ⟨_ :: ds₁, ds₂, a, rfl, .resolve found h₁, h₂⟩
    | invoke handler params context next ih =>
      obtain ⟨o, ds', rfl, hr⟩ := runs_invoke_iff.mp h
      obtain ⟨ds₁, ds₂, a, rfl, h₁, h₂⟩ := ih o hr
      exact ⟨_ :: _ :: ds₁, ds₂, a, rfl, .invoke o h₁, h₂⟩
  · rintro ⟨ds₁, ds₂, a, rfl, h₁, h₂⟩
    exact h₁.bind h₂

/-- No run goes on behind the end of another, and what is done settles what it comes to. -/
theorem Runs.unique {x : Flow η α} {more : List (Deed η)} {b : α} (h : x.Runs ds a)
    (h' : x.Runs (ds ++ more) b) : more = [] ∧ a = b := by
  induction h with
  | done a =>
    obtain ⟨e, rfl⟩ := runs_done_iff.mp h'
    exact ⟨e, rfl⟩
  | log _ ih => cases h' with | log h' => exact ih h'
  | report _ ih => cases h' with | report h' => exact ih h'
  | publish _ ih => cases h' with | publish h' => exact ih h'
  | announce _ ih => cases h' with | announce h' => exact ih h'
  | resolve found _ ih => cases h' with | resolve _ h' => exact ih h'
  | invoke o _ ih => cases h' with | invoke _ h' => exact ih h'

@[simp] theorem runs_reports_iff {rs : List Report} {next : Flow η α} :
    (reports rs next).Runs ds a ↔ ∃ ds', ds = rs.map .reported ++ ds' ∧ next.Runs ds' a := by
  induction rs generalizing ds with
  | nil => simp [reports]
  | cons r rs ih =>
    change (report r (reports rs next)).Runs ds a ↔ _
    simp only [runs_report_iff, ih, List.map_cons, List.cons_append]
    constructor
    · rintro ⟨_, rfl, ds', rfl, h⟩; exact ⟨ds', rfl, h⟩
    · rintro ⟨ds', rfl, h⟩; exact ⟨_, rfl, ds', rfl, h⟩

end Flow

/-- What surrounds a call: which handler is found for a category and what a handler comes to, both
after whatever the call has done before. -/
structure Host (η : Type) where
  find : List (Deed η) → String → Option η
  answer : List (Deed η) → η → Fields Value → Context → Outcome

namespace Flow

variable {η α : Type}

/-- What a flow does beside a host, behind what was done before, and what it comes to. -/
def play (host : Host η) : Flow η α → List (Deed η) → List (Deed η) × α
  | .done a, _ => ([], a)
  | .log e next, past =>
    let r := next.play host (past ++ [.logged e])
    (.logged e :: r.1, r.2)
  | .report r next, past =>
    let s := next.play host (past ++ [.reported r])
    (.reported r :: s.1, s.2)
  | .publish live next, past =>
    let r := next.play host (past ++ [.published live])
    (.published live :: r.1, r.2)
  | .announce next, past =>
    let r := next.play host (past ++ [.announced])
    (.announced :: r.1, r.2)
  | .resolve category next, past =>
    let found := host.find past category
    let r := (next found).play host (past ++ [.looked category found])
    (.looked category found :: r.1, r.2)
  | .invoke h params context next, past =>
    let o := host.answer past h params context
    let r := (next o).play host (past ++ [.called h params context, .answered o])
    (.called h params context :: .answered o :: r.1, r.2)

theorem play_runs (host : Host η) (x : Flow η α) (past : List (Deed η)) :
    x.Runs (x.play host past).1 (x.play host past).2 := by
  induction x generalizing past with
  | done a => exact .done a
  | log e next ih => exact .log (ih _)
  | report r next ih => exact .report (ih _)
  | publish live next ih => exact .publish (ih _)
  | announce next ih => exact .announce (ih _)
  | resolve category next ih => exact .resolve _ (ih _ _)
  | invoke handler params context next ih => exact .invoke _ (ih _ _)

theorem exists_runs (x : Flow η α) : ∃ ds a, x.Runs ds a := by
  let host : Host η := { find := fun _ _ => none, answer := fun _ _ _ _ => .ok .null }
  exact ⟨_, _, x.play_runs host []⟩

end Flow
end Workflow
