import Workflow.Handler.Default
import Workflow.Proofs.Call.Reduced
import Workflow.Proofs.Engine.Steady
import Workflow.Proofs.Value.Distinct

/-!
# Required paths

A validation asks for paths, one or a list of them. A list reaches the check as it stands. One path
with a point in it does not: the machine takes it for a parameter that is a path and hands over what
stands there, and that value then counts as what is required. So a missing value asks for nothing.

Results:
* `Validation.missing_eq_nil_iff`: the values that, taken as required paths, ask for nothing that is
  missing.
* `Machine.ending_required`, `Machine.ending_unresolved`: how an action that requires something
  ends.
* `Machine.required_alone`: when one path means the same as the list of it.
* `Machine.missing_unnoticed`: a path whose value is missing, and no error.
-/
namespace Workflow

open Context (find resolve)

namespace Validation

variable {context : Context} {path required : Value} {paths : List Value} {p : String}

/-- What is missing of what is required. -/
def missing (context : Context) (required : Value) : Except Fault (List Value) :=
  (requiredPaths [("required", required)]).mapError .access >>= checkPaths context

/-- What is wrong with one required path whose value is known. -/
def complaints (p : String) (v : Value) : List Value :=
  if isBlankValue v then [.str (p ++ " is required")] else []

/-- The value, taken as required paths, asks for nothing that is missing. -/
def Satisfied (context : Context) (required : Value) : Prop :=
  ∃ paths, requiredPaths [("required", required)] = .ok paths ∧
    ∀ path ∈ paths, ∃ s v, path = .str s ∧ find context s = .ok v ∧ isBlankValue v = false

/-- The path means the same alone as in a list: it is a name, or what it leads to is there and, if
it was looked up before the check, asks for nothing that is missing. -/
def Agrees (context : Context) (p : String) : Prop :=
  p ≠ "" ∧ '.' ∉ p.toList ∨
    ∃ v, find context p = .ok v ∧ isBlankValue v = false ∧
      (p = "" ∨ '.' ∈ p.toList ∧ Satisfied context v)

/-! ## The check -/

theorem run_required (context : Context) (required : Value) :
    run [("required", required)] context = (missing context required).map result := by
  have hitems : checkItems [("required", required)] context = .ok [] := rfl
  unfold run missing
  rw [hitems]
  cases requiredPaths [("required", required)] with
  | error f => rfl
  | ok paths =>
    cases hp : checkPaths context paths <;> simp [Except.mapError, bind, Except.bind, hp]

theorem checkPath_str (context : Context) (p : String) : checkPath context (.str p) =
    ((find context p).mapError .numeral).map (complaints p) := by
  cases hf : find context p <;> simp [checkPath, complaints, hf, Except.mapError, Except.map]

theorem checkPath_eq_nil_iff : checkPath context path = .ok [] ↔
    ∃ s v, path = .str s ∧ find context s = .ok v ∧ isBlankValue v = false := by
  constructor
  · intro h
    cases path with
    | str s =>
      rw [checkPath_str, except_map_ok_iff] at h
      obtain ⟨v, hv, hc⟩ := h
      refine ⟨s, v, rfl, except_mapError_ok_iff.mp hv, ?_⟩
      by_contra hb
      simp [complaints, hb] at hc
    | _ => cases h
  · rintro ⟨s, v, rfl, hv, hb⟩
    rw [checkPath_str, hv]
    simp [Except.mapError, Except.map, complaints, hb]

theorem checkPaths_eq_nil_iff : checkPaths context paths = .ok [] ↔
    ∀ path ∈ paths, checkPath context path = .ok [] := by
  induction paths with
  | nil => simp [checkPaths]
  | cons path paths ih =>
    rw [checkPaths, List.forall_mem_cons, ← ih]
    cases checkPath context path with
    | error f => simp
    | ok errors => cases checkPaths context paths <;> simp [Except.map]

/-- What is required is met exactly if the value asks for nothing that is missing. -/
theorem missing_eq_nil_iff : missing context required = .ok [] ↔ Satisfied context required := by
  rw [missing, except_bind_ok_iff]
  refine exists_congr fun paths => ?_
  rw [except_mapError_ok_iff, checkPaths_eq_nil_iff]
  exact and_congr_right fun _ => forall₂_congr fun _ _ => checkPath_eq_nil_iff

theorem missing_list (context : Context) (p : String) : missing context (.list [.str p]) =
    ((find context p).mapError .numeral).map (complaints p) := by
  have hpaths : requiredPaths [("required", .list [.str p])] = .ok [.str p] := rfl
  rw [missing, hpaths]
  show checkPaths context [.str p] = _
  rw [checkPaths, checkPath_str]
  cases find context p with
  | error f => rfl
  | ok v => simp [Except.mapError, Except.map, checkPaths]

theorem missing_name (context : Context) (hp : p ≠ "") :
    missing context (.str p) = missing context (.list [.str p]) := by
  have hpaths : requiredPaths [("required", .str p)] = .ok [.str p] := by
    simp [requiredPaths, Fields.getD, Fields.get?, Value.orElse, Value.truthy, hp]
  rw [missing, hpaths]
  rfl

/-- A missing value asks for nothing. -/
theorem satisfied_of_blank (context : Context) (hb : isBlankValue required = true) :
    Satisfied context required := by
  refine ⟨[], ?_, by simp⟩
  rcases (isBlankValue_iff required).mp hb with rfl | rfl | rfl | rfl <;> rfl

theorem resolve_name (context : Context) (hp : '.' ∉ p.toList) :
    resolve context (.str p) = .ok (.str p) := by
  simp [resolve, hp]

theorem resolve_path (context : Context) (hp : '.' ∈ p.toList) :
    resolve context (.str p) = find context p := by
  simp [resolve, hp]

end Validation

/-! ## The action -/

/-- The machine with the result of a validation in its context. -/
def Live.validated (live : Live) (errors : List Value) : Live where
  state := live.state
  context := Fields.set live.context "validation"
    (.obj [("isValid", .bool errors.isEmpty), ("errors", .list errors)])
  started := live.started

theorem Live.validated_inj {live : Live} {errors errors' : List Value}
    (h : live.validated errors = live.validated errors') : errors = errors' := by
  have hg := congrArg (fun l : Live => l.context.get? "validation") h
  have hv : errors.isEmpty = errors'.isEmpty ∧ errors = errors' := by simpa [validated] using hg
  exact hv.2

namespace Machine

open Validation

variable {μ : Type} {m : Machine} {host : Host (Handler μ)} {r : Registry (Handler μ)}
  {phase : Phase} {live : Live} {action : String} {a : Action} {v w : Value} {f : NumeralFault}

/-- An action that requires something. -/
def requiring (action : String) (required : Value) : Invocation :=
  ⟨action, [("required", required)]⟩

/-- How a validation ends that has found something missing, or could not look. -/
def concluded (live : Live) (action category : String) :
    Except Validation.Fault (List Value) → ActionEnd
  | .ok errors => .ok (live.validated errors)
  | .error f => .failed (.raised action category f.raised)

theorem concluded_ok_iff {category : String} {x : Except Validation.Fault (List Value)}
    {errors : List Value} :
    concluded live action category x = .ok (live.validated errors) ↔ x = .ok errors := by
  cases x with
  | error f => simp [concluded]
  | ok errors' =>
    rw [concluded, ActionEnd.ok.injEq, Except.ok.injEq]
    exact ⟨Live.validated_inj, congrArg _⟩

section

variable (hr : host.Plays r) (ha : m.actions.get? action = some a)
  (hv : r.resolve a.category = some Handler.validation)

include hr hv

theorem find_validation (past : List (Deed (Handler μ))) :
    host.find past a.category = some .validation := (hr.find past a.category).trans hv

theorem answer_validation (past : List (Deed (Handler μ))) (params : Fields Value)
    (context : Context) : host.answer past .validation params context =
      (Validation.run params context).mapError (·.raised) := by
  have h := hr.answer past a.category _ hv params context
  generalize host.answer past .validation params context = o at h ⊢
  cases h
  rfl

include ha

/-- How an action that requires something ends if its parameter has a value. -/
theorem ending_required (hw : resolve live.context v = .ok w) :
    m.ending host phase live (requiring action v) =
      concluded live action a.category (missing live.context w) := by
  have hparams : Context.resolveAll live.context [("required", v)] = .ok [("required", w)] := by
    simp [Context.resolveAll, hw, Except.map]
  simp only [ending, runAction, requiring, ha, Flow.play, find_validation hr hv, hparams]
  rw [answer_validation hr hv, run_required]
  cases missing live.context w <;> rfl

/-- How it ends if its parameter has none. -/
theorem ending_unresolved (hw : resolve live.context v = .error f) :
    m.ending host phase live (requiring action v) = .broken f := by
  have hparams : Context.resolveAll live.context [("required", v)] = .error f := by
    simp [Context.resolveAll, hw]
  simp only [ending, runAction, requiring, ha, Flow.play, find_validation hr hv, hparams]

theorem ending_list (p : String) : m.ending host phase live (requiring action (.list [.str p])) =
    concluded live action a.category
      (((find live.context p).mapError .numeral).map (complaints p)) := by
  rw [← missing_list]
  exact ending_required hr ha hv rfl

/-- A name means the same alone as in a list. -/
theorem ending_name {p : String} (hne : p ≠ "") (hp : '.' ∉ p.toList) :
    m.ending host phase live (requiring action (.str p)) =
      m.ending host phase live (requiring action (.list [.str p])) := by
  rw [ending_required hr ha hv (resolve_name live.context hp), missing_name live.context hne]
  exact (ending_required hr ha hv rfl).symm

/-- The empty path asks for nothing. -/
theorem ending_empty : m.ending host phase live (requiring action (.str "")) =
    .ok (live.validated []) := ending_required hr ha hv (w := .str "") rfl

theorem ending_path {p : String} (hp : '.' ∈ p.toList) (hf : find live.context p = .ok v) :
    m.ending host phase live (requiring action (.str p)) =
      concluded live action a.category (missing live.context v) :=
  ending_required hr ha hv ((resolve_path live.context hp).trans hf)

/-- A path that ends in nothing is not noticed as missing. -/
theorem ending_blank {p : String} (hf : find live.context p = .ok v) (hb : isBlankValue v = true)
    (hp : p = "" ∨ '.' ∈ p.toList) :
    m.ending host phase live (requiring action (.str p)) = .ok (live.validated []) := by
  rcases hp with rfl | hp
  · exact ending_empty hr ha hv
  · rw [ending_path hr ha hv hp hf, missing_eq_nil_iff.mpr (satisfied_of_blank live.context hb)]
    rfl

/-- When one path means the same as the list of it. -/
theorem ending_alone_iff (p : String) : m.ending host phase live (requiring action (.str p)) =
    m.ending host phase live (requiring action (.list [.str p])) ↔ Agrees live.context p := by
  by_cases hname : p ≠ "" ∧ '.' ∉ p.toList
  · exact iff_of_true (ending_name hr ha hv hname.1 hname.2) (.inl hname)
  have hp : p = "" ∨ '.' ∈ p.toList := by tauto
  rw [Agrees, or_iff_right hname, ending_list hr ha hv]
  cases hf : find live.context p with
  | error f =>
    -- in a list the path fails the action, alone it cannot be resolved before, or asks for nothing
    refine iff_of_false ?_ (by simp)
    rcases hp with rfl | hp
    · simp [ending_empty hr ha hv, concluded, Except.mapError, Except.map]
    · simp [ending_unresolved hr ha hv ((resolve_path live.context hp).trans hf), concluded,
        Except.mapError, Except.map]
  | ok v =>
    show _ = ActionEnd.ok (live.validated (complaints p v)) ↔ _
    cases hb : isBlankValue v with
    | true =>
      -- alone the path asks for nothing, in a list it is missing
      refine iff_of_false (fun h => ?_) (by simp [hb])
      rw [ending_blank hr ha hv hf hb hp, ActionEnd.ok.injEq] at h
      simpa [complaints, hb] using Live.validated_inj h
    | false =>
      have hnone : complaints p v = [] := by simp [complaints, hb]
      rw [hnone]
      rcases hp with rfl | hp
      · exact iff_of_true (ending_empty hr ha hv) ⟨v, rfl, hb, .inl rfl⟩
      · have hne : p ≠ "" := by
          rintro rfl
          simp at hp
        rw [ending_path hr ha hv hp hf, concluded_ok_iff, missing_eq_nil_iff]
        simp [hb, hp, hne]

/-- **One required path and the list of it.** A list of one path complains exactly if what the path
leads to is missing, and fails if a list on the way meets a number that cannot be read. The path
alone comes to the same exactly if it is a name, or what it leads to is there and asks in its turn
for nothing that is missing. A path with a point in it whose value is missing brings no
complaint. -/
theorem required_alone (phase : Phase) (live : Live) (p : String) :
    (∀ v, find live.context p = .ok v →
      m.ending host phase live (requiring action (.list [.str p])) =
        .ok (live.validated (complaints p v))) ∧
    (∀ f, find live.context p = .error f →
      m.ending host phase live (requiring action (.list [.str p])) =
        .failed (.raised action a.category f.raised)) ∧
    (m.ending host phase live (requiring action (.str p)) =
        m.ending host phase live (requiring action (.list [.str p])) ↔ Agrees live.context p) ∧
    ∀ v, find live.context p = .ok v → isBlankValue v = true → p = "" ∨ '.' ∈ p.toList →
      m.ending host phase live (requiring action (.str p)) = .ok (live.validated []) := by
  refine ⟨fun v hf => ?_, fun f hf => ?_, ending_alone_iff hr ha hv p,
    fun v hf hb => ending_blank hr ha hv hf hb⟩
  · rw [ending_list hr ha hv, hf]
    rfl
  · rw [ending_list hr ha hv, hf]
    rfl

end

/-! ## A machine that checks -/

/-- A machine with one action, which checks. -/
def checking : Machine where
  chart := { initial := "open", states := [("open", {})] }
  actions := [("check", { category := "validation" })]
  live := { state := "open", context := [] }

/-- A registry with one handler, which checks. -/
def checkers : Registry (Handler Unit) := ⟨[("validation", 0, .validation)]⟩

def checkHost : Host (Handler Unit) where
  find _ category := checkers.resolve category
  answer _ _ params context := (Validation.run params context).mapError (·.raised)

theorem checkers_resolve {category : String} {h : Handler Unit}
    (hd : checkers.resolve category = some h) : h = .validation := by
  obtain ⟨e, he, rfl⟩ := Option.map_eq_some_iff.mp hd
  have hm : (category, e) ∈ checkers.entries := Fields.mem_of_get? he
  simp only [checkers, List.mem_singleton, Prod.mk.injEq] at hm
  rw [hm.2]

theorem checkHost_plays : checkHost.Plays checkers where
  find _ _ := rfl
  answer _ _ _ hd _ _ := checkers_resolve hd ▸ .finish _

/-- A name is required alone as in a list. -/
theorem required_alone_name : checkHost.Plays checkers ∧
    checking.actions.get? "check" = some { category := "validation" } ∧
    checkers.resolve "validation" = some .validation ∧
    checking.ending checkHost .transition checking.live (requiring "check" (.str "name")) =
      .ok (checking.live.validated [.str "name is required"]) := by
  have ha : checking.actions.get? "check" = some { category := "validation" } := rfl
  obtain ⟨hlist, -, hsame, -⟩ :=
    required_alone checkHost_plays ha rfl .transition checking.live "name"
  have hname : Agrees checking.live.context "name" := .inl (by decide)
  exact ⟨checkHost_plays, ha, rfl, (hsame.mpr hname).trans (hlist .null rfl)⟩

/-- **Counterexample**: alone a path does not mean the same as in a list. -/
theorem missing_unnoticed :
    checking.ending checkHost .transition checking.live (requiring "check" (.str "user.name")) =
      .ok (checking.live.validated []) ∧
    checking.ending checkHost .transition checking.live
      (requiring "check" (.list [.str "user.name"])) =
        .ok (checking.live.validated [.str "user.name is required"]) ∧
    ¬ ∀ (live : Live) (p : String),
      checking.ending checkHost .transition live (requiring "check" (.str p)) =
        checking.ending checkHost .transition live (requiring "check" (.list [.str p])) := by
  have hf : find checking.live.context "user.name" = .ok .null := by cbv
  have hsingle : checking.ending checkHost .transition checking.live
      (requiring "check" (.str "user.name")) = .ok (checking.live.validated []) :=
    ending_blank checkHost_plays rfl rfl hf rfl (.inr (by decide))
  have hlist : checking.ending checkHost .transition checking.live
      (requiring "check" (.list [.str "user.name"])) =
        .ok (checking.live.validated [.str "user.name is required"]) := by
    rw [ending_list checkHost_plays rfl rfl, hf]
    rfl
  refine ⟨hsingle, hlist, fun h => ?_⟩
  have hsame := hsingle.symm.trans ((h checking.live "user.name").trans hlist)
  cases Live.validated_inj (ActionEnd.ok.inj hsame)

end Machine
end Workflow
