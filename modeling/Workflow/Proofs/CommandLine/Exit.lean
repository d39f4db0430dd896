import Workflow.Proofs.CommandLine.Run
import Workflow.Proofs.Document.Fallback
import Workflow.Proofs.Settings.Texts

/-!
# Exit codes

A code is due to every command, whatever there is at the path of the document: to the list of
workflows zero, to the search for targets that are not defined one if there are some, or if there is
no document, and to a run two if there is no such workflow and one if a call ends with an error. The
program ends with the code that is due if all settings are taken, with two if one is refused, and
with no code at all if only the name of the level is unknown: no setting refuses it, and nothing
catches the error that it is.

Results:
* `Due.performed`, `exists_due`: the code that is due is there, and is what comes of a job.
* `exit_codes`: how the program ends.
* `no_code`: an unknown level leads to no code.
-/
namespace Workflow.CommandLine

variable {μ : Type} [Recorder μ]

/-! ## Codes -/

/-- The code that is due to a command. -/
inductive Due (s : Settings) (transport : Api.Transport μ)
    (found : Except Files.Fault (List UInt8)) (memory : μ) : Command → Nat → Prop where
  | list : Due s transport found memory .list 0
  /-- There is no document. -/
  | unloadable {f : Document.LoadFault} (hf : Document.Fails found f) :
    Due s transport found memory .validate 1
  | dangling {d : Document} (hd : Document.Holds found d) (hn : d.dangling ≠ []) :
    Due s transport found memory .validate 1
  | sound {d : Document} (hd : Document.Holds found d) (hn : d.dangling = []) :
    Due s transport found memory .validate 0
  | unknown {workflow : String} {context : Option Context} {events : List Event}
    (hw : (s.catalog found).1.document.workflows.get? workflow = none) :
    Due s transport found memory (.run workflow context events) 2
  /-- A call ends with an error. -/
  | failed {workflow : String} {context : Option Context} {events : List Event} {e : Engine μ}
    {f : CallFault} (hr : runInTurn (s.catalog found).1 workflow context events
      (opened s transport found memory) = (e, some (.error (.call f)))) :
    Due s transport found memory (.run workflow context events) 1
  /-- The calls return, but what has become of the machine cannot be printed. -/
  | unprintable {workflow : String} {context : Option Context} {events : List Event} {e : Engine μ}
    {i : Nat} {m : Machine} {t : Json.LongNumber}
    (hr : runInTurn (s.catalog found).1 workflow context events
      (opened s transport found memory) = (e, some (.ok i))) (hm : e.machines[i]? = some m)
    (hc : Json.check m.snapshot = .error t) :
    Due s transport found memory (.run workflow context events) 1
  | printed {workflow : String} {context : Option Context} {events : List Event} {e : Engine μ}
    {i : Nat} {m : Machine} (hr : runInTurn (s.catalog found).1 workflow context events
      (opened s transport found memory) = (e, some (.ok i))) (hm : e.machines[i]? = some m)
    (hc : Json.check m.snapshot = .ok ()) :
    Due s transport found memory (.run workflow context events) 0

variable {s : Settings} {transport : Api.Transport μ} {found : Except Files.Fault (List UInt8)}
  {memory : μ} {workflow : String} {context : Option Context} {events : List Event} {code : Nat}

theorem Due.le {command : Command} (h : Due s transport found memory command code) : code ≤ 2 := by
  cases h <;> decide

/-! ## Commands -/

theorem validate_of_fails {f : Document.LoadFault} (hf : Document.Fails found f) (path : String) :
    (validate path found memory).2.code = 1 := by
  simp only [validate, Document.loadLogged, hf.load, Except.map]
  rfl

theorem validate_of_holds {d : Document} (hd : Document.Holds found d) (path : String) :
    (validate path found memory).2.code = if d.dangling.isEmpty then 0 else 1 := by
  simp only [validate, Document.loadLogged, hd.load, Except.map]
  exact review_code d

/-- A run reports what the calls in turn come to. -/
theorem run_reports (ht : Api.Local transport) (hx : (Command.run workflow context events).Distinct)
    (s : Settings) (found : Except Files.Fault (List UInt8)) (memory : μ) :
    ∃ e r, runInTurn (s.catalog found).1 workflow context events
        (opened s transport found memory) = (e, some r) ∧
      run s transport found workflow context events memory = report e r ∧
      ((s.catalog found).1.document.workflows.get? workflow = none ∧
          r = .error (.noWorkflow workflow) ∨
        (s.catalog found).1.document.workflows.get? workflow ≠ none ∧
          ((∃ f, r = .error (.call f)) ∨ ∃ i m, r = .ok i ∧ e.machines[i]? = some m)) := by
  have hd : (s.catalog found).1.document.Distinct := Document.distinct_loadOr s.path found
  obtain ⟨e, r, hc, hrun, -, hr⟩ := comes_session (opened_isolated s ht found memory) hd hx
  refine ⟨e, r, hrun, run_alone s transport found memory hc, ?_⟩
  obtain hr | ⟨hw, hr | ⟨i, hr, m, hm, -⟩⟩ := hr
  · exact .inl hr
  · exact .inr ⟨hw, .inl hr⟩
  · exact .inr ⟨hw, .inr ⟨i, m, hr, hm⟩⟩

theorem report_of_check {e : Engine μ} {i : Nat} {m : Machine} (hm : e.machines[i]? = some m)
    (hc : Json.check m.snapshot = .ok ()) : (report e (.ok i)).2.code = 0 := by
  simp only [report, hm, Json.write?_of_check hc]

theorem report_of_long {e : Engine μ} {i : Nat} {m : Machine} {t : Json.LongNumber}
    (hm : e.machines[i]? = some m) (hc : Json.check m.snapshot = .error t) :
    (report e (.ok i)).2.code = 1 := by
  simp only [report, hm, Json.write?, hc, Except.map, fail]

/-- A job ends with the code that is due. -/
theorem Due.performed {j : Job} (h : Due j.settings transport found memory j.command code)
    (ht : Api.Local transport) (hx : j.command.Distinct) :
    (j.perform transport found memory).2.code = code := by
  obtain ⟨s, command⟩ := j
  dsimp only at h hx
  -- what the calls in turn come to is what is reported
  have reported {workflow context events e r} (hx : (Command.run workflow context events).Distinct)
      (hr : runInTurn (s.catalog found).1 workflow context events
        (opened s transport found memory) = (e, some r)) :
      run s transport found workflow context events memory = report e r := by
    obtain ⟨e', r', hrun, hrep, -⟩ := run_reports ht hx s found memory
    obtain ⟨rfl, hr'⟩ := Prod.mk.inj (hrun.symm.trans hr)
    cases hr'
    exact hrep
  cases h with
  | list => rfl
  | unloadable hf => exact validate_of_fails hf s.path
  | dangling hd hn => exact (validate_of_holds hd s.path).trans (by simp [hn])
  | sound hd hn => exact (validate_of_holds hd s.path).trans (by simp [hn])
  | unknown hw =>
    obtain ⟨e, r, -, hrep, ⟨-, rfl⟩ | ⟨hn, -⟩⟩ := run_reports ht hx s found memory
    · exact congrArg (·.2.code) hrep
    · exact absurd hw hn
  | failed hr => exact congrArg (·.2.code) (reported hx hr)
  | unprintable hr hm hc =>
    exact (congrArg (·.2.code) (reported hx hr)).trans (report_of_long hm hc)
  | printed hr hm hc =>
    exact (congrArg (·.2.code) (reported hx hr)).trans (report_of_check hm hc)

/-- There is a code for every command. -/
theorem exists_due (ht : Api.Local transport) (s : Settings)
    (found : Except Files.Fault (List UInt8)) (memory : μ) {command : Command}
    (hx : command.Distinct) : ∃ code, Due s transport found memory command code := by
  cases command with
  | list => exact ⟨0, .list⟩
  | validate =>
    obtain ⟨d, hd⟩ | ⟨f, hf⟩ := Document.holds_or_fails found
    · by_cases hn : d.dangling = []
      · exact ⟨0, .sound hd hn⟩
      · exact ⟨1, .dangling hd hn⟩
    · exact ⟨1, .unloadable hf⟩
  | run workflow context events =>
    obtain ⟨e, r, hrun, -, ⟨hw, -⟩ | ⟨-, ⟨f, rfl⟩ | ⟨i, m, rfl, hm⟩⟩⟩ :=
      run_reports ht hx s found memory
    · exact ⟨2, .unknown hw⟩
    · exact ⟨1, .failed hrun⟩
    · cases hc : Json.check m.snapshot with
      | ok _ => exact ⟨0, .printed hrun hm hc⟩
      | error t => exact ⟨1, .unprintable hrun hm hc⟩

/-- A job ends with a code exactly if it is due. -/
theorem perform_code_iff {j : Job} (ht : Api.Local transport) (hx : j.command.Distinct) :
    (j.perform transport found memory).2.code = code ↔
      Due j.settings transport found memory j.command code := by
  refine ⟨fun hcode => ?_, fun h => h.performed ht hx⟩
  obtain ⟨code', h⟩ := exists_due ht j.settings found memory hx
  have heq : code' = code := (h.performed ht hx).symm.trans hcode
  exact heq ▸ h

/-! ## The program -/

variable {words : List String} {i : Invocation} {environment : Fields String}
  {statements : List EnvFile.Statement}

omit [Recorder μ] in
theorem prepare_of_rejected (hw : Invocation.ofWords words = .ok i)
    (hr : (Settings.sources [] environment statements).Rejected) :
    ∃ r, prepare words environment (.ok statements) = .error r ∧ r.ending = .returned 2 := by
  have hs := Settings.ofSources_ok_iff (Settings.texts_sources environment statements)
  simp only [prepare, hw]
  cases h : Settings.ofSources (Settings.sources [] environment statements) with
  | bad issues => exact ⟨_, rfl, rfl⟩
  | ok s => exact absurd hr (hs.mp ⟨s, h⟩)

omit [Recorder μ] in
theorem prepare_of_named (hw : Invocation.ofWords words = .ok i)
    (hr : ¬ (Settings.sources [] environment statements).Rejected)
    (hl : Log.NamesLevel (Settings.sources [] environment statements).level) :
    ∃ s ready, Settings.ofSources (Settings.sources [] environment statements) = .ok s ∧
      prepare words environment (.ok statements) = .ok ready ∧ ready.job = i.job s := by
  have hs := Settings.texts_sources environment statements
  obtain ⟨s, h⟩ := (Settings.ofSources_ok_iff hs).mpr hr
  obtain ⟨t, ht⟩ := Log.configure_ok_iff.mpr hl
  rw [← Settings.level_of_ofSources hs h] at ht
  simp only [prepare, hw, h, ht]
  exact ⟨s, _, rfl, rfl, rfl⟩

omit [Recorder μ] in
theorem prepare_of_unnamed (hw : Invocation.ofWords words = .ok i)
    (hr : ¬ (Settings.sources [] environment statements).Rejected)
    (hl : ¬ Log.NamesLevel (Settings.sources [] environment statements).level) :
    ∃ r, prepare words environment (.ok statements) = .error r ∧
      r.ending = .escaped (Log.UnknownLevel.raised
        ⟨Text.capitals (Settings.sources [] environment statements).level⟩) := by
  have hs := Settings.texts_sources environment statements
  obtain ⟨s, h⟩ := (Settings.ofSources_ok_iff hs).mpr hr
  have hu := Log.Thresholds.configure_error (Log.levelNumber?_eq_none_iff.mpr hl)
  rw [← Settings.level_of_ofSources hs h] at hu ⊢
  simp only [prepare, hw, h, hu]
  exact ⟨_, rfl, rfl⟩

/-- **The program ends with the code that is due, unless its level is unknown.** It ends with two if
a setting refuses what is said of it. If none does and the level has a name, it ends with the code
that is due to its command, there being one; else it ends with an error, and with no code. No bound
on the depth of calls is part of this: a host that has one can end early on a document, a context or
a payload that is nested deeper. -/
theorem exit_codes (hw : Invocation.ofWords words = .ok i) (environment : Fields String)
    (statements : List EnvFile.Statement) {transport : Api.Transport μ} (ht : Api.Local transport)
    (found : String → Except Files.Fault (List UInt8)) (memory : μ) :
    let said := Settings.sources [] environment statements
    let ending := (program words environment (.ok statements) transport found memory).2.ending
    (said.Rejected → ending = .returned 2) ∧
    (¬ said.Rejected → Log.NamesLevel said.level →
      ∃ s, Settings.ofSources said = .ok s ∧ ∀ code, ending = .returned code ↔
        Due (i.job s).settings transport (found (i.job s).settings.path) memory i.command code) ∧
    (¬ said.Rejected → ¬ Log.NamesLevel said.level →
      ending = .escaped (Log.UnknownLevel.raised ⟨Text.capitals said.level⟩)) ∧
    ((∃ code ≤ 2, ending = .returned code) ↔ said.Rejected ∨ Log.NamesLevel said.level) := by
  intro said ending
  have rejected (hr : said.Rejected) : ending = .returned 2 := by
    obtain ⟨r, hp, he⟩ := prepare_of_rejected hw hr
    simp only [ending, program, hp, he]
  have named (hr : ¬ said.Rejected) (hl : Log.NamesLevel said.level) :
      ∃ s, Settings.ofSources said = .ok s ∧ ∀ code, ending = .returned code ↔
        Due (i.job s).settings transport (found (i.job s).settings.path) memory i.command code := by
    obtain ⟨s, ready, hs, hp, hj⟩ := prepare_of_named hw hr hl
    refine ⟨s, hs, fun code => ?_⟩
    simp only [ending, program, hp, Ready.perform, hj, Ending.returned.injEq]
    exact perform_code_iff ht (ofWords_distinct hw)
  have unnamed (hr : ¬ said.Rejected) (hl : ¬ Log.NamesLevel said.level) :
      ending = .escaped (Log.UnknownLevel.raised ⟨Text.capitals said.level⟩) := by
    obtain ⟨r, hp, he⟩ := prepare_of_unnamed hw hr hl
    simp only [ending, program, hp, he]
    rfl
  refine ⟨rejected, named, unnamed, ?_⟩
  constructor
  · rintro ⟨code, -, he⟩
    by_contra hn
    rw [not_or] at hn
    cases he.symm.trans (unnamed hn.1 hn.2)
  · intro h
    by_cases hr : said.Rejected
    · exact ⟨2, Nat.le_refl 2, rejected hr⟩
    · obtain ⟨s, -, hdue⟩ := named hr (h.resolve_left hr)
      obtain ⟨code, hc⟩ := exists_due ht (i.job s).settings (found (i.job s).settings.path) memory
        (ofWords_distinct hw)
      exact ⟨code, hc.le, (hdue code).mpr hc⟩

/-- What comes of the list of workflows in an environment, without a file and without requests. -/
def listed (environment : Fields String) : Ending :=
  (program ["list"] environment (.ok []) offline (fun _ => .error .missing) ({} : Journal)).2.ending

theorem exit_codes_list :
    (Invocation.ofWords ["list"] = .ok { command := .list } ∧
      Api.Local (offline : Api.Transport Journal)) ∧
    listed [("WORKFLOW_SEND_POLICY", "sometimes")] = .returned 2 ∧
    listed [("LOG_LEVEL", "debug")] = .returned 0 := by
  have hw : Invocation.ofWords ["list"] = .ok { command := .list } := by cbv
  have ht : Api.Local (offline : Api.Transport Journal) := offline_local
  refine ⟨⟨hw, ht⟩, ?_, ?_⟩
  · have hr : (Settings.sources [] [("WORKFLOW_SEND_POLICY", "sometimes")] []).Rejected :=
      ⟨.sends, "sometimes", rfl, fun p => by cases p <;> decide⟩
    exact (exit_codes hw _ [] ht _ _).1 hr
  · have hs : ∃ s, Settings.ofSources (Settings.sources [] [("LOG_LEVEL", "debug")] []) = .ok s :=
      ⟨_, rfl⟩
    have hr := (Settings.ofSources_ok_iff (Settings.texts_sources _ _)).mp hs
    have hl : Log.NamesLevel "debug" := ⟨(10, "DEBUG"), by decide, by decide +kernel⟩
    obtain ⟨s, -, hdue⟩ := (exit_codes hw [("LOG_LEVEL", "debug")] [] ht _ _).2.1 hr hl
    exact (hdue 0).mpr .list

/-- No code is returned where the name of the level is unknown. -/
theorem no_code : listed [("LOG_LEVEL", "LOUD")] =
      .escaped ⟨"ValueError", "Unknown level: 'LOUD'"⟩ ∧
    ∀ code, listed [("LOG_LEVEL", "LOUD")] ≠ .returned code := by
  have h : listed [("LOG_LEVEL", "LOUD")] = .escaped ⟨"ValueError", "Unknown level: 'LOUD'"⟩ := by
    decide +kernel
  refine ⟨h, fun code hc => ?_⟩
  cases h.symm.trans hc

end Workflow.CommandLine
