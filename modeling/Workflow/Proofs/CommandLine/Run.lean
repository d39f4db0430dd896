import Mathlib
import Workflow.CommandLine.Program
import Workflow.Proofs.CommandLine.Spelling
import Workflow.Proofs.Document.Distinct
import Workflow.Proofs.Engine.Isolated
import Workflow.Proofs.Json.RoundTrip

/-!
# The command that runs a workflow

The command creates a machine and sends it the events in one process. Here the same calls are made
in turn instead, each of them running alone, up to the first that ends with an error. The command
comes to the same engine and to the same result, and from this follow its code and what it prints.

Results:
* `sendInTurn_error`, `runInTurn_error`: behind an error, no event is sent.
* `comes_session`: the process of the command comes to what the calls in turn come to.
* `run_in_turn`: command lines that ask for a run.
-/
namespace Workflow.CommandLine

variable {μ : Type} [Recorder μ]

/-! ## Calls in turn -/

/-- Sends events to machine `i`, each call on its own, up to the first that does not return. Every
event that was processed is logged. -/
def sendInTurn (i : Nat) : List Event → Engine μ → Engine μ × Option (Except CallFault Unit)
  | [], e => (e, some (.ok ()))
  | event :: more, e =>
    match (Engine.send 1 i event).alone e with
    | (e, some (.ok taken)) => sendInTurn i more (logProcessed i event taken e)
    | (e, some (.error f)) => (e, some (.error f))
    | (e, none) => (e, none)

/-- The number of a machine that was created, unless sending it events ended with an error. -/
def numbered (i : Nat) : Except CallFault Unit → Except CreateFault Nat
  | .error f => .error (.call f)
  | .ok _ => .ok i

/-- Creates a machine, and sends it events in turn. The result is its number. -/
def runInTurn (c : Catalog) (workflow : String) (context : Option Context) (events : List Event)
    (e : Engine μ) : Engine μ × Option (Except CreateFault Nat) :=
  match (c.create 1 workflow context).alone e with
  | (e, some (.ok i)) => ((sendInTurn i events e).1, (sendInTurn i events e).2.map (numbered i))
  | (e, r) => (e, r)

variable {c : Catalog} {workflow : String} {context : Option Context}
  {events before after : List Event} {e e' : Engine μ} {i : Nat}

theorem sendInTurn_append (h : sendInTurn i before e = (e', some (.ok ()))) :
    sendInTurn i (before ++ after) e = sendInTurn i after e' := by
  induction before generalizing e with
  | nil =>
    cases h
    rfl
  | cons event more ih =>
    rw [sendInTurn] at h
    rw [List.cons_append, sendInTurn]
    split at h
    · exact ih h
    · cases h
    · cases h

/-- Behind an error, no event is sent. -/
theorem sendInTurn_error {f : CallFault} (h : sendInTurn i before e = (e', some (.error f))) :
    sendInTurn i (before ++ after) e = (e', some (.error f)) := by
  induction before generalizing e with
  | nil => cases h
  | cons event more ih =>
    rw [sendInTurn] at h
    rw [List.cons_append, sendInTurn]
    split at h
    · exact ih h
    · exact h
    · cases h

theorem runInTurn_error {f : CallFault}
    (h : runInTurn c workflow context before e = (e', some (.error (.call f)))) :
    runInTurn c workflow context (before ++ after) e = (e', some (.error (.call f))) := by
  unfold runInTurn at h ⊢
  split at h
  · rename_i e₁ i hc
    generalize hs : sendInTurn i before e₁ = s at h
    match s with
    | (e₂, some (.error g)) =>
      rw [sendInTurn_error hs]
      exact h
    | (e₂, some (.ok _)) => cases h
    | (e₂, none) => cases h
  · exact h

theorem runInTurn_append (h : runInTurn c workflow context before e = (e', some (.ok i))) :
    runInTurn c workflow context (before ++ after) e =
      ((sendInTurn i after e').1, (sendInTurn i after e').2.map (numbered i)) := by
  unfold runInTurn at h ⊢
  split at h
  · rename_i e₁ i' hc
    generalize hs : sendInTurn i' before e₁ = s at h
    match s with
    | (e₂, some (.error g)) => cases h
    | (e₂, some (.ok ())) =>
      cases h
      rw [sendInTurn_append hs]
    | (e₂, none) => cases h
  · rename_i hne _
    cases h
    exact absurd rfl (hne i)

/-! ## The process of the command -/

theorem logProcessed_logs (i : Nat) (event : Event) (taken : Bool) (e : Engine μ) :
    ∃ entries, logProcessed i event taken e = e.logAll entries := by
  unfold logProcessed
  split
  · exact ⟨[_], rfl⟩
  · exact ⟨[], rfl⟩

/-- What a call comes to alone, for calls that come to something. -/
theorem comes_sendAll (h : e.Isolated) (hi : e.Running i) (he : ∀ event ∈ events, event.Distinct) :
    ∃ e' r, (sendAll i events).Comes free e free e' r ∧ sendInTurn i events e = (e', some r) ∧
      e'.Isolated ∧ e'.Running i := by
  induction events generalizing e with
  | nil => exact ⟨e, .ok (), .done _, rfl, h, hi⟩
  | cons event more ih =>
    obtain ⟨hevent, hmore⟩ := List.forall_mem_cons.mp he
    obtain ⟨e₁, r, hc, ht, hdid⟩ := h.comes_send 1 i hevent
    obtain ⟨m, hm, -⟩ := hi
    obtain ⟨ds, hd⟩ := hdid m hm
    have hi₁ := hd.running hm (Machine.send_runs_iff.mp hd.runs).started
    have halone := hc.alone
    cases r with
    | error f =>
      refine ⟨e₁, .error f, hc.bind (.done _), ?_, ht, hi₁⟩
      rw [sendInTurn, halone]
    | ok taken =>
      obtain ⟨entries, hl⟩ := logProcessed_logs i event taken e₁
      have hi₂ : (logProcessed i event taken e₁).Running i := by
        rw [hl, Engine.Running, (Engine.logAll_eq entries e₁).2.1]
        exact hi₁
      obtain ⟨e₂, r, hc₂, hs, ht₂, hi₃⟩ := ih (hl ▸ ht.logAll entries) hi₂ hmore
      refine ⟨e₂, r, hc.bind (.act hc₂), ?_, ht₂, hi₃⟩
      rw [sendInTurn, halone]
      exact hs

/-- The process of the command comes to what the calls in turn come to. -/
theorem comes_session (h : e.Isolated) (hd : c.document.Distinct)
    (hx : (Command.run workflow context events).Distinct) :
    ∃ e' r, (session c workflow context events).Comes free e free e' r ∧
      runInTurn c workflow context events e = (e', some r) ∧ e'.Isolated ∧
      (c.document.workflows.get? workflow = none ∧ r = .error (.noWorkflow workflow) ∨
        c.document.workflows.get? workflow ≠ none ∧
          ((∃ f, r = .error (.call f)) ∨ ∃ i, r = .ok i ∧ e'.Running i)) := by
  obtain ⟨e₁, r, hc, ht, hr⟩ := Catalog.comes_create h 1 hd hx.1
  have halone := hc.alone
  obtain ⟨hw, rfl⟩ | ⟨chart, hw, ⟨f, rfl⟩ | ⟨i, rfl, hi⟩⟩ := hr
  · refine ⟨e₁, _, Process.Comes.bind hc (.done _), ?_, ht, .inl ⟨hw, rfl⟩⟩
    rw [runInTurn, halone]
  · refine ⟨e₁, _, Process.Comes.bind hc (.done _), ?_, ht, .inr ⟨by simp [hw], .inl ⟨f, rfl⟩⟩⟩
    rw [runInTurn, halone]
  · obtain ⟨e₂, r, hc₂, hs, ht₂, hi₂⟩ := comes_sendAll ht hi hx.2
    refine ⟨e₂, numbered i r, ?_, ?_, ht₂, .inr ⟨by simp [hw], ?_⟩⟩
    · refine Process.Comes.bind hc ?_
      cases r <;> exact hc₂.map _
    · rw [runInTurn, halone]
      dsimp only
      rw [hs]
      rfl
    · cases r with
      | error f => exact .inl ⟨f, rfl⟩
      | ok _ => exact .inr ⟨i, rfl, hi₂⟩

/-- An event that is ignored changes nothing but the log, and the run goes on. -/
theorem runInTurn_ignored (h : e.Isolated) (hd : c.document.Distinct) {event : Event}
    (hx : (Command.run workflow context (before ++ event :: after)).Distinct)
    (hb : runInTurn c workflow context before e = (e', some (.ok i))) {m : Machine}
    (hm : e'.machines[i]? = some m) (hi : m.Ignores event) :
    ∃ e'', runInTurn c workflow context (before ++ [event]) e = (e'', some (.ok i)) ∧
      e''.machines = e'.machines ∧ Noted e'.memory e''.memory := by
  obtain ⟨hbefore, hmore⟩ := List.forall_mem_append.mp hx.2
  have hx' : (Command.run workflow context before).Distinct := ⟨hx.1, hbefore⟩
  obtain ⟨e₁, r, -, hb', ht, hr⟩ := comes_session h hd hx'
  obtain ⟨rfl, hr'⟩ := Prod.mk.inj (hb'.symm.trans hb)
  cases hr'
  obtain ⟨-, hr⟩ | ⟨-, ⟨f, hr⟩ | ⟨i, hr, m', hm', hs⟩⟩ := hr <;> cases hr
  obtain rfl : m' = m := Option.some.inj (hm'.symm.trans hm)
  obtain ⟨e₂, hc, -, hms, hn⟩ := ht.comes_ignored 1 (List.forall_mem_cons.mp hmore).1 hm hs hi
  obtain ⟨entries, hl⟩ := logProcessed_logs i event false e₂
  refine ⟨logProcessed i event false e₂, ?_, ?_, hn.trans ?_⟩
  · rw [runInTurn_append hb, sendInTurn, hc.alone]
    rfl
  · rw [hl, (Engine.logAll_eq entries e₂).2.1, hms]
  · rw [hl]
    exact Engine.noted_logAll entries e₂

/-! ## What is printed -/

theorem engine_isolated (s : Settings) {transport : Api.Transport μ} (ht : Api.Local transport)
    (memory : μ) : (s.engine transport memory).Isolated := by
  unfold Settings.engine
  refine Engine.Isolated.logAll ⟨?_, List.forall_mem_nil _, fun _ => rfl⟩ _
  exact Registry.local_registerDefaults 0 _ ht

/-- The engine of a run, once the catalog has been opened. -/
def opened (s : Settings) (transport : Api.Transport μ) (found : Except Files.Fault (List UInt8))
    (memory : μ) : Engine μ :=
  (s.engine transport memory).logAll (s.catalog found).2

theorem opened_isolated (s : Settings) {transport : Api.Transport μ} (ht : Api.Local transport)
    (found : Except Files.Fault (List UInt8)) (memory : μ) :
    (opened s transport found memory).Isolated :=
  (engine_isolated s ht memory).logAll _

/-- A command whose process comes to something comes to what is reported of it. -/
theorem run_alone (s : Settings) (transport : Api.Transport μ)
    (found : Except Files.Fault (List UInt8)) (memory : μ) {r : Except CreateFault Nat}
    (h : (session (s.catalog found).1 workflow context events).Comes free
      (opened s transport found memory) free e' r) :
    run s transport found workflow context events memory = report e' r := by
  have halone := h.alone
  obtain ⟨hs, hr⟩ := Prod.mk.inj halone
  unfold run
  dsimp only
  rw [show (s.engine transport memory).logAll (s.catalog found).2 = opened s transport found memory
    from rfl, hs, hr]
  rfl

omit [Recorder μ] in
theorem snapshot_distinct {m : Machine} (h : m.Distinct) : m.snapshot.Distinct := by
  refine .obj (by simp [Fields.keys]) ?_
  simp only [List.forall_mem_cons]
  exact ⟨.str _, h.live, List.forall_mem_nil _⟩

/-- The state and the context of a machine are printed as a document that is read back. -/
theorem report_ok (h : e.Isolated) {m : Machine} (hm : e.machines[i]? = some m)
    (hl : Json.Legible m.snapshot) :
    (report e (.ok i)).1 = e.memory ∧ (report e (.ok i)).2.code = 0 ∧
      Json.read (report e (.ok i)).2.output = .ok m.snapshot := by
  have hd := snapshot_distinct (h.machines m (List.mem_of_getElem? hm))
  have hgap : Json.Gap "\n".toList := by
    intro c hc
    rw [List.mem_singleton.mp hc]
    rfl
  have hread := Json.read_write hl hd Json.indented hgap
  unfold report
  simp only [hm, Json.write?_of_check hl.check]
  exact ⟨trivial, trivial, by simpa [printed] using hread⟩

/-- What comes of the command, told by the same calls made in turn on an engine. -/
structure Follows (c : Catalog) (workflow : String) (context : Option Context)
    (events : List Event) (e : Engine μ) (done : μ × Result) : Prop where
  /-- There is no such workflow, or a call ends with an error, or all of them return. -/
  ends : ∃ e' r, runInTurn c workflow context events e = (e', some r) ∧
    (c.document.workflows.get? workflow = none ∧ r = .error (.noWorkflow workflow) ∨
      c.document.workflows.get? workflow ≠ none ∧ ((∃ f, r = .error (.call f)) ∨ ∃ i, r = .ok i))
  missing : c.document.workflows.get? workflow = none →
    done.2.ending = .returned 2 ∧ done.2.output = ""
  /-- Behind an error, nothing is done about the events that are left. -/
  halted : ∀ sent later e' f, events = sent ++ later →
    runInTurn c workflow context sent e = (e', some (.error (.call f))) →
    done.2.ending = .returned 1 ∧ done.2.output = "" ∧
      done.1 = Recorder.record (failedEntry f.raised) e'.memory
  printed : ∀ e' i, runInTurn c workflow context events e = (e', some (.ok i)) →
    ∃ m, e'.machines[i]? = some m ∧ (Json.Legible m.snapshot → done.1 = e'.memory ∧
      done.2.ending = .returned 0 ∧ Json.read done.2.output = .ok m.snapshot)
  /-- An event that is ignored is logged at most, and the run goes on behind it. -/
  skipped : ∀ before event after e' i m, events = before ++ event :: after →
    runInTurn c workflow context before e = (e', some (.ok i)) → e'.machines[i]? = some m →
    m.Ignores event → ∃ e'', runInTurn c workflow context (before ++ [event]) e =
      (e'', some (.ok i)) ∧ e''.machines = e'.machines ∧ Noted e'.memory e''.memory

/-- A job that runs a workflow does what the calls do, made in turn. -/
theorem follows (s : Settings) {transport : Api.Transport μ} (ht : Api.Local transport)
    (found : Except Files.Fault (List UInt8)) (memory : μ)
    (hx : (Command.run workflow context events).Distinct) {ready : Ready}
    (hj : ready.job = { settings := s, command := .run workflow context events }) :
    Follows (s.catalog found).1 workflow context events (opened s transport found memory)
      (ready.perform transport found memory) := by
  have h := opened_isolated s ht found memory
  have hd : (s.catalog found).1.document.Distinct := Document.distinct_loadOr s.path found
  obtain ⟨e₁, r, hc, hrun, ht₁, hr⟩ := comes_session h hd hx
  -- what is done is what is reported of the engine and the result of the calls in turn
  have hdone : ready.perform transport found memory = ((report e₁ r).1, {
      ending := .returned (report e₁ r).2.code
      output := (report e₁ r).2.output
      complaints := ready.complaints ++ (report e₁ r).2.complaints }) := by
    rw [Ready.perform, hj]
    simp only [Job.perform, run_alone s transport found memory hc]
  rw [hdone]
  refine ⟨⟨e₁, r, hrun, ?_⟩, fun hw => ?_, ?_, ?_, ?_⟩
  · obtain hr | ⟨hw, hr | ⟨i, hr, -⟩⟩ := hr
    · exact .inl hr
    · exact .inr ⟨hw, .inl hr⟩
    · exact .inr ⟨hw, .inr ⟨i, hr⟩⟩
  · obtain ⟨-, rfl⟩ | ⟨hn, -⟩ := hr
    · exact ⟨rfl, rfl⟩
    · exact absurd hw hn
  · rintro sent later e' f rfl hsent
    obtain ⟨rfl, hr'⟩ := Prod.mk.inj (hrun.symm.trans (runInTurn_error hsent))
    cases hr'
    exact ⟨rfl, rfl, rfl⟩
  · intro e' i hi
    obtain ⟨rfl, hr'⟩ := Prod.mk.inj (hrun.symm.trans hi)
    cases hr'
    obtain ⟨-, hr⟩ | ⟨-, ⟨f, hr⟩ | ⟨i, hr, m, hm, -⟩⟩ := hr <;> cases hr
    refine ⟨m, hm, fun hl => ?_⟩
    obtain ⟨hmem, hcode, hread⟩ := report_ok ht₁ hm hl
    exact ⟨hmem, congrArg _ hcode, hread⟩
  · rintro before event after e' i m rfl hb hm hi
    exact runInTurn_ignored h hd hx hb hm hi

/-- **The command that runs a workflow does what the calls do, made in turn.** Whatever the
document, and in whichever way the words are spelled: it prints what becomes of the machine, or
nothing and ends with a code of its own, if there is no such workflow, or if a call ends with an
error. -/
theorem run_in_turn {words : List String} {path? : Option String}
    (hw : Invocation.ofWords words =
      .ok { path := path?, command := .run workflow context events })
    {environment : Fields String} {statements : List EnvFile.Statement} {settings : Settings}
    (hs : Settings.ofSources (Settings.sources [] environment statements) = .ok settings)
    {thresholds : Log.Thresholds} (hl : Log.Thresholds.configure settings.level = .ok thresholds)
    {transport : Api.Transport μ} (ht : Api.Local transport)
    (found : Except Files.Fault (List UInt8)) (memory : μ) :
    (∀ front args asked, Heads path? front → Asks {} args asked →
      asked.workflow = some workflow → asked.context = context → asked.events = events →
      Invocation.ofWords (front ++ "run" :: args) =
        .ok { path := path?, command := .run workflow context events }) ∧
    ∃ ready, prepare words environment (.ok statements) = .ok ready ∧
      ready.job =
        Invocation.job { path := path?, command := .run workflow context events } settings ∧
      Follows (ready.job.settings.catalog found).1 workflow context events
        (opened ready.job.settings transport found memory)
        (ready.perform transport found memory) := by
  refine ⟨?_, ?_⟩
  · rintro front args asked hh ha hn rfl rfl
    exact ofWords_asks hh ha hn
  have hx := ofWords_distinct hw
  let i : Invocation := { path := path?, command := .run workflow context events }
  have hprepare : prepare words environment (.ok statements) = .ok {
      job := i.job settings, thresholds
      complaints := (EnvFile.faults statements).map lineComplaint } := by
    simp only [prepare, hw, hs, hl]
    rfl
  refine ⟨_, hprepare, rfl, ?_⟩
  exact follows (i.job settings).settings ht found memory hx rfl

/-! ## A run without a document -/

/-- An event that nothing waits for, and one that ends the simple workflow. -/
def finishing : List Event :=
  [{ type := "REST" }, { type := "FINISH", payload := some [("by", .str "hand")] }]

/-- A command line that asks for them. -/
def finishingWords : List String :=
  ["--logic=none.json", "run", "--workflow", "simple", "--context=\x7b\x7d", "--event", "REST",
    "--event=FINISH:\x7b\"by\": \"hand\"\x7d"]

def finished : Value := .obj [("state", .str "end"), ("context", .obj [("by", .str "hand")])]

/-- The engine at the start, where no document is found at the path. -/
def undocumented : Engine Journal := opened { path := "none.json" } offline (.error .missing) {}

def standIn : Catalog := (Settings.catalog { path := "none.json" } (.error .missing)).1

theorem finishing_words : Invocation.ofWords finishingWords =
    .ok { path := some "none.json", command := .run "simple" (some []) finishing } := by cbv

omit [Recorder μ] in
theorem offline_local : Api.Local (offline : Api.Transport μ) := fun _ =>
  .finish fun _ h => by cases h

theorem runInTurn_finishing : ∃ e', runInTurn standIn "simple" (some []) finishing undocumented =
    (e', some (.ok 0)) ∧ (e'.machines[0]?).map Machine.snapshot = some finished := by
  have hd : standIn.document.Distinct := Document.distinct_loadOr "none.json" (.error .missing)
  have ht : undocumented.Isolated := opened_isolated _ offline_local _ _
  obtain ⟨e', r, hc, hrun, -⟩ := comes_session ht hd (ofWords_distinct finishing_words)
  have halone := hc.alone
  rw [Process.alone_eq_runFor 1 (by decide +kernel)] at halone
  obtain ⟨rfl, hr⟩ := Prod.mk.inj halone
  obtain rfl : Except.ok 0 = r := Option.some.inj (.trans (by decide +kernel) hr)
  exact ⟨_, hrun, by rfl⟩

theorem run_in_turn_finishing :
    (Settings.ofSources (Settings.sources [] [] []) = .ok {} ∧
      Log.Thresholds.configure "INFO" = .ok ⟨20, 20⟩ ∧
      Api.Local (offline : Api.Transport Journal)) ∧
    ∃ ready, prepare finishingWords [] (.ok []) = .ok ready ∧
      (ready.perform offline (.error .missing) ({} : Journal)).2.ending = .returned 0 ∧
      Json.read (ready.perform offline (.error .missing) ({} : Journal)).2.output =
        .ok finished := by
  have hs : Settings.ofSources (Settings.sources [] [] []) = .ok {} := rfl
  have hl : Log.Thresholds.configure ({} : Settings).level = .ok ⟨20, 20⟩ := by decide +kernel
  have ht : Api.Local (offline : Api.Transport Journal) := offline_local
  obtain ⟨-, ready, hp, hj, hf⟩ := run_in_turn finishing_words hs hl ht (.error .missing) {}
  rw [hj] at hf
  obtain ⟨e', hrun, hm⟩ := runInTurn_finishing
  obtain ⟨m, hm', hprinted⟩ := hf.printed e' 0 hrun
  rw [hm'] at hm
  have hsnapshot : m.snapshot = finished := Option.some.inj hm
  have hlegible : Json.Legible finished := by
    refine .obj ?_
    simp only [List.forall_mem_cons]
    exact ⟨.str _, .obj (List.forall_mem_singleton.mpr (.str _)), List.forall_mem_nil _⟩
  rw [hsnapshot] at hprinted
  obtain ⟨-, hcode, hread⟩ := hprinted hlegible
  exact ⟨⟨hs, hl, ht⟩, ready, hp, hcode, hread⟩

end Workflow.CommandLine
