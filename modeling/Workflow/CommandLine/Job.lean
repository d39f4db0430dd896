import Workflow.CommandLine.Invocation
import Workflow.Json.Printer
import Workflow.Settings.Catalog

/-!
# Jobs

A command with its settings, carried out. What was found at the path of the document is given, and
so is the way to carry out requests. An outcome has a code, what is printed, and complaints; all
else goes to the log, which the host's memory takes.
-/
namespace Workflow.CommandLine

structure Outcome where
  code : Nat
  output : String := ""
  complaints : List String := []
  deriving DecidableEq, Repr

structure Job where
  settings : Settings
  command : Command

/-- Lines with a line break behind each. -/
def printed (lines : List String) : String := String.join (lines.map fun s => s ++ "\n")

def failedEntry (e : Raised) : Log.Entry where
  level := .error
  source := .main
  message := "Command failed"
  exception := some e

def processedEntry (event : Event) (taken : Bool) (state : String) : Log.Entry where
  level := .debug
  source := .main
  message := "Event processed"
  extra := [("event", .str event.type), ("taken", .bool taken), ("state", .str state)]

def notFoundEntry (workflow : String) : Log.Entry where
  level := .warning
  source := .main
  message := (CreateFault.noWorkflow workflow).raised.text
  extra := [("workflow", .str workflow)]

variable {μ : Type} [Recorder μ]

def recordAll (entries : List Log.Entry) (memory : μ) : μ :=
  entries.foldl (fun m e => Recorder.record e m) memory

def fail (e : Raised) (memory : μ) : μ × Outcome :=
  (Recorder.record (failedEntry e) memory, { code := 1 })

/-! ## Documents -/

/-- Lists the workflows of a document. -/
def list (path : String) (found : Except Files.Fault (List UInt8)) (memory : μ) : μ × Outcome :=
  let (document, logs) := Document.loadOr path found
  (recordAll logs memory, { code := 0, output := printed document.workflows.keys })

def danglingLine (d : Document.Dangling) : String :=
  d.workflow ++ ": " ++ d.state ++ " -> " ++ d.target ++ " (undefined state)"

/-- What there is to say about a document. -/
def review (d : Document) : Outcome :=
  if d.dangling.isEmpty then
    { code := 0, output := printed ["OK: " ++ toString d.workflows.length ++ " workflow(s)"] }
  else { code := 1, output := printed (d.dangling.map danglingLine) }

/-- Looks for targets that are not defined. -/
def validate (path : String) (found : Except Files.Fault (List UInt8)) (memory : μ) : μ × Outcome :=
  match Document.loadLogged path found with
  | .error f => fail f.raised memory
  | .ok (document, logs) => (recordAll logs memory, review document)

/-! ## Runs -/

/-- Logs that a machine processed an event. -/
def logProcessed (i : Nat) (event : Event) (taken : Bool) (e : Engine μ) : Engine μ :=
  match e.machines[i]? with
  | some m => e.log (processedEntry event taken m.live.state)
  | none => e

/-- Sends events to a machine one after the other, up to the first that ends with an error. -/
def sendAll (i : Nat) : List Event → Process (Engine μ) (Except CallFault Unit)
  | [] => .done (.ok ())
  | event :: more => (Engine.send 1 i event).bind fun
    | .error f => .done (.error f)
    | .ok taken => .change (logProcessed i event taken) (sendAll i more)

/-- Creates a machine, the only one there is, and sends it events. The result is its number. Mirrors
`_run_workflow`. -/
def session (c : Catalog) (workflow : String) (context : Option Context) (events : List Event) :
    Process (Engine μ) (Except CreateFault Nat) :=
  (c.create 1 workflow context).bind fun
    | .error f => .done (.error f)
    | .ok i => (sendAll i events).map fun
      | .error f => .error (.call f)
      | .ok _ => .ok i

/-- What comes of a run that ended with an engine. -/
def report (e : Engine μ) : Except CreateFault Nat → μ × Outcome
  | .error (.noWorkflow name) =>
    (Recorder.record (notFoundEntry name) e.memory,
      { code := 2, complaints := [(CreateFault.noWorkflow name).raised.text] })
  | .error (.call f) => fail f.raised e.memory
  | .ok i =>
    match e.machines[i]? with
    | none => fail (CallFault.busy none).raised e.memory
    | some m => match Json.write? Json.indented m.snapshot with
      | .error t => fail ⟨"ValueError", t.message⟩ e.memory
      | .ok text => (e.memory, { code := 0, output := printed [text] })

/-- Runs a workflow with some events. -/
def run (s : Settings) (transport : Api.Transport μ) (found : Except Files.Fault (List UInt8))
    (workflow : String) (context : Option Context) (events : List Event) (memory : μ) :
    μ × Outcome :=
  let (c, logs) := s.catalog found
  let e := (s.engine transport memory).logAll logs
  let pool := (Pool.ofTasks e [session c workflow context events]).run
  report pool.state ((pool.result? 0).getD (.error (.call (.busy (some workflow)))))

/-- Carries out a job. -/
def Job.perform (j : Job) (transport : Api.Transport μ)
    (found : Except Files.Fault (List UInt8)) (memory : μ) : μ × Outcome :=
  match j.command with
  | .list => list j.settings.path found memory
  | .validate => validate j.settings.path found memory
  | .run workflow context events =>
    run j.settings transport found workflow context events memory

omit [Recorder μ] in
theorem review_code (d : Document) : (review d).code = if d.dangling.isEmpty then 0 else 1 := by
  unfold review
  split <;> rfl

end Workflow.CommandLine
