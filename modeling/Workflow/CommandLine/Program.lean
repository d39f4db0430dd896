import Workflow.CommandLine.Job
import Workflow.Log.Threshold

/-!
# The program

A command line with its surroundings leads to a job, or to an end without one: the words are read
first, then the settings, then the log level. A job is carried out with what is found at the path of
its document.
-/
namespace Workflow.CommandLine

/-- How the program ends: with a code, with a code while the words are read, or with an error. -/
inductive Ending where
  | returned (code : Nat)
  | exited (code : Nat)
  | escaped (e : Raised)
  deriving DecidableEq, Repr

/-- What comes of the program, besides its log. The details say more about the last complaint. -/
structure Result where
  ending : Ending
  output : String := ""
  complaints : List String := []
  details : List String := []
  deriving DecidableEq, Repr

def Stop.result : Stop → Result
  | .usage program f =>
    { ending := .exited 2, complaints := [program ++ ": error: " ++ f.message] }
  | .help program => { ending := .exited 0, output := printed ["usage: " ++ program] }
  | .version => { ending := .exited 0, output := printed [versionText] }

def lineComplaint (line : Nat) : String :=
  "python-dotenv could not parse statement starting at line " ++ toString line

def settingsComplaint : String := "Configuration error (check your .env):"

/-- A job that can be carried out: the thresholds of its log, and complaints made before. -/
structure Ready where
  job : Job
  thresholds : Log.Thresholds
  complaints : List String := []

def Invocation.job (i : Invocation) (s : Settings) : Job where
  settings := match i.path with
    | some path => { s with path := Files.normalized path }
    | none => s
  command := i.command

/-- The job of a command line. -/
def prepare (words : List String) (environment : Fields String)
    (file : Except Text.DecodeFault (List EnvFile.Statement)) : Except Result Ready :=
  match Invocation.ofWords words with
  | .error stop => .error stop.result
  | .ok i =>
    match file with
    | .error f => .error { ending := .escaped ⟨"UnicodeDecodeError", f.message⟩ }
    | .ok statements =>
      let complaints := (EnvFile.faults statements).map lineComplaint
      match Settings.ofSources (Settings.sources [] environment statements) with
      | .bad issues => .error {
          ending := .returned 2
          complaints := complaints ++ [settingsComplaint]
          details := issues.map Issue.text }
      | .ok s =>
        match Log.Thresholds.configure s.level with
        | .error u => .error { ending := .escaped u.raised, complaints }
        | .ok thresholds => .ok { job := i.job s, thresholds, complaints }

variable {μ : Type} [Recorder μ]

/-- Carries out what is ready. -/
def Ready.perform (r : Ready) (transport : Api.Transport μ)
    (found : Except Files.Fault (List UInt8)) (memory : μ) : μ × Result :=
  let (memory, o) := r.job.perform transport found memory
  (memory, {
    ending := .returned o.code
    output := o.output
    complaints := r.complaints ++ o.complaints })

/-- The whole program, given what is found at each path; mirrors `main`. -/
def program (words : List String) (environment : Fields String)
    (file : Except Text.DecodeFault (List EnvFile.Statement)) (transport : Api.Transport μ)
    (found : String → Except Files.Fault (List UInt8)) (memory : μ) : μ × Result :=
  match prepare words environment file with
  | .error r => (memory, r)
  | .ok ready => ready.perform transport (found ready.job.settings.path) memory

/-! ## A memory for log entries -/

/-- The log of the program, latest entry first. -/
structure Journal where
  latestFirst : List Log.Entry := []

instance : Recorder Journal where
  record e j := ⟨e :: j.latestFirst⟩

/-- The entries that thresholds let pass, in order. -/
def Journal.entries (j : Journal) (t : Log.Thresholds) : List Log.Entry :=
  j.latestFirst.reverse.filter t.shows

/-- No request is carried out. -/
def offline : Api.Transport μ := fun _ =>
  .finish (.error ⟨"ConnectionError", "requests are not carried out"⟩)

end Workflow.CommandLine
