import Std.Time.DateTime.Timestamp
import Workflow.CommandLine.Program
import Workflow.Log.Record

/-!
# The command line

Reads the environment and the files that the program asks for, and prints what comes of it. Log
entries go to standard error, one JSON object a line.
-/
namespace Workflow.CommandLine

/-- The settings that are found in the environment, their names in capitals or in small letters. -/
def readEnvironment : IO (Fields String) := do
  let settings : List Setting := [.level, .path, .failure, .sends, .timeout]
  let names := settings.flatMap fun s => [s.name.toLower, s.name]
  names.filterMapM fun name => return (← IO.getEnv name).map fun text => (name, text)

/-- What is found at a path. -/
def readFile (path : String) : IO (Except Files.Fault (List UInt8)) := do
  try return .ok (← IO.FS.readBinFile path).toList
  catch
    | .noFileOrDirectory .. => return .error .missing
    | .inappropriateType .. => return .error .isDirectory
    | _ => return .error .notDirectory

/-- The statements of the file of bindings. -/
def readBindings : IO (Except Text.DecodeFault (List EnvFile.Statement)) := do
  match ← readFile Settings.fileName with
  | .ok bytes => return Settings.fileStatements [(Settings.fileName, .file bytes)]
  | .error _ => return .ok []

/-- The time in seconds. -/
def now : IO Float := do
  return Float.ofInt (← Std.Time.Timestamp.now).toNanosecondsSinceUnixEpoch.val / 1000000000.0

/-- Prints what comes of the program, and tells its code. -/
def finish (entries : List Log.Entry) (r : Result) : IO UInt32 := do
  for e in entries do
    match (Log.Record.ofEntry "workflow_runtime" (← now) e).line with
    | .ok line => IO.eprintln line
    | .error x => IO.eprintln x.line
  for line in r.complaints ++ r.details do IO.eprintln line
  IO.print r.output
  match r.ending with
  | .returned code => return code.toUInt32
  | .exited code => return code.toUInt32
  | .escaped e => IO.eprintln e.line; return 1

end Workflow.CommandLine

open Workflow Workflow.CommandLine in
/-- The program; mirrors `main`. -/
def main (words : List String) : IO UInt32 := do
  match prepare words (← readEnvironment) (← readBindings) with
  | .error r => finish [] r
  | .ok ready =>
    let found ← readFile ready.job.settings.path
    let (journal, r) := ready.perform offline found ({} : Journal)
    finish (journal.entries ready.thresholds) r
