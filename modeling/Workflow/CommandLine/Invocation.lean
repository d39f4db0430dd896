import Workflow.CommandLine.Grammar
import Workflow.Event
import Workflow.Json.Reader

/-!
# Invocations

What a command line asks the program for: to list the workflows of a document, to look for targets
that are not defined, or to run a workflow with some events. The path of the document may be given
in front of the command.
-/
namespace Workflow.CommandLine

open Text

inductive Command where
  | list
  | validate
  | run (workflow : String) (context : Option Context) (events : List Event)

/-- An invocation: the path of the document, if it was given, and the command. -/
structure Invocation where
  path : Option String := none
  command : Command

/-! ## Values -/

inductive ValueFault where
  | notObject
  | json (e : Json.ReadError)
  | noType
  deriving DecidableEq, Repr

/-- The object that a word describes; mirrors `_parse_context`. -/
def readContext (word : String) : Except ValueFault Context :=
  match Json.read word with
  | .error e => .error (.json e)
  | .ok (.obj fields) => .ok fields
  | .ok _ => .error .notObject

/-- The event that a word describes: its type, and its values behind a colon; mirrors
`_parse_event`. -/
def readEvent (word : String) : Except ValueFault Event :=
  let cs := word.toList
  let type := trim (String.ofList (cs.takeWhile (· ≠ ':')))
  if type = "" then .error .noType
  else match cs.dropWhile (· ≠ ':') with
    | [] => .ok { type }
    | _ :: values => (readContext (String.ofList values)).map fun payload =>
      { type, payload := some payload }

/-! ## Grammars -/

def programName : String := "workflow-runtime"

def versionText : String := programName ++ " 0.1.0"

def helpSwitch : Switch := { names := ["-h", "--help"], takesValue := false }
def versionSwitch : Switch := { names := ["--version"], takesValue := false }
def pathSwitch : Switch := { names := ["--logic"] }
def workflowSwitch : Switch := { names := ["--workflow"] }
def contextSwitch : Switch := { names := ["--context"] }
def eventSwitch : Switch := { names := ["--event"] }

def commandNames : List String := ["list", "validate", "run"]

/-- The words in front of a command; mirrors `build_parser`. -/
def mainGrammar : Grammar where
  switches := [helpSwitch, versionSwitch, pathSwitch]
  commands := commandNames

/-- The words behind a command that takes nothing. -/
def bareGrammar : Grammar := { switches := [helpSwitch] }

/-- The words behind the command that runs a workflow. -/
def runGrammar : Grammar where
  switches := [helpSwitch, workflowSwitch, contextSwitch, eventSwitch]

/-! ## Reading -/

inductive UsageFault where
  | malformed (f : Fault)
  | value (s : Switch) (text : String) (f : ValueFault)
  | noSuchCommand (word : String)
  | required (name : String)
  | unrecognized (words : List String)
  deriving DecidableEq, Repr

/-- The reader of a switch's value, as messages name it. -/
def readerName (s : Switch) : String := if s = eventSwitch then "_parse_event" else "_parse_context"

def valueMessage (s : Switch) (text : String) : ValueFault → String
  | .notObject => "context must be a JSON object"
  | .json (.tooLong _) => "invalid " ++ readerName s ++ " value: " ++ quoted text
  | .json e => "invalid JSON context: " ++ e.message
  | .noType => "event type is required"

def UsageFault.message : UsageFault → String
  | .malformed f => f.message
  | .value s text f => "argument " ++ s.label ++ ": " ++ valueMessage s text f
  | .noSuchCommand word =>
    "argument command: invalid choice: " ++ quoted word ++ " (choose from " ++
      ", ".intercalate (commandNames.map quoted) ++ ")"
  | .required name => "the following arguments are required: " ++ name
  | .unrecognized words => "unrecognized arguments: " ++ " ".intercalate words

inductive Stop where
  | usage (program : String) (f : UsageFault)
  | help (program : String)
  | version
  deriving DecidableEq, Repr

structure RunWords where
  workflow : Option String := none
  context : Option Context := none
  events : List Event := []
  extras : List String := []

/-- The program that a command belongs to. -/
def commandProgram (command : String) : String := programName ++ " " ++ command

/-- Takes a value of a run. -/
def RunWords.take (r : RunWords) (s : Switch) (text : String) : Except Stop RunWords :=
  let fail (f : ValueFault) := Stop.usage (commandProgram "run") (.value s text f)
  if s = workflowSwitch then .ok { r with workflow := some text }
  else if s = contextSwitch then
    ((readContext text).mapError fail).map fun c => { r with context := some c }
  else ((readEvent text).mapError fail).map fun e => { r with events := r.events ++ [e] }

/-- Reads what was taken behind the command that runs a workflow. -/
def readRun (r : RunWords) : List Taking → Except Stop RunWords
  | [] => .ok r
  | .value s text :: rest => match r.take s text with
    | .ok r => readRun r rest
    | .error stop => .error stop
  | .extra word :: rest => readRun { r with extras := r.extras ++ [word] } rest
  | .fault f :: _ => .error (.usage (commandProgram "run") (.malformed f))
  | .switch _ :: _ => .error (.help (commandProgram "run"))
  | .command _ :: rest => readRun r rest

/-- Reads what was taken behind another command: words that are not recognized. -/
def readBare (command : String) : List Taking → Except Stop (List String)
  | [] => .ok []
  | .extra word :: rest => (readBare command rest).map (word :: ·)
  | .fault f :: _ => .error (.usage (commandProgram command) (.malformed f))
  | .switch _ :: _ => .error (.help (commandProgram command))
  | .value .. :: rest => readBare command rest
  | .command _ :: rest => readBare command rest

/-- Reads a command with the words behind it; some of these may be left over. -/
def readCommand (words : List String) : Except Stop (Command × List String) :=
  match words with
  | "list" :: rest => (readBare "list" (bareGrammar.takings rest)).map fun extras => (.list, extras)
  | "validate" :: rest =>
    (readBare "validate" (bareGrammar.takings rest)).map fun extras => (.validate, extras)
  | "run" :: rest => match readRun {} (runGrammar.takings rest) with
    | .error stop => .error stop
    | .ok r => match r.workflow with
      | some workflow => .ok (.run workflow r.context r.events, r.extras)
      | none => .error (.usage (commandProgram "run") (.required workflowSwitch.label))
  | word :: _ => .error (.usage programName (.noSuchCommand word))
  | [] => .error (.usage programName (.noSuchCommand ""))

structure MainWords where
  path : Option String := none
  extras : List String := []

/-- An invocation, if no word is left over. -/
def MainWords.finish (m : MainWords) (command : Command) (extras : List String) :
    Except Stop Invocation :=
  match m.extras ++ extras with
  | [] => .ok { path := m.path, command }
  | words => .error (.usage programName (.unrecognized words))

/-- Reads what was taken from a command line. -/
def readMain (m : MainWords) : List Taking → Except Stop Invocation
  | [] => .error (.usage programName (.required "command"))
  | .command words :: _ => match readCommand words with
    | .error stop => .error stop
    | .ok (command, extras) => m.finish command extras
  | .value _ text :: rest => readMain { m with path := some text } rest
  | .extra word :: rest => readMain { m with extras := m.extras ++ [word] } rest
  | .fault f :: _ => .error (.usage programName (.malformed f))
  | .switch s :: _ => .error (if s = versionSwitch then .version else .help programName)

/-- The invocation of a command line. -/
def Invocation.ofWords (words : List String) : Except Stop Invocation :=
  readMain {} (mainGrammar.takings words)

end Workflow.CommandLine
