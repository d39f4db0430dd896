import Workflow.Checked
import Workflow.Decimal.Literal
import Workflow.Files
import Workflow.Policy
import Workflow.Settings.EnvFile
import Workflow.Text.Utf8

/-!
# Settings

Five settings with a default each. A setting is taken from what the host gives, else from the
environment, else from a file of bindings in the current directory. Its name may be written in
capitals or not, and the last one counts; only what the host gives under the name in capitals goes
before the other spellings. All settings that cannot be read are reported at once.
-/
namespace Workflow

inductive Setting where
  | level | path | failure | sends | timeout
  deriving DecidableEq, Repr

def Setting.name : Setting → String
  | .level => "LOG_LEVEL"
  | .path => "WORKFLOW_LOGIC_PATH"
  | .failure => "WORKFLOW_ACTION_FAILURE_POLICY"
  | .sends => "WORKFLOW_SEND_POLICY"
  | .timeout => "WORKFLOW_API_TIMEOUT_SECONDS"

/-- The settings of a program: the log level, the path of the document, the policies of machines,
and how many seconds a request may take; mirrors `RuntimeSettings`. -/
structure Settings where
  level : String := "INFO"
  path : String := "logic.json"
  failure : FailurePolicy := .carryOn
  sends : SendPolicy := .queue
  timeout : Float := 10.0

namespace Settings

/-- Where settings come from: the host, the environment, a file of bindings. -/
structure Sources where
  given : Fields Value := []
  environment : Fields String := []
  file : Fields (Option String) := []

/-- The small form of a character, if that is an ASCII letter. The Kelvin sign has one, too. -/
def small (c : Char) : Char := if c = '\u212a' then 'k' else c.toLower

/-- A name in small letters. -/
def fold (name : String) : List Char := name.toList.map small

/-- What the last entry with a name has, capitals or not. -/
def lastNamed? {α : Type} (entries : List (String × α)) (name : String) : Option α :=
  (entries.reverse.find? fun e => fold e.1 == fold name).map Prod.snd

/-- What the host gives for a setting. -/
def Sources.given? (s : Sources) (x : Setting) : Option Value :=
  match s.given.get? x.name with
  | some v => some v
  | none => lastNamed? s.given x.name

/-- What the sources say about a setting. -/
def Sources.find? (s : Sources) (x : Setting) : Option Value :=
  match s.given? x with
  | some v => some v
  | none => match lastNamed? s.environment x.name with
    | some text => some (.str text)
    | none => (lastNamed? s.file x.name).join.map .str

def readText : Value → Checked String
  | .str s => .ok s
  | _ => .fault .notText

def readPath : Value → Checked String
  | .str s => .ok (Files.normalized s)
  | _ => .fault .notPath

def readFailure (v : Value) : Checked FailurePolicy :=
  match v.str?.bind FailurePolicy.ofWord? with
  | some p => .ok p
  | none => .fault (.noChoice FailurePolicy.carryOn.word FailurePolicy.abort.word)

def readSends (v : Value) : Checked SendPolicy :=
  match v.str?.bind SendPolicy.ofWord? with
  | some p => .ok p
  | none => .fault (.noChoice SendPolicy.queue.word SendPolicy.reject.word)

/-- A number that is not zero or below. -/
def positive (x : Float) : Checked Float := if x ≤ 0.0 then .fault .notPositive else .ok x

def readTimeout : Value → Checked Float
  | .bool b => positive (if b then 1.0 else 0.0)
  | .int n => match Decimal.nearestWhole? n with
    | some x => positive x
    | none => .fault .notNumber
  | .float x => positive x
  | .str s => match Decimal.literal? s.toList with
    | some x => positive x
    | none => .fault .unreadableNumber
  | _ => .fault .notNumber

/-- One setting, its default if no source has it. -/
def Sources.read {α : Type} (s : Sources) (x : Setting) (default : α) (reader : Value → Checked α) :
    Checked α :=
  match s.find? x with
  | none => .ok default
  | some v => (reader v).under (.name x.name)

/-- The settings that the sources say. -/
def ofSources (s : Sources) : Checked Settings :=
  let default : Settings := {}
  ((s.read .level default.level readText).and <|
    (s.read .path default.path readPath).and <|
    (s.read .failure default.failure readFailure).and <|
    (s.read .sends default.sends readSends).and
    (s.read .timeout default.timeout readTimeout)).map
      fun (level, path, failure, sends, timeout) => { level, path, failure, sends, timeout }

/-- The name of the file of bindings. -/
def fileName : String := ".env"

/-- The statements of the file of bindings, none if there is no such file. A byte order mark in
front of them is passed over. -/
def fileStatements (tree : Files.Tree) : Except Text.DecodeFault (List EnvFile.Statement) :=
  match Files.content? tree [fileName] with
  | some (.file bytes) =>
    (Text.decode (Text.dropMark bytes)).map fun cs => EnvFile.statements (Text.unifyLines cs)
  | _ => .ok []

/-- The sources, given the statements of the file. -/
def sources (given : Fields Value) (environment : Fields String)
    (statements : List EnvFile.Statement) : Sources where
  given := given
  environment := environment
  file := EnvFile.resolve environment (EnvFile.bindings statements)

end Settings
end Workflow
