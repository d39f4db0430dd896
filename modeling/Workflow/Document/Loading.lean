import Workflow.Document.Reading
import Workflow.Files
import Workflow.Json.Reader
import Workflow.Log.Entry
import Workflow.Text.Utf8

/-!
# Loading documents

A document is loaded from the bytes of a file: decoded, its line ends unified, read as JSON, and
read as a document. A caller may ask for the simple document in place of one that cannot be loaded.

Results:
* `loadOr_of_ok`: a document that can be loaded is loaded.
* `loadOr_of_error`: the simple document takes the place of any other, with one error logged.
* `attempt_without`, `attempt_with`: loading with and without a fallback.
-/
namespace Workflow.Document

inductive LoadFault where
  | file (f : Files.Fault)
  | encoding (f : Text.DecodeFault)
  | json (e : Json.ReadError)
  | invalid (issues : List Issue)

def LoadFault.message : LoadFault → String
  | .file f => f.message
  | .encoding f => f.message
  | .json e => e.message
  | .invalid issues => "\n".intercalate (issues.map Issue.text)

def LoadFault.kind : LoadFault → String
  | .file f => f.kind
  | .encoding _ => "UnicodeDecodeError"
  | .json (.tooLong _) => "ValueError"
  | .json _ => "JSONDecodeError"
  | .invalid _ => "ValidationError"

def LoadFault.raised (f : LoadFault) : Raised := ⟨f.kind, f.message⟩

/-- The kinds that an error counts among, besides its own. -/
def kindsAbove : String → List String
  | "FileNotFoundError" => ["OSError"]
  | "IsADirectoryError" => ["OSError"]
  | "NotADirectoryError" => ["OSError"]
  | "UnicodeDecodeError" => ["UnicodeError", "ValueError"]
  | "JSONDecodeError" => ["ValueError"]
  | "ValidationError" => ["ValueError"]
  | _ => []

def fallbackKinds : List String := ["OSError", "ValueError"]

/-- Is a fallback taken for a fault? -/
def LoadFault.fallsBack (f : LoadFault) : Bool :=
  (f.kind :: kindsAbove f.kind).any fallbackKinds.contains

/-- The document in some bytes. -/
def ofBytes (bytes : List UInt8) : Except LoadFault Document :=
  match Text.decode bytes with
  | .error f => .error (.encoding f)
  | .ok cs =>
    match Json.read (String.ofList (Text.unifyLines cs)) with
    | .error e => .error (.json e)
    | .ok v =>
      match Document.ofValue v with
      | .bad issues => .error (.invalid issues)
      | .ok d => .ok d

/-- The document in a file, given what was found at its path. -/
def load (found : Except Files.Fault (List UInt8)) : Except LoadFault Document :=
  match found with
  | .error f => .error (.file f)
  | .ok bytes => ofBytes bytes

def loadedEntry (path : String) (d : Document) : Log.Entry where
  level := .info
  source := .catalog
  message := "Logic configuration loaded"
  extra := [("path", .str path), ("workflows", .int d.workflows.length),
    ("actions", .int d.actions.length)]

def notLoadedEntry (path : String) (f : LoadFault) : Log.Entry where
  level := .error
  source := .catalog
  message := "Failed to load logic configuration; using default"
  extra := [("path", .str path), ("error", .str f.message)]

/-- Loads a document from a path, and logs it. -/
def loadLogged (path : String) (found : Except Files.Fault (List UInt8)) :
    Except LoadFault (Document × List Log.Entry) :=
  (load found).map fun d => (d, [loadedEntry (Files.normalized path) d])

/-- Loads a document from a path, or takes the simple one. -/
def loadOr (path : String) (found : Except Files.Fault (List UInt8)) : Document × List Log.Entry :=
  match load found with
  | .ok d => (d, [loadedEntry (Files.normalized path) d])
  | .error f => (simple, [notLoadedEntry (Files.normalized path) f])

/-- Loads a document from a path, and logs it. A fallback is the simple document; any fault for
which it is not taken ends the attempt. Mirrors `load_logic_document`. -/
def attempt (fallback : Bool) (path : String) (found : Except Files.Fault (List UInt8)) :
    Except LoadFault (Document × List Log.Entry) :=
  match load found with
  | .ok d => .ok (d, [loadedEntry (Files.normalized path) d])
  | .error f =>
    if fallback && f.fallsBack then .ok (simple, [notLoadedEntry (Files.normalized path) f])
    else .error f

theorem loadOr_of_ok {path : String} {found : Except Files.Fault (List UInt8)} {d : Document}
    (h : load found = .ok d) :
    loadOr path found = (d, [loadedEntry (Files.normalized path) d]) := by
  simp [loadOr, h]

theorem loadOr_of_error {path : String} {found : Except Files.Fault (List UInt8)} {f : LoadFault}
    (h : load found = .error f) :
    loadOr path found = (simple, [notLoadedEntry (Files.normalized path) f]) := by
  simp [loadOr, h]

/-- A fallback is taken for the faults of files, of characters, of syntax and of content alike. -/
theorem LoadFault.fallsBack_eq (f : LoadFault) : f.fallsBack = true := by
  cases f with
  | file f => cases f <;> decide
  | encoding _ => rfl
  | json e => cases e <;> rfl
  | invalid _ => rfl

theorem attempt_without (path : String) (found : Except Files.Fault (List UInt8)) :
    attempt false path found = loadLogged path found := by
  unfold attempt loadLogged
  cases load found <;> rfl

theorem attempt_with (path : String) (found : Except Files.Fault (List UInt8)) :
    attempt true path found = .ok (loadOr path found) := by
  unfold attempt loadOr
  cases load found with
  | ok d => rfl
  | error f => simp [f.fallsBack_eq]

end Workflow.Document
