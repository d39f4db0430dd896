import Workflow.Files
import Workflow.Json.Printer
import Workflow.Log.Entry
import Workflow.Log.Moment
import Workflow.Log.Template

/-!
# Log records

A record is what a logger hands on: when something was logged, how urgent it is, by whom, a message
template with its values, the error it is about, and further attributes. A record is written as one
JSON object on a line of its own. Attributes with the name of a record's own parts, and names that
start with an underscore, are left out of it.

Results:
* `visible_iff`: which attributes a line shows.
* `assign_extra`: an attribute with a name of its own changes no part of the record.
-/
namespace Workflow.Log

def levelNames : List (Nat × String) :=
  [(50, "CRITICAL"), (40, "ERROR"), (30, "WARNING"), (20, "INFO"), (10, "DEBUG"), (0, "NOTSET")]

/-- The name of a level that is a whole number. -/
def levelName? (n : Int) : Option String := levelNames.findSome? fun e =>
  if (e.1 : Int) = n then some e.2 else none

/-- The whole number that a number is equal to. -/
def wholeLevel? : Value → Option Int
  | .int n => some n
  | .bool b => some (if b then 1 else 0)
  | .float x => match Value.whole (.float x) with
    | .ok n => if Float.ofInt n == x then some n else none
    | .error _ => none
  | _ => none

/-- The name of a level by its number. -/
def levelName (level : Value) : String :=
  ((wholeLevel? level).bind levelName?).getD ("Level " ++ level.plainText)

/-- The names of a record's own parts. -/
def ownNames : List String := [
  "name", "msg", "args", "levelname", "levelno", "pathname", "filename", "module", "exc_info",
  "exc_text", "stack_info", "lineno", "funcName", "created", "msecs", "relativeCreated", "thread",
  "threadName", "processName", "process", "message", "asctime", "taskName"]

/-- The names of the parts that a record is made of. The others are those of parts that follow from
them, or that a line does not tell. -/
def partNames : List String := ["created", "levelname", "name", "msg", "args", "exc_info"]

/-- Is an attribute shown as a further field of a line? -/
def isVisible (name : String) : Bool := !ownNames.contains name && name.toList.head? != some '_'

/-- What an attribute may hold that is no value; a line shows its text. -/
inductive Foreign where
  | set (items : List Value)
  | path (path : String)
  | error (e : Raised)

def Foreign.text : Foreign → String
  | .set [] => "set()"
  | .set items => "\x7b" ++ ", ".intercalate (items.map Value.shown) ++ "\x7d"
  | .path p => Files.normalized p
  | .error e => e.text

/-- What an attribute holds in place of a record's error. -/
inductive Cause where
  | none
  | error (e : Raised)
  | value (v : Value)

/-- A record. -/
structure Record where
  created : Value
  level : Value
  logger : Value
  message : Value
  arguments : Option Template.Arguments := none
  cause : Cause := .none
  extra : Fields Value := []

namespace Record

/-- The record of an entry, made at a time. -/
def ofEntry (parent : String) (created : Float) (e : Entry) : Record where
  created := .float created
  level := .str e.level.name
  logger := .str (parent ++ "." ++ e.source.name)
  message := .str e.message
  cause := (e.exception.map Cause.error).getD .none
  extra := e.extra

/-- Sets an attribute. One with the name of a part of the record takes the place of that part. -/
def assign (r : Record) (name : String) (v : Value) : Record :=
  if name = "created" then { r with created := v }
  else if name = "levelname" then { r with level := v }
  else if name = "name" then { r with logger := v }
  else if name = "msg" then { r with message := v }
  else if name = "args" then
    { r with arguments := if v.truthy then some (.single v) else none }
  else if name = "exc_info" then { r with cause := if v.truthy then .value v else .none }
  else { r with extra := r.extra.set name v }

/-- When the record was made, as a line tells it. -/
def timestamp (r : Record) : Except Raised String := do
  let moment ← (Moment.ofValue r.created).mapError MomentFault.raised
  moment.text.mapError MomentFault.raised

/-- The message, values filled in. -/
def text (r : Record) : Except Template.Fault String :=
  match r.arguments with
  | none => .ok r.message.plainText
  | some a => Template.fill r.message.plainText a

/-- The error behind a value that stands where an error is expected: it takes three parts of it. -/
def missingParts : Value → Raised
  | .str _ => ⟨"IndexError", "string index out of range"⟩
  | .list _ => ⟨"IndexError", "list index out of range"⟩
  | .obj _ => ⟨"KeyError", "2"⟩
  | v => ⟨"TypeError", "'" ++ v.kind.word ++ "' object is not subscriptable"⟩

/-- The fields for what a record is about, if it is about an error. -/
def causeFields (r : Record) : Except Raised (Fields Value) :=
  match r.cause with
  | .none => .ok []
  | .error e => .ok [("exception", .str e.line)]
  | .value v => .error (missingParts v)

/-- The further fields that a line shows. -/
def visible (r : Record) : Fields Value := r.extra.filter fun e => isVisible e.1

/-- The field for further fields, if there are any. -/
def extraFields (r : Record) : Fields Value :=
  if r.visible.isEmpty then [] else [("extra", .obj r.visible)]

/-- A record as an object. -/
def fields (r : Record) : Except Raised (Fields Value) := do
  let timestamp ← r.timestamp
  let message ← r.text.mapError Template.Fault.raised
  let causes ← r.causeFields
  return [("timestamp", .str timestamp), ("level", r.level), ("logger", r.logger),
    ("message", .str message)] ++ r.extraFields ++ causes

/-- A record as a line. A whole number that is too long to be written is refused. Mirrors
`JsonFormatter.format`. -/
def line (r : Record) : Except Raised String := do
  (Json.write? Json.oneLine (.obj (← r.fields))).mapError fun t => ⟨"ValueError", t.message⟩

theorem visible_iff (r : Record) (e : String × Value) :
    e ∈ r.visible ↔ e ∈ r.extra ∧ e.1 ∉ ownNames ∧ e.1.toList.head? ≠ some '_' := by
  simp [visible, isVisible]

theorem assign_extra (r : Record) {name : String} (v : Value) (h : name ∉ partNames) :
    r.assign name v = { r with extra := r.extra.set name v } := by
  simp only [partNames, List.mem_cons, not_or] at h
  simp [assign, h]

end Record
end Workflow.Log
