import Workflow.Value
import Workflow.Decimal.Float
import Workflow.Decimal.Reading
import Workflow.Text.Quoted

/-!
# Writing JSON

A value is written on one line, or with one item a line and an indent for each level. Only the
quote, the backslash and control characters are escaped.

Results:
* `escape_plain`: any other character stands for itself.
* `write?_of_check`: a document is refused for a long number only.
-/
namespace Workflow.Json

open Decimal Text

/-- One character of a text. -/
def escape (c : Char) : List Char :=
  if c = '"' then ['\\', '"']
  else if c = '\\' then ['\\', '\\']
  else if c = '\n' then ['\\', 'n']
  else if c = '\r' then ['\\', 'r']
  else if c = '\t' then ['\\', 't']
  else if c = '\x0c' then ['\\', 'f']
  else if c = '\x08' then ['\\', 'b']
  else if c.toNat < 32 then ['\\', 'u'] ++ hex 4 c.toNat
  else [c]

/-- A text between quotes. -/
def quote (s : String) : String :=
  String.ofList ('"' :: s.toList.flatMap escape ++ ['"'])

/-- How lists and objects are laid out. -/
structure Layout where
  /-- The width of an indent, or none to write on one line. -/
  indent : Option Nat := none

/-- Items on one line. -/
def oneLine : Layout := {}

/-- Items on lines of their own, two blanks a level. -/
def indented : Layout := { indent := some 2 }

/-- A line break and the indent of a level, if lines are broken at all. -/
def Layout.lineBreak (layout : Layout) (level : Nat) : String :=
  match layout.indent with
  | none => ""
  | some width => "\n" ++ String.ofList (List.replicate (width * level) ' ')

/-- What stands between two items. -/
def Layout.separator (layout : Layout) (level : Nat) : String :=
  if layout.indent.isNone then ", " else "," ++ layout.lineBreak level

/-- Items between brackets. -/
def Layout.enclose (layout : Layout) (level : Nat) (open_ close : String) (items : List String) :
    String :=
  if items.isEmpty then open_ ++ close
  else open_ ++ layout.lineBreak (level + 1) ++
    (layout.separator (level + 1)).intercalate items ++ layout.lineBreak level ++ close

mutual

/-- A value at a level of nesting. -/
def writeAt (layout : Layout) (level : Nat) : Value → String
  | .null => "null"
  | .bool b => if b then "true" else "false"
  | .int n => toString n
  | .float x => Decimal.text Decimal.json x
  | .str s => quote s
  | .list items => layout.enclose level "[" "]" (writeItems layout (level + 1) items)
  | .obj fields => layout.enclose level "\x7b" "\x7d" (writeFields layout (level + 1) fields)

def writeItems (layout : Layout) (level : Nat) : List Value → List String
  | [] => []
  | v :: vs => writeAt layout level v :: writeItems layout level vs

def writeFields (layout : Layout) (level : Nat) : List (String × Value) → List String
  | [] => []
  | (k, v) :: fs => (quote k ++ ": " ++ writeAt layout level v) :: writeFields layout level fs

end

/-- A value as a document. -/
def write (layout : Layout) (v : Value) : String := writeAt layout 0 v

structure LongNumber where
  digits : Nat
  deriving DecidableEq, Repr

def LongNumber.message (_ : LongNumber) : String :=
  "Exceeds the limit (4300 digits) for integer string conversion; " ++
    "use sys.set_int_max_str_digits() to increase the limit"

/-- Refuses a whole number of more than 4300 digits. -/
def checkWhole (n : Int) : Except LongNumber Unit :=
  let count := (toString n.natAbs).length
  if digitLimit < count then .error ⟨count⟩ else .ok ()

mutual

/-- Refuses a value with a whole number that is too long. -/
def check : Value → Except LongNumber Unit
  | .int n => checkWhole n
  | .list items => checkItems items
  | .obj fields => checkFields fields
  | _ => .ok ()

def checkItems : List Value → Except LongNumber Unit
  | [] => .ok ()
  | v :: vs => match check v with
    | .error t => .error t
    | .ok _ => checkItems vs

def checkFields : List (String × Value) → Except LongNumber Unit
  | [] => .ok ()
  | (_, v) :: fs => match check v with
    | .error t => .error t
    | .ok _ => checkFields fs

end

/-- A value as a document, unless a number in it is too long. -/
def write? (layout : Layout) (v : Value) : Except LongNumber String :=
  (check v).map fun _ => write layout v

theorem escape_plain {c : Char} (hq : c ≠ '"') (hb : c ≠ '\\') (hc : 32 ≤ c.toNat) :
    escape c = [c] := by
  have h (d : Char) (hd : d.toNat < 32) : c ≠ d := fun e => by subst e; omega
  simp [escape, hq, hb, h '\n' (by decide), h '\r' (by decide), h '\t' (by decide),
    h '\x0c' (by decide), h '\x08' (by decide), Nat.not_lt.2 hc]

theorem write?_of_check {layout : Layout} {v : Value} (h : check v = .ok ()) :
    write? layout v = .ok (write layout v) := by simp [write?, h, Except.map]

end Workflow.Json
