import Workflow.Decimal.Float
import Workflow.Fields
import Workflow.Text.Quoted

/-!
# Values

The data that contexts, parameters and documents hold: null, booleans, whole numbers of any size,
doubles, texts, lists and objects. A whole number and a double are kept apart even when they are
equal. Inside a message texts are quoted, lists and objects are bracketed, and the three constants
are words; a text on its own is shown as it is.
-/
namespace Workflow

/-- A value of a context or a document. -/
inductive Value where
  | null
  | bool (b : Bool)
  | int (n : Int)
  | float (x : Float)
  | str (s : String)
  | list (items : List Value)
  | obj (fields : List (String × Value))
  deriving Inhabited

/-- A context: values under names. -/
abbrev Context := Fields Value

/-- The kinds of values, as messages name them. -/
inductive Kind where
  | null | bool | int | float | str | list | obj
  deriving DecidableEq, Repr

def Kind.word : Kind → String
  | .null => "NoneType"
  | .bool => "bool"
  | .int => "int"
  | .float => "float"
  | .str => "str"
  | .list => "list"
  | .obj => "dict"

namespace Value

def kind : Value → Kind
  | .null => .null
  | .bool _ => .bool
  | .int _ => .int
  | .float _ => .float
  | .str _ => .str
  | .list _ => .list
  | .obj _ => .obj

/-- Does the value count as true? Null, false, zero and whatever is empty do not. -/
def truthy : Value → Bool
  | .null => false
  | .bool b => b
  | .int n => n != 0
  | .float x => x != 0.0
  | .str s => s != ""
  | .list items => !items.isEmpty
  | .obj fields => !fields.isEmpty

/-- A text, or null for none. -/
def ofText? (s : Option String) : Value :=
  match s with
  | some s => .str s
  | none => .null

def str? : Value → Option String
  | .str s => some s
  | _ => none

def obj? : Value → Option (Fields Value)
  | .obj fields => some fields
  | _ => none

def list? : Value → Option (List Value)
  | .list items => some items
  | _ => none

def isNull : Value → Bool
  | .null => true
  | _ => false

/-- The value, or another one if it does not count as true. -/
def orElse (v w : Value) : Value := if v.truthy then v else w

/-! ## Values in messages -/

open Text Decimal

mutual

/-- The value as part of a message, texts quoted. -/
def shown : Value → String
  | .null => "None"
  | .bool b => if b then "True" else "False"
  | .int n => toString n
  | .float x => text plain x
  | .str s => quoted s
  | .list items => "[" ++ ", ".intercalate (shownItems items) ++ "]"
  | .obj fields => "\x7b" ++ ", ".intercalate (shownFields fields) ++ "\x7d"

def shownItems : List Value → List String
  | [] => []
  | v :: vs => shown v :: shownItems vs

def shownFields : List (String × Value) → List String
  | [] => []
  | (k, v) :: fs => (quoted k ++ ": " ++ shown v) :: shownFields fs

end

/-- The value as a message of its own. -/
def plainText : Value → String
  | .str s => s
  | v => shown v

end Value

/-- The value under a name, null if there is none. -/
def Fields.getD (fs : Fields Value) (k : String) : Value := (fs.get? k).getD .null

end Workflow
