import Workflow.Text.Digit
import Workflow.Text.Quoted

/-!
# Grammars of command lines

A command line is a list of words. A word that starts with a dash is a switch, if the grammar knows
it by its full name, or by the start of a single name. A switch may take a value: the next word, or
what stands behind an equals sign. Two dashes alone end the switches. If the grammar has commands,
the first word that is no switch names one, and all words behind it belong to the command.
-/
namespace Workflow.CommandLine

open Text

structure Switch where
  names : List String
  takesValue : Bool := true
  deriving DecidableEq, Repr

def Switch.label (s : Switch) : String := "/".intercalate s.names

/-- What may stand on a command line: switches, and commands if there are any. -/
structure Grammar where
  switches : List Switch
  commands : List String := []

/-- A word on a command line. A switch stands with the text behind its equals sign, a short name
with the characters that are written together with it. -/
inductive Item where
  | word (text : String)
  | separator
  | switch (s : Switch) (value : Option String)
  | cluster (s : Switch) (tail : List Char)
  | unknown (text : String)
  deriving DecidableEq, Repr

inductive Fault where
  | ambiguous (text : String) (names : List String)
  | expectsValue (s : Switch)
  | takesNoValue (s : Switch) (value : String)
  deriving DecidableEq, Repr

def Fault.message : Fault → String
  | .ambiguous text names =>
    "ambiguous option: " ++ text ++ " could match " ++ ", ".intercalate names
  | .expectsValue s => "argument " ++ s.label ++ ": expected one argument"
  | .takesNoValue s value =>
    "argument " ++ s.label ++ ": ignored explicit argument " ++ quoted value

/-! ## Words -/

namespace Grammar

def names (g : Grammar) : List (Switch × String) :=
  g.switches.flatMap fun s => s.names.map fun n => (s, n)

def named? (g : Grammar) (name : List Char) : Option (Switch × String) :=
  g.names.find? fun e => e.2.toList == name

end Grammar

/-- What stands in front of the first equals sign, and what stands behind it, if there is one. -/
def splitValue (cs : List Char) : List Char × Option String :=
  match cs.dropWhile (· ≠ '=') with
  | [] => (cs, none)
  | _ :: value => (cs.takeWhile (· ≠ '='), some (String.ofList value))

/-- Is a word without its line break at the end a number below zero: digits of any script, with a
point at most that has a digit behind it? -/
def isNegative (cs : List Char) : Bool :=
  let body := if cs.getLast? = some '\n' then cs.dropLast else cs
  match body with
  | '-' :: cs => match cs.dropWhile isDecimal with
    | [] => !cs.isEmpty
    | '.' :: places => !places.isEmpty && places.all isDecimal
    | _ => false
  | _ => false

/-- The names that a word with a dash may be the start of, with what the word is then. -/
def Grammar.starting (g : Grammar) (cs : List Char) : List (String × Item) :=
  let (start, value) := splitValue cs
  match cs with
  | '-' :: '-' :: _ => (g.names.filter fun e => start.isPrefixOf e.2.toList).map fun e =>
    (e.2, .switch e.1 value)
  | _ => g.names.filterMap fun e =>
    if e.2.toList = cs.take 2 then some (e.2, .cluster e.1 (cs.drop 2))
    else if cs.isPrefixOf e.2.toList then some (e.2, .switch e.1 none) else none

/-- A word that starts with a dash and is no full name. -/
def Grammar.dashed (g : Grammar) (cs : List Char) : Except Fault Item :=
  match g.starting cs with
  | [(_, item)] => .ok item
  | [] =>
    if isNegative cs || cs.contains ' ' then .ok (.word (String.ofList cs))
    else .ok (.unknown (String.ofList cs))
  | several => .error (.ambiguous (String.ofList cs) (several.map Prod.fst))

/-- A word in front of the separator. -/
def Grammar.item (g : Grammar) (s : String) : Except Fault Item :=
  let cs := s.toList
  match cs with
  | '-' :: _ :: _ => match g.named? cs with
    | some (switch, _) => .ok (.switch switch none)
    | none => match splitValue cs with
      | (start, some value) => match g.named? start with
        | some (switch, _) => .ok (.switch switch (some value))
        | none => g.dashed cs
      | _ => g.dashed cs
  | _ => .ok (.word s)

/-- The words of a command line, each with what it is. -/
def Grammar.items (g : Grammar) : List String → Except Fault (List (String × Item))
  | [] => .ok []
  | s :: rest =>
    if s = "--" then .ok ((s, .separator) :: rest.map fun t => (t, .word t))
    else match g.item s, g.items rest with
      | .ok i, .ok is => .ok ((s, i) :: is)
      | .error f, _ => .error f
      | _, .error f => .error f

/-! ## Takings -/

/-- What is taken from a command line, in order. Nothing is taken behind a fault. -/
inductive Taking where
  | switch (s : Switch)
  | value (s : Switch) (text : String)
  | command (words : List String)
  | extra (text : String)
  | fault (f : Fault)
  deriving DecidableEq, Repr

/-- Switches that take no value, their short names written together. A letter that is no name is
left over with all that is written behind it. -/
def clusterTakings (g : Grammar) (s : Switch) : List Char → Except Fault (List Taking)
  | [] => .ok [.switch s]
  | c :: cs =>
    if c = '-' then .error (.takesNoValue s (String.ofList (c :: cs)))
    else match g.named? ['-', c], cs with
      | none, _ => .ok [.extra (String.ofList ('-' :: c :: cs)), .switch s]
      | some (s', _), '=' :: value => .error (.takesNoValue s' (String.ofList value))
      | some (s', _), _ => (clusterTakings g s' cs).map (.switch s :: ·)

/-- What is taken from a word alone. -/
def ownTakings (g : Grammar) : Item → List Taking
  | .unknown text => [.extra text]
  | .switch s (some value) =>
    if s.takesValue then [.value s value] else [.fault (.takesNoValue s value)]
  | .cluster s tail =>
    if s.takesValue then [.value s (String.ofList tail)]
    else match clusterTakings g s tail with
      | .ok ts => ts
      | .error f => [.fault f]
  | .switch s none => [.switch s]
  | .word text => [.extra text]
  | .separator => [.extra "--"]

/-- What is taken from words. -/
def takings (g : Grammar) : List (String × Item) → List Taking
  | [] => []
  | (word, item) :: rest =>
    let command := !g.commands.isEmpty && (match item with
      | .word _ => true
      | .separator => !rest.isEmpty
      | _ => false)
    if command then [.command (word :: rest.map Prod.fst)]
    else match item, rest with
      | .switch ⟨names, true⟩ none, (_, .word text) :: rest =>
        .value ⟨names, true⟩ text :: takings g rest
      | .switch ⟨names, true⟩ none, _ => [.fault (.expectsValue ⟨names, true⟩)]
      | item, rest => ownTakings g item ++ takings g rest

/-- What is taken from a command line. A word that is ambiguous is a fault before all else. -/
def Grammar.takings (g : Grammar) (words : List String) : List Taking :=
  match g.items words with
  | .ok items => CommandLine.takings g items
  | .error f => [.fault f]

theorem takings_command (g : Grammar) (h : g.commands ≠ []) (s : String)
    (rest : List (String × Item)) :
    CommandLine.takings g ((s, .word s) :: rest) = [.command (s :: rest.map Prod.fst)] := by
  simp [CommandLine.takings, h]

theorem item_plain (g : Grammar) {s : String} (h : s.toList.head? ≠ some '-') :
    g.item s = .ok (.word s) := by
  unfold Grammar.item
  generalize s.toList = cs at h
  match cs with
  | [] => rfl
  | [c] => simp
  | c :: d :: cs =>
    have hc : c ≠ '-' := by simpa using h
    simp [hc]

end Workflow.CommandLine
