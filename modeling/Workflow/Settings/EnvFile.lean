import Workflow.Fields
import Workflow.Text.Blank

/-!
# Files of bindings

A file of statements, each of which binds a name to a text: `NAME=text`, with `export` in front or
not. A text may stand in quotes, may then go over several lines, and has escapes; without quotes it
ends with the line or in front of a comment. A name may stand alone and has no text then. A
statement that cannot be read is passed over up to the end of its line. A text may refer to names
bound before it, or in the environment.
-/
namespace Workflow.EnvFile

open Text

inductive Statement where
  /-- Blanks and comments. -/
  | empty
  | bind (name : String) (text : Option String)
  /-- What cannot be read, with the number of the line where it starts. -/
  | fault (line : Nat)
  deriving DecidableEq, Repr

/-- A blank inside a line. -/
def isInline (c : Char) : Bool := isBlank c && c ≠ '\n'

/-- The text without the blanks of its first line. -/
def skipInline (cs : List Char) : List Char := cs.dropWhile isInline

/-- The text without its first line. -/
def skipLine (cs : List Char) : List Char := (cs.dropWhile (· ≠ '\n')).drop 1

/-- The text behind the word that may stand in front of a binding. -/
def skipExport (cs : List Char) : List Char :=
  let word := "export".toList
  let rest := cs.drop word.length
  if word.isPrefixOf cs && rest.head?.any isInline then skipInline rest else cs

/-- A character of a name without quotes. -/
def isNameChar (c : Char) : Bool := c ≠ '=' && c ≠ '#' && !isBlank c

/-- A part of a text that is not empty, with what follows. -/
def some? (part rest : List Char) : Option (String × List Char) :=
  if part.isEmpty then none else some (String.ofList part, rest)

/-- A name, with what follows. -/
def name? : List Char → Option (String × List Char)
  | '\'' :: cs =>
    match cs.dropWhile (· ≠ '\'') with
    | [] => none
    | _ :: rest => some? (cs.takeWhile (· ≠ '\'')) rest
  | cs => some? (cs.takeWhile isNameChar) (cs.dropWhile isNameChar)

/-- A text up to the first quote that has no backslash in front, with what follows. -/
def upToBare? (quote : Char) (escaped : Bool) : List Char → Option (List Char × List Char)
  | [] => none
  | c :: cs =>
    if c = quote && !escaped then some ([], cs)
    else (upToBare? quote (c = '\\') cs).map fun r => (c :: r.1, r.2)

/-- A text up to the last quote, with what follows. -/
def upToLast? (quote : Char) : List Char → Option (List Char × List Char)
  | [] => none
  | c :: cs =>
    match upToLast? quote cs with
    | some r => some (c :: r.1, r.2)
    | none => if c = quote then some ([], cs) else none

/-- A text up to its closing quote. If each quote has a backslash in front, the last one closes. -/
def quoted? (quote : Char) (cs : List Char) : Option (List Char × List Char) :=
  (upToBare? quote false cs).or (upToLast? quote cs)

/-- The escapes between single quotes. -/
def singleEscape? : Char → Option Char
  | '\\' => some '\\'
  | '\'' => some '\''
  | _ => none

/-- The escapes between double quotes. -/
def doubleEscape? : Char → Option Char
  | '\\' => some '\\'
  | '\'' => some '\''
  | '"' => some '"'
  | 'a' => some '\x07'
  | 'b' => some '\x08'
  | 'f' => some '\x0c'
  | 'n' => some '\n'
  | 'r' => some '\r'
  | 't' => some '\t'
  | 'v' => some '\x0b'
  | _ => none

/-- A text with its escapes resolved; other backslashes stand for themselves. -/
def unescape (escape? : Char → Option Char) : List Char → List Char
  | '\\' :: c :: cs =>
    match escape? c with
    | some d => d :: unescape escape? cs
    | none => '\\' :: unescape escape? (c :: cs)
  | c :: cs => c :: unescape escape? cs
  | [] => []

/-- A line without the comment behind it: the blanks in front of a number sign, and all behind. -/
def dropComment : List Char → List Char
  | [] => []
  | c :: cs =>
    if isBlank c && (cs.dropWhile isBlank).head? = some '#' then [] else c :: dropComment cs

/-- A text without quotes. -/
def bare (cs : List Char) : List Char × List Char :=
  (trimEnd (dropComment (cs.takeWhile (· ≠ '\n'))), cs.dropWhile (· ≠ '\n'))

/-- The text of a binding, with what follows. -/
def text? : List Char → Option (List Char × List Char)
  | '\'' :: cs => (quoted? '\'' cs).map fun r => (unescape singleEscape? r.1, r.2)
  | '"' :: cs => (quoted? '"' cs).map fun r => (unescape doubleEscape? r.1, r.2)
  | cs => some (bare cs)

/-- What follows the end of a statement: a comment may stand in front of it, and nothing else. -/
def ended? (cs : List Char) : Option (List Char) :=
  let cs := skipInline cs
  match if cs.head? = some '#' then cs.dropWhile (· ≠ '\n') else cs with
  | [] => some []
  | c :: rest => if c = '\n' then some rest else none

/-- A statement that starts with these characters, and what follows. A fault gives the characters
at which it was found. -/
def statement (cs : List Char) : Except (List Char) (Statement × List Char) :=
  let cs := skipExport cs
  if cs.head? = some '#' then
    match ended? cs with
    | some rest => .ok (.empty, rest)
    | none => .error cs
  else
    match name? cs with
    | none => .error cs
    | some (name, cs) =>
      match skipInline cs with
      | '=' :: cs =>
        let cs := skipInline cs
        match text? cs with
        | none => .error cs
        | some (text, cs) =>
          match ended? cs with
          | none => .error cs
          | some rest => .ok (.bind name (some (String.ofList text)), rest)
      | cs =>
        match ended? cs with
        | none => .error cs
        | some rest => .ok (.bind name none, rest)

/-- The statement at the front of a text with a number for its first line, and what follows. -/
def first (line : Nat) (cs : List Char) : Statement × List Char :=
  match cs.dropWhile isBlank with
  | [] => (.empty, [])
  | start => match statement start with
    | .ok r => r
    | .error left => (.fault line, skipLine left)

/-- The statements of a text with a number for its first line. -/
def statementsFrom (line : Nat) (cs : List Char) : List Statement :=
  let (s, rest) := first line cs
  if rest.length < cs.length then
    s :: statementsFrom (line + (cs.take (cs.length - rest.length)).count '\n') rest
  else []
termination_by cs.length

def statements (cs : List Char) : List Statement := statementsFrom 1 cs

/-- The names that statements bind, with their texts. -/
def bindings (ss : List Statement) : List (String × Option String) :=
  ss.filterMap fun
    | .bind name text => some (name, text)
    | _ => none

/-- The lines that cannot be read. -/
def faults (ss : List Statement) : List Nat :=
  ss.filterMap fun
    | .fault line => some line
    | _ => none

/-- A reference to a name, with the text to take if the name is not bound. -/
structure Reference where
  name : String
  default : String
  /-- The number of characters of the reference. -/
  size : Nat

/-- The reference behind a dollar sign. -/
def reference? : List Char → Option Reference
  | '{' :: cs =>
    let isPart (c : Char) : Bool := c ≠ '}' && c ≠ ':'
    let name := cs.takeWhile isPart
    match cs.dropWhile isPart with
    | '}' :: _ => some ⟨String.ofList name, "", name.length + 2⟩
    | ':' :: '-' :: rest =>
      let default := rest.takeWhile (· ≠ '}')
      if default.length < rest.length then
        some ⟨String.ofList name, String.ofList default, name.length + default.length + 4⟩
      else none
    | _ => none
  | _ => none

/-- A text with its references replaced. -/
def substitute (value : Reference → String) : List Char → List Char
  | [] => []
  | c :: cs =>
    match if c = '$' then reference? cs else none with
    | some r => (value r).toList ++ substitute value (cs.drop r.size)
    | none => c :: substitute value cs
termination_by cs => cs.length
decreasing_by all_goals simp only [List.length_cons, List.length_drop]; omega

/-- What a reference stands for: the text of a name bound before, else of one in the environment. -/
def Reference.value (known : Fields (Option String)) (environment : Fields String)
    (r : Reference) : String :=
  match known.get? r.name with
  | some text => text.getD ""
  | none => (environment.get? r.name).getD r.default

/-- The names of a file with their texts, references replaced; the last binding of a name counts. -/
def resolve (environment : Fields String) (bs : List (String × Option String)) :
    Fields (Option String) :=
  bs.foldl (fun known b => known.set b.1 (b.2.map fun s =>
    String.ofList (substitute (Reference.value known environment) s.toList))) []

end Workflow.EnvFile
