import Workflow.Value.Path

/-!
# Tokens of a guard

A guard is cut into lexemes: blanks, numbers, quoted texts, operators and paths. At each place the
longest lexeme is taken. Every lexeme but the blanks becomes a token with the offset at which it
starts.
-/
namespace Workflow.Guard

open Text Decimal

/-- Operators, brackets and the three words that act as operators. -/
inductive Op where
  | identical | notIdentical | equal | notEqual | atMost | atLeast | both | either
  | below | above | bang | opening | closing | minus | andWord | orWord | notWord
  deriving DecidableEq, Repr

def Op.spelling : Op → String
  | .identical => "==="
  | .notIdentical => "!=="
  | .equal => "=="
  | .notEqual => "!="
  | .atMost => "<="
  | .atLeast => ">="
  | .both => "&&"
  | .either => "||"
  | .below => "<"
  | .above => ">"
  | .bang => "!"
  | .opening => "("
  | .closing => ")"
  | .minus => "-"
  | .andWord => "and"
  | .orWord => "or"
  | .notWord => "not"

/-- A token: an operator, a literal value, or a path of names. -/
inductive Token where
  | op (o : Op)
  | literal (v : Value)
  | path (segments : List String)

/-- A tuple of names as messages show it. -/
def shownTuple (names : List String) : String :=
  let items := names.map quoted
  "(" ++ ", ".intercalate items ++ (if items.length = 1 then "," else "") ++ ")"

def Token.shown : Token → String
  | .op o => quoted o.spelling
  | .literal v => v.shown
  | .path segments => shownTuple segments

/-- A token and the offset of its first character; mirrors `_Token`. -/
structure Located where
  token : Token
  pos : Nat

/-- The tokens of a guard and the offset of its end. -/
structure Tokens where
  items : List Located
  stop : Nat

inductive TokenFault where
  | unexpected (c : Char) (pos : Nat)
  | tooLong (t : TooLong)
  deriving DecidableEq, Repr

/-- The classes of lexemes. -/
inductive Class where
  | blank
  | number (point : Bool)
  | text
  | op (o : Op)
  | path
  deriving DecidableEq, Repr

/-- A letter, the underscore or the dollar sign starts a name. -/
def startsName (c : Char) : Bool := c.isAlpha || c = '_' || c = '$'

/-- Inside a name digits may follow. -/
def continuesName (c : Char) : Bool := c.isAlphanum || c = '_' || c = '$'

/-- The length of the longest run at the start whose characters pass a test. -/
def runLength (p : Char → Bool) (cs : List Char) : Nat := (cs.takeWhile p).length

/-- The length of the further segments of a path: a point and a name, as often as they follow. -/
def segmentsLength : List Char → Nat
  | '.' :: c :: cs =>
    if continuesName c then
      let n := runLength continuesName cs
      n + 2 + segmentsLength (cs.drop n)
    else 0
  | _ => 0
termination_by cs => cs.length
decreasing_by simp only [List.length_cons, List.length_drop]; omega

/-- The length of a fraction behind a number: a point with at least one digit. -/
def fractionLength : List Char → Nat
  | '.' :: c :: cs => if isDecimal c then runLength isDecimal cs + 2 else 0
  | _ => 0

/-- The length of a quoted text from behind its opening quote, closing quote included. A backslash
takes the character behind it along, unless that is a line break. -/
def textLength? (q : Char) : List Char → Option Nat
  | [] => none
  | [c] => if c = q then some 1 else none
  | c :: d :: cs =>
    if c = q then some 1
    else if c = '\\' then
      if d = '\n' then none else (textLength? q cs).map (· + 2)
    else (textLength? q (d :: cs)).map (· + 1)

/-- The longest operator at the start, and the number of its further characters. -/
def operator? : List Char → Option (Op × Nat)
  | '=' :: '=' :: '=' :: _ => some (.identical, 2)
  | '!' :: '=' :: '=' :: _ => some (.notIdentical, 2)
  | '=' :: '=' :: _ => some (.equal, 1)
  | '!' :: '=' :: _ => some (.notEqual, 1)
  | '<' :: '=' :: _ => some (.atMost, 1)
  | '>' :: '=' :: _ => some (.atLeast, 1)
  | '&' :: '&' :: _ => some (.both, 1)
  | '|' :: '|' :: _ => some (.either, 1)
  | '<' :: _ => some (.below, 0)
  | '>' :: _ => some (.above, 0)
  | '!' :: _ => some (.bang, 0)
  | '(' :: _ => some (.opening, 0)
  | ')' :: _ => some (.closing, 0)
  | '-' :: _ => some (.minus, 0)
  | _ => none

/-- The lexeme that starts with `c`: its class and the number of its further characters. -/
def lexeme? (c : Char) (cs : List Char) : Option (Class × Nat) :=
  if isBlank c then some (.blank, runLength isBlank cs)
  else if isDecimal c then
    let n := runLength isDecimal cs
    let f := fractionLength (cs.drop n)
    some (.number (f != 0), n + f)
  else if c = '\'' ∨ c = '"' then (textLength? c cs).map fun n => (.text, n)
  else if startsName c then
    let n := runLength continuesName cs
    some (.path, n + segmentsLength (cs.drop n))
  else (operator? (c :: cs)).map fun r => (.op r.1, r.2)

/-- The character that a letter behind a backslash stands for. -/
def escaped (c : Char) : Char :=
  if c = 'n' then '\n' else if c = 't' then '\t' else if c = 'r' then '\r' else c

/-- The characters of a quoted text with the escapes resolved. -/
def unescape : List Char → List Char
  | [] => []
  | [c] => [c]
  | c :: d :: cs =>
    if c = '\\' ∧ d ≠ '\n' then escaped d :: unescape cs else c :: unescape (d :: cs)

/-- The words that stand for values. -/
def literalWords : List (String × Value) := [
  ("true", .bool true), ("false", .bool false), ("null", .null), ("undefined", .null),
  ("True", .bool true), ("False", .bool false), ("None", .null)]

/-- The words that act as operators. -/
def operatorWords : List (String × Op) := [("and", .andWord), ("or", .orWord), ("not", .notWord)]

/-- The token of a path lexeme: a word with a meaning of its own, or a path. -/
def pathToken (lexeme : List Char) : Token :=
  let s := String.ofList lexeme
  match literalWords.lookup s with
  | some v => .literal v
  | none =>
    match operatorWords.lookup s with
    | some o => .op o
    | none => .path (Path.segments lexeme)

/-- The value of a number lexeme: a double if it has a point. -/
def numberValue (point : Bool) (lexeme : List Char) : Except TooLong Value :=
  if point then
    let whole := digitValues (lexeme.takeWhile isDecimal)
    let fraction := digitValues (lexeme.dropWhile isDecimal)
    .ok (.float (ofParts false whole fraction 0))
  else (wholeOf (digitValues lexeme)).map fun n => .int n

/-- The value of a quoted lexeme. -/
def textValue (lexeme : List Char) : Value :=
  .str (String.ofList (unescape (lexeme.drop 1).dropLast))

/-- The token of a lexeme; blanks have none. -/
def token? (cls : Class) (lexeme : List Char) : Except TooLong (Option Token) :=
  match cls with
  | .blank => .ok none
  | .number point => (numberValue point lexeme).map fun v => some (.literal v)
  | .text => .ok (some (.literal (textValue lexeme)))
  | .op o => .ok (some (.op o))
  | .path => .ok (some (pathToken lexeme))

/-- The tokens of a text that starts at an offset. -/
def scan (pos : Nat) : List Char → Except TokenFault Tokens
  | [] => .ok ⟨[], pos⟩
  | c :: cs =>
    match lexeme? c cs with
    | none => .error (.unexpected c pos)
    | some (cls, n) =>
      match token? cls (c :: cs.take n) with
      | .error t => .error (.tooLong t)
      | .ok token =>
        (scan (pos + 1 + n) (cs.drop n)).map fun ts =>
          { ts with items := (token.map fun t => Located.mk t pos).toList ++ ts.items }
termination_by cs => cs.length
decreasing_by simp only [List.length_cons, List.length_drop]; omega

/-- The tokens of a guard; mirrors `_tokenize`. -/
def tokens (s : String) : Except TokenFault Tokens := scan 0 s.toList

theorem lexeme?_blank {c : Char} (h : isBlank c = true) (cs : List Char) :
    lexeme? c cs = some (.blank, runLength isBlank cs) := by simp [lexeme?, h]

end Workflow.Guard
