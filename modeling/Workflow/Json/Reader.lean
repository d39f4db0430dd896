import Workflow.Value
import Workflow.Decimal.Reading

/-!
# Reading JSON

A document is read from its characters. Beside the standard's texts the words `NaN`, `Infinity` and
`-Infinity` are numbers. A number with a fraction or an exponent is a double, any other a whole
number. The first fault is reported with the place where it stands.
-/
namespace Workflow.Json

open Decimal Text

inductive Complaint where
  | value | name | colon | comma | unterminated | control | escape | codeEscape | extra | mark
  deriving DecidableEq, Repr

def Complaint.text : Complaint → String
  | .value => "Expecting value"
  | .name => "Expecting property name enclosed in double quotes"
  | .colon => "Expecting ':' delimiter"
  | .comma => "Expecting ',' delimiter"
  | .unterminated => "Unterminated string starting at"
  | .control => "Invalid control character at"
  | .escape => "Invalid \\escape"
  | .codeEscape => "Invalid \\uXXXX escape"
  | .extra => "Extra data"
  | .mark => "Unexpected UTF-8 BOM (decode using utf-8-sig)"

/-- A fault inside a text, with the number of characters from its place to the end. -/
inductive Fault where
  | malformed (complaint : Complaint) (left : Nat)
  | tooLong (t : TooLong)
  deriving DecidableEq, Repr

/-- What a reader of a part gives: the part and the characters behind it. -/
abbrev Read (α : Type) := Except Fault (α × List Char)

/-- The blanks between the parts of a document. -/
def isBlank (c : Char) : Bool := c = ' ' ∨ c = '\t' ∨ c = '\n' ∨ c = '\r'

/-- The text without blanks in front. -/
def skipBlank (cs : List Char) : List Char := cs.dropWhile isBlank

/-- The text behind a word that it starts with. -/
def afterWord? : List Char → List Char → Option (List Char)
  | [], cs => some cs
  | w :: ws, c :: cs => if w = c then afterWord? ws cs else none
  | _ :: _, [] => none

/-- The value of a hexadecimal digit. -/
def hexValue? (c : Char) : Option Nat :=
  if '0' ≤ c ∧ c ≤ '9' then some (c.toNat - 48)
  else if 'a' ≤ c ∧ c ≤ 'f' then some (c.toNat - 87)
  else if 'A' ≤ c ∧ c ≤ 'F' then some (c.toNat - 55)
  else none

/-- The number of four hexadecimal digits. -/
def hex4? (a b c d : Char) : Option Nat := do
  return (((← hexValue? a) * 16 + (← hexValue? b)) * 16 + (← hexValue? c)) * 16 + (← hexValue? d)

/-- The character that a letter behind a backslash stands for. -/
def shortEscape? : Char → Option Char
  | '"' => some '"'
  | '\\' => some '\\'
  | '/' => some '/'
  | 'b' => some '\x08'
  | 'f' => some '\x0c'
  | 'n' => some '\n'
  | 'r' => some '\r'
  | 't' => some '\t'
  | _ => none

/-- A code unit that needs a partner in front of it or behind it. -/
def isHigh (n : Nat) : Bool := 0xD800 ≤ n && n < 0xDC00

/-- A code unit that completes a pair. -/
def isLow (n : Nat) : Bool := 0xDC00 ≤ n && n < 0xE000

/-- The character of a pair of code units. -/
def joinUnits (high low : Nat) : Char :=
  Char.ofNat (0x10000 + (high - 0xD800) * 0x400 + (low - 0xDC00))

/-- The character of a code unit that stands alone. Half a pair is no character: which half it was
is lost, and the replacement character stands for each. -/
def ofUnit (n : Nat) : Char := if isHigh n || isLow n then '\ufffd' else Char.ofNat n

/-- The characters of a text up to its closing quote. `whole` is the number of characters left at
the opening quote, where an unterminated text is reported. -/
def readChars (whole : Nat) : List Char → Read (List Char)
  | [] => .error (.malformed .unterminated whole)
  | '"' :: cs => .ok ([], cs)
  | '\\' :: 'u' :: a :: b :: c :: d :: '\\' :: 'u' :: a' :: b' :: c' :: d' :: e :: cs =>
    let rest := a' :: b' :: c' :: d' :: e :: cs
    match hex4? a b c d with
    | none => .error (.malformed .codeEscape (rest.length + 7))
    | some n =>
      if isHigh n then
        match hex4? a' b' c' d' with
        | none => .error (.malformed .codeEscape (rest.length + 1))
        | some m =>
          if isLow m then
            (readChars whole (e :: cs)).map fun r => (joinUnits n m :: r.1, r.2)
          else
            (readChars whole ('\\' :: 'u' :: rest)).map fun r => (ofUnit n :: r.1, r.2)
      else (readChars whole ('\\' :: 'u' :: rest)).map fun r => (ofUnit n :: r.1, r.2)
  | '\\' :: 'u' :: a :: b :: c :: d :: e :: cs =>
    match hex4? a b c d with
    | none => .error (.malformed .codeEscape (cs.length + 6))
    | some n => (readChars whole (e :: cs)).map fun r => (ofUnit n :: r.1, r.2)
  | '\\' :: 'u' :: cs => .error (.malformed .codeEscape (cs.length + 1))
  | ['\\'] => .error (.malformed .unterminated whole)
  | '\\' :: c :: cs =>
    match shortEscape? c with
    | none => .error (.malformed .escape (cs.length + 2))
    | some e => (readChars whole cs).map fun r => (e :: r.1, r.2)
  | c :: cs =>
    if c.toNat < 32 then .error (.malformed .control (cs.length + 1))
    else (readChars whole cs).map fun r => (c :: r.1, r.2)

def readText (cs : List Char) : Read String :=
  (readChars (cs.length + 1) cs).map fun r => (String.ofList r.1, r.2)

/-- A fraction: the digits behind a point, if there is one. -/
def fraction? : List Char → Option (List Char × List Char)
  | '.' :: cs => if (digits cs).isEmpty then none else some (digits cs, afterDigits cs)
  | _ => none

/-- The whole part of a number: a zero alone, or digits that do not start with one. -/
def wholePart? : List Char → Option (List Char × List Char)
  | '0' :: cs => some (['0'], cs)
  | cs => if (digits cs).isEmpty then none else some (digits cs, afterDigits cs)

/-- A number behind its sign. -/
def readUnsigned? (negative : Bool) (cs : List Char) : Option (Read Value) :=
  (wholePart? cs).map fun (whole, rest) =>
    let fraction := fraction? rest
    let rest := (fraction.map Prod.snd).getD rest
    let exponent := exponent? rest
    let rest := (exponent.map Prod.snd).getD rest
    if fraction.isSome || exponent.isSome then
      let ds := digitValues ((fraction.map Prod.fst).getD [])
      .ok (.float (ofParts negative (digitValues whole) ds ((exponent.map Prod.fst).getD 0)), rest)
    else
      match wholeOf (digitValues whole) with
      | .error t => .error (.tooLong t)
      | .ok n => .ok (.int (if negative then -n else n), rest)

/-- A number. -/
def readNumber? : List Char → Option (Read Value)
  | '-' :: cs => readUnsigned? true cs
  | cs => readUnsigned? false cs

/-- The words of the format and what they stand for. -/
def words : List (List Char × Value) := [
  (['n', 'u', 'l', 'l'], .null), (['t', 'r', 'u', 'e'], .bool true),
  (['f', 'a', 'l', 's', 'e'], .bool false), (['N', 'a', 'N'], .float (0.0 / 0.0)),
  (['I', 'n', 'f', 'i', 'n', 'i', 't', 'y'], .float (1.0 / 0.0)),
  (['-', 'I', 'n', 'f', 'i', 'n', 'i', 't', 'y'], .float (-1.0 / 0.0))]

/-- A value that is neither text, list nor object. -/
def readScalar (cs : List Char) : Read Value :=
  match words.findSome? fun w => (afterWord? w.1 cs).map fun rest => (w.2, rest) with
  | some r => .ok r
  | none => (readNumber? cs).getD (.error (.malformed .value cs.length))

mutual

/-- A value. A bracket takes two steps down, so that twice the number of characters bounds the
depth. -/
def readValue : Nat → List Char → Read Value
  | 0, cs => .error (.malformed .value cs.length)
  | depth + 1, cs =>
    match cs with
    | '"' :: rest => (readText rest).map fun r => (.str r.1, r.2)
    | '{' :: rest =>
      match skipBlank rest with
      | '}' :: rest => .ok (.obj [], rest)
      | rest => (readFields depth rest).map fun r => (.obj (Fields.ofEntries r.1), r.2)
    | '[' :: rest =>
      match skipBlank rest with
      | ']' :: rest => .ok (.list [], rest)
      | rest => (readItems depth rest).map fun r => (.list r.1, r.2)
    | cs => readScalar cs

/-- The items of a list that has some, up to its closing bracket. -/
def readItems : Nat → List Char → Read (List Value)
  | 0, cs => .error (.malformed .value cs.length)
  | depth + 1, cs =>
    match readValue depth cs with
    | .error f => .error f
    | .ok (v, rest) =>
      match skipBlank rest with
      | ']' :: rest => .ok ([v], rest)
      | ',' :: rest => (readItems depth (skipBlank rest)).map fun r => (v :: r.1, r.2)
      | rest => .error (.malformed .comma rest.length)

/-- The fields of an object that has some, up to its closing brace. -/
def readFields : Nat → List Char → Read (List (String × Value))
  | 0, cs => .error (.malformed .name cs.length)
  | depth + 1, cs =>
    match cs with
    | '"' :: rest =>
      match readText rest with
      | .error f => .error f
      | .ok (name, rest) =>
        match skipBlank rest with
        | ':' :: rest =>
          match readValue depth (skipBlank rest) with
          | .error f => .error f
          | .ok (v, rest) =>
            match skipBlank rest with
            | '}' :: rest => .ok ([(name, v)], rest)
            | ',' :: rest =>
              (readFields depth (skipBlank rest)).map fun r => ((name, v) :: r.1, r.2)
            | rest => .error (.malformed .comma rest.length)
        | rest => .error (.malformed .colon rest.length)
    | cs => .error (.malformed .name cs.length)

end

/-- A document that is one value, with blanks around it. -/
def readDocument (cs : List Char) : Except Fault Value :=
  match cs with
  | '\ufeff' :: _ => .error (.malformed .mark cs.length)
  | _ =>
    match readValue (2 * cs.length + 2) (skipBlank cs) with
    | .error f => .error f
    | .ok (v, rest) =>
      match skipBlank rest with
      | [] => .ok v
      | rest => .error (.malformed .extra rest.length)

inductive ReadError where
  | malformed (complaint : Complaint) (line column place : Nat)
  | tooLong (t : TooLong)
  deriving DecidableEq, Repr

def ReadError.message : ReadError → String
  | .malformed c line column place =>
    c.text ++ ": line " ++ toString line ++ " column " ++ toString column ++ " (char " ++
      toString place ++ ")"
  | .tooLong t => t.message

/-- A fault as an error, its place counted from the start of the text. -/
def Fault.locate (cs : List Char) : Fault → ReadError
  | .malformed c left =>
    let place := cs.length - left
    let before := cs.take place
    .malformed c (before.count '\n' + 1) ((before.reverse.takeWhile (· ≠ '\n')).length + 1) place
  | .tooLong t => .tooLong t

/-- Reads a document. -/
def read (s : String) : Except ReadError Value :=
  (readDocument s.toList).mapError (Fault.locate s.toList)

end Workflow.Json
