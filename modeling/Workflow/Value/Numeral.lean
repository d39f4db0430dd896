import Workflow.Decimal.Reading
import Workflow.Decimal.Double
import Workflow.Value

/-!
# Numerals

A whole number from a value: from a text that is a numeral, from a number by cutting off its
fraction. A numeral is a sign, if any, and decimal digits of any script; single underscores may
stand between two digits, blanks around the whole.
-/
namespace Workflow

open Text Decimal

inductive NumeralFault where
  | notANumeral (text : String)
  | tooLong (t : TooLong)
  | notANumber (kind : Kind)
  | nan
  | infinite
  deriving DecidableEq, Repr

namespace Numeral

/-- The digits of a run of digits with single underscores between them, and what follows. The flag
tells whether an underscore would be in place now. None if an underscore is out of place. -/
def underscored? (afterDigit : Bool) : List Char → Option (List Nat × List Char)
  | [] => some ([], [])
  | c :: cs =>
    match digitValue? c with
    | some d => (underscored? true cs).map fun r => (d :: r.1, r.2)
    | none =>
      if c = '_' then
        match afterDigit, cs with
        | true, c' :: _ => if (digitValue? c').isSome then underscored? false cs else none
        | _, _ => none
      else some ([], c :: cs)

/-- Blanks around a numeral; in a text of ASCII characters the information separators are none. -/
def isPadding (ascii : Bool) (c : Char) : Bool := if ascii then isSpace c else isBlank c

/-- Is every character below 128? -/
def isAscii (cs : List Char) : Bool := cs.all fun c => c.toNat < 128

/-- The longest text that a refusal shows. -/
def shownLimit : Nat := 200

/-- The whole number that a numeral denotes. -/
def read (s : String) : Except NumeralFault Int :=
  let cs := s.toList
  let pad := isPadding (isAscii cs)
  let (negative, body) := sign (cs.dropWhile pad)
  match underscored? false body with
  | none => .error (.notANumeral s)
  | some (ds, rest) =>
    match wholeOf ds with
    | .error t => .error (.tooLong t)
    | .ok n =>
      if ds.isEmpty || !rest.all pad then .error (.notANumeral s)
      else .ok (if negative then -n else n)

end Numeral

def NumeralFault.message : NumeralFault → String
  | .notANumeral s =>
    "invalid literal for int() with base 10: " ++
      String.ofList ((quoted s).toList.take Numeral.shownLimit)
  | .tooLong t => t.message
  | .notANumber k =>
    "int() argument must be a string, a bytes-like object or a real number, not '" ++ k.word ++ "'"
  | .nan => "cannot convert float NaN to integer"
  | .infinite => "cannot convert float infinity to integer"

/-- The whole number that a value gives. -/
def Value.whole : Value → Except NumeralFault Int
  | .bool b => .ok (if b then 1 else 0)
  | .int n => .ok n
  | .float x => match Double.ofFloat x with
    | .nan => .error .nan
    | .infinite _ => .error .infinite
    | .finite negative m e => .ok (Double.truncate negative m e)
  | .str s => Numeral.read s
  | v => .error (.notANumber v.kind)

end Workflow
