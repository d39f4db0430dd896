import Workflow.Decimal.Fixed
import Workflow.Value.Fault

/-!
# Message templates

A template is a text with slots. A slot starts with a percent sign and ends with a letter that tells
how a value is written; between them may stand the name of the value, flags, a width and a
precision. The values are taken in turn, or looked up by their names in a table. Two percent signs
are one.
-/
namespace Workflow.Log.Template

open Text Decimal

inductive Fault where
  | noTable | openKey | unfinished | tooFew | tooMany
  | sizeNotWhole | widthTooLarge | precisionTooLarge | givenWidthTooLarge | givenPrecisionTooLarge
  | unknownKey (key : String)
  | listKey
  | unsupported (letter : Char) (place : Nat)
  | notWhole (letter : Char) (kind : Kind)
  | notNumber (letter : Char) (kind : Kind)
  | notFloat (kind : Kind)
  | notCharacter | characterOutOfRange
  | numeral (f : NumeralFault)
  | beyondDoubles
  | beyondMemory
  deriving DecidableEq, Repr

/-- A letter as a fault shows it. -/
def shownLetter (c : Char) : Char := if 31 ≤ c.toNat ∧ c.toNat ≤ 126 then c else '?'

def Fault.raised : Fault → Raised
  | .noTable => ⟨"TypeError", "format requires a mapping"⟩
  | .openKey => ⟨"ValueError", "incomplete format key"⟩
  | .unfinished => ⟨"ValueError", "incomplete format"⟩
  | .tooFew => ⟨"TypeError", "not enough arguments for format string"⟩
  | .tooMany => ⟨"TypeError", "not all arguments converted during string formatting"⟩
  | .sizeNotWhole => ⟨"TypeError", "* wants int"⟩
  | .widthTooLarge => ⟨"ValueError", "width too big"⟩
  | .precisionTooLarge => ⟨"ValueError", "precision too big"⟩
  | .givenWidthTooLarge => ⟨"OverflowError", "Python int too large to convert to C ssize_t"⟩
  | .givenPrecisionTooLarge => ⟨"OverflowError", "Python int too large to convert to C int"⟩
  | .unknownKey key => ⟨"KeyError", quoted key⟩
  | .listKey => ⟨"TypeError", "list indices must be integers or slices, not str"⟩
  | .unsupported c place =>
    ⟨"ValueError", "unsupported format character '" ++ String.singleton (shownLetter c) ++
      "' (0x" ++ String.ofList (hex 1 c.toNat) ++ ") at index " ++ toString place⟩
  | .notWhole c k =>
    ⟨"TypeError", "%" ++ String.singleton c ++ " format: an integer is required, not " ++ k.word⟩
  | .notNumber c k =>
    ⟨"TypeError", "%" ++ String.singleton c ++ " format: a real number is required, not " ++ k.word⟩
  | .notFloat k => ⟨"TypeError", "must be real number, not " ++ k.word⟩
  | .notCharacter => ⟨"TypeError", "%c requires int or char"⟩
  | .characterOutOfRange => ⟨"OverflowError", "%c arg not in range(0x110000)"⟩
  | .numeral f => f.raised
  | .beyondDoubles => ⟨"OverflowError", "int too large to convert to float"⟩
  | .beyondMemory => ⟨"MemoryError", ""⟩

/-! ## Slots -/

/-- A width or a precision: in the template, or given by a value. -/
inductive Size where
  | fixed (n : Nat)
  | given
  deriving DecidableEq, Repr

/-- A slot. A key that is never closed is none; a slot without a letter is not finished. -/
structure Slot where
  key : Option (Option String) := none
  flags : List Char := []
  width : Option Size := none
  precision : Option Size := none
  letter : Option Char := none
  /-- Where the letter stands in the template. -/
  place : Nat := 0
  deriving DecidableEq, Repr

/-- A piece of a template. -/
inductive Piece where
  | char (c : Char)
  | slot (s : Slot)
  deriving DecidableEq, Repr

/-- A key up to the bracket that closes it, and what follows. -/
def keyOf? (depth : Nat) : List Char → Option (List Char × List Char)
  | [] => none
  | c :: cs =>
    if c = ')' ∧ depth = 0 then some ([], cs)
    else
      let depth := if c = ')' then depth - 1 else if c = '(' then depth + 1 else depth
      (keyOf? depth cs).map fun r => (c :: r.1, r.2)

/-- The key of a slot, if it has one, and what follows. -/
def slotKey : List Char → Option (Option String) × List Char
  | '(' :: cs => match keyOf? 0 cs with
    | some (key, rest) => (some (some (String.ofList key)), rest)
    | none => (some none, [])
  | cs => (none, cs)

/-- Is the character a flag? -/
def isFlag (c : Char) : Bool := c = '-' ∨ c = '+' ∨ c = ' ' ∨ c = '#' ∨ c = '0'

/-- A size, if there is one, and what follows. -/
def slotSize : List Char → Option Size × List Char
  | '*' :: cs => (some .given, cs)
  | cs =>
    if (digits cs).isEmpty then (none, cs)
    else (some (.fixed (ofDigits (digitValues (digits cs)))), afterDigits cs)

/-- A precision, if there is a point, and what follows. -/
def slotPrecision : List Char → Option Size × List Char
  | '.' :: cs => let (size, rest) := slotSize cs; (some (size.getD (.fixed 0)), rest)
  | cs => (none, cs)

/-- What follows a letter that stands for the width of a word, and means nothing here. -/
def skipModifier : List Char → List Char
  | c :: cs => if c = 'h' ∨ c = 'l' ∨ c = 'L' then cs else c :: cs
  | [] => []

/-- The slot behind a percent sign, and what follows, in a template of `total` characters. -/
def slotOf (total : Nat) (cs : List Char) : Slot × List Char :=
  let (key, cs) := slotKey cs
  let flags := cs.takeWhile isFlag
  let (width, cs) := slotSize (cs.dropWhile isFlag)
  let (precision, cs) := slotPrecision cs
  let cs := skipModifier cs
  ({ key, flags, width, precision, letter := cs.head?, place := total - cs.length }, cs.drop 1)

/-- The pieces of a template of `total` characters. Each step takes a character at least. -/
def piecesFrom (total : Nat) : Nat → List Char → List Piece
  | 0, _ => []
  | _, [] => []
  | steps + 1, c :: cs =>
    if c = '%' then
      if cs.head? = some '%' then .char '%' :: piecesFrom total steps (cs.drop 1)
      else
        let (s, rest) := slotOf total cs
        .slot s :: piecesFrom total steps rest
    else .char c :: piecesFrom total steps cs

def pieces (cs : List Char) : List Piece := piecesFrom cs.length cs.length cs

/-! ## Values -/

/-- The values for a template: those that wait their turn, and what names are looked up in. -/
structure Arguments where
  waiting : List Value
  table : Option Value := none

namespace Arguments

/-- One value; if it has parts, names are looked up in it. -/
def single (v : Value) : Arguments where
  waiting := [v]
  table := match v with
    | .obj _ => some v
    | .list _ => some v
    | _ => none

/-- The values in turn. An object on its own, if it is not empty, is a table. -/
def ofList : List Value → Arguments
  | [.obj (f :: fs)] => single (.obj (f :: fs))
  | vs => { waiting := vs }

def next (a : Arguments) : Except Fault (Value × Arguments) :=
  match a.waiting with
  | [] => .error .tooFew
  | v :: vs => .ok (v, { a with waiting := vs })

/-- Puts the value under a key next. -/
def look (a : Arguments) (key : Option String) : Except Fault Arguments :=
  match a.table, key with
  | none, _ => .error .noTable
  | some _, none => .error .openKey
  | some (.obj fields), some key => match Fields.get? fields key with
    | some v => .ok { a with waiting := [v] }
    | none => .error (.unknownKey key)
  | some _, some _ => .error .listKey

/-- The next value, which must be a whole number. -/
def nextWhole (a : Arguments) : Except Fault (Int × Arguments) :=
  match a.next with
  | .error f => .error f
  | .ok (.int n, a) => .ok (n, a)
  | .ok (.bool b, a) => .ok (if b then 1 else 0, a)
  | .ok _ => .error .sizeNotWhole

end Arguments

/-! ## Filling -/

/-- What a slot asks for, sizes known. -/
structure Form where
  flags : List Char
  left : Bool
  width : Nat := 0
  precision : Option Nat := none

/-- The width that a slot asks for. -/
def widthOf (s : Slot) (a : Arguments) : Except Fault (Form × Arguments) :=
  let left := s.flags.contains '-'
  match s.width with
  | none => .ok ({ flags := s.flags, left }, a)
  | some (.fixed n) =>
    if fits 64 n then .ok ({ flags := s.flags, left, width := n }, a) else .error .widthTooLarge
  | some .given => match a.nextWhole with
    | .error f => .error f
    | .ok (n, a) =>
      if fits 64 n then
        .ok ({ flags := s.flags, left := left || n < 0, width := n.natAbs }, a)
      else .error .givenWidthTooLarge

/-- The precision that a slot asks for. -/
def precisionOf (s : Slot) (form : Form) (a : Arguments) : Except Fault (Form × Arguments) :=
  match s.precision with
  | none => .ok (form, a)
  | some (.fixed n) =>
    if fits 32 n then .ok ({ form with precision := some n }, a) else .error .precisionTooLarge
  | some .given => match a.nextWhole with
    | .error f => .error f
    | .ok (n, a) =>
      if fits 32 n then .ok ({ form with precision := some n.toNat }, a)
      else .error .givenPrecisionTooLarge

/-- The widest text that is written. -/
def widest : Nat := 0x100000000

/-- Blanks up to the width. -/
def pad (form : Form) (cs : List Char) : List Char :=
  let blanks := List.replicate (form.width - cs.length) ' '
  if form.left then cs ++ blanks else blanks ++ cs

/-- A text cut to the precision. -/
def textForm (form : Form) (s : String) : List Char :=
  pad form (match form.precision with
    | some n => s.toList.take n
    | none => s.toList)

/-- A text in ASCII, other characters by their code points. -/
def asciiOnly (s : String) : String :=
  String.ofList (s.toList.flatMap fun c => if c.toNat < 128 then [c] else escapeCode c)

def signForm (form : Form) (negative : Bool) : List Char :=
  if negative then ['-'] else if form.flags.contains '+' then ['+']
  else if form.flags.contains ' ' then [' '] else []

/-- A number: its sign, a mark of its base and its digits, filled up to the width. -/
def numberForm (form : Form) (negative : Bool) (mark ds : List Char) : List Char :=
  let sign := signForm form negative
  let zeros := List.replicate (form.width - (sign.length + mark.length + ds.length)) '0'
  if form.flags.contains '0' && !form.left then sign ++ mark ++ zeros ++ ds
  else pad form (sign ++ mark ++ ds)

/-- The base of a letter for whole numbers. -/
def baseOf (letter : Char) : Nat :=
  if letter = 'o' then 8 else if letter = 'x' ∨ letter = 'X' then 16 else 10

def wholeForm (form : Form) (letter : Char) (n : Int) : List Char :=
  let ds := Nat.toDigits (baseOf letter) n.natAbs
  let ds := List.replicate (form.precision.getD 0 - ds.length) '0' ++ ds
  let mark := if form.flags.contains '#' && baseOf letter != 10 then ['0', letter] else []
  numberForm form (n < 0) mark (if letter = 'X' then ds.map Char.toUpper else ds)

/-- The digits of a finite double under a letter. -/
def floatDigits (form : Form) (letter : Char) (m : Nat) (e : Int) : List Char :=
  let alternate := form.flags.contains '#'
  let count := form.precision.getD 6
  if letter = 'e' ∨ letter = 'E' then scientificText alternate count m e
  else if letter = 'f' ∨ letter = 'F' then fixedText alternate count m e
  else generalText alternate count m e

def floatForm (form : Form) (letter : Char) (x : Float) : List Char :=
  let finish (cs : List Char) : List Char :=
    if letter.isUpper then cs.map Char.toUpper else cs
  match Double.ofFloat x with
  | .nan => numberForm form false [] (finish "nan".toList)
  | .infinite negative => numberForm form negative [] (finish "inf".toList)
  | .finite negative m e => numberForm form negative [] (finish (floatDigits form letter m e))

/-- The whole number that a value gives for a letter. -/
def wholeOf (letter : Char) : Value → Except Fault Int
  | .bool b => .ok (if b then 1 else 0)
  | .int n => .ok n
  | .float x =>
    if baseOf letter = 10 then (Value.whole (.float x)).mapError .numeral
    else .error (.notWhole letter .float)
  | v => .error (if baseOf letter = 10 then .notNumber letter v.kind else .notWhole letter v.kind)

/-- The double that a value gives. -/
def floatOf : Value → Except Fault Float
  | .bool b => .ok (if b then 1.0 else 0.0)
  | .int n => match nearestWhole? n with
    | some x => .ok x
    | none => .error .beyondDoubles
  | .float x => .ok x
  | v => .error (.notFloat v.kind)

/-- The character that a number is. -/
def charOfCode (n : Int) : Except Fault Char :=
  if n < 0 ∨ 0x110000 ≤ n then .error .characterOutOfRange else .ok (Char.ofNat n.toNat)

/-- The character that a value gives. -/
def charOf : Value → Except Fault Char
  | .str s => match s.toList with
    | [c] => .ok c
    | _ => .error .notCharacter
  | .int n => charOfCode n
  | .bool b => charOfCode (if b then 1 else 0)
  | _ => .error .notCharacter

/-- A value under a letter. -/
def valueForm (form : Form) (letter : Char) (place : Nat) (v : Value) : Except Fault (List Char) :=
  if letter = 's' then .ok (textForm form v.plainText)
  else if letter = 'r' then .ok (textForm form v.shown)
  else if letter = 'a' then .ok (textForm form (asciiOnly v.shown))
  else if "diuoxX".toList.contains letter then (wholeOf letter v).map (wholeForm form letter)
  else if "eEfFgG".toList.contains letter then (floatOf v).map (floatForm form letter)
  else if letter = 'c' then (charOf v).map fun c => pad form [c]
  else .error (.unsupported letter place)

/-- A filled slot, and the values that are left. -/
def fillSlot (s : Slot) (a : Arguments) : Except Fault (List Char × Arguments) := do
  let a ← match s.key with
    | none => .ok a
    | some key => a.look key
  let (form, a) ← widthOf s a
  let (form, a) ← precisionOf s form a
  match s.letter with
  | none => .error .unfinished
  | some letter =>
    let (v, a) ← a.next
    if form.width ≤ widest then .ok (← valueForm form letter s.place v, a)
    else (valueForm { form with width := 0 } letter s.place v).bind fun _ => .error .beyondMemory

/-- Filled pieces. No value may be left, unless there is a table. -/
def fillAll (a : Arguments) : List Piece → Except Fault (List Char)
  | [] => if a.waiting.isEmpty || a.table.isSome then .ok [] else .error .tooMany
  | .char c :: ps => (fillAll a ps).map (c :: ·)
  | .slot s :: ps => match fillSlot s a with
    | .error f => .error f
    | .ok (cs, a) => (fillAll a ps).map (cs ++ ·)

/-- A filled template. -/
def fill (template : String) (a : Arguments) : Except Fault String :=
  (fillAll a (pieces template.toList)).map String.ofList

end Workflow.Log.Template
