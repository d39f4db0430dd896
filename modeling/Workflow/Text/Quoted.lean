import Workflow.Text.Printable

/-!
# Quoted texts

How a message shows a text: between single quotes, or between double quotes when the text has a
single quote and no double one. The backslash and the chosen quote are escaped, and so is every
character that does not print.
-/
namespace Workflow.Text

/-- The number in hexadecimal, filled up with zeros to a width. -/
def hex (width n : Nat) : List Char :=
  let ds := Nat.toDigits 16 n
  List.replicate (width - ds.length) '0' ++ ds

/-- The quote that encloses a text. -/
def quoteOf (cs : List Char) : Char := if cs.contains '\'' && !cs.contains '"' then '"' else '\''

/-- A character that does not print, by its code point. -/
def escapeCode (c : Char) : List Char :=
  if c.toNat < 0x100 then ['\\', 'x'] ++ hex 2 c.toNat
  else if c.toNat < 0x10000 then ['\\', 'u'] ++ hex 4 c.toNat
  else ['\\', 'U'] ++ hex 8 c.toNat

/-- One character of a quoted text. -/
def escapeChar (q c : Char) : List Char :=
  if c = q ∨ c = '\\' then ['\\', c]
  else if c = '\n' then ['\\', 'n']
  else if c = '\r' then ['\\', 'r']
  else if c = '\t' then ['\\', 't']
  else if isPrintable c then [c]
  else escapeCode c

/-- The text between quotes. -/
def quoteChars (cs : List Char) : List Char :=
  let q := quoteOf cs
  q :: cs.flatMap (escapeChar q) ++ [q]

/-- The text as a message shows it. -/
def quoted (s : String) : String := String.ofList (quoteChars s.toList)

end Workflow.Text
