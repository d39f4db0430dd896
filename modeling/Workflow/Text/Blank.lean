/-!
# Blank characters

The characters with the property White_Space, with the four information separators. They separate
the tokens of a guard, and they are dropped at both ends of a text that is trimmed.
-/
namespace Workflow.Text

/-- The blank characters, as closed ranges of code points. -/
def blankRanges : List (Nat × Nat) := [
  (9, 13), (28, 32), (133, 133), (160, 160), (5760, 5760), (8192, 8202), (8232, 8233),
  (8239, 8239), (8287, 8287), (12288, 12288)]

/-- Is the code point of `c` in one of the closed ranges? -/
def inRanges (ranges : List (Nat × Nat)) (c : Char) : Bool :=
  ranges.any fun r => r.1 ≤ c.toNat && c.toNat ≤ r.2

/-- A blank separates words and has no other meaning. -/
def isBlank (c : Char) : Bool := inRanges blankRanges c

/-- A blank that is no information separator: a character with the property White_Space. -/
def isSpace (c : Char) : Bool := isBlank c && !(28 ≤ c.toNat && c.toNat ≤ 31)

/-- The characters without the blanks in front. -/
def trimStart (cs : List Char) : List Char := cs.dropWhile isBlank

def trimEnd (cs : List Char) : List Char := (cs.reverse.dropWhile isBlank).reverse

/-- The text without blanks at either end. -/
def trim (s : String) : String := String.ofList (trimEnd (trimStart s.toList))

end Workflow.Text
