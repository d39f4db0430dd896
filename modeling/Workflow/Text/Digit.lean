import Workflow.Text.Blank

/-!
# Digits

Decimal digits come in runs of ten code points, zero first, one run for each script. Some further
characters have a digit value and are no decimal digits (superscripts, circled digits): a text of
such characters looks numeric and is still no numeral.

Results:
* `digitValues_length`: no digit is left out of a text of digits.
* `digitValue?_ascii`: the ten digits of the ASCII range have the values they show.
-/
namespace Workflow.Text

/-- The zeros of the decimal digit runs. -/
def digitZeros : List Nat := [
  48, 1632, 1776, 1984, 2406, 2534, 2662, 2790, 2918, 3046, 3174, 3302, 3430, 3558, 3664, 3792,
  3872, 4160, 4240, 6112, 6160, 6470, 6608, 6784, 6800, 6992, 7088, 7232, 7248, 42528, 43216,
  43264, 43472, 43504, 43600, 44016, 65296, 66720, 68912, 69734, 69872, 69942, 70096, 70384,
  70736, 70864, 71248, 71360, 71472, 71904, 72016, 72784, 73040, 73120, 92768, 92864, 93008,
  120782, 120792, 120802, 120812, 120822, 123200, 123632, 125264, 130032]

/-- Characters with a digit value that are no decimal digits, as closed ranges. -/
def nonDecimalDigitRanges : List (Nat × Nat) := [
  (178, 179), (185, 185), (4969, 4977), (6618, 6618), (8304, 8304), (8308, 8313), (8320, 8329),
  (9312, 9320), (9332, 9340), (9352, 9360), (9450, 9450), (9461, 9469), (9471, 9471),
  (10102, 10110), (10112, 10120), (10122, 10130), (68160, 68163), (69216, 69224),
  (69714, 69722), (127232, 127242)]

/-- The value of a decimal digit. -/
def digitValue? (c : Char) : Option Nat :=
  (digitZeros.find? fun z => z ≤ c.toNat && c.toNat < z + 10).map fun z => c.toNat - z

/-- Is the character a decimal digit of some script? -/
def isDecimal (c : Char) : Bool := (digitValue? c).isSome

/-- Does the character have a digit value, decimal or not? -/
def isDigitLike (c : Char) : Bool := isDecimal c || inRanges nonDecimalDigitRanges c

/-- The decimal digits of a text as values, those that are none left out. -/
def digitValues (cs : List Char) : List Nat := cs.filterMap digitValue?

/-- The number that a list of digit values denotes, the most significant first. -/
def ofDigits (ds : List Nat) : Nat := ds.foldl (fun n d => 10 * n + d) 0

theorem digitValues_length {cs : List Char} (h : ∀ c ∈ cs, isDecimal c = true) :
    (digitValues cs).length = cs.length := by
  induction cs with
  | nil => rfl
  | cons c cs ih =>
    obtain ⟨d, hd⟩ := Option.isSome_iff_exists.mp (h c (List.mem_cons_self ..))
    have ih := ih fun c hc => h c (List.mem_cons_of_mem _ hc)
    simp [digitValues, hd] at ih ⊢
    exact ih

theorem digitValue?_ascii (i : Fin 10) : digitValue? (Char.ofNat (48 + i)) = some i.val := by
  revert i; decide

end Workflow.Text
