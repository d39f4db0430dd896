/-!
# Doubles, exactly

A double is NaN, an infinity, or a sign and a whole multiple of a power of two. Numbers are ordered
by their place on the line, counted in units of 2^-1074, the smallest distance between two doubles:
in these units every finite double and every integer is whole, so a comparison of an integer with a
double is exact.

A fraction is rounded to the nearest double, a tie to the one with the even mantissa.

Results:
* `place?_eq_none_iff`: only NaN has no place.
* `Place.lt_trans`, `Place.lt_irrefl`, `Place.lt_or_eq_or_lt`: places are in a total order.
* `roundDiv_eq`: which fractions are rounded to a whole number.
-/
namespace Workflow.Decimal

/-- What the bits of a double say. -/
inductive Double where
  | nan
  | infinite (negative : Bool)
  /-- The value `mantissa * 2 ^ exponent`, with a sign. -/
  | finite (negative : Bool) (mantissa : Nat) (exponent : Int)
  deriving DecidableEq, Repr

/-- The first bit of a double's mantissa, which is not written down; the fraction is below it. -/
def impliedBit : Nat := 0x10000000000000

/-- Reads the fields of a double: sign, eleven bits of exponent, fifty-two bits of fraction. -/
def Double.ofBits (bits : Nat) : Double :=
  let negative := bits >>> 63 % 2 == 1
  let exponent : Nat := bits >>> 52 % 0x800
  let fraction : Nat := bits % impliedBit
  if exponent = 2047 then
    if fraction = 0 then .infinite negative else .nan
  else if exponent = 0 then .finite negative fraction (-1074)
  else .finite negative (impliedBit + fraction) ((exponent : Int) - 1075)

/-- The exact value of a float. -/
def Double.ofFloat (x : Float) : Double := .ofBits x.toBits.toNat

/-- A place on the line: a whole number of units of 2^-1074, or beyond all of them. -/
inductive Place where
  | bottom
  | unit (n : Int)
  | top
  deriving DecidableEq, Repr

def Place.lt : Place → Place → Bool
  | .bottom, .bottom => false
  | .bottom, _ => true
  | .unit a, .unit b => a < b
  | .unit _, .top => true
  | _, _ => false

/-- The place of a double; NaN has none. -/
def Double.place? : Double → Option Place
  | .nan => none
  | .infinite true => some .bottom
  | .infinite false => some .top
  | .finite negative m e =>
    let n : Int := (m <<< (e + 1074).toNat : Nat)
    some (.unit (if negative then -n else n))

/-- The number of units in a one. -/
def Place.one : Nat := 1 <<< 1074

def Place.ofInt (n : Int) : Place := .unit (n * Place.one)

/-- The whole part of a finite double, toward zero. -/
def Double.truncate (negative : Bool) (m : Nat) (e : Int) : Int :=
  let n : Int := (if 0 ≤ e then m <<< e.toNat else m >>> (-e).toNat : Nat)
  if negative then -n else n

/-- The fraction `m * 2 ^ e` as numerator and denominator. -/
def ratio (m : Nat) (e : Int) : Nat × Nat :=
  if 0 ≤ e then (m <<< e.toNat, 1) else (m, 1 <<< (-e).toNat)

/-- The whole number nearest to `n / d`; a tie goes to the even one. -/
def roundDiv (n d : Nat) : Nat :=
  if d < 2 * (n % d) ∨ (2 * (n % d) = d ∧ n / d % 2 = 1) then n / d + 1 else n / d

/-- The `k` with `2 ^ k ≤ n / d < 2 ^ (k + 1)`. The difference of the numbers of digits is off by
one at most. -/
def binaryPlace (n d : Nat) : Int :=
  let k : Int := (n.log2 : Int) - d.log2
  if (ratio d k).1 ≤ n * (ratio d k).2 then k else k - 1

def infinityBits : Nat := 0x7FF0000000000000

/-- The bits of the double nearest to a fraction that is not zero. A mantissa that is rounded up to
the next power of two carries into the exponent. -/
def nearestBits (n d : Nat) : Nat :=
  let e := max (binaryPlace n d - 52) (-1074)
  let m := roundDiv (n * (ratio d e).2) (ratio d e).1
  min ((e + 1074).toNat <<< 52 + m) infinityBits

def signBit (negative : Bool) : Nat := if negative then 0x8000000000000000 else 0

theorem Double.place?_eq_none_iff (d : Double) : d.place? = none ↔ d = .nan := by
  cases d with
  | nan => simp [place?]
  | infinite b => cases b <;> simp [place?]
  | finite b m e => simp [place?]

theorem Place.lt_irrefl (a : Place) : a.lt a = false := by cases a <;> simp [lt]

theorem Place.lt_trans {a b c : Place} (h : a.lt b = true) (h' : b.lt c = true) :
    a.lt c = true := by
  cases a <;> cases b <;> cases c <;> simp_all [lt]
  omega

theorem Place.lt_or_eq_or_lt (a b : Place) : a.lt b = true ∨ a = b ∨ b.lt a = true := by
  cases a <;> cases b <;> simp [lt]
  omega

/-- What is rounded to a whole number: what is next to it, and what is half-way if it is even. -/
theorem roundDiv_eq {n d q : Nat} (hd : 0 < d) (hl : 2 * (d * q) ≤ 2 * n + d)
    (hu : 2 * n ≤ 2 * (d * q) + d)
    (hi : q % 2 = 1 → 2 * (d * q) < 2 * n + d ∧ 2 * n < 2 * (d * q) + d) : roundDiv n d = q := by
  have hr := Nat.div_add_mod n d
  have hm := Nat.mod_lt n hd
  have hlow : n / d ≤ q := by
    refine Nat.le_of_not_lt fun h => ?_
    have := Nat.mul_le_mul_left d (Nat.succ_le_of_lt h)
    rw [Nat.mul_succ] at this
    omega
  have hhigh : q ≤ n / d + 1 := by
    refine Nat.le_of_not_lt fun h => ?_
    have := Nat.mul_le_mul_left d (Nat.succ_le_of_lt h)
    rw [Nat.mul_succ, Nat.mul_succ] at this
    omega
  unfold roundDiv
  obtain rfl | rfl : q = n / d ∨ q = n / d + 1 := by omega
  · rw [if_neg]
    omega
  · rw [Nat.mul_succ] at hl hi
    rw [if_pos]
    omega

end Workflow.Decimal
