import Workflow.Decimal.Double

/-!
# The shortest decimal of a double

Among the decimals that read back as a given double, those with the fewest digits, and of these the
one nearest to the double. The reals that round to the double `m * 2 ^ e` form an interval around
it, ends included when `m` is even. For one digit, two digits and so on the two decimals next to
the double on that grid are tested against the interval in whole numbers; seventeen digits always
succeed.

Results:
* `dropZeros_shift`: the zeros that are dropped go into the exponent.
-/
namespace Workflow.Decimal

/-- The decimal `digits * 10 ^ exponent`. -/
structure Scaled where
  digits : Nat
  exponent : Int
  deriving DecidableEq, Repr

/-- Is `a * 10 ^ k` at most `n / d`? -/
def tenLe (a : Nat) (k : Int) (n d : Nat) : Bool :=
  if 0 ≤ k then a * Nat.pow 10 k.toNat * d ≤ n else a * d ≤ n * Nat.pow 10 (-k).toNat

/-- Is `a * 10 ^ k` at least `n / d`? -/
def tenGe (a : Nat) (k : Int) (n d : Nat) : Bool :=
  if 0 ≤ k then n ≤ a * Nat.pow 10 k.toNat * d else n * Nat.pow 10 (-k).toNat ≤ a * d

/-- The place of the first digit of `m * 2 ^ e`: the `k` with `10 ^ k ≤ m * 2 ^ e < 10 ^ (k + 1)`.
The estimate from the number of bits is off by one at most. -/
def leadingPlace (m : Nat) (e : Int) : Int :=
  let k : Int := ((m.log2 + e) * 30103).fdiv 100000
  let (n, d) := ratio m e
  if !tenLe 1 k n d then k - 1 else if tenLe 1 (k + 1) n d then k + 1 else k

/-- The reals that round to `m * 2 ^ e`, counted in units of `2 ^ (e - 2)`: the halves of the gaps
to both neighbours. The lower gap is half as wide at a power of two. -/
def halfway (m : Nat) (e : Int) : Nat × Nat :=
  (4 * m - (if m = impliedBit ∧ -1074 < e then 1 else 2), 4 * m + 2)

/-- Does `a * 10 ^ k` read back as `m * 2 ^ e`? -/
def readsBack (m : Nat) (e : Int) (a : Nat) (k : Int) : Bool :=
  let (lo, hi) := halfway m e
  let (ln, ld) := ratio lo (e - 2)
  let (hn, hd) := ratio hi (e - 2)
  if m % 2 = 0 then tenGe a k ln ld && tenLe a k hn hd
  else !tenLe a k ln ld && !tenGe a k hn hd

/-- The whole number of units `10 ^ k` below `m * 2 ^ e`. -/
def unitsBelow (m : Nat) (e k : Int) : Nat :=
  let (n, d) := ratio m e
  if 0 ≤ k then n / (d * Nat.pow 10 k.toNat) else n * Nat.pow 10 (-k).toNat / d

/-- Is `m * 2 ^ e` nearer to `a * 10 ^ k` than to `(a + 1) * 10 ^ k`? The even one wins a tie. -/
def nearerBelow (m : Nat) (e : Int) (a : Nat) (k : Int) : Bool :=
  let (n, d) := ratio (2 * m) e
  !tenLe (2 * a + 1) k n d || (tenGe (2 * a + 1) k n d && a % 2 = 0)

/-- The decimal with `count` digits that reads back, if there is one. -/
def withDigits? (m : Nat) (e : Int) (count : Nat) : Option Scaled :=
  let k := leadingPlace m e - count + 1
  let a := unitsBelow m e k
  match readsBack m e a k, readsBack m e (a + 1) k with
  | true, true => some ⟨if nearerBelow m e a k then a else a + 1, k⟩
  | true, false => some ⟨a, k⟩
  | false, true => some ⟨a + 1, k⟩
  | false, false => none

/-- The number without its zeros at the end, and how many they were. -/
def dropZeros (n : Nat) (k : Int) : Scaled :=
  if h : n ≠ 0 ∧ n % 10 = 0 then dropZeros (n / 10) (k + 1) else ⟨n, k⟩
termination_by n
decreasing_by omega

/-- The shortest decimal that reads back as `m * 2 ^ e`. -/
def shortest (m : Nat) (e : Int) : Scaled :=
  if m = 0 then ⟨0, 0⟩
  else match (List.range 17).findSome? fun i => withDigits? m e (i + 1) with
    | some s => dropZeros s.digits s.exponent
    | none => ⟨m, e⟩

theorem dropZeros_shift (n : Nat) (k : Int) :
    ∃ t : Nat, (dropZeros n k).exponent = k + t ∧ n = (dropZeros n k).digits * Nat.pow 10 t := by
  fun_induction dropZeros n k with
  | case1 n k hn ih =>
    obtain ⟨t, hk, hd⟩ := ih
    refine ⟨t + 1, by omega, ?_⟩
    have hp : Nat.pow 10 (t + 1) = Nat.pow 10 t * 10 := rfl
    rw [hp, ← Nat.mul_assoc, ← hd]
    omega
  | case2 n k _ => exact ⟨0, by simp, (Nat.mul_one n).symm⟩

end Workflow.Decimal
