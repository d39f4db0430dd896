import Mathlib
import Workflow.Decimal.Reading
import Workflow.Decimal.Shortest

/-!
# Rounding to a double

The numbers that a double stands for are those up to half-way to its neighbours, with the half-way
points themselves if its mantissa is even. Every fraction among them is rounded to the double.

Results:
* `binaryPlace_spec`: the place of the first binary digit.
* `nearestBits_eq`, `decimalBits_eq`: the bits of the double that a fraction, and a decimal, is
  rounded to.
-/
namespace Workflow.Decimal

/-! ## Fractions -/

theorem ratio_pos (m : Nat) (e : Int) : 0 < (ratio m e).2 := by
  unfold ratio
  split
  · exact Nat.one_pos
  · rw [Nat.one_shiftLeft]
    exact Nat.two_pow_pos _

theorem ratio_eq (m : Nat) (e : Int) : ((ratio m e).1 : ℚ) = m * 2 ^ e * (ratio m e).2 := by
  unfold ratio
  split
  · rename_i h
    have he : (2 : ℚ) ^ e = 2 ^ e.toNat := by rw [← zpow_natCast, Int.toNat_of_nonneg h]
    simp [Nat.shiftLeft_eq, he]
  · rename_i h
    have he : (2 : ℚ) ^ e * 2 ^ (-e).toNat = 1 := by
      rw [← zpow_natCast, Int.toNat_of_nonneg (by omega), ← zpow_add₀ (by norm_num)]
      simp
    simp [Nat.shiftLeft_eq, mul_assoc, he]

/-- The fraction `n / d` in units of `2 ^ e`. -/
theorem div_ratio (n : Nat) {d : Nat} (hd : 0 < d) (e : Int) :
    ((n * (ratio d e).2 : Nat) : ℚ) / (ratio d e).1 = n / d / 2 ^ e := by
  have hq : ((ratio d e).2 : ℚ) ≠ 0 := by exact_mod_cast (ratio_pos d e).ne'
  have hd : (d : ℚ) ≠ 0 := by exact_mod_cast hd.ne'
  rw [ratio_eq]
  push_cast
  field_simp

theorem ratio_fst_pos {d : Nat} (hd : 0 < d) (e : Int) : 0 < (ratio d e).1 := by
  have hq := ratio_pos d e
  have : (0 : ℚ) < (ratio d e).1 := by
    rw [ratio_eq]
    positivity
  exact_mod_cast this

theorem roundDiv_of_near {n d q : Nat} (hd : 0 < d) (hl : (q : ℚ) - 1 / 2 ≤ n / d)
    (hu : (n : ℚ) / d ≤ q + 1 / 2)
    (hi : q % 2 = 1 → (q : ℚ) - 1 / 2 < n / d ∧ (n : ℚ) / d < q + 1 / 2) : roundDiv n d = q := by
  have hd' : (0 : ℚ) < d := by exact_mod_cast hd
  rw [le_div_iff₀ hd'] at hl
  rw [div_le_iff₀ hd'] at hu
  rw [lt_div_iff₀ hd', div_lt_iff₀ hd'] at hi
  have hl : (2 * (d * q) : ℚ) ≤ 2 * n + d := by linarith
  have hu : (2 * n : ℚ) ≤ 2 * (d * q) + d := by linarith
  refine roundDiv_eq hd (by exact_mod_cast hl) (by exact_mod_cast hu) fun hq => ?_
  obtain ⟨h1, h2⟩ := hi hq
  have h1 : (2 * (d * q) : ℚ) < 2 * n + d := by linarith
  have h2 : (2 * n : ℚ) < 2 * (d * q) + d := by linarith
  exact ⟨by exact_mod_cast h1, by exact_mod_cast h2⟩

/-! ## The first binary digit -/

theorem two_zpow_log2_le {n : Nat} (hn : 0 < n) : (2 : ℚ) ^ (n.log2 : Int) ≤ n := by
  rw [zpow_natCast]
  exact_mod_cast Nat.log2_self_le hn.ne'

theorem lt_two_zpow_log2 (n : Nat) : (n : ℚ) < 2 ^ (n.log2 + 1 : Int) := by
  have := @Nat.lt_log2_self n
  rw [← Nat.cast_succ, zpow_natCast]
  exact_mod_cast this

theorem binaryPlace_spec {n d : Nat} (hn : 0 < n) (hd : 0 < d) :
    (2 : ℚ) ^ binaryPlace n d ≤ n / d ∧ (n : ℚ) / d < 2 ^ (binaryPlace n d + 1) := by
  have hd' : (0 : ℚ) < d := by exact_mod_cast hd
  have hup : (n : ℚ) / d < 2 ^ ((n.log2 : Int) - d.log2 + 1) := by
    rw [div_lt_iff₀ hd']
    calc (n : ℚ) < 2 ^ (n.log2 + 1 : Int) := lt_two_zpow_log2 n
      _ = 2 ^ ((n.log2 : Int) - d.log2 + 1) * 2 ^ (d.log2 : Int) := by
        rw [← zpow_add₀ (by norm_num)]
        congr 1
        ring
      _ ≤ _ := mul_le_mul_of_nonneg_left (two_zpow_log2_le hd) (by positivity)
  have hlow : (2 : ℚ) ^ ((n.log2 : Int) - d.log2 - 1) ≤ n / d := by
    rw [le_div_iff₀ hd']
    calc (2 : ℚ) ^ ((n.log2 : Int) - d.log2 - 1) * d
        ≤ 2 ^ ((n.log2 : Int) - d.log2 - 1) * 2 ^ (d.log2 + 1 : Int) :=
          mul_le_mul_of_nonneg_left (lt_two_zpow_log2 d).le (by positivity)
      _ = 2 ^ (n.log2 : Int) := by
        rw [← zpow_add₀ (by norm_num)]
        congr 1
        ring
      _ ≤ n := two_zpow_log2_le hn
  have htest : ((ratio d ((n.log2 : Int) - d.log2)).1 ≤ n * (ratio d ((n.log2 : Int) - d.log2)).2) ↔
      (2 : ℚ) ^ ((n.log2 : Int) - d.log2) ≤ n / d := by
    rw [← Nat.cast_le (α := ℚ), ratio_eq, le_div_iff₀ hd', Nat.cast_mul, mul_comm (d : ℚ)]
    exact mul_le_mul_iff_left₀ (by exact_mod_cast ratio_pos ..)
  simp only [binaryPlace]
  split
  · rename_i h
    exact ⟨htest.mp h, hup⟩
  · rename_i h
    exact ⟨hlow, by simpa using lt_of_not_ge (mt htest.mpr h)⟩

/-! ## Doubles -/

/-- The mantissas and exponents of doubles. -/
structure Canonical (m : Nat) (e : Int) : Prop where
  small : m < 2 ^ 53
  lowest : -1074 ≤ e
  highest : e ≤ 971
  full : 2 ^ 52 ≤ m ∨ e = -1074

/-- A number that is rounded to the double `m * 2 ^ e`. -/
structure RoundsTo (m : Nat) (e : Int) (x : ℚ) : Prop where
  lower : (halfway m e).1 * 2 ^ (e - 2) ≤ x
  upper : x ≤ (halfway m e).2 * 2 ^ (e - 2)
  inside : m % 2 = 1 → (halfway m e).1 * 2 ^ (e - 2) < x ∧ x < (halfway m e).2 * 2 ^ (e - 2)

variable {m n d : Nat} {e : Int} {x : ℚ}

theorem halfway_fst (hm : 0 < m) :
    ((halfway m e).1 : ℚ) = 4 * m - if m = impliedBit ∧ -1074 < e then 1 else 2 := by
  have hsub (k : Nat) (hk : k ≤ 4) : ((4 * m - k : Nat) : ℚ) = 4 * m - k := by
    rw [Nat.cast_sub (by omega)]
    push_cast
    rfl
  unfold halfway
  split
  · exact hsub 1 (by decide)
  · exact hsub 2 (by decide)

theorem two_zpow_sub_two (e : Int) : (2 : ℚ) ^ (e - 2) = 2 ^ e / 4 := by
  rw [zpow_sub₀ (by norm_num)]
  norm_num

/-- In units of the last digit, the interval reaches half a unit in both directions, unless it
starts at a power of two. -/
theorem RoundsTo.units (h : RoundsTo m e x) (hm : 0 < m) :
    m - (if m = impliedBit ∧ -1074 < e then 1 / 4 else 1 / 2) ≤ x / 2 ^ e ∧ x / 2 ^ e ≤ m + 1 / 2 ∧
    (m % 2 = 1 → (m : ℚ) - 1 / 2 < x / 2 ^ e ∧ x / 2 ^ e < m + 1 / 2) := by
  have he : (0 : ℚ) < 2 ^ e := by positivity
  obtain ⟨hl, hu, hi⟩ := h
  rw [halfway_fst hm, two_zpow_sub_two] at hl hi
  rw [two_zpow_sub_two] at hu
  simp only [halfway] at hu hi
  rw [le_div_iff₀ he, div_le_iff₀ he, lt_div_iff₀ he, div_lt_iff₀ he]
  push_cast at hu hi
  by_cases hb : m = impliedBit ∧ -1074 < e
  · have hodd : m % 2 ≠ 1 := by
      rw [hb.1]
      decide
    rw [if_pos hb] at hl ⊢
    exact ⟨by linarith, by linarith, fun ho => absurd ho hodd⟩
  · rw [if_neg hb] at hl hi ⊢
    refine ⟨by linarith, by linarith, fun ho => ?_⟩
    obtain ⟨h1, h2⟩ := hi ho
    exact ⟨by linarith, by linarith⟩

/-- The exponent that a fraction is rounded with. -/
theorem unit_eq (hn : 0 < n) (hd : 0 < d) (he : -1074 ≤ e)
    (hl : 2 ^ 52 ≤ (n : ℚ) / d / 2 ^ e ∨ e = -1074) (hu : (n : ℚ) / d / 2 ^ e < 2 ^ 53) :
    max (binaryPlace n d - 52) (-1074) = e := by
  obtain ⟨h1, h2⟩ := binaryPlace_spec hn hd
  have hpos : (0 : ℚ) < 2 ^ e := by positivity
  have two : (1 : ℚ) < 2 := by norm_num
  have hle : binaryPlace n d < 53 + e := by
    rw [div_lt_iff₀ hpos, ← zpow_natCast, ← zpow_add₀ (by norm_num)] at hu
    exact (zpow_lt_zpow_iff_right₀ two).mp (h1.trans_lt hu)
  obtain hl | rfl := hl
  · have hge : 52 + e < binaryPlace n d + 1 := by
      rw [le_div_iff₀ hpos, ← zpow_natCast, ← zpow_add₀ (by norm_num)] at hl
      exact (zpow_lt_zpow_iff_right₀ two).mp (hl.trans_lt h2)
    omega
  · omega

/-- The bits of a double, as its exponent and its mantissa give them. -/
theorem bits_lt_infinityBits (hc : Canonical m e) :
    (e + 1074).toNat <<< 52 + m < infinityBits := by
  have h1 := hc.small
  have h2 := hc.highest
  rw [Nat.shiftLeft_eq]
  simp only [infinityBits]
  omega

/-- **A fraction is rounded to the double whose interval it is in.** -/
theorem nearestBits_eq (hc : Canonical m e) (hm : 0 < m) (hn : 0 < n) (hd : 0 < d)
    (hr : RoundsTo m e (n / d)) : nearestBits n d = (e + 1074).toNat <<< 52 + m := by
  obtain ⟨hl, hu, hi⟩ := hr.units hm
  have hsmall : (m : ℚ) + 1 ≤ 2 ^ 53 := by exact_mod_cast hc.small
  have hbits := bits_lt_infinityBits hc
  by_cases hlow : 2 ^ 52 ≤ (n : ℚ) / d / 2 ^ e ∨ e = -1074
  · -- The fraction has as many digits as the double.
    have hunit := unit_eq hn hd hc.lowest hlow (by linarith)
    have hround : roundDiv (n * (ratio d e).2) (ratio d e).1 = m := by
      refine roundDiv_of_near (ratio_fst_pos hd e) ?_ ?_ ?_ <;> rw [div_ratio n hd]
      · split at hl <;> linarith
      · exact hu
      · exact hi
    simp only [nearestBits, hunit, hround]
    exact Nat.min_eq_left hbits.le
  · -- The double is a power of two, and the fraction below it has one digit less.
    obtain ⟨hlow, hne⟩ := not_or.mp hlow
    have hfull : (2 : ℚ) ^ 52 ≤ m := by exact_mod_cast hc.full.resolve_right hne
    have he := hc.lowest
    have hmb : m = impliedBit ∧ -1074 < e := by
      by_contra hmb
      rw [if_neg hmb] at hl
      have : m = impliedBit := by
        have : (m : ℚ) < 2 ^ 52 + 1 := by linarith
        have : m < 2 ^ 52 + 1 := by exact_mod_cast this
        have := hc.full.resolve_right hne
        simp only [impliedBit]
        omega
      exact hmb ⟨this, by omega⟩
    rw [if_pos hmb, hmb.1] at hl
    have hhalf : (n : ℚ) / d / 2 ^ (e - 1) = 2 * ((n : ℚ) / d / 2 ^ e) := by
      rw [zpow_sub_one₀ (by norm_num)]
      field_simp
    have hunit : max (binaryPlace n d - 52) (-1074) = e - 1 := by
      refine unit_eq hn hd (by omega) (.inl ?_) ?_ <;> rw [hhalf] <;> norm_num [impliedBit] at * <;>
        linarith
    have hround : roundDiv (n * (ratio d (e - 1)).2) (ratio d (e - 1)).1 = 2 * impliedBit := by
      refine roundDiv_of_near (ratio_fst_pos hd _) ?_ ?_ (fun h => absurd h (by decide)) <;>
        rw [div_ratio n hd, hhalf] <;> norm_num [impliedBit] at * <;> linarith
    simp only [nearestBits, hunit, hround]
    have hsum : (e - 1 + 1074).toNat <<< 52 + 2 * impliedBit = (e + 1074).toNat <<< 52 + m := by
      rw [hmb.1, Nat.shiftLeft_eq, Nat.shiftLeft_eq]
      simp only [impliedBit]
      omega
    rw [hsum]
    exact Nat.min_eq_left hbits.le

/-! ## Decimals -/

/-- The number of digits tells how large a number is. -/
theorem ten_pow_length {n : Nat} (hn : 0 < n) :
    10 ^ ((toString n).length - 1) ≤ n ∧ n < 10 ^ (toString n).length := by
  have hlen : (toString n).length = (Nat.toDigits 10 n).length := by
    rw [← String.length_toList]
    exact congrArg List.length Nat.toList_repr
  have hpos : 0 < (Nat.toDigits 10 n).length := Nat.length_toDigits_pos
  rw [hlen]
  constructor
  · by_cases h1 : (Nat.toDigits 10 n).length = 1
    · rw [h1]
      exact hn
    · refine Nat.le_of_not_lt fun h => ?_
      have := (Nat.length_toDigits_le_iff (by decide) (by omega)).mpr h
      omega
  · exact (Nat.length_toDigits_le_iff (by decide) hpos).mp (Nat.le_refl _)

theorem RoundsTo.bounds (h : RoundsTo m e x) (hc : Canonical m e) (hm : 0 < m) :
    (10 : ℚ) ^ (-400 : Int) < x ∧ x < 10 ^ (400 : Int) := by
  have hpos : (0 : ℚ) < 2 ^ e := by positivity
  have hm' : (1 : ℚ) ≤ m := by exact_mod_cast hm
  have hsmall : (m : ℚ) + 1 ≤ 2 ^ 53 := by exact_mod_cast hc.small
  obtain ⟨hl, hu, -⟩ := h.units hm
  have two : (1 : ℚ) ≤ 2 := by norm_num
  constructor
  · calc (10 : ℚ) ^ (-400 : Int) ≤ (2 ^ (-3 : Int)) ^ (400 : Int) := by
          rw [zpow_neg, ← inv_zpow]
          exact zpow_le_zpow_left₀ (by norm_num) (by norm_num) (by norm_num)
      _ = 2 ^ (-1200 : Int) := by rw [← zpow_mul]; rfl
      _ < 2 ^ (-1 + e) := zpow_lt_zpow_right₀ (by norm_num) (by have := hc.lowest; omega)
      _ = 1 / 2 * 2 ^ e := by rw [zpow_add₀ (by norm_num)]; norm_num
      _ ≤ x := by
          rw [le_div_iff₀ hpos] at hl
          refine le_trans ?_ hl
          refine mul_le_mul_of_nonneg_right ?_ hpos.le
          split <;> linarith
  · calc x ≤ (m + 1 / 2) * 2 ^ e := by rwa [div_le_iff₀ hpos] at hu
      _ ≤ 2 ^ 53 * 2 ^ e := mul_le_mul_of_nonneg_right (by linarith) hpos.le
      _ = 2 ^ (53 + e) := by rw [zpow_add₀ (by norm_num)]; norm_num
      _ < 2 ^ (1200 : Int) := zpow_lt_zpow_right₀ (by norm_num) (by have := hc.highest; omega)
      _ = (2 ^ (3 : Int)) ^ (400 : Int) := by rw [← zpow_mul]; rfl
      _ ≤ 10 ^ (400 : Int) := zpow_le_zpow_left₀ (by norm_num) (by norm_num) (by norm_num)

theorem RoundsTo.pos (h : RoundsTo m e x) (hc : Canonical m e) (hm : 0 < m) : 0 < x :=
  lt_trans (by positivity) (h.bounds hc hm).1

/-- A decimal is rounded to the double whose interval it is in. -/
theorem decimalBits_eq {digits : Nat} {k : Int} (hc : Canonical m e) (hm : 0 < m)
    (hd : 0 < digits) (hr : RoundsTo m e (digits * 10 ^ k)) :
    decimalBits digits k = (e + 1074).toNat <<< 52 + m := by
  obtain ⟨hlow, hhigh⟩ := hr.bounds hc hm
  obtain ⟨h1, h2⟩ := ten_pow_length hd
  have hk : (0 : ℚ) < 10 ^ k := by positivity
  have ten : (1 : ℚ) < 10 := by norm_num
  have hpos : 0 < (toString digits).length := by
    by_contra h
    rw [Nat.eq_zero_of_not_pos h] at h2
    omega
  have hfirst : ¬ (digits = 0 ∨ k + (toString digits).length < -400) := by
    rintro (h | h)
    · omega
    · have h2 : (digits : ℚ) < 10 ^ ((toString digits).length : Int) := by
        rw [zpow_natCast]
        exact_mod_cast h2
      have := hlow.trans (mul_lt_mul_of_pos_right h2 hk)
      rw [← zpow_add₀ (by norm_num), zpow_lt_zpow_iff_right₀ ten] at this
      omega
  have hlast : ¬ 400 < k + (toString digits).length := by
    intro h
    have h1 : (10 : ℚ) ^ ((toString digits).length - 1 : Int) ≤ digits := by
      rw [← Int.natCast_pred_of_pos hpos, zpow_natCast]
      exact_mod_cast h1
    have := (mul_le_mul_of_nonneg_right h1 hk.le).trans_lt hhigh
    rw [← zpow_add₀ (by norm_num), zpow_lt_zpow_iff_right₀ ten] at this
    omega
  unfold decimalBits
  rw [if_neg hfirst, if_neg hlast]
  split
  · rename_i hk0
    have hx : ((digits * 10 ^ k.toNat : Nat) : ℚ) / (1 : Nat) = digits * 10 ^ k := by
      have hz : (10 : ℚ) ^ k = 10 ^ k.toNat := by rw [← zpow_natCast, Int.toNat_of_nonneg hk0]
      rw [hz]
      push_cast
      rw [div_one]
    rw [← hx] at hr
    exact nearestBits_eq hc hm (Nat.mul_pos hd (Nat.pow_pos (by decide))) Nat.one_pos hr
  · rename_i hk0
    have hx : (digits : ℚ) / (10 ^ (-k).toNat : Nat) = digits * 10 ^ k := by
      have hz : (10 : ℚ) ^ k = (10 ^ (-k).toNat)⁻¹ := by
        rw [← zpow_natCast, Int.toNat_of_nonneg (by omega), zpow_neg, inv_inv]
      rw [hz]
      push_cast
      rw [div_eq_mul_inv]
    rw [← hx] at hr
    exact nearestBits_eq hc hm hd (Nat.pow_pos (by decide)) hr

end Workflow.Decimal
