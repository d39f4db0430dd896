import Workflow.Proofs.Decimal.Nearest

/-!
# The shortest decimal reads back

Seventeen digits are enough to tell a double from its neighbours: decimals of seventeen digits lie
closer together than the doubles do, so that one of the two next to a double is in its interval. The
search for a shorter one ends with a decimal of the interval for this reason.

Results:
* `readsBack_iff`: the test of the search is the interval.
* `ten_zpow_leadingPlace_le`: the first digit is found at its place or one in front of it.
* `withDigits?_seventeen`: seventeen digits are enough.
* `shortest_roundsTo`: the shortest decimal of a double is rounded to it.
-/
namespace Workflow.Decimal

variable {m a n d : Nat} {e k : Int}

/-! ## Comparisons with decimals -/

/-- A power of ten as a fraction of whole numbers. -/
theorem ten_zpow (k : Int) :
    (0 ≤ k → (10 : ℚ) ^ k = 10 ^ k.toNat) ∧ (¬ 0 ≤ k → (10 : ℚ) ^ k = (10 ^ (-k).toNat)⁻¹) := by
  constructor
  · intro h
    rw [← zpow_natCast, Int.toNat_of_nonneg h]
  · intro h
    rw [← zpow_natCast, Int.toNat_of_nonneg (by omega), zpow_neg, inv_inv]

theorem tenLe_iff (hd : 0 < d) : tenLe a k n d = true ↔ (a : ℚ) * 10 ^ k ≤ n / d := by
  have hd : (0 : ℚ) < d := by exact_mod_cast hd
  unfold tenLe
  split
  · rename_i h
    rw [decide_eq_true_iff, (ten_zpow k).1 h, le_div_iff₀ hd, ← Nat.cast_le (α := ℚ)]
    simp
  · rename_i h
    rw [decide_eq_true_iff, (ten_zpow k).2 h, ← div_eq_mul_inv, div_le_div_iff₀ (by positivity) hd,
      ← Nat.cast_le (α := ℚ)]
    simp

theorem tenGe_iff (hd : 0 < d) : tenGe a k n d = true ↔ (n : ℚ) / d ≤ a * 10 ^ k := by
  have hd : (0 : ℚ) < d := by exact_mod_cast hd
  unfold tenGe
  split
  · rename_i h
    rw [decide_eq_true_iff, (ten_zpow k).1 h, div_le_iff₀ hd, ← Nat.cast_le (α := ℚ)]
    simp
  · rename_i h
    rw [decide_eq_true_iff, (ten_zpow k).2 h, ← div_eq_mul_inv, div_le_div_iff₀ hd (by positivity),
      ← Nat.cast_le (α := ℚ)]
    simp

theorem ratio_div (m : Nat) (e : Int) : ((ratio m e).1 : ℚ) / (ratio m e).2 = m * 2 ^ e := by
  have hd : ((ratio m e).2 : ℚ) ≠ 0 := by exact_mod_cast (ratio_pos m e).ne'
  rw [ratio_eq, mul_div_assoc, div_self hd, mul_one]

/-- What the search tests is whether a decimal is in the interval. -/
theorem readsBack_iff : readsBack m e a k = true ↔ RoundsTo m e (a * 10 ^ k) := by
  have hle (m' : Nat) : tenLe a k (ratio m' (e - 2)).1 (ratio m' (e - 2)).2 = true ↔
      (a : ℚ) * 10 ^ k ≤ m' * 2 ^ (e - 2) := by rw [tenLe_iff (ratio_pos ..), ratio_div]
  have hge (m' : Nat) : tenGe a k (ratio m' (e - 2)).1 (ratio m' (e - 2)).2 = true ↔
      m' * 2 ^ (e - 2) ≤ (a : ℚ) * 10 ^ k := by rw [tenGe_iff (ratio_pos ..), ratio_div]
  unfold readsBack
  simp only
  split
  · rename_i heven
    rw [Bool.and_eq_true, hle, hge]
    constructor
    · rintro ⟨hl, hu⟩
      exact ⟨hl, hu, by omega⟩
    · rintro ⟨hl, hu, -⟩
      exact ⟨hl, hu⟩
  · rename_i hodd
    rw [Bool.and_eq_true, Bool.not_eq_true', Bool.not_eq_true', ← Bool.not_eq_true,
      ← Bool.not_eq_true, hle, hge, not_le, not_le]
    constructor
    · rintro ⟨hl, hu⟩
      exact ⟨hl.le, hu.le, fun _ => ⟨hl, hu⟩⟩
    · rintro ⟨-, -, hi⟩
      exact hi (by omega)

/-! ## The place of the first digit -/

/-- A power of ten is below a power of two if it is by the fractions 196/59 and 93/28, which stand
for the number of binary digits of a ten. -/
theorem ten_zpow_le_two_zpow {j l : Int} (h1 : 196 * j ≤ 59 * l) (h2 : 93 * j ≤ 28 * l) :
    (10 : ℚ) ^ j ≤ 2 ^ l := by
  have two : (1 : ℚ) ≤ 2 := by norm_num
  by_cases hj : 0 ≤ j
  · refine le_of_pow_le_pow_left₀ (n := 59) (by decide) (by positivity) ?_
    calc ((10 : ℚ) ^ j) ^ 59 = (10 ^ 59) ^ j := by rw [← zpow_natCast, zpow_comm, ← zpow_natCast]
      _ ≤ (2 ^ 196) ^ j := zpow_le_zpow_left₀ hj (by norm_num) (by norm_num)
      _ = 2 ^ (196 * j) := by rw [zpow_mul]; norm_cast
      _ ≤ 2 ^ (59 * l) := zpow_le_zpow_right₀ two h1
      _ = (2 ^ l) ^ 59 := by rw [mul_comm, zpow_mul]; norm_cast
  · refine le_of_pow_le_pow_left₀ (n := 28) (by decide) (by positivity) ?_
    calc ((10 : ℚ) ^ j) ^ 28 = (10 ^ 28) ^ j := by rw [← zpow_natCast, zpow_comm, ← zpow_natCast]
      _ ≤ (2 ^ 93) ^ j := by
        have h : ((2 : ℚ) ^ 93) ^ (-j) ≤ (10 ^ 28) ^ (-j) :=
          zpow_le_zpow_left₀ (by omega) (by norm_num) (by norm_num)
        simpa [zpow_neg] using inv_anti₀ (by positivity) h
      _ = 2 ^ (93 * j) := by rw [zpow_mul]; norm_cast
      _ ≤ 2 ^ (28 * l) := zpow_le_zpow_right₀ two h2
      _ = (2 ^ l) ^ 28 := by rw [mul_comm, zpow_mul]; norm_cast

/-- The first digit does not stand in front of the place that is found for it. -/
theorem ten_zpow_leadingPlace_le (hc : Canonical m e) (hm : 0 < m) :
    (10 : ℚ) ^ leadingPlace m e ≤ m * 2 ^ e := by
  have test (k : Int) :
      tenLe 1 k (ratio m e).1 (ratio m e).2 = true ↔ (10 : ℚ) ^ k ≤ m * 2 ^ e := by
    rw [tenLe_iff (ratio_pos ..), ratio_div, Nat.cast_one, one_mul]
  unfold leadingPlace
  simp only [Bool.not_eq_true']
  split
  · -- The estimate is too high, by one at most.
    have hlog : m.log2 ≤ 52 := Nat.le_of_lt_succ ((Nat.log2_lt hm.ne').mpr hc.small)
    have hlow := hc.lowest
    have hhigh := hc.highest
    have := Int.mul_fdiv_add_fmod ((m.log2 + e) * 30103) 100000
    have := Int.fmod_nonneg_of_pos ((m.log2 + e) * 30103) (by decide : (0 : Int) < 100000)
    have := Int.fmod_lt_of_pos ((m.log2 + e) * 30103) (by decide : (0 : Int) < 100000)
    calc (10 : ℚ) ^ (((m.log2 + e) * 30103).fdiv 100000 - 1)
        ≤ 2 ^ (m.log2 + e) := ten_zpow_le_two_zpow (by omega) (by omega)
      _ = 2 ^ (m.log2 : Int) * 2 ^ e := zpow_add₀ (by norm_num) _ _
      _ ≤ m * 2 ^ e := mul_le_mul_of_nonneg_right (two_zpow_log2_le hm) (by positivity)
  · rename_i h
    split
    · rename_i h'
      exact (test _).mp h'
    · exact (test _).mp (by simpa using h)

/-! ## Seventeen digits -/

/-- The decimals next to a double. -/
theorem unitsBelow_spec (m : Nat) (e k : Int) : (unitsBelow m e k : ℚ) * 10 ^ k ≤ m * 2 ^ e ∧
    m * 2 ^ e < ((unitsBelow m e k + 1 : Nat) : ℚ) * 10 ^ k := by
  have floor {n d : Nat} (hd : 0 < d) : ((n / d : Nat) : ℚ) ≤ n / d ∧
      (n : ℚ) / d < (n / d + 1 : Nat) := by
    refine ⟨Nat.cast_div_le, ?_⟩
    rw [div_lt_iff₀ (by exact_mod_cast hd), mul_comm]
    exact_mod_cast Nat.lt_mul_div_succ n hd
  have hk : (0 : ℚ) < 10 ^ k := by positivity
  have hpos := ratio_pos m e
  rw [← le_div_iff₀ hk, ← div_lt_iff₀ hk, ← ratio_div m e]
  simp only [unitsBelow]
  split
  · rename_i h
    have hx : ((ratio m e).1 : ℚ) / (ratio m e).2 / 10 ^ k =
        (ratio m e).1 / ((ratio m e).2 * 10 ^ k.toNat : Nat) := by
      rw [(ten_zpow k).1 h, div_div]
      push_cast
      rfl
    rw [hx]
    exact floor (Nat.mul_pos hpos (Nat.pow_pos (by decide)))
  · rename_i h
    have hx : ((ratio m e).1 : ℚ) / (ratio m e).2 / 10 ^ k =
        ((ratio m e).1 * 10 ^ (-k).toNat : Nat) / (ratio m e).2 := by
      rw [(ten_zpow k).2 h]
      push_cast
      field_simp
    rw [hx]
    exact floor hpos

/-- Strictly between the half-way points, everything is rounded to the double. -/
theorem RoundsTo.of_units {x : ℚ} (hm : 0 < m)
    (hl : m - (if m = impliedBit ∧ -1074 < e then 1 / 4 else 1 / 2) < x / 2 ^ e)
    (hu : x / 2 ^ e < m + 1 / 2) : RoundsTo m e x := by
  have he : (0 : ℚ) < 2 ^ e := by positivity
  have hl : ((halfway m e).1 : ℚ) * 2 ^ (e - 2) < x := by
    rw [halfway_fst hm, two_zpow_sub_two]
    rw [lt_div_iff₀ he] at hl
    split at hl <;> split <;> first | linarith | contradiction
  have hu : x < ((halfway m e).2 : ℚ) * 2 ^ (e - 2) := by
    rw [two_zpow_sub_two]
    rw [div_lt_iff₀ he] at hu
    simp only [halfway]
    push_cast
    linarith
  exact ⟨hl.le, hu.le, fun _ => ⟨hl, hu⟩⟩

theorem roundsTo_of_withDigits? {count : Nat} {s : Scaled} (h : withDigits? m e count = some s) :
    RoundsTo m e (s.digits * 10 ^ s.exponent) := by
  unfold withDigits? at h
  simp only at h
  rw [← readsBack_iff]
  split at h
  case h_1 hl hu =>
    cases h
    split
    · exact hl
    · exact hu
  case h_2 hl _ =>
    cases h
    exact hl
  case h_3 _ hu =>
    cases h
    exact hu
  case h_4 => cases h

/-- The decimals next to a double with so many digits, if none of them reads back. -/
theorem not_roundsTo_of_withDigits? {count : Nat} (h : withDigits? m e count = none) :
    ¬ RoundsTo m e (unitsBelow m e (leadingPlace m e - count + 1) *
        10 ^ (leadingPlace m e - count + 1)) ∧
      ¬ RoundsTo m e ((unitsBelow m e (leadingPlace m e - count + 1) + 1 : Nat) *
        10 ^ (leadingPlace m e - count + 1)) := by
  unfold withDigits? at h
  simp only at h
  rw [← readsBack_iff, ← readsBack_iff]
  split at h
  case h_4 hl hu => exact ⟨by rw [hl]; decide, by rw [hu]; decide⟩
  all_goals cases h

/-- **Seventeen digits are enough.** Decimals of so many digits are closer together than the ends of
an interval. -/
theorem withDigits?_seventeen (hc : Canonical m e) (hm : 0 < m) : withDigits? m e 17 ≠ none := by
  intro hnone
  obtain ⟨hbelow, habove⟩ := not_roundsTo_of_withDigits? hnone
  generalize hk : leadingPlace m e - (17 : Nat) + 1 = k at hbelow habove
  have hgap : (10 : ℚ) ^ k / 2 ^ e ≤ m / 10 ^ 16 := by
    have hfirst := ten_zpow_leadingPlace_le hc hm
    rw [show leadingPlace m e = k + (16 : Nat) by omega, zpow_add₀ (by norm_num),
      zpow_natCast] at hfirst
    rw [div_le_div_iff₀ (by positivity) (by positivity)]
    exact hfirst
  obtain ⟨hle, hlt⟩ := unitsBelow_spec m e k
  have hunit : (0 : ℚ) < 2 ^ e := by positivity
  rw [← div_le_iff₀ hunit] at hle
  rw [← lt_div_iff₀ hunit] at hlt
  have hwidth : ((unitsBelow m e k + 1 : Nat) : ℚ) * 10 ^ k / 2 ^ e =
      unitsBelow m e k * 10 ^ k / 2 ^ e + 10 ^ k / 2 ^ e := by
    push_cast
    ring
  have hlow : (unitsBelow m e k : ℚ) * 10 ^ k / 2 ^ e ≤
      m - if m = impliedBit ∧ -1074 < e then 1 / 4 else 1 / 2 :=
    not_lt.mp fun h => hbelow (.of_units hm h (by linarith))
  have hhigh : (m : ℚ) + 1 / 2 ≤ ((unitsBelow m e k + 1 : Nat) : ℚ) * 10 ^ k / 2 ^ e := by
    refine not_lt.mp fun h => habove (.of_units hm ?_ h)
    split <;> linarith
  have hsmall : (m : ℚ) + 1 ≤ 2 ^ 53 := by exact_mod_cast hc.small
  rw [hwidth] at hhigh
  generalize (unitsBelow m e k : ℚ) * 10 ^ k / 2 ^ e = below at hlow hhigh
  split at hlow
  · rename_i hb
    have hm : (m : ℚ) = 2 ^ 52 := by exact_mod_cast hb.1
    linarith
  · linarith

/-! ## The search -/

/-- Zeros at the end go into the exponent. -/
theorem dropZeros_value (n : Nat) (k : Int) :
    ((dropZeros n k).digits : ℚ) * 10 ^ (dropZeros n k).exponent = n * 10 ^ k := by
  obtain ⟨t, hk, hn⟩ := dropZeros_shift n k
  rw [Nat.pow_eq] at hn
  have hn : (n : ℚ) = (dropZeros n k).digits * 10 ^ t := by exact_mod_cast hn
  rw [hk, zpow_add₀ (by norm_num), zpow_natCast, hn]
  ring

/-- **The shortest decimal of a double is rounded to it.** -/
theorem shortest_roundsTo (hc : Canonical m e) (hm : 0 < m) :
    RoundsTo m e ((shortest m e).digits * 10 ^ (shortest m e).exponent) := by
  unfold shortest
  rw [if_neg hm.ne']
  split
  · rename_i s hs
    obtain ⟨i, -, hi⟩ := List.exists_of_findSome?_eq_some hs
    rw [dropZeros_value]
    exact roundsTo_of_withDigits? hi
  · rename_i hs
    exact absurd (List.findSome?_eq_none_iff.mp hs 16 (by decide)) (withDigits?_seventeen hc hm)

end Workflow.Decimal
