import Workflow.Proofs.Decimal.Bits
import Workflow.Proofs.Decimal.Shortest
import Workflow.Proofs.Json.Number

/-!
# Doubles read back

A finite double is written with the digits of its shortest decimal, in positions or with an
exponent. Whichever way it is, the parts that are read denote the decimal, and the decimal is
rounded to the double.

Results:
* `denotes_point`, `denotes_exponent`: the parts of a number with a point or an exponent.
* `denotes_scaledText`: the text of a decimal denotes it.
* `isNumeral_text`: a finite double is read back.
-/
namespace Workflow.Json

open Decimal Text

variable {ws fs cs rest : List Char}

/-! ## Values of digits -/

theorem digitValues_append (cs ds : List Char) :
    digitValues (cs ++ ds) = digitValues cs ++ digitValues ds := List.filterMap_append

theorem ofDigits_append (as bs : List Nat) :
    ofDigits (as ++ bs) = ofDigits as * 10 ^ bs.length + ofDigits bs := by
  unfold ofDigits
  rw [List.foldl_append]
  generalize as.foldl (fun n d => 10 * n + d) 0 = a
  induction bs generalizing a with
  | nil => simp
  | cons b bs ih =>
    simp only [List.foldl_cons]
    rw [ih, ih (10 * 0 + b), List.length_cons, Nat.pow_succ]
    ring

theorem digitValues_zeros (n : Nat) : digitValues (List.replicate n '0') = List.replicate n 0 := by
  have : digitValue? '0' = some 0 := by decide
  simp [digitValues, this]

theorem ofDigits_zeros (n : Nat) : ofDigits (List.replicate n 0) = 0 := by
  induction n with
  | zero => rfl
  | succ n ih => simpa [ofDigits, List.replicate_succ] using ih

theorem ofDigits_behind (cs : List Char) (n : Nat) :
    ofDigits (digitValues (cs ++ List.replicate n '0')) = ofDigits (digitValues cs) * 10 ^ n := by
  rw [digitValues_append, ofDigits_append, digitValues_zeros, ofDigits_zeros, List.length_replicate,
    Nat.add_zero]

theorem ofDigits_inFront (n : Nat) (cs : List Char) :
    ofDigits (digitValues (List.replicate n '0' ++ cs)) = ofDigits (digitValues cs) := by
  rw [digitValues_append, ofDigits_append, digitValues_zeros, ofDigits_zeros, Nat.zero_mul,
    Nat.zero_add]

theorem Digits.length_digitValues (hf : Digits fs) : (digitValues fs).length = fs.length :=
  digitValues_length fun c hc => by
    have hc : 48 ≤ c.toNat ∧ c.toNat ≤ 57 := Char.isDigit_iff_toNat.mp (hf c hc)
    have hv := digitValue?_ascii ⟨c.toNat - 48, by omega⟩
    simp only [show 48 + (c.toNat - 48) = c.toNat by omega, Char.ofNat_toNat] at hv
    rw [isDecimal, hv]
    rfl

/-! ## Fractions and exponents -/

theorem fraction?_point (hf : Digits fs) (hne : fs ≠ [])
    (hr : ∀ c ∈ rest.head?, c.isDigit = false) :
    fraction? ('.' :: (fs ++ rest)) = some (fs, rest) := by
  obtain ⟨hd, ha⟩ := hf.taken hr
  simp [fraction?, hd, ha, hne]

theorem toList_padded (width n : Nat) : (padded width n).toList =
    List.replicate (width - (Nat.toDigits 10 n).length) '0' ++ Nat.toDigits 10 n := by
  have hs : (toString n).toList = Nat.toDigits 10 n := Nat.toList_repr
  simp only [padded, String.toList_append, String.toList_ofList, ← String.length_toList, hs]

/-- An exponent, as it is read. -/
theorem exponent?_padded (width n : Nat) (c : Char) (h : c = '-' ∨ c = '+') :
    exponent? ('e' :: c :: (padded width n).toList) =
      some (if c = '-' then -(n : Int) else n, []) := by
  have hd : Digits (padded width n).toList := by
    rw [toList_padded]
    exact (digits_zeros _).append (digits_toDigits n)
  have hne : (padded width n).toList ≠ [] := by
    rw [toList_padded]
    simp
  have hval : ofDigits (digitValues (padded width n).toList) = n := by
    rw [toList_padded, ofDigits_inFront, ofDigits_toDigits]
  have ht := hd.taken noDigit_nil
  rw [List.append_nil] at ht
  obtain rfl | rfl := h <;> simp [exponent?, sign, ht.1, ht.2, hne, hval]

/-- The exponent behind a mantissa is read back. -/
theorem exponent?_exponentText (style : Style) (e : Int) :
    (exponentText style e).toList.head? = some 'e' ∧
      exponent? (exponentText style e).toList = some (e, []) := by
  unfold exponentText
  split
  · rw [String.toList_append]
    refine ⟨rfl, (exponent?_padded _ _ '-' (.inl rfl)).trans ?_⟩
    simp only [if_true]
    congr 2
    omega
  · rw [String.toList_append]
    refine ⟨rfl, (exponent?_padded _ _ '+' (.inr rfl)).trans ?_⟩
    simp only [show '+' ≠ '-' by decide, if_false]
    congr 2
    omega

/-! ## Decimals -/

/-- What is read is the double nearest to a decimal. -/
def Denotes (cs : List Char) (value : ℚ) : Prop := ∀ negative, ∃ (d : Nat) (k : Int),
  readUnsigned? negative cs = some (.ok (.float (nearest negative d k), [])) ∧
    (d : ℚ) * 10 ^ k = value

/-- A number with a point: its digits, the point moved behind them. -/
theorem denotes_point (hw : Whole ws) (hf : Digits fs) (hne : fs ≠ []) :
    Denotes (ws ++ '.' :: fs) (ofDigits (digitValues (ws ++ fs)) * 10 ^ (0 - fs.length : Int)) :=
  fun negative => by
  have hfr := fraction?_point hf hne noDigit_nil
  rw [List.append_nil] at hfr
  refine ⟨_, _, ?_, rfl⟩
  unfold readUnsigned?
  rw [hw.wholePart? (by simp)]
  simp [hfr, exponent?, ofParts, digitValues_append, hf.length_digitValues]

/-- A number with an exponent, and with a point if there are digits for it. -/
theorem denotes_exponent (hw : Whole ws) (hf : Digits fs) (style : Style) (e : Int) :
    Denotes (ws ++ ((if fs = [] then [] else '.' :: fs) ++ (exponentText style e).toList))
      (ofDigits (digitValues (ws ++ fs)) * 10 ^ (e - fs.length)) := fun negative => by
  obtain ⟨hh, hx⟩ := exponent?_exponentText style e
  refine ⟨_, _, ?_, rfl⟩
  unfold readUnsigned?
  by_cases hne : fs = []
  · have hfr : fraction? (exponentText style e).toList = none := by
      obtain ⟨cs, hcs⟩ := List.head?_eq_some_iff.mp hh
      rw [hcs]
      rfl
    rw [if_pos hne, List.nil_append, hw.wholePart? (by simp [hh])]
    simp [hne, hfr, hx, ofParts, digitValues]
  · have hr : ∀ c ∈ (exponentText style e).toList.head?, c.isDigit = false := by simp [hh]
    have hfr := fraction?_point hf hne hr
    rw [if_neg hne, hw.wholePart? (by simp), List.cons_append]
    simp [hfr, hx, ofParts, digitValues_append, hf.length_digitValues]

/-! ## Texts of decimals -/

theorem Whole.take (hw : Whole ws) {n : Nat} (hn : 0 < n) : Whole (ws.take n) where
  digits := fun c hc => hw.digits c (List.mem_of_mem_take hc)
  ne_nil := by
    rw [Ne, List.take_eq_nil_iff, not_or]
    exact ⟨hn.ne', hw.ne_nil⟩
  leading := by
    obtain ⟨k, rfl⟩ := Nat.exists_eq_succ_of_ne_zero hn.ne'
    obtain rfl | h := hw.leading
    · exact .inl (by simp)
    · refine .inr ?_
      cases ws with
      | nil => simp
      | cons c cs => simpa using h

theorem Whole.zeros (hw : Whole ws) {n : Nat} (h : ws = ['0'] → n = 0) :
    Whole (ws ++ List.replicate n '0') := by
  refine ⟨hw.digits.append (digits_zeros n), by simp [hw.ne_nil], ?_⟩
  obtain rfl | hne := hw.leading
  · left
    rw [h rfl]
    rfl
  · right
    rwa [List.head?_append_of_ne_nil _ hw.ne_nil]

theorem Digits.drop (hw : Digits ws) (n : Nat) : Digits (ws.drop n) := fun c hc =>
  hw c (List.mem_of_mem_drop hc)

/-- **The text of a decimal denotes it**, in whichever way it is written. -/
theorem denotes_scaledText {s : Scaled} (h0 : s.digits = 0 → s.exponent = 0) :
    Denotes (scaledText json s).toList (s.digits * 10 ^ s.exponent) := by
  have hds : (toString s.digits).toList = Nat.toDigits 10 s.digits := Nat.toList_repr
  have hw := whole_toDigits s.digits
  have hval := ofDigits_toDigits s.digits
  unfold scaledText
  simp only [hds]
  generalize Nat.toDigits 10 s.digits = ds at hw hval
  have hzero : ds = ['0'] → s.exponent = 0 := fun h => h0 (by rw [← hval, h]; rfl)
  have hlen : 0 < ds.length := List.length_pos_iff.mpr hw.ne_nil
  split
  · split
    · -- A whole number: zeros behind its digits, and one behind the point.
      rename_i he
      have h := denotes_point (hw.zeros (n := s.exponent.toNat) fun h => by rw [hzero h]; rfl)
        (digits_zeros 1) (by simp)
      rw [ofDigits_behind, ofDigits_behind, hval] at h
      convert h using 1
      · simp [json, plain]
      · have hp : (10 : ℚ) ^ s.exponent = 10 ^ s.exponent.toNat := by
          rw [← zpow_natCast, Int.toNat_of_nonneg he]
        rw [hp]
        push_cast
        simp
    · split
      · -- A point among the digits.
        rename_i he hfirst
        have h := denotes_point (hw.take (Nat.succ_pos (s.exponent + ds.length - 1).toNat))
          (hw.digits.drop ((s.exponent + ds.length - 1).toNat + 1))
          (by rw [Ne, List.drop_eq_nil_iff]; omega)
        rw [List.take_append_drop, hval] at h
        convert h using 1
        · simp
        · congr 2
          rw [List.length_drop]
          omega
      · -- Zeros between the point and the digits.
        rename_i he hfirst
        have h := denotes_point ⟨digits_zeros 1, by simp, .inl rfl⟩
          ((digits_zeros (-(s.exponent + ds.length - 1) - 1).toNat).append hw.digits)
          (by simp [hw.ne_nil])
        rw [ofDigits_inFront, ofDigits_inFront, hval] at h
        convert h using 1
        · simp
        · congr 2
          rw [List.length_append, List.length_replicate]
          omega
  · have h := denotes_exponent (hw.take Nat.one_pos) (hw.digits.drop 1) json
      (s.exponent + ds.length - 1)
    rw [List.take_append_drop, hval] at h
    convert h using 1
    · by_cases hd : ds.length ≤ 1
      · simp [List.drop_eq_nil_iff, -List.drop_one, hd]
      · simp [List.drop_eq_nil_iff, -List.drop_one, hd]
    · congr 2
      rw [List.length_drop]
      omega

/-! ## Doubles -/

variable {x : Float} {negative : Bool} {m : Nat} {e : Int}

/-- The shortest decimal of a double is read as the double, whatever parts it is read from. -/
theorem nearest_of_shortest (h : Double.ofFloat x = .finite negative m e) {d : Nat} {k : Int}
    (hv : (d : ℚ) * 10 ^ k = (shortest m e).digits * 10 ^ (shortest m e).exponent) :
    nearest negative d k = x := by
  have hk : (0 : ℚ) < 10 ^ k := by positivity
  obtain rfl | hm := Nat.eq_zero_or_pos m
  · have hd : (d : ℚ) = 0 := by simpa [shortest, hk.ne'] using hv
    rw [Nat.cast_eq_zero.mp hd]
    exact nearest_zero h k
  · have hc := canonical_of_ofFloat h
    have hr := shortest_roundsTo hc hm
    rw [← hv] at hr
    have hd : 0 < d := by exact_mod_cast pos_of_mul_pos_left (hr.pos hc hm) hk.le
    exact nearest_of_roundsTo h hm hd hr

/-- A shortest decimal without digits is the one of zero. -/
theorem shortest_exponent (hc : Canonical m e) (h0 : (shortest m e).digits = 0) :
    (shortest m e).exponent = 0 := by
  obtain rfl | hm := Nat.eq_zero_or_pos m
  · rfl
  · have hpos := (shortest_roundsTo hc hm).pos hc hm
    simp [h0] at hpos

/-- **A finite double is read back.** -/
theorem isNumeral_text (hx : (Double.ofFloat x).IsFinite) :
    IsNumeral (text json x).toList (.float x) := by
  obtain ⟨negative, m, e, h⟩ := hx
  have hz := shortest_exponent (canonical_of_ofFloat h)
  obtain ⟨d, k, hread, hv⟩ := denotes_scaledText hz negative
  rw [nearest_of_shortest h hv] at hread
  have htext : (text json x).toList =
      (if negative then ['-'] else []) ++ (scaledText json (shortest m e)).toList := by
    rw [text, h, doubleText, String.toList_append]
    cases negative <;> rfl
  rw [htext]
  exact isNumeral_signed hread

/-- The least double above zero. -/
example : text json (.ofBits 1) = "5e-324" := by decide +kernel

end Workflow.Json
