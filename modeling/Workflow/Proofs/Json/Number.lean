import Mathlib.Data.List.TakeWhile
import Workflow.Json.Printer
import Workflow.Json.Reader

/-!
# Numbers in front of a text

A number ends where it ends alone, unless what stands behind it could belong to it. A whole number
is read back from the text that it is written as, if that is short enough.

Results:
* `readNumber?_append`: what stands behind a number is left over.
* `readNumber?_whole`: a whole number is read back.
* `readValue_number`: a number is read back as a value, in front of what may stand behind one.
-/
namespace Workflow.Json

open Decimal Text

/-- The characters that may stand behind a value. -/
def enders : List Char := [' ', '\t', '\n', '\r', ',', ']', '\x7d']

/-- What may stand behind a value. -/
def Ends (cs : List Char) : Prop := ∀ c ∈ cs.head?, c ∈ enders

/-- A number that is read whole, nothing left over. -/
def IsNumeral (cs : List Char) (v : Value) : Prop := readNumber? cs = some (.ok (v, []))

variable {cs rest : List Char} {v : Value}

theorem ends_nil : Ends [] := fun _ h => by cases h

theorem ends_cons {c : Char} (h : c ∈ enders) (cs : List Char) : Ends (c :: cs) := fun d hd => by
  cases hd
  exact h

/-- What holds of all that may stand behind a number holds of what does. -/
theorem Ends.next {c : Char} (h : Ends (c :: cs)) (p : Char → Prop) [DecidablePred p]
    (hp : enders.all (fun d => decide (p d)) = true) : p c :=
  of_decide_eq_true (List.all_eq_true.mp hp c (h c rfl))

theorem Ends.isDigit {c : Char} (h : Ends (c :: cs)) : c.isDigit = false :=
  h.next (·.isDigit = false) (by decide)

/-! ## Parts of numbers -/

theorem digits_append (h : Ends rest) : digits (cs ++ rest) = digits cs := by
  induction cs with
  | nil =>
    cases rest with
    | nil => rfl
    | cons c cs => simp [digits, h.isDigit]
  | cons c cs ih =>
    simp only [digits, List.cons_append, List.takeWhile_cons] at ih ⊢
    rw [ih]

theorem afterDigits_append (h : Ends rest) : afterDigits (cs ++ rest) = afterDigits cs ++ rest := by
  induction cs with
  | nil =>
    cases rest with
    | nil => rfl
    | cons c cs => simp [afterDigits, h.isDigit]
  | cons c cs ih =>
    simp only [afterDigits, List.cons_append, List.dropWhile_cons] at ih ⊢
    split
    · exact ih
    · rfl

theorem wholePart?_append (h : Ends rest) :
    wholePart? (cs ++ rest) = (wholePart? cs).map fun r => (r.1, r.2 ++ rest) := by
  have other (ds : List Char) : (if (digits (ds ++ rest)).isEmpty then none else
      some (digits (ds ++ rest), afterDigits (ds ++ rest))) =
      (if (digits ds).isEmpty then none else some (digits ds, afterDigits ds)).map
        fun r => (r.1, r.2 ++ rest) := by
    rw [digits_append h, afterDigits_append h]
    split <;> rfl
  have hz {c : Char} {ds : List Char} (hc : c ≠ '0') : wholePart? (c :: ds) =
      if (digits (c :: ds)).isEmpty then none
      else some (digits (c :: ds), afterDigits (c :: ds)) := by
    simp [wholePart?, hc]
  cases cs with
  | nil =>
    cases rest with
    | nil => rfl
    | cons c rest =>
      have hc : c ≠ '0' := fun e => by simpa [e] using h.isDigit
      exact (hz hc).trans (other [])
  | cons c cs =>
    by_cases hc : c = '0'
    · subst hc; rfl
    · exact (hz hc).trans ((other (c :: cs)).trans (congrArg _ (hz hc).symm))

theorem fraction?_append (h : Ends rest) :
    fraction? (cs ++ rest) = (fraction? cs).map fun r => (r.1, r.2 ++ rest) := by
  have none_of {c : Char} {ds : List Char} (hc : c ≠ '.') : fraction? (c :: ds) = none := by
    simp [fraction?, hc]
  cases cs with
  | nil =>
    cases rest with
    | nil => rfl
    | cons c rest =>
      exact none_of (h.next (· ≠ '.') (by decide))
  | cons c cs =>
    by_cases hc : c = '.'
    · subst hc
      simp only [fraction?, List.cons_append, digits_append h, afterDigits_append h]
      split <;> rfl
    · rw [none_of hc]
      exact none_of hc

/-- A sign is no digit, so that it makes no difference whether it is what stands behind. -/
theorem sign_append (h : Ends rest) : sign (cs ++ rest) = ((sign cs).1, (sign cs).2 ++ rest) := by
  cases cs with
  | nil =>
    cases rest with
    | nil => rfl
    | cons c rest =>
      have hc := h.next (fun d => d ≠ '-' ∧ d ≠ '+') (by decide)
      simp [sign, hc]
  | cons c cs =>
    by_cases hm : c = '-'
    · subst hm; rfl
    · by_cases hp : c = '+'
      · subst hp; rfl
      · simp [sign, hm, hp]

theorem exponent?_append (h : Ends rest) :
    exponent? (cs ++ rest) = (exponent? cs).map fun r => (r.1, r.2 ++ rest) := by
  cases cs with
  | nil =>
    cases rest with
    | nil => rfl
    | cons c rest =>
      have hc := h.next (fun d => ¬(d = 'e' ∨ d = 'E')) (by decide)
      simp [exponent?, hc]
  | cons c cs =>
    simp only [exponent?, List.cons_append, sign_append h, digits_append h, afterDigits_append h]
    split
    · split <;> rfl
    · rfl

/-! ## Numbers -/

theorem readUnsigned?_append (h : Ends rest) (negative : Bool) :
    readUnsigned? negative (cs ++ rest) =
      (readUnsigned? negative cs).map fun r => r.map fun r => (r.1, r.2 ++ rest) := by
  unfold readUnsigned?
  rw [wholePart?_append h]
  cases wholePart? cs with
  | none => rfl
  | some whole =>
    obtain ⟨w, r⟩ := whole
    simp only [Option.map_some, fraction?_append h]
    cases fraction? r with
    | some f =>
      simp only [Option.map_some, Option.getD_some, exponent?_append h, Option.isSome_some,
        Bool.true_or, if_true]
      cases exponent? f.2 <;> rfl
    | none =>
      simp only [Option.map_none, Option.getD_none, exponent?_append h, Option.isSome_none,
        Bool.false_or]
      cases exponent? r with
      | some e => rfl
      | none =>
        simp only [Option.map_none, Option.isSome_none, Bool.false_eq_true, if_false,
          Option.getD_none]
        cases wholeOf (digitValues w) <;> rfl

/-- A number ends where it ends alone. -/
theorem readNumber?_append (h : Ends rest) :
    readNumber? (cs ++ rest) = (readNumber? cs).map fun r => r.map fun r => (r.1, r.2 ++ rest) := by
  have plain {c : Char} {ds : List Char} (hc : c ≠ '-') :
      readNumber? (c :: ds) = readUnsigned? false (c :: ds) := by simp [readNumber?, hc]
  cases cs with
  | nil =>
    cases rest with
    | nil => rfl
    | cons c rest =>
      rw [List.nil_append, plain (h.next (· ≠ '-') (by decide))]
      exact @readUnsigned?_append [] _ h false
  | cons c cs =>
    by_cases hc : c = '-'
    · subst hc
      exact readUnsigned?_append h true
    · rw [plain hc, List.cons_append, plain hc]
      exact @readUnsigned?_append (c :: cs) _ h false

theorem IsNumeral.append (hv : IsNumeral cs v) (h : Ends rest) :
    readNumber? (cs ++ rest) = some (.ok (v, rest)) := by
  rw [readNumber?_append h, hv]
  rfl

/-- Behind its sign a number starts with a digit. -/
theorem opens_of_readUnsigned? {negative : Bool} {r : Read Value}
    (h : readUnsigned? negative cs = some r) : ∃ d ds, cs = d :: ds ∧ d.isDigit = true := by
  obtain ⟨w, hw, -⟩ := Option.map_eq_some_iff.mp h
  unfold wholePart? at hw
  split at hw
  · exact ⟨_, _, rfl, by decide⟩
  · split at hw
    · cases hw
    · rename_i hd
      cases cs with
      | nil => exact absurd rfl hd
      | cons d ds =>
        refine ⟨d, ds, rfl, ?_⟩
        cases hc : d.isDigit with
        | true => rfl
        | false => exact absurd (by simp [digits, hc]) hd

/-- A number starts with a digit, or with a dash and a digit. -/
theorem IsNumeral.head (hv : IsNumeral cs v) : ∃ c ds, cs = c :: ds ∧
    (c.isDigit = true ∨ c = '-' ∧ ∃ d es, ds = d :: es ∧ d.isDigit = true) := by
  unfold IsNumeral readNumber? at hv
  split at hv
  · exact ⟨_, _, rfl, .inr ⟨rfl, opens_of_readUnsigned? hv⟩⟩
  · obtain ⟨d, ds, rfl, hd⟩ := opens_of_readUnsigned? hv
    exact ⟨d, ds, rfl, .inl hd⟩

/-- A sign in front of a number. -/
theorem isNumeral_signed {negative : Bool}
    (h : readUnsigned? negative cs = some (.ok (v, []))) :
    IsNumeral ((if negative then ['-'] else []) ++ cs) v := by
  cases negative with
  | true => exact h
  | false =>
    obtain ⟨d, ds, rfl, hd⟩ := opens_of_readUnsigned? h
    have hne : d ≠ '-' := by
      rintro rfl
      exact absurd hd (by decide)
    simpa [IsNumeral, readNumber?, hne] using h

/-- No word of the format starts like a number. -/
theorem IsNumeral.readScalar (hv : IsNumeral cs v) (h : Ends rest) :
    readScalar (cs ++ rest) = .ok (v, rest) := by
  have hw : (words.findSome? fun w => (afterWord? w.1 (cs ++ rest)).map fun rest => (w.2, rest)) =
      none := by
    obtain ⟨c, ds, rfl, hc | ⟨rfl, d, es, rfl, hd⟩⟩ := hv.head
    · have ne {w : Char} (hw : w.isDigit = false) : w ≠ c := fun e => by
        rw [e, hc] at hw
        cases hw
      simp [words, afterWord?, ne]
    · have hne : 'I' ≠ d := fun e => by
        rw [← e] at hd
        exact absurd hd (by decide)
      simp [words, afterWord?, hne]
  unfold Json.readScalar
  rw [hw, hv.append h]
  rfl

/-- A number is read back as a value. -/
theorem readValue_number (hv : IsNumeral cs v) (h : Ends rest) (n : Nat) :
    readValue (n + 1) (cs ++ rest) = .ok (v, rest) := by
  rw [← hv.readScalar h]
  obtain ⟨c, ds, rfl, hc⟩ := hv.head
  have ne {w : Char} (hw : w.isDigit = false) (hw' : w ≠ '-') : c ≠ w := by
    rintro rfl
    obtain hc | ⟨hc, -⟩ := hc
    · rw [hw] at hc
      cases hc
    · exact hw' hc
  rw [List.cons_append, readValue]
  · exact fun _ e => ne (by decide) (by decide) (List.cons.inj e).1
  · exact fun _ e => ne (by decide) (by decide) (List.cons.inj e).1
  · exact fun _ e => ne (by decide) (by decide) (List.cons.inj e).1

/-! ## Runs of digits -/

/-- Digits only. -/
def Digits (cs : List Char) : Prop := ∀ c ∈ cs, c.isDigit = true

variable {ws fs : List Char}

theorem Digits.append (hw : Digits ws) (hf : Digits fs) : Digits (ws ++ fs) :=
  List.forall_mem_append.mpr ⟨hw, hf⟩

theorem digits_toDigits (n : Nat) : Digits (Nat.toDigits 10 n) := fun _ h =>
  Nat.isDigit_of_mem_toDigits (by decide) (by decide) h

theorem digits_zeros (n : Nat) : Digits (List.replicate n '0') := fun c h => by
  rw [List.eq_of_mem_replicate h]
  decide

theorem noDigit_nil : ∀ c ∈ ([] : List Char).head?, c.isDigit = false := fun _ h => nomatch h

/-- Digits are all that is taken if no digit stands behind them. -/
theorem Digits.taken (hw : Digits ws) (hr : ∀ c ∈ rest.head?, c.isDigit = false) :
    digits (ws ++ rest) = ws ∧ afterDigits (ws ++ rest) = rest := by
  have none_of : digits rest = [] ∧ afterDigits rest = rest := by
    cases rest with
    | nil => exact ⟨rfl, rfl⟩
    | cons c cs => simp [digits, afterDigits, hr c rfl]
  constructor
  · exact (List.takeWhile_append_of_pos hw).trans (by rw [← digits, none_of.1, List.append_nil])
  · exact (List.dropWhile_append_of_pos hw).trans none_of.2

/-- Digits that stand in front of a number: a zero alone, or digits that do not start with one. -/
structure Whole (ws : List Char) : Prop where
  digits : Digits ws
  ne_nil : ws ≠ []
  leading : ws = ['0'] ∨ ws.head? ≠ some '0'

theorem Whole.wholePart? (hw : Whole ws) (hr : ∀ c ∈ rest.head?, c.isDigit = false) :
    wholePart? (ws ++ rest) = some (ws, rest) := by
  obtain ⟨hd, ha⟩ := hw.digits.taken hr
  obtain rfl | hne := hw.leading
  · rfl
  · cases ws with
    | nil => exact absurd rfl hw.ne_nil
    | cons c cs =>
      have hc : c ≠ '0' := fun h => hne (by rw [h]; rfl)
      rw [List.cons_append] at hd ha ⊢
      rw [Json.wholePart?, hd, ha]
      · simp
      · exact fun _ h => hc (List.cons.inj h).1

/-! ## Whole numbers -/

theorem digitValue?_digitChar {d : Nat} (h : d < 10) : digitValue? (Nat.digitChar d) = some d :=
  (by decide : ∀ d : Fin 10, digitValue? (Nat.digitChar d) = some d.val) ⟨d, h⟩

/-- The digits of a number denote it. -/
theorem ofDigits_toDigits (n : Nat) : ofDigits (digitValues (Nat.toDigits 10 n)) = n := by
  induction n using Nat.strongRecOn with
  | ind n ih =>
    by_cases hn : n < 10
    · rw [Nat.toDigits_of_lt_base hn]
      simp [digitValues, digitValue?_digitChar hn, ofDigits]
    · rw [Nat.toDigits_of_base_le (by decide) (by omega)]
      have hd := digitValue?_digitChar (Nat.mod_lt n (by decide : 0 < 10))
      have ih := ih (n / 10) (by omega)
      unfold digitValues ofDigits at ih ⊢
      rw [List.filterMap_append, List.foldl_append, ih]
      simp only [List.filterMap_cons, hd, List.filterMap_nil, List.foldl_cons, List.foldl_nil]
      omega

/-- A number does not start with a zero, unless it is zero. -/
theorem head?_toDigits {n : Nat} (hn : n ≠ 0) : (Nat.toDigits 10 n).head? ≠ some '0' := by
  induction n using Nat.strongRecOn with
  | ind n ih =>
    by_cases hlt : n < 10
    · rw [Nat.toDigits_of_lt_base hlt]
      have := (by decide : ∀ d : Fin 10, d.val ≠ 0 → Nat.digitChar d ≠ '0') ⟨n, hlt⟩ hn
      simpa using this
    · have ih := ih (n / 10) (by omega) (by omega)
      rw [Nat.toDigits_of_base_le (by decide) (by omega)]
      have hne : Nat.toDigits 10 (n / 10) ≠ [] := Nat.toDigits_ne_nil
      cases hd : Nat.toDigits 10 (n / 10) with
      | nil => exact absurd hd hne
      | cons c cs =>
        rw [hd] at ih
        exact ih

theorem whole_toDigits (n : Nat) : Whole (Nat.toDigits 10 n) where
  digits := digits_toDigits n
  ne_nil := Nat.toDigits_ne_nil
  leading := by
    by_cases hn : n = 0
    · exact .inl (by rw [hn]; rfl)
    · exact .inr (head?_toDigits hn)

theorem readUnsigned?_toDigits {n : Nat} (hn : (Nat.toDigits 10 n).length ≤ digitLimit)
    (negative : Bool) : readUnsigned? negative (Nat.toDigits 10 n) =
      some (.ok (.int (if negative then -n else n), [])) := by
  have hl : (digitValues (Nat.toDigits 10 n)).length ≤ 4300 :=
    Nat.le_trans (List.length_filterMap_le ..) hn
  have hw : wholeOf (digitValues (Nat.toDigits 10 n)) = .ok n :=
    (wholeOf_ok_iff _ _).mpr ⟨hl, (ofDigits_toDigits n).symm⟩
  have hp := (whole_toDigits n).wholePart? noDigit_nil
  rw [List.append_nil] at hp
  unfold readUnsigned?
  simp [hp, fraction?, exponent?, hw]

/-- A whole number is read back. -/
theorem readNumber?_whole {n : Int} (hn : (toString n.natAbs).length ≤ digitLimit) :
    IsNumeral (toString n).toList (.int n) := by
  have digits_of (m : Nat) : (toString m).toList = Nat.toDigits 10 m := Nat.toList_repr
  have hlen : (Nat.toDigits 10 n.natAbs).length ≤ digitLimit := by
    rwa [← digits_of, String.length_toList]
  unfold IsNumeral
  cases n with
  | ofNat m =>
    have hm : (toString (Int.ofNat m)).toList = Nat.toDigits 10 m := digits_of m
    rw [hm]
    have hne : ∀ ds, Nat.toDigits 10 m ≠ '-' :: ds := fun ds e => by
      have := Nat.isDigit_of_mem_toDigits (b := 10) (n := m) (by decide) (by decide)
        (e ▸ List.mem_cons_self ..)
      exact absurd this (by decide)
    rw [readNumber?]
    · simpa using readUnsigned?_toDigits hlen false
    · exact hne
  | negSucc m =>
    have hm : (toString (Int.negSucc m)).toList = '-' :: Nat.toDigits 10 (m + 1) := by
      have : toString (Int.negSucc m) = "-" ++ (m + 1).repr := rfl
      rw [this, String.toList_append, Nat.toList_repr]
      rfl
    rw [hm, readNumber?]
    exact readUnsigned?_toDigits hlen true

end Workflow.Json
