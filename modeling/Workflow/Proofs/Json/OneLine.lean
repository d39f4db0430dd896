import Workflow.Proofs.Json.RoundTrip

/-!
# One line

A value that is written on one line stays on it, whatever it holds: no text that is written has a
control character, line breaks among them, since those are escaped and nothing else puts one in.

Results:
* `plain_quote`: texts, with what was escaped in them.
* `plain_doubleText`: doubles.
* `plain_write`: values, with no line break in them.
-/
namespace Workflow.Json

open Decimal Text

/-- A text without control characters. -/
def Plain (cs : List Char) : Prop := ∀ c ∈ cs, 32 ≤ c.toNat

variable {cs ds : List Char}

@[simp] theorem plain_nil : Plain [] := fun _ h => nomatch h

@[simp] theorem plain_cons {c : Char} : Plain (c :: cs) ↔ 32 ≤ c.toNat ∧ Plain cs :=
  List.forall_mem_cons

@[simp] theorem plain_append : Plain (cs ++ ds) ↔ Plain cs ∧ Plain ds :=
  List.forall_mem_append

theorem Plain.of_subset (h : Plain ds) (hs : cs ⊆ ds) : Plain cs := fun c hc => h c (hs hc)

theorem Plain.take (h : Plain cs) (n : Nat) : Plain (cs.take n) :=
  h.of_subset (List.take_subset n cs)

theorem Plain.drop (h : Plain cs) (n : Nat) : Plain (cs.drop n) :=
  h.of_subset (List.drop_subset n cs)

@[simp] theorem plain_zeros (n : Nat) : Plain (List.replicate n '0') := fun c hc => by
  rw [List.eq_of_mem_replicate hc]
  decide

/-! ## Texts -/

/-- What is written for a control character is no control character. -/
theorem plain_escape_control {c : Char} (h : c.toNat < 32) : Plain (escape c) := by
  have all : ∀ n : Fin 32, (escape (Char.ofNat n)).all fun d => 32 ≤ d.toNat := by decide
  rw [← Char.ofNat_toNat c]
  exact fun d hd => of_decide_eq_true (List.all_eq_true.mp (all ⟨_, h⟩) d hd)

theorem plain_escape (c : Char) : Plain (escape c) := by
  by_cases hc : c.toNat < 32
  · exact plain_escape_control hc
  · by_cases hs : c = '"' ∨ c = '\\'
    · obtain rfl | rfl := hs <;> simp [escape]
    · rw [not_or] at hs
      rw [escape_plain hs.1 hs.2 (Nat.not_lt.mp hc)]
      simpa using hc

theorem plain_quote (s : String) : Plain (quote s).toList := by
  have body : Plain (s.toList.flatMap escape) := fun c hc => by
    obtain ⟨d, -, hd⟩ := List.mem_flatMap.mp hc
    exact plain_escape d c hd
  rw [toList_quote]
  simp [body]

/-! ## Numbers -/

@[simp] theorem plain_digits (n : Nat) : Plain (Nat.toDigits 10 n) := fun c hc => by
  have hd : c.isDigit = true := Nat.isDigit_of_mem_toDigits (by decide) (by decide) hc
  have h : 48 ≤ c.toNat ∧ c.toNat ≤ 57 := Char.isDigit_iff_toNat.mp hd
  omega

theorem plain_whole (n : Int) : Plain (toString n).toList := by
  cases n with
  | ofNat n =>
    have h : toString (Int.ofNat n) = n.repr := rfl
    rw [h, Nat.toList_repr]
    exact plain_digits n
  | negSucc n =>
    have h : toString (Int.negSucc n) = "-" ++ (n + 1).repr := rfl
    simp [h]

structure Style.IsPlain (style : Style) : Prop where
  wholeMark : Plain style.wholeMark.toList
  nan : Plain style.nan.toList
  infinity : Plain style.infinity.toList

theorem isPlain_json : Style.IsPlain json := by
  constructor <;> simp [json, Decimal.plain]

variable {style : Style}

theorem plain_exponentText (style : Style) (e : Int) : Plain (exponentText style e).toList := by
  unfold exponentText padded
  split <;> simp

theorem plain_scaledText (h : Style.IsPlain style) (s : Scaled) :
    Plain (scaledText style s).toList := by
  have hd : Plain (toString s.digits).toList := by simp
  unfold scaledText
  simp only
  generalize (toString s.digits).toList = ds at hd
  split_ifs <;> simp [-List.drop_one, hd, hd.take, hd.drop, h.wholeMark, plain_exponentText]

theorem plain_doubleText (h : Style.IsPlain style) (d : Double) :
    Plain (doubleText style d).toList := by
  cases d with
  | nan => exact h.nan
  | infinite negative => cases negative <;> simp [doubleText, h.infinity]
  | finite negative m e => cases negative <;> simp [doubleText, plain_scaledText h]

/-! ## Values -/

theorem plain_join {texts : List String} (h : ∀ t ∈ texts, Plain t.toList) :
    Plain (", ".intercalate texts).toList := by
  induction texts with
  | nil => exact plain_nil
  | cons t ts ih =>
    obtain ⟨ht, hts⟩ := List.forall_mem_cons.mp h
    cases ts with
    | nil => simpa using ht
    | cons u us =>
      simp only [String.intercalate_cons_cons, String.toList_append, plain_append]
      exact ⟨⟨ht, by simp⟩, ih hts⟩

theorem plain_enclose {left right : String} {texts : List String} (hl : Plain left.toList)
    (hr : Plain right.toList) (h : ∀ t ∈ texts, Plain t.toList) (level : Nat) :
    Plain (oneLine.enclose level left right texts).toList := by
  have hb (level : Nat) : oneLine.lineBreak level = "" := rfl
  have hs : oneLine.separator (level + 1) = ", " := rfl
  unfold Layout.enclose
  split
  · simp [hl, hr]
  · simp only [hb, hs, String.toList_append, plain_append]
    exact ⟨⟨⟨⟨hl, plain_nil⟩, plain_join h⟩, plain_nil⟩, hr⟩

mutual

/-- The text of a value at any level. -/
theorem plain_writeAt (level : Nat) : (v : Value) → Plain (writeAt oneLine level v).toList
  | .null => by simp [writeAt]
  | .bool b => by cases b <;> simp [writeAt]
  | .int n => plain_whole n
  | .float x => plain_doubleText isPlain_json _
  | .str s => plain_quote s
  | .list items =>
    plain_enclose (by simp) (by simp) (plain_writeItems (level + 1) items) level
  | .obj fields =>
    plain_enclose (by simp) (by simp) (plain_writeFields (level + 1) fields) level

theorem plain_writeItems (level : Nat) :
    (vs : List Value) → ∀ t ∈ writeItems oneLine level vs, Plain t.toList
  | [] => fun _ h => nomatch h
  | v :: vs => List.forall_mem_cons.mpr ⟨plain_writeAt level v, plain_writeItems level vs⟩

theorem plain_writeFields (level : Nat) :
    (fs : List (String × Value)) → ∀ t ∈ writeFields oneLine level fs, Plain t.toList
  | [] => fun _ h => nomatch h
  | (k, v) :: fs => List.forall_mem_cons.mpr
    ⟨by simp [plain_quote, plain_writeAt level v], plain_writeFields level fs⟩

end

/-- **A value that is written on one line has no control character**, whatever stands in it. -/
theorem plain_write (v : Value) : Plain (write oneLine v).toList := plain_writeAt 0 v

end Workflow.Json
