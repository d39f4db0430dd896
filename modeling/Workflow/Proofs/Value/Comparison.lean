import Mathlib
import Workflow.Guard.Eval
import Workflow.Proofs.Value.Sameness

/-!
# The laws of comparison

Two values free of NaN are either not ordered at all, whichever way they are compared, or one of
below, equal and above holds of them and the other orderings follow. Booleans, whole numbers and
doubles share one line; lists are decided by their first differing items, which may have no order.

Results:
* `Value.compare_swap`: turning a comparison around changes nothing but the wording of its error.
* `Value.settled`: the four orderings agree with each other and with equality.
* `Guard.comparison_laws`: the comparisons of guards, over all values of documents.
-/
namespace Workflow

open Decimal

/-- Two values of kinds without a common order, the other way around. -/
def Incomparable.swap (i : Incomparable) : Incomparable :=
  ⟨i.order.swap, i.right, i.left⟩

namespace Value

variable {v w : Value} {a b : Number}

theorem compare_number (hv : v.number? = some a) (hw : w.number? = some b) (o : Ordering4) :
    compare o v w = .ok (compareNumbers o a b) := by
  cases v <;> cases hv <;> simp only [compare, compareNumber, hw]

theorem compare_mixed (hv : v.number? = some a) (hw : w.number? = none) (o : Ordering4) :
    compare o v w = .error ⟨o, v.kind, w.kind⟩ ∧ compare o w v = .error ⟨o, w.kind, v.kind⟩ := by
  constructor
  · cases v <;> cases hv <;> simp only [compare, compareNumber, hw, kind]
  · cases w <;> cases hw <;> cases v <;> cases hv <;> simp only [compare, kind]

theorem compare_number_swap (hv : v.number? = some a) (o : Ordering4) :
    compare o.swap w v = (compare o v w).mapError Incomparable.swap := by
  cases hw : w.number? with
  | some b => rw [compare_number hw hv, compare_number hv hw, compare_swap_number]; rfl
  | none => rw [(compare_mixed hv hw o).1, (compare_mixed hv hw o.swap).2]; rfl

theorem holds_swap (o : Ordering4) (lt gt : Bool) : o.swap.holds gt lt = o.holds lt gt := by
  cases o <;> rfl

theorem compareItems_swap {xs ys : List Value} (o : Ordering4)
    (hs : ∀ x ∈ xs, ∀ y ∈ ys, sameItem y x = sameItem x y)
    (hc : ∀ x ∈ xs, ∀ y ∈ ys, compare o.swap y x = (compare o x y).mapError Incomparable.swap) :
    compareItems o.swap ys xs = (compareItems o xs ys).mapError Incomparable.swap := by
  induction xs generalizing ys with
  | nil => cases ys <;> simp [compareItems, holds_swap, Except.mapError]
  | cons x xs ih =>
    cases ys with
    | nil => simp [compareItems, holds_swap, Except.mapError]
    | cons y ys =>
      simp only [List.forall_mem_cons] at hs hc
      rw [compareItems, compareItems, hs.1.1]
      split
      · exact ih (fun x hx y hy => (hs.2 x hx).2 y hy) fun x hx y hy => (hc.2 x hx).2 y hy
      · exact hc.1.1

/-- Turning a comparison around changes nothing but the wording of its error. -/
theorem compare_swap (hv : v.Distinct) (hw : w.Distinct) (o : Ordering4) :
    compare o.swap w v = (compare o v w).mapError Incomparable.swap := by
  induction hv generalizing w with
  | bool b => exact compare_number_swap rfl o
  | int n => exact compare_number_swap rfl o
  | float x => exact compare_number_swap rfl o
  | null => cases w <;> rfl
  | obj _ _ _ => cases w <;> rfl
  | str s =>
    cases w with
    | str t => simp only [compare, holds_swap, Except.mapError]
    | _ => rfl
  | @list xs hx ih =>
    cases w with
    | list ys =>
      simp only [compare]
      refine compareItems_swap o (fun x hxs y hys => ?_) fun x hxs y hys => ih x hxs (hw.item hys)
      exact Bool.eq_iff_iff.mpr ⟨sameItem_symm (hw.item hys) (hx x hxs),
        sameItem_symm (hx x hxs) (hw.item hys)⟩
    | _ => rfl

/-- A value in which no double is NaN, at any depth. -/
inductive NaNFree : Value → Prop where
  | null : NaNFree .null
  | bool (b : Bool) : NaNFree (.bool b)
  | int (n : Int) : NaNFree (.int n)
  | float {x : Float} (h : Double.ofFloat x ≠ .nan) : NaNFree (.float x)
  | str (s : String) : NaNFree (.str s)
  | list {items : List Value} (h : ∀ v ∈ items, NaNFree v) : NaNFree (.list items)
  | obj {fields : List (String × Value)} (h : ∀ e ∈ fields, NaNFree e.2) : NaNFree (.obj fields)

/-- The four orderings have one answer between them: all of them make no sense for the same reason,
or they tell below, equal and above apart. -/
def Settled (compare : Ordering4 → Except Incomparable Bool) (same : Bool) : Prop :=
  (∃ k l, ∀ o, compare o = .error ⟨o, k, l⟩) ∨
    ∃ r : Ordering, (∀ o, compare o = .ok (o.holds (r == .lt) (r == .gt))) ∧ same = (r == .eq)

theorem NaNFree.place (h : v.NaNFree) (hv : v.number? = some a) : ∃ p, a.place? = some p := by
  cases h <;> cases hv
  case float h => exact Option.ne_none_iff_exists'.mp ((Double.place?_eq_none_iff _).not.mpr h)
  all_goals exact ⟨_, rfl⟩

theorem settled_of_ordering {r : Ordering} {lt eq gt : Bool} (hl : lt = (r == .lt))
    (he : eq = (r == .eq)) (hg : gt = (r == .gt)) {compare : Ordering4 → Except Incomparable Bool}
    (hc : ∀ o, compare o = .ok (o.holds lt gt)) : Settled compare eq :=
  .inr ⟨r, fun o => by rw [hc, hl, hg], he⟩

theorem settled_place (p q : Decimal.Place) {compare : Ordering4 → Except Incomparable Bool}
    (hc : ∀ o, compare o = .ok (o.holds (p.lt q) (q.lt p))) : Settled compare (p == q) := by
  have hasymm {p q : Decimal.Place} (h : p.lt q = true) : q.lt p = false ∧ p ≠ q := by
    refine ⟨Bool.eq_false_iff.mpr fun h' => ?_, ?_⟩
    · simpa [p.lt_irrefl] using Decimal.Place.lt_trans h h'
    · rintro rfl
      simp [p.lt_irrefl] at h
  rcases p.lt_or_eq_or_lt q with h | rfl | h
  · have ⟨hgt, hne⟩ := hasymm h
    exact settled_of_ordering (r := .lt) h (beq_eq_false_iff_ne.mpr hne) hgt hc
  · exact settled_of_ordering (r := .eq) p.lt_irrefl (beq_self_eq_true p) p.lt_irrefl hc
  · have ⟨hlt, hne⟩ := hasymm h
    exact settled_of_ordering (r := .gt) hlt (beq_eq_false_iff_ne.mpr hne.symm) h hc

theorem settled_text (s t : String) {compare : Ordering4 → Except Incomparable Bool}
    (hc : ∀ o, compare o = .ok (o.holds (s < t) (t < s))) : Settled compare (s == t) := by
  by_cases h : s < t
  · have h' : ¬ t < s := String.lt_asymm h
    have hne : s ≠ t := by
      rintro rfl
      exact String.lt_irrefl _ h
    exact settled_of_ordering (r := .lt) (by simp [h]) (by simp [hne]) (by simp [h']) hc
  · by_cases h' : t < s
    · have hne : s ≠ t := by
        rintro rfl
        exact String.lt_irrefl _ h'
      exact settled_of_ordering (r := .gt) (by simp [h]) (by simp [hne]) (by simp [h']) hc
    · have he : s = t := String.le_antisymm h' h
      exact settled_of_ordering (r := .eq) (by simp [h]) (by simp [he]) (by simp [h']) hc

theorem settled_number (hv : v.NaNFree) (hw : w.NaNFree) (ha : v.number? = some a) :
    Settled (compare · v w) (same v w) := by
  cases hb : w.number? with
  | none => exact .inl ⟨v.kind, w.kind, fun o => (compare_mixed ha hb o).1⟩
  | some b =>
    obtain ⟨p, hp⟩ := hv.place ha
    obtain ⟨q, hq⟩ := hw.place hb
    have hs : same v w = (p == q) := by
      have : same v w = sameNumber a w := by cases v <;> cases ha <;> rfl
      simp [this, sameNumber, hb, Number.same, hp, hq]
    rw [hs]
    refine settled_place p q fun o => ?_
    rw [compare_number ha hb, compareNumbers, hp, hq]

theorem NaNFree.isNaN (h : v.NaNFree) : v.isNaN = false := by
  unfold Value.isNaN
  cases hv : v.number? with
  | none => rfl
  | some a =>
    obtain ⟨p, hp⟩ := h.place hv
    simp [Number.isNaN, hp]

theorem settled_items {xs ys : List Value} (hn : ∀ x ∈ xs, x.isNaN = false)
    (h : ∀ x ∈ xs, ∀ y ∈ ys, Settled (compare · x y) (same x y)) :
    Settled (compareItems · xs ys) (sameItems xs ys) := by
  induction xs generalizing ys with
  | nil =>
    cases ys with
    | nil => exact settled_of_ordering (r := .eq) rfl rfl rfl fun o => by simp [compareItems]
    | cons y ys => exact settled_of_ordering (r := .lt) rfl rfl rfl fun o => by simp [compareItems]
  | cons x xs ih =>
    obtain ⟨hx, hxs⟩ := List.forall_mem_cons.mp hn
    cases ys with
    | nil => exact settled_of_ordering (r := .gt) rfl rfl rfl fun o => by simp [compareItems]
    | cons y ys =>
      simp only [List.forall_mem_cons] at h
      have hsame : sameItem x y = same x y := by simp [sameItem, hx]
      simp only [compareItems, sameItems, hsame, hx, Bool.false_and, Bool.or_false]
      -- equal items leave the answer to the rest, others give it, be it an error
      cases he : same x y with
      | true => simpa using ih hxs fun u hu w hw => (h.2 u hu).2 w hw
      | false =>
        have hxy := h.1.1
        rw [he] at hxy
        simpa using hxy

/-- The orderings of two values without NaN agree with each other and with equality. -/
theorem settled (hv : v.NaNFree) (hw : w.NaNFree) : Settled (compare · v w) (same v w) := by
  induction hv generalizing w with
  | null => exact .inl ⟨.null, w.kind, fun o => by simp [compare]⟩
  | bool b => exact settled_number (.bool b) hw rfl
  | int n => exact settled_number (.int n) hw rfl
  | float h => exact settled_number (.float h) hw rfl
  | str s =>
    cases w with
    | str t => exact settled_text s t fun o => by simp [compare]
    | _ => exact .inl ⟨_, _, fun _ => rfl⟩
  | @list xs hx ih =>
    cases w with
    | list ys =>
      cases hw with
      | list hy =>
        simp only [compare, same]
        exact settled_items (fun x h => (hx x h).isNaN) fun x h y h' => ih x h (hy y h')
    | _ => exact .inl ⟨_, _, fun _ => rfl⟩
  | obj _ _ => exact .inl ⟨.obj, w.kind, fun o => by simp [compare]⟩

/-- Strict equality is equality of two booleans, or of two values that are none. -/
theorem strictSame_iff : strictSame v w = true ↔
    same v w = true ∧ (v.kind = .bool ↔ w.kind = .bool) := by
  cases v <;> cases w <;> simp [strictSame, kind, same, sameNumber, number?]
  case bool.bool b c => cases b <;> cases c <;> decide

end Value

/-- A value as a document holds it: no object in it has a name twice, and no double in it is NaN. -/
structure Datum where
  value : Value
  distinct : value.Distinct
  nanFree : value.NaNFree

namespace Guard

variable {a b : Datum}

/-- The comparison holds of the two values. -/
def Holds (c : Comparison) (a b : Datum) : Prop := compared c a.value b.value = .ok true

/-- The two outcomes are one truth value, or both say that the comparison makes no sense. -/
def Agreed (x y : Except EvalFault Bool) : Prop :=
  (∃ p, x = .ok p ∧ y = .ok p) ∨
    ∃ i, x = .error (.incomparable i) ∧ y = .error (.incomparable i.swap)

/-- What the comparisons say of two values that stand in the given order. -/
structure Ranked (r : Ordering) (v w : Value) : Prop where
  below : compared (.order .below) v w = .ok (r == .lt)
  equal : compared .equal v w = .ok (r == .eq)
  above : compared (.order .above) v w = .ok (r == .gt)
  atMost : compared (.order .atMost) v w = .ok (r == .lt || r == .eq)
  atLeast : compared (.order .atLeast) v w = .ok (r == .gt || r == .eq)

theorem holds_equal_iff : Holds .equal a b ↔ Value.sameItem a.value b.value = true := by
  rw [Holds, compared, Except.ok.injEq, Value.same_eq_sameItem a.nanFree.isNaN]

theorem holds_identical_iff : Holds .identical a b ↔
    Holds .equal a b ∧ (a.value.kind = .bool ↔ b.value.kind = .bool) := by
  rw [Holds, Holds, compared, compared, Except.ok.injEq, Except.ok.injEq, Value.strictSame_iff]

theorem equivalence_equal : Equivalence (Holds .equal) where
  refl a := holds_equal_iff.mpr (Value.sameItem_refl a.distinct)
  symm {a b} h := holds_equal_iff.mpr
    (Value.sameItem_symm a.distinct b.distinct (holds_equal_iff.mp h))
  trans {a _ _} h h' := holds_equal_iff.mpr
    (Value.sameItem_trans a.distinct (holds_equal_iff.mp h) (holds_equal_iff.mp h'))

theorem equivalence_identical : Equivalence (Holds .identical) where
  refl a := holds_identical_iff.mpr ⟨equivalence_equal.refl a, Iff.rfl⟩
  symm h :=
    have ⟨he, hk⟩ := holds_identical_iff.mp h
    holds_identical_iff.mpr ⟨equivalence_equal.symm he, hk.symm⟩
  trans h h' :=
    have ⟨he, hk⟩ := holds_identical_iff.mp h
    have ⟨he', hk'⟩ := holds_identical_iff.mp h'
    holds_identical_iff.mpr ⟨equivalence_equal.trans he he', hk.trans hk'⟩

theorem ordered_of_ne_null {v w : Value} (hv : v ≠ .null) (hw : w ≠ .null) (o : Ordering4) :
    ordered o v w = (Value.compare o v w).mapError .incomparable := by
  cases v <;> cases w <;> first | contradiction | rfl

theorem agreed_swap (a b : Datum) (o : Ordering4) :
    Agreed (compared (.order o) a.value b.value) (compared (.order o.swap) b.value a.value) := by
  rw [compared, compared]
  by_cases ha : a.value = .null
  · rw [ha, ordered_null_left, ordered_null_right]
    exact .inl ⟨false, rfl, rfl⟩
  by_cases hb : b.value = .null
  · rw [hb, ordered_null_left, ordered_null_right]
    exact .inl ⟨false, rfl, rfl⟩
  rw [ordered_of_ne_null ha hb, ordered_of_ne_null hb ha, Value.compare_swap a.distinct b.distinct]
  cases Value.compare o a.value b.value with
  | ok p => exact .inl ⟨p, rfl, rfl⟩
  | error i => exact .inr ⟨i, rfl, rfl⟩

/-- Values other than null are in no order, or in one that all comparisons agree on. -/
theorem incomparable_or_ranked (ha : a.value ≠ .null) (hb : b.value ≠ .null) :
    (∀ o, ∃ i, compared (.order o) a.value b.value = .error (.incomparable i)) ∨
      ∃ r, Ranked r a.value b.value := by
  have hc (o : Ordering4) : compared (.order o) a.value b.value =
      (Value.compare o a.value b.value).mapError .incomparable := ordered_of_ne_null ha hb o
  rcases Value.settled a.nanFree b.nanFree with ⟨k, l, h⟩ | ⟨r, h, hs⟩
  · exact .inl fun o => ⟨⟨o, k, l⟩, (hc o).trans (congrArg _ (h o))⟩
  · have ho (o : Ordering4) : compared (.order o) a.value b.value =
        .ok (o.holds (r == .lt) (r == .gt)) := (hc o).trans (congrArg _ (h o))
    refine .inr ⟨r, ho .below, congrArg Except.ok hs, ho .above, ?_, ?_⟩
    · rw [ho]
      cases r <;> rfl
    · rw [ho]
      cases r <;> rfl

/-- The laws of the comparisons of a guard over the values of documents. -/
theorem comparison_laws :
    Equivalence (Holds .equal) ∧ Equivalence (Holds .identical) ∧
    ∀ a b : Datum,
      (∃ p, compared .equal a.value b.value = .ok p ∧
        compared .notEqual a.value b.value = .ok (!p)) ∧
      (∃ p, compared .identical a.value b.value = .ok p ∧
        compared .notIdentical a.value b.value = .ok (!p)) ∧
      (Holds .identical a b → Holds .equal a b) ∧
      (a.value.kind = .bool → b.value.kind = .int ∨ b.value.kind = .float →
        ¬ Holds .identical a b ∧ ¬ Holds .identical b a) ∧
      (a.value.kind ≠ .bool → b.value.kind ≠ .bool →
        (Holds .identical a b ↔ Holds .equal a b)) ∧
      (∀ o, Agreed (compared (.order o) a.value b.value)
        (compared (.order o.swap) b.value a.value)) ∧
      (a.value = .null ∨ b.value = .null → ∀ o, compared (.order o) a.value b.value = .ok false) ∧
      (a.value ≠ .null → b.value ≠ .null →
        (∀ o, ∃ i, compared (.order o) a.value b.value = .error (.incomparable i)) ∨
          ∃ r, Ranked r a.value b.value) := by
  refine ⟨equivalence_equal, equivalence_identical, fun a b =>
    ⟨⟨_, rfl, rfl⟩, ⟨_, rfl, rfl⟩, fun h => (holds_identical_iff.mp h).1, ?_, ?_, agreed_swap a b,
      ?_, incomparable_or_ranked⟩⟩
  · intro ha hb
    have hne : b.value.kind ≠ .bool := by rcases hb with h | h <;> simp [h]
    exact ⟨fun h => hne ((holds_identical_iff.mp h).2.mp ha),
      fun h => hne ((holds_identical_iff.mp h).2.mpr ha)⟩
  · intro ha hb
    rw [holds_identical_iff]
    exact and_iff_left (iff_of_false ha hb)
  · rintro (h | h) o
    · rw [h]
      exact ordered_null_left o _
    · rw [h]
      exact ordered_null_right o _

/-- A list of a text and null, and of whatever else. -/
def headed (v : Value) (h : v.Distinct) (h' : v.NaNFree) : Datum where
  value := .list [.str "a", .null, v]
  distinct := .list (by simpa using ⟨.str _, .null, h⟩)
  nanFree := .list (by simpa using ⟨.str _, .null, h'⟩)

/-- Lists are in order by their first differing items, past items that have no order themselves. -/
theorem comparison_laws_headed :
    let a := headed (.str "b") (.str _) (.str _)
    let b := headed (.str "c") (.str _) (.str _)
    a.value ≠ .null ∧ b.value ≠ .null ∧ Ranked .lt a.value b.value := by
  intro a b
  have ha : a.value ≠ .null := by simp [a, headed]
  have hb : b.value ≠ .null := by simp [b, headed]
  have hlt : compared (.order .below) a.value b.value = .ok true := by decide
  refine ⟨ha, hb, ?_⟩
  obtain h | ⟨r, h⟩ := (comparison_laws.2.2 a b).2.2.2.2.2.2.2 ha hb
  · obtain ⟨i, hi⟩ := h .below
    rw [hlt] at hi
    cases hi
  · have hr := h.below.symm.trans hlt
    cases r with
    | lt => exact h
    | eq | gt => cases hr

end Guard
end Workflow
