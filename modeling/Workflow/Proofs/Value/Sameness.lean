import Mathlib
import Workflow.Proofs.Value.Distinct
import Workflow.Value.Order

/-!
# Equality is an equivalence

Numbers match if they have one place on the line, texts and null if they are the same, lists if
their items match in turn, objects if they have as many fields and every field of the one is matched
in the other. With no name twice that is an equivalence, at every depth.

Results:
* `Value.sameItem_refl`, `Value.sameItem_symm`, `Value.sameItem_trans`: matching is an equivalence.
* `Value.same_eq_sameItem`: outside containers only NaN fails to match itself.
-/
namespace Workflow

section

variable {α : Type} {r : α → α → Prop} {xs ys zs : List α}

theorem forall₂_turn (h : List.Forall₂ r xs ys) (ht : ∀ x ∈ xs, ∀ y ∈ ys, r x y → r y x) :
    List.Forall₂ r ys xs := by
  induction h with
  | nil => exact .nil
  | cons hxy _ ih =>
    refine .cons (ht _ (List.mem_cons_self ..) _ (List.mem_cons_self ..) hxy) (ih ?_)
    exact fun x hx y hy => ht x (List.mem_cons_of_mem _ hx) y (List.mem_cons_of_mem _ hy)

theorem forall₂_chain (h : List.Forall₂ r xs ys) (h' : List.Forall₂ r ys zs)
    (ht : ∀ x ∈ xs, ∀ y z, r x y → r y z → r x z) : List.Forall₂ r xs zs := by
  induction h generalizing zs with
  | nil => exact h'
  | cons hxy _ ih =>
    cases h' with
    | cons hyz h' =>
      refine .cons (ht _ (List.mem_cons_self ..) _ _ hxy hyz) (ih h' ?_)
      exact fun x hx => ht x (List.mem_cons_of_mem _ hx)

end

namespace Value

variable {u v w : Value} {a b : Number}

/-! ## Equality inside containers -/

/-- Numbers match in containers if they have one place on the line, or none. -/
theorem sameItem_number (h : v.number? = some a) :
    sameItem v w = true ↔ w.number?.map Number.place? = some a.place? := by
  have hs : same v w = sameNumber a w := by cases v <;> cases h <;> rfl
  rw [sameItem, hs, isNaN, isNaN, h, sameNumber]
  cases w.number? with
  | none => simp
  | some b =>
    have hs : a.same b = true ∨ (a.isNaN = true ∧ b.isNaN = true) ↔ b.place? = a.place? := by
      unfold Number.same Number.isNaN
      cases a.place? <;> cases b.place? <;> simp
      exact ⟨Eq.symm, Eq.symm⟩
    simpa using hs

theorem sameItems_iff (xs ys : List Value) :
    sameItems xs ys = true ↔ List.Forall₂ (fun x y => sameItem x y = true) xs ys := by
  induction xs generalizing ys with
  | nil => cases ys <;> simp [sameItems]
  | cons x xs ih =>
    cases ys with
    | nil => simp [sameItems]
    | cons y ys => simp [sameItems, sameItem, ih]

theorem sameFields_iff (fs gs : List (String × Value)) : sameFields fs gs = true ↔
    ∀ e ∈ fs, ∃ y, Fields.get? gs e.1 = some y ∧ sameItem e.2 y = true := by
  induction fs with
  | nil => simp [sameFields]
  | cons e fs ih =>
    obtain ⟨k, x⟩ := e
    rw [sameFields, Bool.and_eq_true, ih, List.forall_mem_cons]
    refine and_congr_left fun _ => ?_
    cases Fields.get? gs k <;> simp [sameItem]

theorem sameItem_null_iff : sameItem .null w = true ↔ w = .null := by
  cases w <;> simp [sameItem, same, isNull, isNaN, number?]

theorem sameItem_str_iff {s : String} : sameItem (.str s) w = true ↔ w = .str s := by
  cases w with
  | str t => simpa [sameItem, same, isNaN, number?] using eq_comm
  | _ => simp [sameItem, same, isNaN, number?]

theorem sameItem_list_iff {xs : List Value} : sameItem (.list xs) w = true ↔
    ∃ ys, w = .list ys ∧ List.Forall₂ (fun x y => sameItem x y = true) xs ys := by
  cases w <;> simp [sameItem, same, isNaN, number?, sameItems_iff]

theorem sameItem_obj_iff {fs : List (String × Value)} : sameItem (.obj fs) w = true ↔
    ∃ gs, w = .obj gs ∧ fs.length = gs.length ∧
      ∀ e ∈ fs, ∃ y, Fields.get? gs e.1 = some y ∧ sameItem e.2 y = true := by
  cases w <;> simp [sameItem, same, isNaN, number?, sameFields_iff]

theorem sameItem_refl (h : v.Distinct) : sameItem v v = true := by
  induction h with
  | null => exact sameItem_null_iff.mpr rfl
  | bool b => exact (sameItem_number rfl).mpr rfl
  | int n => exact (sameItem_number rfl).mpr rfl
  | float x => exact (sameItem_number rfl).mpr rfl
  | str s => exact sameItem_str_iff.mpr rfl
  | list h ih => exact sameItem_list_iff.mpr ⟨_, rfl, List.forall₂_same.mpr ih⟩
  | obj hk h ih =>
    exact sameItem_obj_iff.mpr ⟨_, rfl, rfl, fun e he => ⟨e.2, Fields.get?_of_mem hk he, ih e he⟩⟩

/-- Matching numbers in turn. -/
theorem sameItem_number_symm (hv : v.number? = some a) (h : sameItem v w = true) :
    sameItem w v = true := by
  have hw := (sameItem_number hv).mp h
  obtain ⟨b, hb, hp⟩ := Option.map_eq_some_iff.mp hw
  rw [sameItem_number hb, hv, hp]
  rfl

theorem sameItem_symm (hv : v.Distinct) (hw : w.Distinct) (h : sameItem v w = true) :
    sameItem w v = true := by
  induction hv generalizing w with
  | null =>
    rw [sameItem_null_iff] at h
    exact h ▸ sameItem_null_iff.mpr rfl
  | bool b => exact sameItem_number_symm rfl h
  | int n => exact sameItem_number_symm rfl h
  | float x => exact sameItem_number_symm rfl h
  | str s =>
    rw [sameItem_str_iff] at h
    exact h ▸ sameItem_str_iff.mpr rfl
  | @list xs _ ih =>
    obtain ⟨ys, rfl, hxy⟩ := sameItem_list_iff.mp h
    exact sameItem_list_iff.mpr ⟨xs, rfl, forall₂_turn hxy fun x hx y hy => ih x hx (hw.item hy)⟩
  | @obj fs hk _ ih =>
    obtain ⟨gs, rfl, hlen, hfs⟩ := sameItem_obj_iff.mp h
    refine sameItem_obj_iff.mpr ⟨fs, rfl, hlen.symm, fun e he => ?_⟩
    -- the names of the one object are names of the other, and as many
    have hsub : Fields.keys fs ⊆ Fields.keys gs := by
      intro k hk
      obtain ⟨d, hd, rfl⟩ := List.mem_map.mp hk
      obtain ⟨y, hy, -⟩ := hfs d hd
      exact List.mem_map.mpr ⟨_, Fields.mem_of_get? hy, rfl⟩
    have hperm : (Fields.keys fs).Perm (Fields.keys gs) :=
      (hk.subperm hsub).perm_of_length_le (by simp [Fields.keys, hlen])
    obtain ⟨d, hd, hde⟩ := List.mem_map.mp (hperm.mem_iff.mpr (List.mem_map_of_mem he))
    obtain ⟨y, hy, hdy⟩ := hfs d hd
    have hde' : d.1 = e.1 := hde
    rw [hde', Fields.get?_of_mem hw.keys he, Option.some.injEq] at hy
    subst hy
    exact ⟨d.2, hde' ▸ Fields.get?_of_mem hk hd, ih d hd (hw.field he) hdy⟩

theorem sameItem_number_trans (hu : u.number? = some a) (huv : sameItem u v = true)
    (hvw : sameItem v w = true) : sameItem u w = true := by
  obtain ⟨b, hb, hp⟩ := Option.map_eq_some_iff.mp ((sameItem_number hu).mp huv)
  rw [sameItem_number hu, (sameItem_number hb).mp hvw, hp]

theorem sameItem_trans (hu : u.Distinct) (huv : sameItem u v = true) (hvw : sameItem v w = true) :
    sameItem u w = true := by
  induction hu generalizing v w with
  | null =>
    rw [sameItem_null_iff] at huv
    rwa [huv] at hvw
  | bool b => exact sameItem_number_trans rfl huv hvw
  | int n => exact sameItem_number_trans rfl huv hvw
  | float x => exact sameItem_number_trans rfl huv hvw
  | str s =>
    rw [sameItem_str_iff] at huv
    rwa [huv] at hvw
  | list _ ih =>
    obtain ⟨ys, rfl, hxy⟩ := sameItem_list_iff.mp huv
    obtain ⟨zs, rfl, hyz⟩ := sameItem_list_iff.mp hvw
    exact sameItem_list_iff.mpr ⟨zs, rfl, forall₂_chain hxy hyz fun x hx y z => ih x hx⟩
  | obj _ _ ih =>
    obtain ⟨gs, rfl, hlen, hfs⟩ := sameItem_obj_iff.mp huv
    obtain ⟨hs, rfl, hlen', hgs⟩ := sameItem_obj_iff.mp hvw
    refine sameItem_obj_iff.mpr ⟨hs, rfl, hlen.trans hlen', fun e he => ?_⟩
    obtain ⟨y, hy, hey⟩ := hfs e he
    obtain ⟨z, hz, hyz⟩ := hgs _ (Fields.mem_of_get? hy)
    exact ⟨z, hz, ih e he hey hyz⟩

theorem same_eq_sameItem (h : v.isNaN = false) (w : Value) : same v w = sameItem v w := by
  rw [sameItem, h, Bool.false_and, Bool.or_false]

end Value
end Workflow
