import Mathlib.Data.List.Forall2
import Workflow.Proofs.Context.Path

/-!
# Where paths lead

A name leads from an object to the value under it, and from a list to the item that it numbers in
decimal digits. A path leads to a value if each of its names leads on in turn. Where a path leads
nowhere there is null. But a path that snags, on a list and a name that looks like a number and
cannot be read, has no value at all, and neither have parameters with such a path.

Results:
* `below?_eq_some`, `Step.below?`: one name.
* `blocks_iff_snags`, `find_eq_ok_iff`: a whole path.
* `resolveAll_eq_ok_iff`: parameters, in their order.
* `lookup_iff`: what paths and parameters come to, and when they have no value.
-/
namespace Workflow

open Text Decimal

namespace Value

variable {v w : Value} {name : String} {names : List String}

/-! ## Names -/

/-- A name leads from a value to another one: it is a key of an object, or a decimal numeral for an
item of a list. -/
inductive Step : Value → String → Value → Prop where
  | key {fields : Fields Value} {name : String} {w : Value} (h : fields.get? name = some w) :
    Step (.obj fields) name w
  | item {items : List Value} {name : String} {w : Value} (hne : name ≠ "")
    (hd : ∀ c ∈ name.toList, isDecimal c = true)
    (h : items[ofDigits (digitValues name.toList)]? = some w) : Step (.list items) name w

/-- A decimal numeral looks like a number. -/
theorem isNumber_of_decimal (hne : name ≠ "") (hd : ∀ c ∈ name.toList, isDecimal c = true) :
    Path.isNumber name = true := by
  simp only [Path.isNumber, Bool.and_eq_true, Bool.not_eq_true', List.all_eq_true]
  exact ⟨by simpa using hne, fun c hc => by simp [isDigitLike, hd c hc]⟩

theorem item?_of_isReadable {items : List Value} (h : Path.isNumber name = true)
    (hr : Path.isReadable name = true) :
    item? items name = .ok items[ofDigits (digitValues name.toList)]? := by
  rw [item?, if_pos h, Numeral.read_of_isReadable h hr]
  rfl

/-- What is found below a value is where the name leads. -/
theorem below?_eq_some (h : v.below? name = .ok (some w)) : v.Step name w := by
  cases v with
  | obj fields => exact .key (by simpa [below?] using h)
  | list items =>
    change item? items name = .ok (some w) at h
    by_cases hn : Path.isNumber name = true
    · cases hr : Path.isReadable name with
      | true =>
        rw [item?_of_isReadable hn hr] at h
        have hd : name.toList.all isDecimal = true := (Bool.and_eq_true_iff.mp hr).1
        refine .item ?_ (List.all_eq_true.mp hd) (Except.ok.inj h)
        rintro rfl
        cases hn
      | false =>
        obtain ⟨f, hf⟩ := (below?_error_iff (v := .list items)).mpr ⟨items, rfl, hn, hr⟩
        cases hf.symm.trans h
    · rw [item?, if_neg hn] at h
      cases h
  | _ => cases h

/-- Where a name leads is found below the value, if the name can be read. -/
theorem Step.below? (h : v.Step name w) (hb : ∀ f, v.below? name ≠ .error f) :
    v.below? name = .ok (some w) := by
  cases h with
  | key h => exact congrArg Except.ok h
  | @item items _ _ hne hd h =>
    have hn := isNumber_of_decimal hne hd
    cases hr : Path.isReadable name with
    | true =>
      change item? items name = _
      rw [item?_of_isReadable hn hr, h]
    | false =>
      obtain ⟨f, hf⟩ := below?_error_iff.mpr ⟨items, rfl, hn, hr⟩
      exact absurd hf (hb f)

/-- A name leads to at most one value. -/
theorem Step.unique {u : Value} (h : v.Step name w) (h' : v.Step name u) : w = u := by
  cases h with
  | key h =>
    cases h' with
    | key h' => exact Option.some.inj (h.symm.trans h')
  | item hne hd h =>
    cases h' with
    | item hne' hd' h' => exact Option.some.inj (h.symm.trans h')

/-! ## Paths -/

/-- Names lead in turn from a value to another one. -/
inductive Leads : Value → List String → Value → Prop where
  | here (v : Value) : Leads v [] v
  | on {v u w : Value} {name : String} {names : List String} (h : v.Step name u)
    (hl : Leads u names w) : Leads v (name :: names) w

/-- A path leads to at most one value. -/
theorem Leads.unique {u : Value} (h : v.Leads names w) (h' : v.Leads names u) : w = u := by
  induction h with
  | here v =>
    cases h' with
    | here => rfl
  | on hs hl ih =>
    cases h' with
    | on hs' hl' =>
      cases hs.unique hs'
      exact ih hl'

/-- What is found along a path is where it leads, and null where it leads nowhere. -/
theorem leads_of_find (h : v.find names = .ok w) :
    v.Leads names w ∨ w = .null ∧ ∀ u, ¬ v.Leads names u := by
  induction names generalizing v with
  | nil =>
    cases h
    exact .inl (.here _)
  | cons name names ih =>
    unfold find at h
    cases hb : v.below? name with
    | error f => simp [hb] at h
    | ok u? =>
      -- a first step is to what stands below the value, if there is one
      have first {u : Value} (hs : v.Step name u) : u? = some u := by
        have := hs.below? fun f hf => by cases hb.symm.trans hf
        exact Except.ok.inj (hb.symm.trans this)
      cases u? with
      | none =>
        simp only [hb, Except.ok.injEq] at h
        refine .inr ⟨h.symm, fun u hu => ?_⟩
        cases hu with
        | on hs hl => cases first hs
      | some u =>
        simp only [hb] at h
        rcases ih h with hl | ⟨hw, hn⟩
        · exact .inl (.on (below?_eq_some hb) hl)
        · refine .inr ⟨hw, fun x hx => ?_⟩
          cases hx with
          | on hs hl =>
            cases first hs
            exact hn x hl

/-- Names lead to a list that meets a name which looks like a number and cannot be read. -/
def Snags (v : Value) (names : List String) : Prop :=
  ∃ walked name rest items, names = walked ++ name :: rest ∧ v.Leads walked (.list items) ∧
    Path.isNumber name = true ∧ Path.isReadable name = false

/-- A path is blocked exactly if it snags. -/
theorem blocks_iff_snags : v.Blocks names ↔ v.Snags names := by
  constructor
  · rintro ⟨walked, name, rest, items, rfl, hw, hn, hr⟩
    rcases leads_of_find hw with hl | ⟨he, -⟩
    · exact ⟨walked, name, rest, items, rfl, hl, hn, hr⟩
    · cases he
  · rintro ⟨walked, name, rest, items, rfl, hl, hn, hr⟩
    cases hf : v.find walked with
    | ok w =>
      rcases leads_of_find hf with hl' | ⟨-, he⟩
      · cases hl.unique hl'
        exact ⟨walked, name, rest, items, rfl, hf, hn, hr⟩
      · exact absurd hl (he _)
    | error f =>
      -- then a list has met such a name before
      obtain ⟨walked', name', rest', items', rfl, h⟩ := find_error_iff.mp ⟨f, hf⟩
      exact ⟨walked', name', rest' ++ name :: rest, items', by simp, h⟩

/-- A path has a value unless it snags. -/
theorem find_ok_iff : (∃ w, v.find names = .ok w) ↔ ¬ v.Snags names := by
  rw [← blocks_iff_snags, ← find_error_iff]
  cases v.find names <;> simp

/-- The value of a path is the one that it leads to, or null if it leads nowhere. -/
theorem find_eq_ok_iff : v.find names = .ok w ↔
    ¬ v.Snags names ∧ (v.Leads names w ∨ w = .null ∧ ∀ u, ¬ v.Leads names u) := by
  constructor
  · intro h
    exact ⟨find_ok_iff.mp ⟨w, h⟩, leads_of_find h⟩
  · rintro ⟨hb, h⟩
    obtain ⟨x, hx⟩ := find_ok_iff.mpr hb
    rw [hx]
    -- where the path leads is settled, and so is whether it leads anywhere
    rcases h with h | ⟨rfl, hn⟩ <;> rcases leads_of_find hx with hl | ⟨rfl, hn'⟩
    · rw [hl.unique h]
    · exact absurd h (hn' w)
    · exact absurd hl (hn x)
    · rfl

end Value

/-! ## Parameters -/

namespace Context

/-- Parameters are resolved one by one, in their order and each under its name. -/
theorem resolveAll_eq_ok_iff {context : Context} {params resolved : Fields Value} :
    resolveAll context params = .ok resolved ↔
      List.Forall₂ (fun p q => q.1 = p.1 ∧ resolve context p.2 = .ok q.2) params resolved := by
  induction params generalizing resolved with
  | nil => simp [resolveAll, eq_comm]
  | cons p params ih =>
    cases hv : resolve context p.2 with
    | error f => cases resolved <;> simp [resolveAll, hv]
    | ok w =>
      cases resolved with
      | nil => cases hr : resolveAll context params <;> simp [resolveAll, hv, hr, Except.map]
      | cons q rest =>
        rw [List.forall₂_cons, ← ih, hv]
        cases hr : resolveAll context params with
        | error f => simp [resolveAll, hv, hr, Except.map]
        | ok rest' => simp [resolveAll, hv, hr, Except.map, Prod.ext_iff, eq_comm]

/-- Parameters are resolved unless a path among them snags. -/
theorem resolveAll_ok_iff {context : Context} {params : Fields Value} :
    (∃ resolved, resolveAll context params = .ok resolved) ↔
      ∀ name s, (name, Value.str s) ∈ params → '.' ∈ s.toList →
        ¬ (Value.obj context).Snags (Path.segments s.toList) := by
  have hb : (∃ resolved, resolveAll context params = .ok resolved) ↔ ¬ Blocks context params := by
    rw [← resolveAll_error_iff]
    cases resolveAll context params <;> simp
  rw [hb]
  simp only [Blocks, Value.blocks_iff_snags, not_exists, not_and]

/-- **Where a path leads is found, numbers apart.** A path has a value unless it leads to a list
that meets a name which looks like a number and cannot be read. The value is then null unless each
name of the path leads on in turn, as a key of an object or as a decimal numeral for an item of a
list, and then it is the value reached. Parameters are resolved unless one of them is a path without
a value, and then under the same names in the same order, each to its own value. -/
theorem lookup_iff (context : Context) :
    (∀ path, (∃ w, find context path = .ok w) ↔
      ¬ (Value.obj context).Snags (Path.segments path.toList)) ∧
    (∀ path w, find context path = .ok w ↔
      ¬ (Value.obj context).Snags (Path.segments path.toList) ∧
        ((Value.obj context).Leads (Path.segments path.toList) w ∨
          w = .null ∧ ∀ u, ¬ (Value.obj context).Leads (Path.segments path.toList) u)) ∧
    ∀ params, ((∃ resolved, resolveAll context params = .ok resolved) ↔
        ∀ name s, (name, Value.str s) ∈ params → '.' ∈ s.toList →
          ¬ (Value.obj context).Snags (Path.segments s.toList)) ∧
      ∀ resolved, resolveAll context params = .ok resolved → resolved.keys = params.keys ∧
        List.Forall₂ (fun p q => q.1 = p.1 ∧ resolve context p.2 = .ok q.2) params resolved := by
  refine ⟨fun _ => Value.find_ok_iff, fun _ _ => Value.find_eq_ok_iff,
    fun params => ⟨resolveAll_ok_iff, fun resolved h => ?_⟩⟩
  exact ⟨resolve_keys context params h, resolveAll_eq_ok_iff.mp h⟩

/-- **Counterexample**: a path need not have a value. In a list of one item a superscript two looks
like the number of an item and is no numeral. -/
theorem lookup_fails :
    ¬ ∀ (context : Context) (path : String), ∃ w, find context path = .ok w := by
  intro h
  have hs := Value.find_ok_iff.mp (h [("items", .list [.int 1])] "items.²")
  exact hs ⟨["items"], "²", [], [.int 1], by decide, .on (.key rfl) (.here _), by decide, by decide⟩

end Context
end Workflow
