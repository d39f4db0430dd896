import Workflow.Context
import Workflow.Json.Reader
import Workflow.Proofs.Context.Merge
import Workflow.Value.Arithmetic

/-!
# Values with distinct names

An object stands for a mapping if it has no name twice, at no depth. Reading and merging never bring
in a name twice.

Results:
* `Fields.ofEntries_of_nodup`: entries with distinct names are fields as they stand.
* `Value.Distinct.set`, `Value.Distinct.merge`, `Value.distinct_ofEntries`: what is written over
  fields with distinct names.
* `Value.Distinct.find`, `Context.distinct_resolveAll`: what a path leads to, and what parameters
  stand for.
* `Value.Distinct.asFields`, `Value.Distinct.plus`, `Value.Distinct.times`: what values come to.
* `Json.distinct_of_read`: what a document describes.
-/
namespace Workflow

theorem except_map_ok_iff {ε α β : Type} {x : Except ε α} {f : α → β} {b : β} :
    x.map f = .ok b ↔ ∃ a, x = .ok a ∧ f a = b := by
  cases x <;> simp [Except.map]

theorem except_mapError_ok_iff {ε ε' α : Type} {x : Except ε α} {f : ε → ε'} {a : α} :
    x.mapError f = .ok a ↔ x = .ok a := by
  cases x <;> simp [Except.mapError]

theorem except_bind_ok_iff {ε α β : Type} {x : Except ε α} {f : α → Except ε β} {b : β} :
    x >>= f = .ok b ↔ ∃ a, x = .ok a ∧ f a = .ok b := by
  cases x <;> simp [bind, Except.bind]

/-- A value in which no object has a name twice. -/
inductive Value.Distinct : Value → Prop where
  | null : Distinct .null
  | bool (b : Bool) : Distinct (.bool b)
  | int (n : Int) : Distinct (.int n)
  | float (x : Float) : Distinct (.float x)
  | str (s : String) : Distinct (.str s)
  | list {items : List Value} (h : ∀ v ∈ items, Distinct v) : Distinct (.list items)
  | obj {fields : List (String × Value)} (hk : (Fields.keys fields).Nodup)
    (h : ∀ e ∈ fields, Distinct e.2) : Distinct (.obj fields)

namespace Fields

variable {α : Type}

theorem set_of_not_mem {fs : Fields α} {k : String} (h : k ∉ fs.keys) (v : α) :
    fs.set k v = fs ++ [(k, v)] := by
  rw [set, if_neg (fun hk => h ((has_iff_mem_keys fs k).mp hk))]

theorem merge_of_nodup {fs es : Fields α} (h : (keys (fs ++ es)).Nodup) :
    merge fs es = fs ++ es := by
  induction es generalizing fs with
  | nil => exact (List.append_nil fs).symm
  | cons e es ih =>
    have hk : e.1 ∉ keys fs := by
      simp only [keys, List.map_append, List.map_cons] at h
      exact fun hm => (List.nodup_append.mp h).2.2 _ hm _ (List.mem_cons_self ..) rfl
    calc merge fs (e :: es) = merge (fs.set e.1 e.2) es := rfl
      _ = merge (fs ++ [e]) es := by rw [set_of_not_mem hk]
      _ = fs ++ [e] ++ es := ih (by rwa [List.append_assoc])
      _ = fs ++ e :: es := by rw [List.append_assoc]; rfl

/-- Entries with distinct names are fields as they stand. -/
theorem ofEntries_of_nodup {es : Fields α} (h : es.keys.Nodup) : ofEntries es = es :=
  merge_of_nodup h

theorem nodup_keys_set {fs : Fields α} (h : fs.keys.Nodup) (k : String) (v : α) :
    (fs.set k v).keys.Nodup := by
  rw [keys_set]
  split
  · exact h
  · rename_i hk
    have hm : k ∉ fs.keys := fun hm => hk ((has_iff_mem_keys fs k).mpr hm)
    simpa [List.nodup_append] using ⟨h, fun a ha e => hm (e ▸ ha)⟩

theorem mem_set {fs : Fields α} {k : String} {v : α} {e : String × α} (h : e ∈ fs.set k v) :
    e ∈ fs ∨ e = (k, v) := by
  unfold set at h
  split at h
  · obtain ⟨d, hd, rfl⟩ := List.mem_map.mp h
    split
    · exact .inr rfl
    · exact .inl hd
  · simpa using h

/-- Under distinct names every field stands under its name. -/
theorem get?_of_mem {fs : Fields α} (h : fs.keys.Nodup) {e : String × α} (he : e ∈ fs) :
    fs.get? e.1 = some e.2 := by
  induction fs with
  | nil => cases he
  | cons d fs ih =>
    obtain ⟨hd, hfs⟩ := List.nodup_cons.mp h
    rw [get?, List.lookup_cons]
    rcases List.mem_cons.mp he with rfl | he
    · rw [beq_self_eq_true]
    · have hne : e.1 ≠ d.1 := fun h => hd (List.mem_map.mpr ⟨e, he, h⟩)
      rw [beq_eq_false_iff_ne.mpr hne]
      exact ih hfs he

/-- Fields that are kept by their names. -/
theorem get?_filter (fs : Fields α) (p : String → Bool) (k : String) :
    get? (fs.filter fun e => p e.1) k = if p k then fs.get? k else none := by
  induction fs with
  | nil => simp [get?]
  | cons e fs ih =>
    obtain ⟨j, v⟩ := e
    unfold get? at ih ⊢
    by_cases hk : k = j
    · subst hk
      cases hp : p k with
      | true => simp [hp]
      | false => simpa [hp] using ih
    · have hb : (k == j) = false := by simpa using hk
      rw [List.lookup_cons, hb]
      cases hp : p j with
      | true => simpa [hp, List.lookup_cons, hb] using ih
      | false => simpa [hp] using ih

end Fields

/-- A value that may be there, or another one in its place. -/
theorem Value.distinct_getD {v? : Option Value} {w : Value} (h : ∀ v, v? = some v → v.Distinct)
    (hw : w.Distinct) : (v?.getD w).Distinct := by
  cases v? with
  | none => exact hw
  | some v => exact h v rfl

namespace Value.Distinct

variable {fields updates : Fields Value} {v : Value}

theorem empty : Distinct (.obj []) := .obj List.nodup_nil fun _ h => nomatch h

theorem keys (h : Distinct (.obj fields)) : fields.keys.Nodup := by
  cases h
  assumption

theorem field (h : Distinct (.obj fields)) {e : String × Value} (he : e ∈ fields) :
    e.2.Distinct := by
  cases h with
  | obj _ h => exact h e he

theorem get? (h : Distinct (.obj fields)) {k : String} (hv : fields.get? k = some v) :
    v.Distinct := h.field (Fields.mem_of_get? hv)

theorem getD (h : Distinct (.obj fields)) (k : String) : (Fields.getD fields k).Distinct :=
  distinct_getD (fun _ hv => h.get? hv) .null

theorem item {items : List Value} (h : Distinct (.list items)) (hv : v ∈ items) : v.Distinct := by
  cases h with
  | list h => exact h v hv

theorem set (h : Distinct (.obj fields)) (hv : v.Distinct) (k : String) :
    Distinct (.obj (Fields.set fields k v)) := by
  refine .obj (Fields.nodup_keys_set h.keys k v) fun e he => ?_
  obtain he | rfl := Fields.mem_set he
  · exact h.field he
  · exact hv

theorem merge (h : Distinct (.obj fields)) (hu : ∀ e ∈ updates, e.2.Distinct) :
    Distinct (.obj (Fields.merge fields updates)) := by
  induction updates generalizing fields with
  | nil => exact h
  | cons e updates ih =>
    exact ih (h.set (hu e (List.mem_cons_self ..)) e.1) fun d hd => hu d (List.mem_cons_of_mem _ hd)

end Value.Distinct

theorem Value.distinct_ofEntries {es : List (String × Value)} (h : ∀ e ∈ es, e.2.Distinct) :
    Distinct (.obj (Fields.ofEntries es)) := Distinct.empty.merge h

/-! ## Contexts -/

namespace Value

variable {v w : Value}

theorem Distinct.orElse (hv : v.Distinct) (hw : w.Distinct) : (v.orElse w).Distinct := by
  unfold Value.orElse
  split
  · exact hv
  · exact hw

theorem Distinct.of_below? (h : v.Distinct) {name : String} (hw : below? v name = .ok (some w)) :
    w.Distinct := by
  cases v with
  | obj fields => exact h.get? (Except.ok.inj hw)
  | list items =>
    simp only [below?, item?] at hw
    split at hw
    · obtain ⟨i, -, hi⟩ := except_map_ok_iff.mp hw
      exact h.item (List.mem_of_getElem? hi)
    · cases Except.ok.inj hw
  | _ => cases Except.ok.inj hw

/-- What a path leads to. -/
theorem Distinct.find (h : v.Distinct) {names : List String} (hw : find v names = .ok w) :
    w.Distinct := by
  induction names generalizing v with
  | nil => exact Except.ok.inj hw ▸ h
  | cons name names ih =>
    unfold Value.find at hw
    split at hw
    · cases hw
    · exact Except.ok.inj hw ▸ .null
    · rename_i u hu
      exact ih (h.of_below? hu) hw

end Value

namespace Context

variable {context : Context} {params resolved : Fields Value}

theorem distinct_resolve (hc : (Value.obj context).Distinct) {v w : Value} (hv : v.Distinct)
    (h : resolve context v = .ok w) : w.Distinct := by
  cases v with
  | str s =>
    simp only [resolve] at h
    split at h
    · exact Value.Distinct.find hc h
    · exact Except.ok.inj h ▸ hv
  | _ => exact Except.ok.inj h ▸ hv

/-- Parameters keep their names, and stand for what has distinct names. -/
theorem distinct_resolveAll (hc : (Value.obj context).Distinct) (hp : (Value.obj params).Distinct)
    (h : resolveAll context params = .ok resolved) : (Value.obj resolved).Distinct := by
  have hk := resolve_keys context params h
  refine .obj (hk ▸ hp.keys) ?_
  have hv : ∀ e ∈ params, e.2.Distinct := fun e => hp.field
  clear hp hk
  induction params generalizing resolved with
  | nil =>
    cases h
    exact fun _ he => nomatch he
  | cons p params ih =>
    unfold resolveAll at h
    split at h
    · cases h
    · rename_i w hw
      obtain ⟨rest, hr, rfl⟩ := except_map_ok_iff.mp h
      exact List.forall_mem_cons.mpr ⟨distinct_resolve hc (hv p (List.mem_cons_self ..)) hw,
        ih hr fun e he => hv e (List.mem_cons_of_mem _ he)⟩

end Context

/-! ## What values come to -/

namespace Value

variable {v w x : Value} {vs : List Value}

theorem Distinct.of_items? (h : v.Distinct) (hi : v.items? = some vs) : ∀ w ∈ vs, w.Distinct := by
  cases v with
  | list items =>
    cases hi
    exact fun w => h.item
  | str s =>
    cases hi
    exact List.forall_mem_map.mpr fun c _ => .str _
  | obj fields =>
    cases hi
    exact List.forall_mem_map.mpr fun e _ => .str _
  | _ => cases hi

theorem Distinct.of_items (h : v.Distinct) (hi : v.items = .ok vs) : ∀ w ∈ vs, w.Distinct := by
  unfold Value.items at hi
  split at hi
  · rename_i hi'
    cases hi
    exact h.of_items? hi'
  · cases hi

theorem distinct_entry {i : Nat} {e : String × Value} (h : v.Distinct) (he : entry i v = .ok e) :
    e.2.Distinct := by
  unfold entry at he
  split at he
  · cases he
  · rename_i k w hi
    obtain ⟨name, -, rfl⟩ := except_map_ok_iff.mp he
    exact h.of_items? hi w (by simp)
  · cases he

theorem distinct_entries {i : Nat} {es : List (String × Value)} (h : ∀ v ∈ vs, v.Distinct)
    (he : entries i vs = .ok es) : ∀ e ∈ es, e.2.Distinct := by
  induction vs generalizing i es with
  | nil =>
    cases he
    exact fun _ h => nomatch h
  | cons v vs ih =>
    unfold entries at he
    split at he
    · cases he
    · rename_i e hv
      obtain ⟨rest, hr, rfl⟩ := except_map_ok_iff.mp he
      exact List.forall_mem_cons.mpr ⟨distinct_entry (h v (List.mem_cons_self ..)) hv,
        ih (fun u hu => h u (List.mem_cons_of_mem _ hu)) hr⟩

theorem Distinct.asFields (h : v.Distinct) {fields : Fields Value} (hf : v.asFields = .ok fields) :
    (Value.obj fields).Distinct := by
  unfold Value.asFields at hf
  split at hf
  · cases hf
    exact h
  · split at hf
    · cases hf
    · rename_i vs hi
      obtain ⟨es, he, rfl⟩ := except_map_ok_iff.mp hf
      exact distinct_ofEntries (distinct_entries (h.of_items hi) he)

theorem distinct_lift {onInt : Int → Int → Int} {onFloat : Float → Float → Float} {a b : Number}
    (h : a.lift onInt onFloat b = .ok x) : x.Distinct := by
  unfold Number.lift at h
  split at h
  · cases h
    exact .int _
  · split at h
    · cases h
      exact .float _
    · cases h

/-- A sum. -/
theorem Distinct.plus (hv : v.Distinct) (hw : w.Distinct) {place : Place}
    (h : v.plus place w = .ok x) : x.Distinct := by
  unfold Value.plus at h
  split at h
  · exact distinct_lift h
  · split at h
    · cases h
      exact .str _
    · cases h
    · cases h
      exact .list (List.forall_mem_append.mpr ⟨fun u => hv.item, fun u => hw.item⟩)
    · split at h
      · cases h
      · split at h
        · rename_i hi
          cases h
          exact .list (List.forall_mem_append.mpr ⟨fun u => hv.item, hw.of_items? hi⟩)
        · cases h
    · cases h

theorem distinct_repeatText {s : String} {n : Int} (h : repeatText s n = .ok x) : x.Distinct := by
  unfold repeatText at h
  split at h
  · cases h
  · split at h
    · cases h
    · split at h
      · cases h
      · cases h
        exact .str _

theorem distinct_repeatItems {n : Int} (hv : (Value.list vs).Distinct)
    (h : repeatItems vs n = .ok x) : x.Distinct := by
  unfold repeatItems at h
  split at h
  · cases h
  · split at h
    · cases h
    · cases h
      refine .list fun u hu => ?_
      obtain ⟨l, hl, hu⟩ := List.mem_flatten.mp hu
      exact hv.item (List.eq_of_mem_replicate hl ▸ hu)

/-- A product. -/
theorem Distinct.times (hv : v.Distinct) (hw : w.Distinct) (h : v.times w = .ok x) :
    x.Distinct := by
  unfold Value.times at h
  split at h
  · exact distinct_lift h
  · split at h
    · exact distinct_repeatText h
    · exact distinct_repeatItems hw h
    · cases h
  · split at h
    · exact distinct_repeatText h
    · exact distinct_repeatItems hv h
    · cases h
  · split at h <;> cases h

end Value

/-! ## Documents -/

namespace Json

variable {n : Nat} {cs rest : List Char} {v : Value}

theorem distinct_of_readUnsigned? {negative : Bool}
    (h : readUnsigned? negative cs = some (.ok (v, rest))) : v.Distinct := by
  obtain ⟨whole, -, h⟩ := Option.map_eq_some_iff.mp h
  dsimp only at h
  split at h
  · cases h
    exact .float _
  · split at h
    · cases h
    · cases h
      exact .int _

theorem distinct_of_readScalar (h : readScalar cs = .ok (v, rest)) : v.Distinct := by
  have hw : ∀ w ∈ words, w.2.Distinct := by
    simp only [words, List.forall_mem_cons]
    exact ⟨.null, .bool _, .bool _, .float _, .float _, .float _, fun _ h => nomatch h⟩
  unfold readScalar at h
  split at h
  · rename_i r hr
    obtain ⟨w, hm, hr⟩ := List.exists_of_findSome?_eq_some hr
    obtain ⟨rest', -, rfl⟩ := Option.map_eq_some_iff.mp hr
    cases h
    exact hw w hm
  · cases hn : readNumber? cs with
    | none =>
      rw [hn] at h
      cases h
    | some r =>
      rw [hn] at h
      cases h
      unfold readNumber? at hn
      split at hn <;> exact distinct_of_readUnsigned? hn

/-- What is read has distinct names: a value, the items of a list, and the fields of an object. -/
theorem distinct_of_readParts (n : Nat) :
    (∀ {cs rest v}, readValue n cs = .ok (v, rest) → v.Distinct) ∧
    (∀ {cs rest vs}, readItems n cs = .ok (vs, rest) → ∀ v ∈ vs, v.Distinct) ∧
    ∀ {cs rest es}, readFields n cs = .ok (es, rest) → ∀ e ∈ es, e.2.Distinct := by
  induction n with
  | zero =>
    refine ⟨fun h => ?_, fun h => ?_, fun h => ?_⟩ <;> cases h
  | succ n ih =>
    obtain ⟨ihv, ihi, ihf⟩ := ih
    refine ⟨fun {cs rest v} h => ?_, fun {cs rest vs} h => ?_, fun {cs rest es} h => ?_⟩
    · unfold readValue at h
      split at h
      · obtain ⟨r, -, h⟩ := except_map_ok_iff.mp h
        cases h
        exact .str _
      · split at h
        · cases h
          exact .empty
        · obtain ⟨r, hr, h⟩ := except_map_ok_iff.mp h
          cases h
          exact Value.distinct_ofEntries (ihf hr)
      · split at h
        · cases h
          exact .list fun _ h => nomatch h
        · obtain ⟨r, hr, h⟩ := except_map_ok_iff.mp h
          cases h
          exact .list (ihi hr)
      · exact distinct_of_readScalar h
    · unfold readItems at h
      split at h
      · cases h
      · rename_i v rest hv
        have hv := ihv hv
        split at h
        · cases h
          simpa using hv
        · obtain ⟨r, hr, h⟩ := except_map_ok_iff.mp h
          cases h
          exact List.forall_mem_cons.mpr ⟨hv, ihi hr⟩
        · cases h
    · unfold readFields at h
      split at h
      · split at h
        · cases h
        · split at h
          · split at h
            · cases h
            · rename_i v rest hv
              have hv := ihv hv
              split at h
              · cases h
                simpa using hv
              · obtain ⟨r, hr, h⟩ := except_map_ok_iff.mp h
                cases h
                exact List.forall_mem_cons.mpr ⟨hv, ihf hr⟩
              · cases h
          · cases h
      · cases h

/-- A document describes a value with distinct names. -/
theorem distinct_of_read {s : String} (h : read s = .ok v) : v.Distinct := by
  have h := except_mapError_ok_iff.mp h
  unfold readDocument at h
  split at h
  · cases h
  · split at h
    · cases h
    · rename_i w rest hv
      split at h
      · cases h
        exact (distinct_of_readParts _).1 hv
      · cases h

end Json

end Workflow
