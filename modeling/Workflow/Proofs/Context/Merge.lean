import Mathlib.Data.List.Induction
import Workflow.Fields

/-!
# Contexts that are merged

Many updates are merged into a context one after another. The names that the context had keep their
places, and the others follow in the order in which they are first written. The value under a name
is that of the last update that has one.

Results:
* `merge_append`: updates are merged one by one, or all at once.
* `set_set`: of two writes under one name the second counts.
* `keys_merge`, `get?_merge`: what entries that are written in turn come to.
* `keys_foldl_merge`, `keys_foldl_merge_prefix`: where the names stand.
* `get?_foldl_merge_of_last`, `get?_foldl_merge_of_none`: what stands under a name.
-/
namespace Workflow.Fields

variable {α : Type}

/-! ## Entries that are written in turn -/

theorem merge_append (fs us vs : Fields α) : merge fs (us ++ vs) = merge (merge fs us) vs :=
  List.foldl_append

theorem merge_concat (fs us : Fields α) (k : String) (v : α) :
    merge fs (us ++ [(k, v)]) = (merge fs us).set k v := merge_append ..

theorem has_set_self (fs : Fields α) (k : String) (v : α) : (fs.set k v).has k = true := by
  rw [has_eq_isSome, get?_set_self]
  rfl

/-- Where a name is missing there is nothing to overwrite. -/
theorem overwrite_of_not_has {fs : Fields α} {k : String} (h : fs.has k = false) (v : α) :
    List.map (fun e => if e.1 = k then (k, v) else e) fs = fs := by
  have hne : ∀ e ∈ fs, e.1 ≠ k := by simpa [has] using h
  exact (List.map_congr_left fun e he => if_neg (hne e he)).trans (List.map_id' fs)

/-- Of two writes under one name the second counts. -/
theorem set_set (fs : Fields α) (k : String) (v w : α) : (fs.set k v).set k w = fs.set k w := by
  rw [set, if_pos (has_set_self fs k v)]
  unfold set
  cases h : fs.has k with
  | true =>
    rw [if_pos rfl, if_pos rfl, List.map_map]
    refine List.map_congr_left fun e _ => ?_
    by_cases he : e.1 = k <;> simp [he]
  | false => simp [overwrite_of_not_has h]

theorem has_iff_mem_keys (fs : Fields α) (k : String) : fs.has k = true ↔ k ∈ fs.keys := by
  simp [has, keys]

/-- What stands under a name is one of the fields. -/
theorem mem_of_get? {fs : Fields α} {k : String} {v : α} (h : fs.get? k = some v) :
    (k, v) ∈ fs := by
  obtain ⟨before, after, rfl, -⟩ := List.lookup_eq_some_iff.mp h
  simp

/-- The value under a name is that of the last entry with the name. -/
theorem get?_merge (fs us : Fields α) (k : String) :
    (merge fs us).get? k = (get? us.reverse k).or (fs.get? k) := by
  induction us using List.reverseRecOn with
  | nil => rfl
  | append_singleton us e ih =>
    obtain ⟨j, v⟩ := e
    rw [merge_concat, get?_set, List.reverse_append]
    by_cases hj : k = j
    · subst hj
      simp [get?]
    · have hb : (k == j) = false := by simpa using hj
      rw [if_neg hj, ih]
      simp [get?, List.lookup_cons, hb]

/-- The names keep their places, and new ones follow in the order of first writing. -/
theorem keys_merge (fs us : Fields α) :
    (merge fs us).keys = fs.keys ++ (us.keys.filter fun k => !fs.has k).eraseDups := by
  induction us using List.reverseRecOn with
  | nil => simp [merge, keys]
  | append_singleton us e ih =>
    obtain ⟨j, v⟩ := e
    have hk : keys (us ++ [(j, v)]) = keys us ++ [j] := by simp [keys]
    have hn : (merge fs us).has j = true ↔ fs.has j = true ∨ j ∈ keys us := by
      rw [has_iff_mem_keys, ih, List.mem_append, List.mem_eraseDups, List.mem_filter,
        ← has_iff_mem_keys]
      cases fs.has j <;> simp
    rw [merge_concat, keys_set, hk, List.filter_append]
    cases hf : fs.has j with
    | true =>
      -- the context has the name
      rw [if_pos (hn.mpr (.inl hf)), ih]
      simp [hf]
    | false =>
      by_cases hu : j ∈ keys us
      · -- the name has been written before
        rw [if_pos (hn.mpr (.inr hu)), ih, List.eraseDups_append]
        simp [hf, hu, List.removeAll]
      · have hm : ¬ (merge fs us).has j = true := fun h => by simp [hn, hf, hu] at h
        rw [if_neg hm, ih, List.eraseDups_append]
        simp [hf, hu, List.removeAll, List.eraseDups_cons]

/-! ## Updates that are merged in turn -/

theorem foldl_merge (fs : Fields α) (us : List (Fields α)) :
    us.foldl merge fs = merge fs us.flatten := by
  induction us generalizing fs with
  | nil => rfl
  | cons u us ih => rw [List.foldl_cons, ih, List.flatten_cons, merge_append]

theorem keys_foldl_merge (fs : Fields α) (us : List (Fields α)) :
    (us.foldl merge fs).keys =
      fs.keys ++ ((us.flatMap keys).filter fun k => !fs.has k).eraseDups := by
  have hk : keys us.flatten = us.flatMap keys := List.map_flatten
  rw [foldl_merge, keys_merge, hk]

/-- No name goes away, and none changes its place. -/
theorem keys_foldl_merge_prefix (fs : Fields α) (us vs : List (Fields α)) :
    (us.foldl merge fs).keys <+: ((us ++ vs).foldl merge fs).keys := by
  rw [List.foldl_append, keys_foldl_merge (us.foldl merge fs) vs]
  exact List.prefix_append ..

/-- The value of an update under a name counts if no later update has the name. -/
theorem get?_foldl_merge_of_last {fs u : Fields α} {before after : List (Fields α)} {k : String}
    (hu : u.has k = true) (ha : ∀ w ∈ after, w.has k = false) :
    ((before ++ u :: after).foldl merge fs).get? k = (ofEntries u).get? k := by
  have hnone : get? after.flatten.reverse k = none := by
    rw [← Option.not_isSome_iff_eq_none, ← has_eq_isSome, has_iff_mem_keys]
    intro hk
    obtain ⟨e, he, rfl⟩ := List.mem_map.mp hk
    obtain ⟨w, hw, he⟩ := List.mem_flatten.mp (List.mem_reverse.mp he)
    have := ha w hw
    rw [← Bool.not_eq_true, has_iff_mem_keys] at this
    exact this (List.mem_map_of_mem he)
  have hsome : (get? u.reverse k).isSome = true := by
    rw [← has_eq_isSome, has_iff_mem_keys]
    rw [has_iff_mem_keys] at hu
    simpa [keys] using hu
  obtain ⟨v, hv⟩ := Option.isSome_iff_exists.mp hsome
  rw [List.foldl_append, List.foldl_cons, foldl_merge _ after, get?_merge, hnone, Option.none_or,
    get?_merge, ofEntries, get?_merge, hv, Option.some_or, Option.some_or]

/-- What stands under a name that no update has is what stood there at first. -/
theorem get?_foldl_merge_of_none {fs : Fields α} {us : List (Fields α)} {k : String}
    (h : ∀ u ∈ us, u.has k = false) : (us.foldl merge fs).get? k = fs.get? k := by
  induction us generalizing fs with
  | nil => rfl
  | cons u us ih =>
    have hu : get? u.reverse k = none := by
      rw [← Option.not_isSome_iff_eq_none, ← has_eq_isSome, has_iff_mem_keys]
      have := h u (List.mem_cons_self ..)
      rw [← Bool.not_eq_true, has_iff_mem_keys] at this
      simpa [keys] using this
    rw [List.foldl_cons, ih fun w hw => h w (List.mem_cons_of_mem _ hw), get?_merge, hu,
      Option.none_or]

end Workflow.Fields
