import Mathlib.Data.List.Induction
import Workflow.Context
import Workflow.Proofs.Value.Distinct

/-!
# Updates that are combined before they are merged

To merge an update is to write its entries one after the other. A name that an update already has
is overwritten in place, and a name that it lacks is put at its end; either way the context sees one
more write at the end. So merging is associative, as an operation on ordered fields: updates may be
merged into a context in turn, or into each other first, in any groups.

Results:
* `set_comm`: writes under two names change places if one of the names is there already.
* `merge_set`: to write into an update is to write behind it.
* `merge_merge`, `merge_self`: merging is associative, and an update counts once.
* `foldl_update_groups`: updates merged in turn, or in groups that are combined first.
* `updates_combine`: these laws, and what stands under which name at which place, for updates that
  may be absent.
-/
namespace Workflow

namespace Fields

variable {α : Type}

/-! ## Writing twice -/

theorem has_set_of_ne (fs : Fields α) {j k : String} (h : j ≠ k) (v : α) :
    (fs.set k v).has j = fs.has j := by
  rw [has_eq_isSome, get?_set_of_ne fs v h, ← has_eq_isSome]

theorem has_set_of_has {fs : Fields α} {j : String} (h : fs.has j = true) (k : String) (v : α) :
    (fs.set k v).has j = true := by
  by_cases hjk : j = k
  · subst hjk
    exact has_set_self fs j v
  · rw [has_set_of_ne fs hjk, h]

/-- Writes under two names change places if one of the names is there already. If both were new,
the first write would get the first place. -/
theorem set_comm {fs : Fields α} {j k : String} (h : fs.has j = true) (hne : j ≠ k) (v w : α) :
    (fs.set k v).set j w = (fs.set j w).set k v := by
  have hj : (fs.set k v).has j = true := has_set_of_has h k v
  have hk : (fs.set j w).has k = fs.has k := has_set_of_ne fs hne.symm w
  rw [set, if_pos hj, set.eq_def (fs.set j w), hk]
  unfold set
  rw [if_pos h]
  cases fs.has k with
  | true =>
    rw [if_pos rfl, if_pos rfl, List.map_map, List.map_map]
    apply List.map_congr_left
    intro e _
    by_cases he : e.1 = k
    · have : e.1 ≠ j := fun h => hne (h.symm.trans he)
      simp [he, hne.symm]
    · by_cases hj : e.1 = j <;> simp [he, hj, hne]
  | false => simp [hne.symm]

/-! ## Merging -/

theorem has_merge (fs us : Fields α) (k : String) :
    (merge fs us).has k = (fs.has k || us.has k) := by
  rw [Bool.eq_iff_iff, Bool.or_eq_true, has_iff_mem_keys, keys_merge, List.mem_append,
    List.mem_eraseDups, List.mem_filter, ← has_iff_mem_keys, ← has_iff_mem_keys]
  cases fs.has k <;> simp

/-- To overwrite a name of an update is to write behind it. -/
theorem merge_set_of_has (fs : Fields α) {us : Fields α} {k : String} (h : us.has k = true)
    (v : α) : merge fs (us.set k v) = (merge fs us).set k v := by
  induction us using List.reverseRecOn with
  | nil => cases h
  | append_singleton us e ih =>
    obtain ⟨j, w⟩ := e
    rw [merge_concat]
    by_cases hu : has us k = true
    · have hm : (merge fs us).has k = true := by rw [has_merge, hu, Bool.or_true]
      by_cases hj : j = k
      · subst hj
        have hs : set (us ++ [(j, w)]) j v = set us j v ++ [(j, v)] := by simp [set, h, hu]
        rw [hs, merge_concat, ih hu, set_set, set_set]
      · have hs : set (us ++ [(j, w)]) k v = set us k v ++ [(j, w)] := by simp [set, h, hu, hj]
        rw [hs, merge_concat, ih hu, ← set_comm hm (Ne.symm hj)]
    · -- the last entry is the only one with the name
      have hj : j = k := by
        have : has us k = true ∨ j = k := by simpa [has] using h
        exact this.resolve_left hu
      subst hj
      have hs : set (us ++ [(j, w)]) j v = us ++ [(j, v)] := by
        rw [set, if_pos h, List.map_append, overwrite_of_not_has (Bool.eq_false_iff.mpr hu)]
        simp
      rw [hs, merge_concat, set_set]

/-- To write into an update is to write behind it. -/
theorem merge_set (fs us : Fields α) (k : String) (v : α) :
    merge fs (us.set k v) = (merge fs us).set k v := by
  by_cases h : us.has k = true
  · exact merge_set_of_has fs h v
  · rw [set, if_neg h, merge_concat]

/-- Updates may be merged into fields one after the other, or into each other first. -/
theorem merge_merge (fs us vs : Fields α) : merge (merge fs us) vs = merge fs (merge us vs) := by
  induction vs using List.reverseRecOn with
  | nil => rfl
  | append_singleton vs e ih => rw [merge_concat, merge_concat, merge_set, ih]

/-- A value that is written over later need not be written first, if no name is new. -/
theorem set_merge_set {fs us : Fields α} (h : ∀ j ∈ us.keys, fs.has j = true) (k : String)
    (v w : α) : (merge (fs.set k v) us).set k w = (merge fs us).set k w := by
  induction us generalizing fs with
  | nil => exact set_set fs k v w
  | cons e us ih =>
    obtain ⟨j, x⟩ := e
    obtain ⟨hj, hus⟩ := List.forall_mem_cons.mp h
    show (merge ((fs.set k v).set j x) us).set k w = (merge (fs.set j x) us).set k w
    by_cases hjk : j = k
    · subst hjk
      rw [set_set]
    · rw [set_comm hj hjk]
      exact ih fun i hi => has_set_of_has (hus i hi) j x

/-- An update that is merged twice counts once. -/
theorem merge_self (fs us : Fields α) : merge (merge fs us) us = merge fs us := by
  induction us using List.reverseRecOn with
  | nil => rfl
  | append_singleton us e ih =>
    obtain ⟨k, w⟩ := e
    have hus : ∀ j ∈ keys us, (merge fs us).has j = true := by
      intro j hj
      rw [has_merge, (has_iff_mem_keys us j).mpr hj, Bool.or_true]
    calc merge (merge fs (us ++ [(k, w)])) (us ++ [(k, w)])
        = (merge ((merge fs us).set k w) us).set k w := by rw [merge_concat, merge_concat]
      _ = (merge (merge fs us) us).set k w := set_merge_set hus k w w
      _ = merge fs (us ++ [(k, w)]) := by rw [ih, merge_concat]

theorem nodup_keys_merge {fs : Fields α} (h : fs.keys.Nodup) (us : Fields α) :
    (merge fs us).keys.Nodup := by
  induction us using List.reverseRecOn with
  | nil => exact h
  | append_singleton us e ih =>
    rw [merge_concat]
    exact nodup_keys_set ih e.1 e.2

/-- Updates may be merged into nothing first, and what they come to into the fields. -/
theorem merge_foldl (fs : Fields α) (us : List (Fields α)) :
    merge fs (us.foldl merge []) = us.foldl merge fs := by
  rw [foldl_merge, ← merge_merge, foldl_merge]
  rfl

end Fields

namespace Context

/-- The entries that an update writes; one that is absent writes none. -/
def entries (updates? : Option Context) : Context := updates?.getD []

theorem update_eq_merge (context : Context) (updates? : Option Context) :
    update context updates? = Fields.merge context (entries updates?) := by
  cases updates? <;> rfl

theorem foldl_update (context : Context) (us : List (Option Context)) :
    us.foldl update context = (us.map entries).foldl Fields.merge context := by
  rw [List.foldl_map]
  congr
  funext context updates?
  exact update_eq_merge context updates?

theorem update_foldl (context : Context) (us : List (Option Context)) :
    update context (some (us.foldl update [])) = us.foldl update context := by
  rw [foldl_update, foldl_update]
  exact Fields.merge_foldl context (us.map entries)

/-- Updates merged in turn come to the same as groups of them, each combined first. -/
theorem foldl_update_groups (context : Context) (groups : List (List (Option Context))) :
    (groups.map fun us => some (us.foldl update [])).foldl update context =
      groups.flatten.foldl update context := by
  induction groups generalizing context with
  | nil => rfl
  | cons us groups ih =>
    rw [List.map_cons, List.foldl_cons, update_foldl, ih, List.flatten_cons, List.foldl_append]

/-- What no update has is not among their entries. -/
theorem has_entries {us : List (Option Context)} {k : String}
    (h : ∀ w : Context, some w ∈ us → w.has k = false) :
    ∀ w ∈ us.map entries, Fields.has w k = false := by
  intro w hw
  obtain ⟨u?, hu, rfl⟩ := List.mem_map.mp hw
  cases u? with
  | none => rfl
  | some u => exact h u hu

/-- **Updates may be combined.** Merging is associative, an absent or an empty update changes
nothing, and one that is merged twice counts once; all this holds of the fields with their order.
So any number of updates, absent ones among them, come to the same if they are merged in turn and
if groups of them are combined first, up to one update in place of all. Under a name stands the
whole value of the last update that has the name, or what stood there at first. The names of the
context keep their places, new ones follow in the order in which they first appear, and no name
comes up twice. -/
theorem updates_combine (context : Context) :
    (∀ (u : Context) (v? : Option Context),
      update (update context (some u)) v? = update context (some (update u v?))) ∧
    (update context none = context ∧ update context (some []) = context) ∧
    (∀ u? : Option Context, update (update context u?) u? = update context u?) ∧
    (∀ groups : List (List (Option Context)),
      (groups.map fun us => some (us.foldl update [])).foldl update context =
        groups.flatten.foldl update context) ∧
    (∀ (before after : List (Option Context)) (u : Context) (k : String), u.keys.Nodup →
      u.has k = true → (∀ w : Context, some w ∈ after → w.has k = false) →
      ((before ++ some u :: after).foldl update context).get? k = u.get? k) ∧
    ∀ us : List (Option Context),
      (∀ k, (∀ w : Context, some w ∈ us → w.has k = false) →
        (us.foldl update context).get? k = context.get? k) ∧
      (us.foldl update context).keys = context.keys ++
        ((us.flatMap fun u? => (entries u?).keys).filter fun k => !context.has k).eraseDups ∧
      (context.keys.Nodup → (us.foldl update context).keys.Nodup) := by
  refine ⟨fun u v? => ?_, ⟨rfl, rfl⟩, fun u? => ?_, foldl_update_groups context, ?_,
    fun us => ⟨fun k h => ?_, ?_, fun h => ?_⟩⟩
  · simp only [update_eq_merge]
    exact Fields.merge_merge context u (entries v?)
  · rw [update_eq_merge, update_eq_merge, Fields.merge_self]
  · intro before after u k hu hk ha
    rw [foldl_update, List.map_append, List.map_cons]
    show (List.foldl Fields.merge context (before.map entries ++ u :: after.map entries)).get? k = _
    rw [Fields.get?_foldl_merge_of_last hk (has_entries ha), Fields.ofEntries_of_nodup hu]
  · rw [foldl_update, Fields.get?_foldl_merge_of_none (has_entries h)]
  · rw [foldl_update, Fields.keys_foldl_merge, List.flatMap_map]
  · rw [foldl_update, Fields.foldl_merge]
    exact Fields.nodup_keys_merge h _

/-- A context with an object in it. -/
def nested : Context := [("a", .obj [("x", .int 1)])]

/-- An update that has the name of the object. -/
def renewal : Context := [("b", .int 1), ("a", .obj [("y", .int 2)])]

/-- The object is replaced whole, and in its place. -/
theorem updates_combine_nested :
    (renewal.keys.Nodup ∧ renewal.has "a" = true ∧
      (∀ w : Context, some w ∈ [none, some ([("c", .null)] : Context)] → w.has "a" = false) ∧
      nested.keys.Nodup) ∧
    let last := [some [("a", .null)], some renewal, none, some [("c", .null)]].foldl update nested
    last.get? "a" = some (.obj [("y", .int 2)]) ∧ last.keys = ["a", "b", "c"] ∧
      last.keys.Nodup := by
  have hu : renewal.keys.Nodup := by decide
  have hk : renewal.has "a" = true := by decide
  have ha : ∀ w : Context, some w ∈ [none, some ([("c", .null)] : Context)] →
      w.has "a" = false := by
    intro w hw
    simp at hw
    subst hw
    decide
  have hn : nested.keys.Nodup := by decide
  obtain ⟨-, -, -, -, hlast, hall⟩ := updates_combine nested
  obtain ⟨-, hkeys, hnodup⟩ := hall [some [("a", .null)], some renewal, none, some [("c", .null)]]
  refine ⟨⟨hu, hk, ha, hn⟩, ?_, ?_, hnodup hn⟩
  · exact hlast [some [("a", .null)]] [none, some [("c", .null)]] renewal "a" hu hk ha
  · exact hkeys

end Context
end Workflow
