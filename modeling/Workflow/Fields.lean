/-!
# Ordered fields

A mapping from names to values that remembers the order in which its names were first written.
Writing a name that is present replaces its value and keeps its place.

Results:
* `get?_set_self`, `get?_set_of_ne`: what a write changes and what it leaves.
* `keys_set`: a new name goes to the end, a known one stays where it is.
-/
namespace Workflow

/-- Names with values, in the order of first writing. -/
abbrev Fields (α : Type) := List (String × α)

namespace Fields

variable {α : Type}

/-- The value under a name. -/
def get? (fs : Fields α) (k : String) : Option α := List.lookup k fs

def has (fs : Fields α) (k : String) : Bool := fs.any (·.1 == k)

def keys (fs : Fields α) : List String := fs.map (·.1)

/-- Writes a value: in place if the name is known, else at the end. -/
def set (fs : Fields α) (k : String) (v : α) : Fields α :=
  if fs.has k then List.map (fun e => if e.1 = k then (k, v) else e) fs else fs ++ [(k, v)]

/-- The fields without a name. -/
def erase (fs : Fields α) (k : String) : Fields α := List.filter (fun e => e.1 != k) fs

/-- The fields with every entry of `updates` written in turn. -/
def merge (fs updates : Fields α) : Fields α := List.foldl (fun acc e => set acc e.1 e.2) fs updates

/-- The fields that a list of entries writes: of two entries with one name the last value and the
first place count. -/
def ofEntries (es : List (String × α)) : Fields α := merge [] es

theorem has_eq_isSome (fs : Fields α) (k : String) : fs.has k = (fs.get? k).isSome := by
  induction fs with
  | nil => rfl
  | cons e fs ih =>
    obtain ⟨k', v⟩ := e
    simp only [has, get?, List.any_cons, List.lookup_cons] at *
    by_cases h : k' = k
    · subst h; simp
    · have h' : (k == k') = false := by simpa using fun e => h e.symm
      simp [h, h', ih]

theorem get?_map_set (fs : Fields α) (k j : String) (v : α) :
    get? (List.map (fun e => if e.1 = k then (k, v) else e) fs) j =
      if j = k then (if fs.has k then some v else none) else fs.get? j := by
  induction fs with
  | nil => simp [get?, has]
  | cons e fs ih =>
    obtain ⟨k', w⟩ := e
    simp only [get?, has, List.map_cons, List.any_cons] at *
    by_cases hk : k' = k
    · subst hk
      by_cases hj : j = k'
      · subst hj; simp
      · have : (j == k') = false := by simpa using hj
        simp [hj, List.lookup_cons, this, ih]
    · have hb : (k' == k) = false := by simpa using hk
      by_cases hj : j = k'
      · subst hj; simp [hk]
      · have : (j == k') = false := by simpa using hj
        simp only [hk, if_false, List.lookup_cons, this, ih, hb, Bool.false_or]; rfl

theorem get?_append_single (fs : Fields α) (k j : String) (v : α) (h : fs.has k = false) :
    get? (fs ++ [(k, v)]) j = if j = k then some v else fs.get? j := by
  induction fs with
  | nil =>
    by_cases hj : j = k
    · subst hj; simp [get?]
    · have : (j == k) = false := by simpa using hj
      simp [get?, List.lookup_cons, this, hj]
  | cons e fs ih =>
    obtain ⟨k', w⟩ := e
    simp only [has, List.any_cons, Bool.or_eq_false_iff] at h
    have ih := ih h.2
    simp only [get?, List.cons_append, List.lookup_cons] at *
    by_cases hj : j = k'
    · subst hj; have : j ≠ k := by simpa using h.1
      simp [this]
    · have : (j == k') = false := by simpa using hj
      simp [this, ih]

theorem get?_set (fs : Fields α) (k j : String) (v : α) :
    (fs.set k v).get? j = if j = k then some v else fs.get? j := by
  unfold set
  cases h : fs.has k with
  | true => simp [get?_map_set, h]
  | false => simp [get?_append_single fs k j v h]

@[simp] theorem get?_set_self (fs : Fields α) (k : String) (v : α) :
    (fs.set k v).get? k = some v := by simp [get?_set]

theorem get?_set_of_ne (fs : Fields α) {k j : String} (v : α) (h : j ≠ k) :
    (fs.set k v).get? j = fs.get? j := by simp [get?_set, h]

theorem keys_set (fs : Fields α) (k : String) (v : α) :
    (fs.set k v).keys = if fs.has k then fs.keys else fs.keys ++ [k] := by
  unfold set
  cases h : fs.has k with
  | false => simp [keys]
  | true =>
    simp only [keys, if_true, List.map_map]
    apply List.map_congr_left
    intro e _
    by_cases he : e.1 = k <;> simp [he]

end Fields
end Workflow
