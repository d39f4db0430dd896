import Workflow.Context

/-!
# Paths that cannot be walked

A name that looks like the number of an item need not be a numeral: it may hold a digit that is no
decimal digit, or more digits than are ever read. Where such a name meets a list the path has no
value at all, not even null.

Results:
* `read_of_isReadable`, `read_error_iff`: of the names that look like numbers, those of at most 4300
  decimal digits are read.
* `find_error_iff`: a path has no value exactly if such a name meets a list.
* `resolveAll_error_iff`: the same for the parameters of an action.
-/
namespace Workflow

open Text Decimal

namespace Path

/-- Can the number that a name looks like be read? -/
def isReadable (name : String) : Bool :=
  name.toList.all isDecimal && name.toList.length ≤ digitLimit

end Path

namespace Numeral

/-! ## Names that look like numbers -/

theorem isDecimal_not_blank {c : Char} (h : isDecimal c = true) : isBlank c = false := by
  obtain ⟨d, hd⟩ := Option.isSome_iff_exists.mp h
  obtain ⟨z, hz, -⟩ := Option.map_eq_some_iff.mp hd
  have hm : z ∈ digitZeros := List.mem_of_find?_eq_some hz
  have hr := List.find?_some hz
  simp only [Bool.and_eq_true, decide_eq_true_eq] at hr
  -- between a blank and a zero lie either ten places or none
  have far : ∀ z ∈ digitZeros, ∀ r ∈ blankRanges, r.2 < z ∨ z + 10 ≤ r.1 := by decide
  rw [isBlank, inRanges, List.any_eq_false]
  intro r hb
  have := far z hm r hb
  simp only [Bool.and_eq_true, decide_eq_true_eq]
  omega

theorem isDigitLike_not_blank {c : Char} (h : isDigitLike c = true) : isBlank c = false := by
  rcases Bool.or_eq_true .. ▸ h with hd | hn
  · exact isDecimal_not_blank hd
  · obtain ⟨q, hq, hc⟩ := List.any_eq_true.mp hn
    have far : ∀ q ∈ nonDecimalDigitRanges, ∀ r ∈ blankRanges, r.2 < q.1 ∨ q.2 < r.1 := by decide
    simp only [Bool.and_eq_true, decide_eq_true_eq] at hc
    rw [isBlank, inRanges, List.any_eq_false]
    intro r hb
    have := far q hq r hb
    simp only [Bool.and_eq_true, decide_eq_true_eq]
    omega

theorem isPadding_of_isDigitLike {c : Char} (h : isDigitLike c = true) (ascii : Bool) :
    isPadding ascii c = false := by
  have hb := isDigitLike_not_blank h
  cases ascii <;> simp [isPadding, isSpace, hb]

theorem sign_of_isDigitLike {c : Char} (h : isDigitLike c = true) (cs : List Char) :
    sign (c :: cs) = (false, c :: cs) := by
  have hm : c ≠ '-' := fun e => by subst e; revert h; decide
  have hp : c ≠ '+' := fun e => by subst e; revert h; decide
  unfold sign
  split
  · rename_i e; exact absurd (List.cons.inj e).1 hm
  · rename_i e; exact absurd (List.cons.inj e).1 hp
  · rfl

/-- Digits are taken up to the first character that is none. -/
theorem underscored?_append {ds rest : List Char} (h : ∀ c ∈ ds, isDecimal c = true)
    (hr : ∀ c ∈ rest.head?, isDecimal c = false ∧ c ≠ '_') (b : Bool) :
    underscored? b (ds ++ rest) = some (digitValues ds, rest) := by
  induction ds generalizing b with
  | nil =>
    cases rest with
    | nil => rfl
    | cons c cs =>
      obtain ⟨hd, hu⟩ := hr c rfl
      have hn : digitValue? c = none := by simpa [isDecimal] using hd
      simp [underscored?, hn, hu, digitValues]
  | cons c cs ih =>
    obtain ⟨d, hd⟩ := Option.isSome_iff_exists.mp (h c (List.mem_cons_self ..))
    have ih := ih (fun c hc => h c (List.mem_cons_of_mem _ hc)) true
    simp [underscored?, hd, ih, digitValues]

/-- What is read of a name that looks like a number. -/
theorem read_isNumber {name : String} (h : Path.isNumber name = true) {ds rest : List Char}
    (hs : name.toList = ds ++ rest) (hd : ∀ c ∈ ds, isDecimal c = true)
    (hr : ∀ c ∈ rest.head?, isDecimal c = false) :
    read name = match wholeOf (digitValues ds) with
      | .error t => .error (.tooLong t)
      | .ok n => if rest = [] then .ok n else .error (.notANumeral name) := by
  simp only [Path.isNumber, Bool.and_eq_true, Bool.not_eq_true', List.all_eq_true] at h
  obtain ⟨hne, hall⟩ := h
  have hr' : ∀ c ∈ rest.head?, isDecimal c = false ∧ c ≠ '_' := by
    intro c hc
    refine ⟨hr c hc, ?_⟩
    rintro rfl
    have hm : '_' ∈ name.toList := by
      rw [hs]; exact List.mem_append_right _ (List.mem_of_mem_head? hc)
    exact absurd (hall _ hm) (by decide)
  obtain ⟨c, cs, hc⟩ : ∃ c cs, name.toList = c :: cs := by
    cases e : name.toList with
    | nil => simp [String.toList_eq_nil_iff.mp e] at hne
    | cons c cs => exact ⟨c, cs, rfl⟩
  have hl : isDigitLike c = true := hall c (by simp [hc])
  have hpad : name.toList.dropWhile (isPadding (isAscii name.toList)) = name.toList := by
    rw [hc, List.dropWhile_cons_of_neg (by simp [isPadding_of_isDigitLike hl])]
  have hu : underscored? false name.toList = some (digitValues ds, rest) := by
    rw [hs]; exact underscored?_append hd hr' false
  unfold read
  simp only [hpad]
  rw [hc, sign_of_isDigitLike hl, ← hc]
  simp only [hu]
  cases wholeOf (digitValues ds) with
  | error t => rfl
  | ok n =>
    cases rest with
    | nil =>
      have hds : digitValues ds ≠ [] := by
        intro e
        have := digitValues_length hd
        rw [e] at this
        rw [hs] at hc
        cases ds <;> simp at this hc
      simp [hds]
    | cons c' cs' =>
      have : isDigitLike c' = true := hall c' (by simp [hs])
      simp [isPadding_of_isDigitLike this]

theorem read_of_isReadable {name : String} (h : Path.isNumber name = true)
    (hr : Path.isReadable name = true) :
    read name = .ok (ofDigits (digitValues name.toList) : Nat) := by
  simp only [Path.isReadable, Bool.and_eq_true, List.all_eq_true, decide_eq_true_eq] at hr
  obtain ⟨hd, hl⟩ := hr
  rw [read_isNumber h (List.append_nil _).symm hd (by simp)]
  have : ¬ digitLimit < (digitValues name.toList).length := by
    rw [digitValues_length hd]; omega
  simp [wholeOf, this]

/-- Of the names that look like numbers just those of at most 4300 decimal digits are read. -/
theorem read_error_iff {name : String} (h : Path.isNumber name = true) :
    (∃ f, read name = .error f) ↔ Path.isReadable name = false := by
  constructor
  · rintro ⟨f, hf⟩
    rw [Bool.eq_false_iff]
    intro hr
    rw [read_of_isReadable h hr] at hf
    cases hf
  · intro hr
    have hs := (List.takeWhile_append_dropWhile (p := isDecimal) (l := name.toList)).symm
    have hd : ∀ c ∈ name.toList.takeWhile isDecimal, isDecimal c = true :=
      fun c hc => List.all_eq_true.mp List.all_takeWhile c hc
    have hn : ∀ c ∈ (name.toList.dropWhile isDecimal).head?, isDecimal c = false := by
      intro c hc
      have := List.head?_dropWhile_not isDecimal name.toList
      rwa [Option.mem_def.mp hc] at this
    rw [read_isNumber h hs hd hn]
    cases hw : wholeOf (digitValues (name.toList.takeWhile isDecimal)) with
    | error t => exact ⟨_, rfl⟩
    | ok n =>
      have hlen := ((wholeOf_ok_iff _ _).mp hw).1
      rw [digitValues_length hd] at hlen
      have hrest : name.toList.dropWhile isDecimal ≠ [] := by
        intro e
        rw [e, List.append_nil] at hs
        rw [← hs] at hlen hd
        have : Path.isReadable name = true :=
          Bool.and_eq_true_iff.mpr ⟨List.all_eq_true.mpr hd, decide_eq_true hlen⟩
        simp [this] at hr
      exact ⟨.notANumeral name, by simp only [hrest, if_false]⟩

end Numeral

/-! ## Paths -/

namespace Value

/-- On the way along the names a list meets a name that looks like a number and cannot be read. -/
def Blocks (v : Value) (names : List String) : Prop :=
  ∃ walked name rest items, names = walked ++ name :: rest ∧ v.find walked = .ok (.list items) ∧
    Path.isNumber name = true ∧ Path.isReadable name = false

theorem below?_error_iff {v : Value} {name : String} :
    (∃ f, v.below? name = .error f) ↔
      ∃ items, v = .list items ∧ Path.isNumber name = true ∧ Path.isReadable name = false := by
  constructor
  · rintro ⟨f, hf⟩
    cases v <;> try cases hf
    rename_i items
    refine ⟨items, rfl, ?_⟩
    change item? items name = .error f at hf
    unfold item? at hf
    split at hf
    · rename_i hn
      refine ⟨hn, (Numeral.read_error_iff hn).mp ?_⟩
      cases hr : Numeral.read name with
      | error f => exact ⟨f, rfl⟩
      | ok i => simp [hr, Except.map] at hf
    · cases hf
  · rintro ⟨items, rfl, hn, hr⟩
    obtain ⟨f, hf⟩ := (Numeral.read_error_iff hn).mpr hr
    exact ⟨f, by simp [below?, item?, hn, hf, Except.map]⟩

/-- A path has no value exactly if a list on the way meets a number that cannot be read. -/
theorem find_error_iff {v : Value} {names : List String} :
    (∃ f, v.find names = .error f) ↔ v.Blocks names := by
  constructor
  · intro h
    induction names generalizing v with
    | nil => obtain ⟨f, hf⟩ := h; cases hf
    | cons name names ih =>
      obtain ⟨f, hf⟩ := h
      unfold find at hf
      cases hb : below? v name with
      | error g =>
        obtain ⟨items, rfl, hn, hr⟩ := below?_error_iff.mp ⟨g, hb⟩
        exact ⟨[], name, names, items, rfl, rfl, hn, hr⟩
      | ok w? =>
        simp only [hb] at hf
        cases w? with
        | none => cases hf
        | some w =>
          obtain ⟨walked, name', rest, items, rfl, hw, hn, hr⟩ := ih ⟨f, hf⟩
          exact ⟨name :: walked, name', rest, items, rfl, by simp only [find, hb, hw], hn, hr⟩
  · rintro ⟨walked, name, rest, items, rfl, hw, hn, hr⟩
    obtain ⟨f, hf⟩ := below?_error_iff.mpr ⟨items, rfl, hn, hr⟩
    refine ⟨f, ?_⟩
    rw [find_append, hw]
    simp only [Except.bind, find, hf]

end Value

/-! ## Parameters -/

namespace Context

/-- Some parameter is a path on which a list meets a number that cannot be read. -/
def Blocks (context : Context) (params : Fields Value) : Prop :=
  ∃ name s, (name, Value.str s) ∈ params ∧ '.' ∈ s.toList ∧
    (Value.obj context).Blocks (Path.segments s.toList)

theorem resolve_error_iff {context : Context} {v : Value} :
    (∃ f, resolve context v = .error f) ↔
      ∃ s, v = .str s ∧ '.' ∈ s.toList ∧ (Value.obj context).Blocks (Path.segments s.toList) := by
  constructor
  · rintro ⟨f, hf⟩
    cases v <;> try cases hf
    rename_i s
    change (if s.toList.contains '.' then _ else _) = _ at hf
    split at hf
    · rename_i hc
      exact ⟨s, rfl, by simpa using hc, Value.find_error_iff.mp ⟨f, hf⟩⟩
    · cases hf
  · rintro ⟨s, rfl, hc, hb⟩
    obtain ⟨f, hf⟩ := Value.find_error_iff.mpr hb
    exact ⟨f, by simpa [resolve, find, hc] using hf⟩

/-- Parameters are not resolved exactly if one of them is a path that has no value. -/
theorem resolveAll_error_iff {context : Context} {params : Fields Value} :
    (∃ f, resolveAll context params = .error f) ↔ Blocks context params := by
  constructor
  · intro h
    induction params with
    | nil => obtain ⟨f, hf⟩ := h; cases hf
    | cons p params ih =>
      obtain ⟨name, v⟩ := p
      obtain ⟨f, hf⟩ := h
      unfold resolveAll at hf
      cases hv : resolve context v with
      | error g =>
        obtain ⟨s, rfl, hc, hb⟩ := resolve_error_iff.mp ⟨g, hv⟩
        exact ⟨name, s, List.mem_cons_self .., hc, hb⟩
      | ok w =>
        simp only [hv] at hf
        cases hr : resolveAll context params with
        | ok rest => simp [hr, Except.map] at hf
        | error g =>
          obtain ⟨name', s, hm, hc, hb⟩ := ih ⟨g, hr⟩
          exact ⟨name', s, List.mem_cons_of_mem _ hm, hc, hb⟩
  · rintro ⟨name, s, hm, hc, hb⟩
    induction params with
    | nil => cases hm
    | cons p params ih =>
      rcases List.mem_cons.mp hm with rfl | hm
      · obtain ⟨f, hf⟩ := resolve_error_iff.mpr ⟨s, rfl, hc, hb⟩
        exact ⟨f, by simp only [resolveAll, hf]⟩
      · obtain ⟨f, hf⟩ := ih hm
        cases hv : resolve context p.2 with
        | error g => exact ⟨g, by simp only [resolveAll, hv]⟩
        | ok w => exact ⟨f, by simp only [resolveAll, hv, hf, Except.map]⟩

end Context
end Workflow
