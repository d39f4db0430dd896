import Mathlib
import Workflow.Context
import Workflow.Guard.Check

/-!
# Paths of guards and of parameters

A path of a guard and the same text as the parameter of an action are walked by rules of their own.
They differ in one thing: a guard knows the size of a list, of a text, and of an object without such
a name. A size is a number, and nothing lies below a number. So both rules come to the same value,
or to the same numeral that cannot be read, unless the path ends at a size.

Results:
* `below?_eq`, `below?_of_size`: one name.
* `lookup_eq_find`, `lookup_of_size`: a whole path.
* `scan_path`: a path of a guard is written out in the guard.
* `paths_agree`: when a path of a guard and its text as a parameter come to the same.
-/
namespace Workflow.Guard

/-! ## Names -/

/-- The size that a value answers to the name of sizes. -/
def size? : Value → Option Nat
  | .obj fields => if Fields.has fields sizeName then none else some fields.length
  | .list items => some items.length
  | .str s => some s.length
  | _ => none

variable {v w : Value} {name : String} {names : List String} {n : Nat}

/-- Where no size is asked for, or none is known, a guard goes on like a parameter. -/
theorem below?_eq (h : name = sizeName → size? v = none) : below? v name = v.below? name := by
  cases v with
  | obj fields =>
    cases hf : Fields.get? fields name with
    | some w => simp [below?, Value.below?, hf]
    | none =>
      have hne : name ≠ sizeName := by
        rintro rfl
        simp [size?, Fields.has_eq_isSome, hf] at h
      simp [below?, Value.below?, hf, hne]
  | list items =>
    have hne : name ≠ sizeName := fun he => by simp [size?] at h; exact h he
    simp [below?, Value.below?, hne]
  | str s =>
    have hne : name ≠ sizeName := fun he => by simp [size?] at h; exact h he
    simp [below?, Value.below?, hne]
  | _ => rfl

/-- A size that a guard knows is nothing to a parameter. -/
theorem below?_of_size (h : size? v = some n) :
    below? v sizeName = .ok (some (.int n)) ∧ v.below? sizeName = .ok none := by
  have hn : Path.isNumber sizeName = false := by decide
  cases v with
  | obj fields =>
    simp only [size?, Fields.has_eq_isSome, Option.isSome_iff_ne_none, ne_eq, ite_not] at h
    split at h
    · rename_i hf
      cases h
      simp [below?, Value.below?, hf, size]
    · cases h
  | list items =>
    cases h
    simp [below?, Value.below?, Value.item?, hn, size]
  | str s =>
    cases h
    simp [below?, Value.below?, size]
  | _ => cases h

/-! ## Paths -/

/-- A path leads to a value and asks for its size, which is the last thing that it asks for. -/
def EndsAtSize (v : Value) (names : List String) (n : Nat) : Prop :=
  ∃ walked w, names = walked ++ [sizeName] ∧ v.find walked = .ok w ∧ size? w = some n

/-- Nothing lies below a number. -/
theorem lookup_int (i : Int) (hne : names ≠ []) : lookup (.int i) names = .ok .null := by
  cases names with
  | nil => exact absurd rfl hne
  | cons name names => rfl

theorem lookup_eq_find (h : ∀ n, ¬ EndsAtSize v names n) : lookup v names = v.find names := by
  induction names generalizing v with
  | nil => rfl
  | cons name names ih =>
    by_cases hs : name = sizeName ∧ ∃ n, size? v = some n
    · obtain ⟨rfl, n, hn⟩ := hs
      obtain ⟨hg, hp⟩ := below?_of_size hn
      have hne : names ≠ [] := by
        rintro rfl
        exact h n ⟨[], v, rfl, rfl, hn⟩
      simp [lookup, Value.find, hg, hp, lookup_int _ hne]
    · have hb : below? v name = v.below? name := below?_eq fun he => by
        cases hn : size? v with
        | none => rfl
        | some n => exact absurd ⟨he, n, hn⟩ hs
      unfold lookup Value.find
      rw [hb]
      cases hp : v.below? name with
      | error f => rfl
      | ok w? =>
        cases w? with
        | none => rfl
        | some w =>
          refine ih fun n hw => h n ?_
          obtain ⟨walked, u, rfl, hf, hu⟩ := hw
          exact ⟨name :: walked, u, rfl, by simp [Value.find, hp, hf], hu⟩

theorem lookup_of_size (h : EndsAtSize v names n) :
    lookup v names = .ok (.int n) ∧ v.find names = .ok .null := by
  obtain ⟨walked, w, rfl, hw, hn⟩ := h
  induction walked generalizing v with
  | nil =>
    cases hw
    obtain ⟨hg, hp⟩ := below?_of_size hn
    simp [lookup, Value.find, hg, hp]
  | cons name walked ih =>
    unfold Value.find at hw
    cases hp : v.below? name with
    | error f => simp [hp] at hw
    | ok u? =>
      cases u? with
      | none =>
        -- the path has led nowhere before, and nothing has no size
        simp only [hp, Except.ok.injEq] at hw
        subst hw
        cases hn
      | some u =>
        simp only [hp] at hw
        have hb : below? v name = v.below? name := below?_eq fun he => by
          subst he
          cases hs : size? v with
          | none => rfl
          | some k => cases hp.symm.trans (below?_of_size hs).2
        simpa [lookup, Value.find, hb, hp] using ih hw

/-- A path of a guard has the value of a parameter, or the same fault, unless it ends at a size. -/
theorem lookup_eq_find_iff : lookup v names = v.find names ↔ ∀ n, ¬ EndsAtSize v names n := by
  refine ⟨fun he n h => ?_, lookup_eq_find⟩
  obtain ⟨hg, hp⟩ := lookup_of_size h
  cases hg.symm.trans (he.trans hp)

/-! ## Texts -/

/-- At an offset among some characters a path is written, and this is its text. -/
def PathAt (cs : List Char) (pos : Nat) (text : List Char) : Prop :=
  ∃ before c rest k, cs = before ++ c :: rest ∧ before.length = pos ∧
    lexeme? c rest = some (.path, k) ∧ text = c :: rest.take k

theorem pathToken_eq_path {text : List Char} (h : pathToken text = .path names) :
    names = Path.segments text ∧ literalWords.lookup (String.ofList text) = none ∧
      operatorWords.lookup (String.ofList text) = none := by
  unfold pathToken at h
  cases hl : literalWords.lookup (String.ofList text) with
  | some v => simp [hl] at h
  | none =>
    cases ho : operatorWords.lookup (String.ofList text) with
    | some o => simp [hl, ho] at h
    | none =>
      simp only [hl, ho, Token.path.injEq] at h
      exact ⟨h.symm, rfl, rfl⟩

/-- A token that is a path comes from a lexeme of paths. -/
theorem token?_eq_path {cls : Class} {lexeme : List Char}
    (h : token? cls lexeme = .ok (some (.path names))) :
    cls = .path ∧ pathToken lexeme = .path names := by
  cases cls with
  | path => exact ⟨rfl, by simpa [token?] using h⟩
  | number point =>
    cases hv : numberValue point lexeme <;> simp [token?, hv, Except.map] at h
  | _ => cases h

theorem scan_path {pos p : Nat} {cs : List Char} {ts : Tokens} (h : scan pos cs = .ok ts)
    (hp : ⟨.path names, p⟩ ∈ ts.items) : ∃ before c rest k, cs = before ++ c :: rest ∧
      p = pos + before.length ∧ lexeme? c rest = some (.path, k) ∧
      pathToken (c :: rest.take k) = .path names := by
  fun_induction scan pos cs generalizing ts with
  | case1 pos =>
    cases h
    cases hp
  | case2 pos c cs hl => cases h
  | case3 pos c cs cls n hl t ht => cases h
  | case4 pos c cs cls n hl token ht ih =>
    cases hs : scan (pos + 1 + n) (cs.drop n) with
    | error f => simp [hs, Except.map] at h
    | ok more =>
      simp only [hs, Except.map, Except.ok.injEq] at h
      subst h
      rcases List.mem_append.mp hp with hp | hp
      · -- the lexeme in front is the path
        obtain ⟨t, rfl, he⟩ : ∃ t, token = some t ∧ (⟨.path names, p⟩ : Located) = ⟨t, pos⟩ := by
          cases token with
          | none => cases hp
          | some t => exact ⟨t, rfl, by simpa using hp⟩
        cases he
        obtain ⟨rfl, hw⟩ := token?_eq_path ht
        exact ⟨[], c, cs, n, rfl, rfl, hl, hw⟩
      · obtain ⟨before, c', rest, k, hd, rfl, hl', hw⟩ := ih hs hp
        have hn : n ≤ cs.length := by
          refine Nat.le_of_not_lt fun hlt => ?_
          rw [List.drop_eq_nil_of_le (Nat.le_of_lt hlt)] at hd
          simp at hd
        refine ⟨c :: (cs.take n ++ before), c', rest, k, ?_, ?_, hl', hw⟩
        · rw [List.cons_append, List.append_assoc, ← hd, List.take_append_drop]
        · simp only [List.length_cons, List.length_append, List.length_take, Nat.min_eq_left hn]
          omega

/-- **A path means the same in a guard and in a parameter, sizes apart.** Every path among the
tokens of a guard is written in it, at the offset of the token, and its names are those of its text,
which is none of the words with a meaning of their own. On any context the path has the value that
the text leads to as a parameter, or fails for the same numeral, unless it ends at a size: then the
guard has the size, and the parameter is null. So they agree where no name is that of sizes, and
where each name of sizes stands for an object with such a name. -/
theorem paths_agree (s : String) (ts : Tokens) (names : List String) (pos : Nat)
    (h : tokens s = .ok ts) (hp : ⟨.path names, pos⟩ ∈ ts.items) :
    ∃ text : String, PathAt s.toList pos text.toList ∧ names = Path.segments text.toList ∧
      literalWords.lookup text = none ∧ operatorWords.lookup text = none ∧
      ('.' ∈ text.toList → ∀ context, Context.resolve context (.str text) =
        Context.find context text) ∧
      ∀ context : Context,
        (sizeName ∉ names → lookup (.obj context) names = Context.find context text) ∧
        ((∀ walked rest, names = walked ++ sizeName :: rest → ∃ fields : Fields Value,
            (Value.obj context).find walked = .ok (.obj fields) ∧ fields.has sizeName = true) →
          lookup (.obj context) names = Context.find context text) ∧
        (lookup (.obj context) names = Context.find context text ↔
          ∀ n, ¬ EndsAtSize (.obj context) names n) ∧
        ∀ n, EndsAtSize (.obj context) names n →
          eval context (.path names) = .ok (.int n) ∧ Context.find context text = .ok .null := by
  obtain ⟨before, c, rest, k, hs, hb, hl, ht⟩ := scan_path h hp
  obtain ⟨hn, hlit, hop⟩ := pathToken_eq_path ht
  have htext : (String.ofList (c :: rest.take k)).toList = c :: rest.take k := String.toList_ofList
  have hfind (context : Context) : Context.find context (String.ofList (c :: rest.take k)) =
      (Value.obj context).find names := by rw [Context.find, htext, hn]
  refine ⟨String.ofList (c :: rest.take k), ⟨before, c, rest, k, hs, by omega, hl, htext⟩,
    by rw [htext, hn], hlit, hop, fun hdot context => ?_, fun context => ?_⟩
  · exact if_pos (by simpa using hdot)
  · rw [hfind]
    refine ⟨fun hno => ?_, fun hall => ?_, lookup_eq_find_iff, fun n hsize => ?_⟩
    · refine lookup_eq_find fun n hsize => hno ?_
      obtain ⟨walked, w, he, -⟩ := hsize
      simp [he]
    · refine lookup_eq_find fun n hsize => ?_
      obtain ⟨walked, w, he, hw, hsz⟩ := hsize
      obtain ⟨fields, hf, hhas⟩ := hall walked [] he
      cases hw.symm.trans hf
      simp [size?, hhas] at hsz
    · obtain ⟨hg, hnull⟩ := lookup_of_size hsize
      exact ⟨by rw [eval, hg]; rfl, hnull⟩

/-- A cart with a list of items and a length of its own. -/
def sizedCart : Context :=
  [("cart", .obj [("items", .list [.str "tea", .str "milk"]), ("length", .int 5)])]

/-- A leading zero, and a name of sizes that is a name like any other. -/
theorem paths_agree_cart : ∃ ts, tokens "cart.items.01 != cart.length" = .ok ts ∧
    ⟨.path ["cart", "items", "01"], 0⟩ ∈ ts.items ∧ ⟨.path ["cart", "length"], 17⟩ ∈ ts.items ∧
    (∃ text : String, ["cart", "items", "01"] = Path.segments text.toList ∧
      Context.find sizedCart text = .ok (.str "milk")) ∧
    ∃ text : String, ["cart", "length"] = Path.segments text.toList ∧
      Context.find sizedCart text = .ok (.int 5) := by
  have h : tokens "cart.items.01 != cart.length" = .ok ⟨[⟨.path ["cart", "items", "01"], 0⟩,
      ⟨.op .notEqual, 14⟩, ⟨.path ["cart", "length"], 17⟩], 28⟩ := by cbv
  obtain ⟨text, -, hn, -, -, -, ha⟩ := paths_agree _ _ ["cart", "items", "01"] 0 h (by simp)
  obtain ⟨text', -, hn', -, -, -, ha'⟩ := paths_agree _ _ ["cart", "length"] 17 h (by simp)
  have hall : ∀ walked rest, ["cart", "length"] = walked ++ sizeName :: rest →
      ∃ fields : Fields Value, (Value.obj sizedCart).find walked = .ok (.obj fields) ∧
        fields.has sizeName = true := by
    intro walked rest he
    obtain _ | ⟨name, _ | ⟨name', walked⟩⟩ := walked
    · simp [sizeName] at he
    · obtain ⟨rfl, -⟩ := List.cons.inj he
      exact ⟨_, rfl, rfl⟩
    · simp at he
  refine ⟨_, h, by simp, by simp, ⟨text, hn, ?_⟩, text', hn', ?_⟩
  · rw [← (ha sizedCart).1 (by decide)]
    rfl
  · rw [← (ha' sizedCart).2.1 hall]
    rfl

end Workflow.Guard
