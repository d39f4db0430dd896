import Workflow.Proofs.Json.Double
import Workflow.Proofs.Value.Distinct

/-!
# Reading what was written

A document that was written is read back as the value that it was written for, on one line or on
many, whatever blanks stand behind it. Its objects must have no name twice, its doubles must be
finite, and its whole numbers must be short enough to be read.

Results:
* `readText_quote`: texts, with what was escaped in them.
* `readItems_write`, `readFields_write`: the parts of lists and of objects, in front of the closing
  bracket.
* `readValue_write`: values.
* `read_write`: documents.
-/
namespace Workflow.Json

open Decimal Text

/-! ## Texts -/

/-- The hexadecimal digits of a control character denote it. -/
theorem hex_control {n : Nat} (h : n < 32) :
    ∃ a b c d, hex 4 n = [a, b, c, d] ∧ hex4? a b c d = some n := by
  have all : ∀ n : Fin 32, hex 4 n = ['0', '0', (n / 16).val.digitChar, (n % 16).val.digitChar] ∧
      hex4? '0' '0' (n / 16).val.digitChar (n % 16).val.digitChar = some n.val := by decide
  exact ⟨_, _, _, _, all ⟨n, h⟩⟩

/-- How a character is written: with a letter, with its number, or as it is. -/
theorem escape_cases (c : Char) :
    (∃ d, escape c = ['\\', d] ∧ shortEscape? d = some c) ∨
    (c.toNat < 32 ∧ ∃ a b d e, escape c = ['\\', 'u', a, b, d, e] ∧ hex4? a b d e = some c.toNat) ∨
    (escape c = [c] ∧ c ≠ '"' ∧ c ≠ '\\' ∧ 32 ≤ c.toNat) := by
  by_cases hs : c ∈ ['"', '\\', '\n', '\r', '\t', '\x0c', '\x08']
  · left
    simp only [List.mem_cons, List.not_mem_nil, or_false] at hs
    obtain rfl | rfl | rfl | rfl | rfl | rfl | rfl := hs <;> exact ⟨_, rfl, rfl⟩
  · simp only [List.mem_cons, List.not_mem_nil, or_false, not_or] at hs
    obtain ⟨hq, hb, hn, hr, ht, hf, hk⟩ := hs
    right
    by_cases hc : c.toNat < 32
    · obtain ⟨a, b, d, e, he, hx⟩ := hex_control hc
      refine .inl ⟨hc, a, b, d, e, ?_, hx⟩
      simp [escape, hq, hb, hn, hr, ht, hf, hk, hc, he]
    · exact .inr ⟨escape_plain hq hb (Nat.not_lt.mp hc), hq, hb, Nat.not_lt.mp hc⟩

theorem readChars_letter (whole : Nat) {c d : Char} (h : shortEscape? c = some d) (cs : List Char) :
    readChars whole ('\\' :: c :: cs) = (readChars whole cs).map fun r => (d :: r.1, r.2) := by
  have hu : c ≠ 'u' := by
    rintro rfl
    cases h
  rw [readChars, h]
  all_goals simp [hu]

/-- A code unit that needs no partner takes none, whatever stands behind it. -/
theorem readChars_unit (whole : Nat) {a b c d : Char} {n : Nat} (h : hex4? a b c d = some n)
    (hn : isHigh n = false) {cs : List Char} (hne : cs ≠ []) :
    readChars whole ('\\' :: 'u' :: a :: b :: c :: d :: cs) =
      (readChars whole cs).map fun r => (ofUnit n :: r.1, r.2) := by
  by_cases hp : ∃ a' b' c' d' e' cs', cs = '\\' :: 'u' :: a' :: b' :: c' :: d' :: e' :: cs'
  · obtain ⟨a', b', c', d', e', cs', rfl⟩ := hp
    rw [readChars.eq_3]
    simp [h, hn]
  · obtain ⟨e, cs, rfl⟩ := List.exists_cons_of_ne_nil hne
    rw [readChars, h]
    exact fun a' b' c' d' e' cs' he hcs => hp ⟨a', b', c', d', e', cs', by rw [he, hcs]⟩

theorem readChars_plain (whole : Nat) {c : Char} (hq : c ≠ '"') (hb : c ≠ '\\') (hc : 32 ≤ c.toNat)
    (cs : List Char) :
    readChars whole (c :: cs) = (readChars whole cs).map fun r => (c :: r.1, r.2) := by
  rw [readChars, if_neg (Nat.not_lt.mpr hc)]
  all_goals simp [hq, hb]

/-- A character is read back. -/
theorem readChars_escape (whole : Nat) (c : Char) {cs : List Char} (hne : cs ≠ []) :
    readChars whole (escape c ++ cs) = (readChars whole cs).map fun r => (c :: r.1, r.2) := by
  obtain ⟨d, he, hd⟩ | ⟨hc, a, b, d, e, he, hx⟩ | ⟨he, hq, hb, hc⟩ := escape_cases c
  · rw [he]
    exact readChars_letter whole hd cs
  · have hh : isHigh c.toNat = false := by simp only [isHigh, Bool.and_eq_false_imp]; grind
    have hl : isLow c.toNat = false := by simp only [isLow, Bool.and_eq_false_imp]; grind
    have hu : ofUnit c.toNat = c := by simp [ofUnit, hh, hl]
    rw [he]
    exact (readChars_unit whole hx hh hne).trans (by rw [hu])
  · rw [he]
    exact readChars_plain whole hq hb hc cs

theorem readChars_text (whole : Nat) (cs rest : List Char) :
    readChars whole (cs.flatMap escape ++ '"' :: rest) = .ok (cs, rest) := by
  induction cs with
  | nil => rw [List.flatMap_nil, List.nil_append, readChars]
  | cons c cs ih =>
    rw [List.flatMap_cons, List.append_assoc, readChars_escape whole c (by simp), ih]
    rfl

/-- A text is read back. -/
theorem readText_quote (s : String) (rest : List Char) :
    readText (s.toList.flatMap escape ++ '"' :: rest) = .ok (s, rest) := by
  unfold readText
  rw [readChars_text]
  simp [Except.map]

theorem toList_quote (s : String) :
    (quote s).toList = '"' :: (s.toList.flatMap escape ++ ['"']) := by
  simp [quote]

/-! ## Gaps -/

/-- Blanks, or nothing. -/
def Gap (cs : List Char) : Prop := ∀ c ∈ cs, isBlank c = true

variable {gap cs rest : List Char}

theorem gap_blank : Gap [' '] := by simp [Gap, isBlank]

theorem skipBlank_gap (h : Gap gap) (cs : List Char) : skipBlank (gap ++ cs) = skipBlank cs :=
  List.dropWhile_append_of_pos h

theorem skipBlank_cons {c : Char} (h : isBlank c = false) (cs : List Char) :
    skipBlank (c :: cs) = c :: cs := by simp [skipBlank, h]

theorem mem_enders_of_isBlank {c : Char} (h : isBlank c = true) : c ∈ enders := by
  simp only [isBlank, decide_eq_true_eq] at h
  obtain rfl | rfl | rfl | rfl := h <;> decide

theorem Gap.ends (h : Gap gap) (hr : Ends rest) : Ends (gap ++ rest) := by
  cases gap with
  | nil => exact hr
  | cons c gap => exact ends_cons (mem_enders_of_isBlank (h c (List.mem_cons_self ..))) _

theorem gap_lineBreak (layout : Layout) (level : Nat) : Gap (layout.lineBreak level).toList := by
  intro c hc
  unfold Layout.lineBreak at hc
  split at hc
  · cases hc
  · simp only [String.toList_append, String.toList_ofList, List.mem_append,
      List.mem_replicate] at hc
    obtain hc | ⟨-, rfl⟩ := hc
    · have hn : c = '\n' := by simpa using hc
      rw [hn]
      decide
    · decide

/-- Two items stand with a comma and a gap between them. -/
theorem toList_separator (layout : Layout) (level : Nat) :
    ∃ gap, (layout.separator level).toList = ',' :: gap ∧ Gap gap := by
  unfold Layout.separator
  split
  · exact ⟨[' '], rfl, gap_blank⟩
  · exact ⟨_, String.toList_append, gap_lineBreak layout level⟩

/-! ## Values -/

/-- A value whose numbers are read back: whole numbers are short enough, and doubles are finite. -/
inductive Legible : Value → Prop where
  | null : Legible .null
  | bool (b : Bool) : Legible (.bool b)
  | int {n : Int} (h : (toString n.natAbs).length ≤ digitLimit) : Legible (.int n)
  | float {x : Float} (h : (Double.ofFloat x).IsFinite) : Legible (.float x)
  | str (s : String) : Legible (.str s)
  | list {items : List Value} (h : ∀ v ∈ items, Legible v) : Legible (.list items)
  | obj {fields : List (String × Value)} (h : ∀ e ∈ fields, Legible e.2) : Legible (.obj fields)

theorem checkItems_eq_ok_iff {items : List Value} :
    checkItems items = .ok () ↔ ∀ v ∈ items, check v = .ok () := by
  induction items with
  | nil => simp [checkItems]
  | cons v vs ih =>
    rw [List.forall_mem_cons, ← ih, checkItems]
    cases check v <;> simp

theorem checkFields_eq_ok_iff {fields : List (String × Value)} :
    checkFields fields = .ok () ↔ ∀ e ∈ fields, check e.2 = .ok () := by
  induction fields with
  | nil => simp [checkFields]
  | cons e es ih =>
    rw [List.forall_mem_cons, ← ih, checkFields]
    cases check e.2 <;> simp

/-- No number in such a value is too long to be written. -/
theorem Legible.check {v : Value} (h : Legible v) : check v = .ok () := by
  induction h with
  | null => rfl
  | bool b => rfl
  | int h => simp only [Json.check, checkWhole, if_neg (Nat.not_lt.mpr h)]
  | float h => rfl
  | str s => rfl
  | list _ ih => exact checkItems_eq_ok_iff.mpr ih
  | obj _ ih => exact checkFields_eq_ok_iff.mpr ih

/-- A value of finite numbers. Its whole numbers may be of any length. -/
inductive Finite : Value → Prop where
  | null : Finite .null
  | bool (b : Bool) : Finite (.bool b)
  | int (n : Int) : Finite (.int n)
  | float {x : Float} (h : (Double.ofFloat x).IsFinite) : Finite (.float x)
  | str (s : String) : Finite (.str s)
  | list {items : List Value} (h : ∀ v ∈ items, Finite v) : Finite (.list items)
  | obj {fields : List (String × Value)} (h : ∀ e ∈ fields, Finite e.2) : Finite (.obj fields)

/-- Such a value is read back if no number in it is too long to be written. -/
theorem Finite.legible {v : Value} (h : Finite v) (hc : Json.check v = .ok ()) : Legible v := by
  induction h with
  | null => exact .null
  | bool b => exact .bool b
  | int n => exact .int (by simpa [Json.check, checkWhole] using hc)
  | float h => exact .float h
  | str s => exact .str s
  | list _ ih => exact .list fun v hv => ih v hv (checkItems_eq_ok_iff.mp hc v hv)
  | obj _ ih => exact .obj fun e he => ih e he (checkFields_eq_ok_iff.mp hc e he)

/-- A text that starts like a value: with no blank, no bracket that closes, and no mark. -/
def Opens (cs : List Char) : Prop :=
  ∃ c ds, cs = c :: ds ∧ isBlank c = false ∧ c ≠ ']' ∧ c ≠ '\x7d' ∧ c ≠ '\ufeff'

theorem opens_cons {c : Char}
    (h : isBlank c = false ∧ c ≠ ']' ∧ c ≠ '\x7d' ∧ c ≠ '\ufeff') (cs : List Char) :
    Opens (c :: cs) := ⟨c, cs, rfl, h⟩

theorem Opens.append (h : Opens cs) (ds : List Char) : Opens (cs ++ ds) := by
  obtain ⟨c, es, rfl, hc⟩ := h
  exact ⟨c, es ++ ds, rfl, hc⟩

theorem Opens.skipBlank (h : Opens cs) : skipBlank cs = cs := by
  obtain ⟨c, ds, rfl, hc, -⟩ := h
  exact skipBlank_cons hc ds

theorem IsNumeral.opens {v : Value} (h : IsNumeral cs v) : Opens cs := by
  obtain ⟨c, ds, rfl, hc | ⟨rfl, -⟩⟩ := h.head
  · have ne {d : Char} (hd : d.isDigit = false) : c ≠ d := by
      rintro rfl
      rw [hc] at hd
      cases hd
    exact opens_cons ⟨by simp [isBlank, ne], ne (by decide), ne (by decide), ne (by decide)⟩ ds
  · exact opens_cons (by decide) ds

/-- A value is read back, at any level of nesting, in front of what may stand behind a value. -/
def ReadBack (layout : Layout) (v : Value) : Prop :=
  ∀ (level n : Nat) (rest : List Char), Ends rest → 2 * (writeAt layout level v).length ≤ n →
    readValue n ((writeAt layout level v).toList ++ rest) = .ok (v, rest)

variable {layout : Layout} {level n : Nat} {v : Value} {items : List Value}
  {fields : List (String × Value)}

/-! ## Brackets -/

theorem enclose_nil (layout : Layout) (level : Nat) (left right : String) :
    layout.enclose level left right [] = left ++ right := rfl

theorem toList_enclose {texts : List String} (h : texts ≠ []) (layout : Layout) (level : Nat)
    (left right : String) : (layout.enclose level left right texts).toList =
      left.toList ++ ((layout.lineBreak (level + 1)).toList ++
        (((layout.separator (level + 1)).intercalate texts).toList ++
          ((layout.lineBreak level).toList ++ right.toList))) := by
  have he : texts.isEmpty = false := by simpa using h
  simp only [Layout.enclose, he, Bool.false_eq_true, if_false, String.toList_append,
    List.append_assoc]

/-- Behind its bracket, a list that has items goes on like a value. -/
theorem readValue_list (hg : Gap gap) (ho : Opens cs) (n : Nat) :
    readValue (n + 1) ('[' :: (gap ++ cs)) = (readItems n cs).map fun r => (.list r.1, r.2) := by
  rw [readValue, skipBlank_gap hg, ho.skipBlank]
  obtain ⟨c, ds, rfl, -, hc, -⟩ := ho
  split
  · rename_i he
    exact absurd (List.cons.inj he).1 hc
  · rfl

/-- Behind its brace, an object that has fields goes on like a value. -/
theorem readValue_obj (hg : Gap gap) (ho : Opens cs) (n : Nat) :
    readValue (n + 1) ('\x7b' :: (gap ++ cs)) =
      (readFields n cs).map fun r => (.obj (Fields.ofEntries r.1), r.2) := by
  rw [readValue, skipBlank_gap hg, ho.skipBlank]
  obtain ⟨c, ds, rfl, -, -, hc, -⟩ := ho
  split
  · rename_i he
    exact absurd (List.cons.inj he).1 hc
  · rfl

/-- A value starts like one. -/
theorem Legible.opens (h : Legible v) (layout : Layout) (level : Nat) :
    Opens (writeAt layout level v).toList := by
  have bracket (left right : String) {c : Char} {ds : List Char} (hc : left.toList = c :: ds)
      (hb : isBlank c = false ∧ c ≠ ']' ∧ c ≠ '\x7d' ∧ c ≠ '\ufeff') (texts : List String) :
      Opens (layout.enclose level left right texts).toList := by
    by_cases ht : texts = []
    · subst ht
      rw [enclose_nil, String.toList_append, hc]
      exact opens_cons hb _
    · rw [toList_enclose ht, hc]
      exact opens_cons hb _
  cases h with
  | null =>
    rw [writeAt]
    exact opens_cons (c := 'n') (by decide) ['u', 'l', 'l']
  | bool b =>
    rw [writeAt]
    cases b with
    | false => exact opens_cons (c := 'f') (by decide) ['a', 'l', 's', 'e']
    | true => exact opens_cons (c := 't') (by decide) ['r', 'u', 'e']
  | int h => exact (readNumber?_whole h).opens
  | float h => exact (isNumeral_text h).opens
  | str s =>
    unfold writeAt
    rw [toList_quote]
    exact opens_cons (by decide) _
  | list => exact bracket "[" "]" rfl (by decide) _
  | obj => exact bracket "\x7b" "\x7d" rfl (by decide) _

/-! ## Items -/

theorem opens_join {t : String} (h : Opens t.toList) (sep : String) (ts : List String) :
    Opens (sep.intercalate (t :: ts)).toList := by
  cases ts with
  | nil => simpa only [String.intercalate_singleton] using h
  | cons u us =>
    simp only [String.intercalate_cons_cons, String.toList_append, List.append_assoc]
    exact h.append _

/-- Behind the first of several texts a comma stands, a gap, and the others. -/
theorem join_cons (layout : Layout) (level : Nat) (t u : String) (us : List String)
    (rest : List Char) :
    let join := (layout.separator level).intercalate
    ∃ g, Gap g ∧
      (join (t :: u :: us)).toList ++ rest =
        t.toList ++ ',' :: (g ++ ((join (u :: us)).toList ++ rest)) ∧
      t.length + (join (u :: us)).length < (join (t :: u :: us)).length := by
  obtain ⟨g, hs, hg⟩ := toList_separator layout level
  refine ⟨g, hg, ?_, ?_⟩
  · simp only [String.intercalate_cons_cons, String.toList_append, hs, List.append_assoc,
      List.cons_append]
  · have hsep : 0 < (layout.separator level).length := by
      rw [← String.length_toList, hs]
      exact Nat.succ_pos _
    simp only [String.intercalate_cons_cons, String.length_append]
    omega

theorem readItems_last (hv : ReadBack layout v) (hn : 2 * (writeAt layout level v).length ≤ n)
    (hg : Gap gap) (rest : List Char) :
    readItems (n + 1) ((writeAt layout level v).toList ++ (gap ++ ']' :: rest)) =
      .ok ([v], rest) := by
  rw [readItems, hv _ _ _ (hg.ends (ends_cons (by decide) rest)) hn]
  simp only [skipBlank_gap hg, skipBlank_cons (c := ']') (by decide)]

theorem readItems_more (hv : ReadBack layout v) (hn : 2 * (writeAt layout level v).length ≤ n)
    (hg : Gap gap) (ho : Opens cs) :
    readItems (n + 1) ((writeAt layout level v).toList ++ ',' :: (gap ++ cs)) =
      (readItems n cs).map fun r => (v :: r.1, r.2) := by
  rw [readItems, hv _ _ _ (ends_cons (by decide) _) hn]
  simp only [skipBlank_cons (c := ',') (by decide), skipBlank_gap hg, ho.skipBlank]

/-- The items of a list, up to its closing bracket. -/
theorem readItems_write (hl : ∀ v ∈ items, Legible v) (hr : ∀ v ∈ items, ReadBack layout v)
    (hne : items ≠ []) (hg : Gap gap) (rest : List Char)
    (hn : 2 * ((layout.separator level).intercalate (writeItems layout level items)).length + 1 ≤
      n) :
    readItems n (((layout.separator level).intercalate (writeItems layout level items)).toList ++
      (gap ++ ']' :: rest)) = .ok (items, rest) := by
  induction items generalizing n with
  | nil => exact absurd rfl hne
  | cons v vs ih =>
    obtain ⟨n, rfl⟩ : ∃ m, n = m + 1 := ⟨n - 1, by omega⟩
    have hv := hr v (List.mem_cons_self ..)
    cases vs with
    | nil =>
      simp only [writeItems, String.intercalate_singleton] at hn ⊢
      exact readItems_last hv (by omega) hg rest
    | cons w ws =>
      have ih := ih (n := n) (fun u hu => hl u (List.mem_cons_of_mem _ hu))
        (fun u hu => hr u (List.mem_cons_of_mem _ hu)) (List.cons_ne_nil w ws)
      have hw := (hl w (by simp)).opens layout level
      simp only [writeItems] at hn ih ⊢
      obtain ⟨g, hgs, he, hlt⟩ := join_cons layout level (writeAt layout level v)
        (writeAt layout level w) (writeItems layout level ws) (gap ++ ']' :: rest)
      rw [he, readItems_more hv (by omega) hgs ((opens_join hw _ _).append _), ih (by omega)]
      rfl

/-! ## Fields -/

/-- A field as it is written. -/
def writeField (layout : Layout) (level : Nat) (e : String × Value) : String :=
  quote e.1 ++ ": " ++ writeAt layout level e.2

theorem toList_writeField (layout : Layout) (level : Nat) (e : String × Value) (rest : List Char) :
    (writeField layout level e).toList ++ rest =
      '"' :: (e.1.toList.flatMap escape ++ '"' :: ':' :: ' ' ::
        ((writeAt layout level e.2).toList ++ rest)) := by
  have hc : ": ".toList = [':', ' '] := rfl
  simp only [writeField, String.toList_append, toList_quote, hc, List.cons_append,
    List.append_assoc, List.nil_append]

theorem length_writeField (layout : Layout) (level : Nat) (e : String × Value) :
    (writeAt layout level e.2).length + 1 < (writeField layout level e).length := by
  have hc : ": ".length = 2 := rfl
  simp only [writeField, String.length_append, hc]
  omega

theorem opens_writeField (layout : Layout) (level : Nat) (e : String × Value) :
    Opens (writeField layout level e).toList := by
  have h := toList_writeField layout level e []
  rw [List.append_nil] at h
  rw [h]
  exact opens_cons (by decide) _

/-- The value of a field, with what stands in front of it. -/
theorem readFields_field {e : String × Value} (hl : Legible e.2) (hv : ReadBack layout e.2)
    (hn : 2 * (writeAt layout level e.2).length ≤ n) (he : Ends rest) :
    readFields (n + 1) ((writeField layout level e).toList ++ rest) =
      match skipBlank rest with
      | '\x7d' :: rest => .ok ([e], rest)
      | ',' :: rest => (readFields n (skipBlank rest)).map fun r => (e :: r.1, r.2)
      | rest => .error (.malformed .comma rest.length) := by
  obtain ⟨name, v⟩ := e
  have hb : skipBlank (' ' :: ((writeAt layout level v).toList ++ rest)) =
      (writeAt layout level v).toList ++ rest :=
    (skipBlank_gap gap_blank _).trans ((hl.opens layout level).append rest).skipBlank
  rw [toList_writeField, readFields, readText_quote]
  simp only [skipBlank_cons (c := ':') (by decide)]
  rw [hb]
  exact hv _ _ _ he hn ▸ rfl

theorem readFields_last {e : String × Value} (hl : Legible e.2) (hv : ReadBack layout e.2)
    (hn : 2 * (writeAt layout level e.2).length ≤ n) (hg : Gap gap) (rest : List Char) :
    readFields (n + 1) ((writeField layout level e).toList ++ (gap ++ '\x7d' :: rest)) =
      .ok ([e], rest) := by
  rw [readFields_field hl hv hn (hg.ends (ends_cons (by decide) rest)), skipBlank_gap hg,
    skipBlank_cons (by decide)]
  rfl

theorem readFields_more {e : String × Value} (hl : Legible e.2) (hv : ReadBack layout e.2)
    (hn : 2 * (writeAt layout level e.2).length ≤ n) (hg : Gap gap) (ho : Opens cs) :
    readFields (n + 1) ((writeField layout level e).toList ++ ',' :: (gap ++ cs)) =
      (readFields n cs).map fun r => (e :: r.1, r.2) := by
  rw [readFields_field hl hv hn (ends_cons (by decide) _), skipBlank_cons (by decide)]
  simp only [skipBlank_gap hg, ho.skipBlank]

/-- The fields of an object, up to its closing brace. -/
theorem readFields_write (hl : ∀ e ∈ fields, Legible e.2) (hr : ∀ e ∈ fields, ReadBack layout e.2)
    (hne : fields ≠ []) (hg : Gap gap) (rest : List Char)
    (hn : 2 * ((layout.separator level).intercalate (writeFields layout level fields)).length + 1 ≤
      n) :
    readFields n (((layout.separator level).intercalate (writeFields layout level fields)).toList ++
      (gap ++ '\x7d' :: rest)) = .ok (fields, rest) := by
  have written (e : String × Value) (es : List (String × Value)) :
      writeFields layout level (e :: es) =
        writeField layout level e :: writeFields layout level es := by
    rw [writeFields]
    rfl
  induction fields generalizing n with
  | nil => exact absurd rfl hne
  | cons e es ih =>
    obtain ⟨n, rfl⟩ : ∃ m, n = m + 1 := ⟨n - 1, by omega⟩
    have hv := hr e (List.mem_cons_self ..)
    have hle := hl e (List.mem_cons_self ..)
    have hlt := length_writeField layout level e
    cases es with
    | nil =>
      have hnil : writeFields layout level [] = [] := by rw [writeFields]
      rw [written, hnil, String.intercalate_singleton] at hn ⊢
      exact readFields_last hle hv (by omega) hg rest
    | cons d ds =>
      have ih := ih (n := n) (fun u hu => hl u (List.mem_cons_of_mem _ hu))
        (fun u hu => hr u (List.mem_cons_of_mem _ hu)) (List.cons_ne_nil d ds)
      simp only [written] at hn ih ⊢
      obtain ⟨g, hgs, he, hjoin⟩ := join_cons layout level (writeField layout level e)
        (writeField layout level d) (writeFields layout level ds) (gap ++ '\x7d' :: rest)
      rw [he, readFields_more hle hv (by omega) hgs
        ((opens_join (opens_writeField _ _ d) _ _).append _), ih (by omega)]
      rfl

/-! ## Documents -/

/-- The text of a value is not empty, so that a step down is left to read it with. -/
theorem Legible.readBack (hl : Legible v)
    (h : ∀ level n rest, Ends rest → 2 * (writeAt layout level v).length ≤ n + 1 →
      readValue (n + 1) ((writeAt layout level v).toList ++ rest) = .ok (v, rest)) :
    ReadBack layout v := by
  intro level n rest he hn
  obtain ⟨c, ds, hc, -⟩ := hl.opens layout level
  have hpos : 0 < (writeAt layout level v).length := by
    rw [← String.length_toList, hc]
    exact Nat.succ_pos _
  obtain ⟨n, rfl⟩ : ∃ m, n = m + 1 := ⟨n - 1, by omega⟩
  exact h level n rest he hn

/-- What stands between brackets is shorter than the whole. -/
theorem length_enclose {texts : List String} (h : texts ≠ []) (layout : Layout) (level : Nat)
    {left right : String} {c d : Char} (hl : left.toList = [c]) (hr : right.toList = [d]) :
    ((layout.separator (level + 1)).intercalate texts).length + 1 <
      (layout.enclose level left right texts).length := by
  rw [← String.length_toList, ← String.length_toList, toList_enclose h, hl, hr]
  simp only [List.length_append, List.length_cons, List.length_nil]
  omega

theorem readBack_list (hl : ∀ v ∈ items, Legible v) (hr : ∀ v ∈ items, ReadBack layout v) :
    ReadBack layout (.list items) := by
  refine (Legible.list hl).readBack fun level n rest _ hn => ?_
  cases items with
  | nil =>
    rw [writeAt, writeItems, enclose_nil, readValue.eq_def]
    rfl
  | cons v vs =>
    have hne : writeItems layout (level + 1) (v :: vs) ≠ [] := by simp [writeItems]
    have ho : Opens ((layout.separator (level + 1)).intercalate
        (writeItems layout (level + 1) (v :: vs))).toList := by
      rw [writeItems]
      exact opens_join ((hl v (List.mem_cons_self ..)).opens ..) _ _
    rw [writeAt] at hn ⊢
    have hlen := length_enclose hne layout level (rfl : "[".toList = _) (rfl : "]".toList = _)
    rw [toList_enclose hne]
    simp only [List.append_assoc]
    refine (readValue_list (gap_lineBreak layout _) (ho.append _) n).trans ?_
    exact congrArg (Except.map _) (readItems_write hl hr (List.cons_ne_nil v vs)
      (gap_lineBreak layout _) rest (by omega))

theorem readBack_obj (hl : ∀ e ∈ fields, Legible e.2) (hr : ∀ e ∈ fields, ReadBack layout e.2)
    (hd : (Fields.keys fields).Nodup) : ReadBack layout (.obj fields) := by
  refine (Legible.obj hl).readBack fun level n rest _ hn => ?_
  cases fields with
  | nil =>
    rw [writeAt, writeFields, enclose_nil, readValue.eq_def]
    rfl
  | cons e es =>
    have hne : writeFields layout (level + 1) (e :: es) ≠ [] := by simp [writeFields]
    have ho : Opens ((layout.separator (level + 1)).intercalate
        (writeFields layout (level + 1) (e :: es))).toList := by
      rw [writeFields]
      exact opens_join (opens_writeField _ _ e) _ _
    rw [writeAt] at hn ⊢
    have hlen := length_enclose hne layout level (rfl : "\x7b".toList = _)
      (rfl : "\x7d".toList = _)
    rw [toList_enclose hne]
    simp only [List.append_assoc]
    refine (readValue_obj (gap_lineBreak layout _) (ho.append _) n).trans ?_
    refine (congrArg (Except.map _) (readFields_write hl hr (List.cons_ne_nil e es)
      (gap_lineBreak layout _) rest (by omega))).trans ?_
    simp only [Except.map, Fields.ofEntries_of_nodup hd]

/-- A value is read back. -/
theorem readValue_write (hl : Legible v) (hd : v.Distinct) : ReadBack layout v := by
  induction hl with
  | null =>
    refine Legible.null.readBack fun level n rest he hn => ?_
    rw [writeAt]
    exact rfl
  | bool b =>
    refine (Legible.bool b).readBack fun level n rest he hn => ?_
    rw [writeAt]
    cases b <;> exact rfl
  | int h =>
    refine (Legible.int h).readBack fun level n rest he hn => ?_
    rw [writeAt]
    exact readValue_number (readNumber?_whole h) he n
  | float h =>
    refine (Legible.float h).readBack fun level n rest he hn => ?_
    rw [writeAt]
    exact readValue_number (isNumeral_text h) he n
  | str s =>
    refine (Legible.str s).readBack fun level n rest he hn => ?_
    rw [writeAt, toList_quote, List.cons_append, List.append_assoc, readValue]
    exact congrArg (Except.map _) (readText_quote s rest)
  | list h ih => exact readBack_list h fun v hv => ih v hv (hd.item hv)
  | obj h ih => exact readBack_obj h (fun e he => ih e he (hd.field he)) hd.keys

/-- **A document is read back**, whatever blanks stand behind it. -/
theorem read_write (hl : Legible v) (hd : v.Distinct) (layout : Layout) {tail : String}
    (ht : Gap tail.toList) : read (write layout v ++ tail) = .ok v := by
  have ho : Opens (write layout v).toList := hl.opens layout 0
  have hdepth :
      2 * (writeAt layout 0 v).length ≤ 2 * (write layout v ++ tail).toList.length + 2 := by
    rw [String.length_toList, String.length_append, write]
    omega
  have hr : readValue (2 * (write layout v ++ tail).toList.length + 2)
      (write layout v ++ tail).toList = .ok (v, tail.toList) := by
    have hends : Ends tail.toList := by simpa using ht.ends ends_nil
    rw [String.toList_append] at hdepth ⊢
    exact readValue_write hl hd 0 _ _ hends hdepth
  have hgap : skipBlank tail.toList = [] := by simpa [skipBlank] using skipBlank_gap ht []
  have hdoc : readDocument (write layout v ++ tail).toList = .ok v := by
    rw [String.toList_append] at hr ⊢
    have hskip := (ho.append tail.toList).skipBlank
    obtain ⟨c, ds, hc, -, -, -, hm⟩ := ho
    rw [hc, List.cons_append] at hskip hr ⊢
    rw [readDocument, hskip, hr]
    · simp only [hgap]
    · exact fun _ e => hm (List.cons.inj e).1
  unfold read
  rw [hdoc]
  rfl

end Workflow.Json
