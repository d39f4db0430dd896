import Mathlib
import Workflow.Guard.Token
import Workflow.Proofs.Context.Path

/-!
# Lexemes

What the lexemes of a guard look like, class by class, and that the scanner takes the longest one in
front. Lexemes of different classes start with different characters, but for the two classes of
numbers and the operators among each other; so the first character settles where to look, and what
is left to show is that each scan stops neither short nor long.

Results:
* `lexeme?_eq_some_iff`: what the scanner takes is the longest lexeme in front.
* `lexeme?_eq_none_iff`: the scanner takes nothing exactly if no lexeme stands in front.
* `Lexeme.longest_text`: a quoted text ends at its closing quote, whatever follows.
* `Lexeme.longest_of_blank`: in front of a blank, or of the end, every lexeme is the longest.
-/
namespace Workflow.Guard

open Text

variable {c q : Char} {cs l l' rest : List Char} {cls cls' : Class}

/-! ## Characters -/

theorem isBlank_iff : isBlank c = true ↔ ∃ r ∈ blankRanges, r.1 ≤ c.toNat ∧ c.toNat ≤ r.2 := by
  simp only [isBlank, inRanges, List.any_eq_true, Bool.and_eq_true, decide_eq_true_eq]

theorem isDecimal_iff : isDecimal c = true ↔ ∃ z ∈ digitZeros, z ≤ c.toNat ∧ c.toNat < z + 10 := by
  simp only [isDecimal, digitValue?, Option.isSome_map, List.find?_isSome, Bool.and_eq_true,
    decide_eq_true_eq]

/-- The characters of names, by code point. -/
theorem continuesName_iff : continuesName c = true ↔
    startsName c = true ∨ (48 ≤ c.toNat ∧ c.toNat ≤ 57) := by
  simp only [continuesName, startsName, Char.isAlphanum, Char.isDigit, Bool.or_eq_true,
    Bool.and_eq_true, decide_eq_true_eq]
  simp only [Char.toNat, UInt32.le_iff_toNat_le, ge_iff_le]
  have h0 : '0'.val.toNat = 48 := rfl
  have h9 : '9'.val.toNat = 57 := rfl
  rw [h0, h9]
  tauto

theorem startsName_range (h : startsName c = true) : c.toNat = 36 ∨
    (65 ≤ c.toNat ∧ c.toNat ≤ 90) ∨ c.toNat = 95 ∨ (97 ≤ c.toNat ∧ c.toNat ≤ 122) := by
  simp only [startsName, Char.isAlpha, Char.isUpper, Char.isLower, Bool.or_eq_true,
    Bool.and_eq_true, decide_eq_true_eq, ge_iff_le, UInt32.le_iff_toNat_le] at h
  rcases h with ((h | h) | rfl) | rfl
  · exact .inr (.inl h)
  · exact .inr (.inr (.inr h))
  · exact .inr (.inr (.inl rfl))
  · exact .inl rfl

theorem isDecimal_of_startsName (h : startsName c = true) : isDecimal c = false := by
  have hapart : ∀ z ∈ digitZeros, z = 48 ∨ 128 ≤ z := by decide
  refine Bool.eq_false_iff.mpr fun hd => ?_
  obtain ⟨z, hz, hzc⟩ := isDecimal_iff.mp hd
  have := hapart z hz
  have := startsName_range h
  omega

theorem isBlank_of_continuesName (h : continuesName c = true) : isBlank c = false := by
  have hapart : ∀ r ∈ blankRanges, r.2 < 36 ∨ 128 ≤ r.1 := by decide
  refine Bool.eq_false_iff.mpr fun hb => ?_
  obtain ⟨r, hr, hrc⟩ := isBlank_iff.mp hb
  have := hapart r hr
  rcases continuesName_iff.mp h with h | h
  · have := startsName_range h
    omega
  · omega

/-! ## Lexemes -/

/-- A run of characters that pass a test, at least one of them. -/
def Run (p : Char → Bool) (cs : List Char) : Prop := cs ≠ [] ∧ ∀ c ∈ cs, p c = true

/-- Names, each behind a point. -/
def dotted (names : List (List Char)) : List Char := names.flatMap ('.' :: ·)

/-- What a text between the quotes `q` is made of: a character as it stands, or any character but
the line break behind a backslash. -/
inductive Piece (q : Char) : List Char → Prop where
  | raw {c : Char} (hq : c ≠ q) (hb : c ≠ '\\') : Piece q [c]
  | escape {c : Char} (hn : c ≠ '\n') : Piece q ['\\', c]

/-- The quotes. -/
def IsQuote (q : Char) : Prop := q = '\'' ∨ q = '"'

instance : DecidablePred IsQuote := fun q => inferInstanceAs (Decidable (q = '\'' ∨ q = '"'))

/-- A word acts as an operator, and is spelled like a path. -/
def Op.isWord (o : Op) : Bool := o = .andWord || o = .orWord || o = .notWord

/-- What the lexemes of each class look like. -/
inductive Lexeme : Class → List Char → Prop where
  | blank {cs : List Char} (h : Run isBlank cs) : Lexeme .blank cs
  | whole {ds : List Char} (h : Run isDecimal ds) : Lexeme (.number false) ds
  | fraction {ds es : List Char} (hd : Run isDecimal ds) (he : Run isDecimal es) :
    Lexeme (.number true) (ds ++ '.' :: es)
  | text {q : Char} {pieces : List (List Char)} (hq : IsQuote q) (h : ∀ p ∈ pieces, Piece q p) :
    Lexeme .text (q :: (pieces.flatten ++ [q]))
  | op {o : Op} (h : o.isWord = false) : Lexeme (.op o) o.spelling.toList
  | path {c : Char} {name : List Char} {names : List (List Char)} (hc : startsName c = true)
    (hn : ∀ d ∈ name, continuesName d = true) (hs : ∀ n ∈ names, Run continuesName n) :
    Lexeme .path (c :: (name ++ dotted names))

/-! ## Runs -/

section

variable {p : Char → Bool}

theorem run_cons_iff : Run p (c :: cs) ↔ p c = true ∧ ∀ d ∈ cs, p d = true := by
  rw [Run, List.forall_mem_cons, and_iff_right (List.cons_ne_nil _ _)]

theorem Run.exists_cons (h : Run p l) :
    ∃ c cs, l = c :: cs ∧ p c = true ∧ ∀ d ∈ cs, p d = true := by
  obtain ⟨c, cs, rfl⟩ := List.exists_cons_of_ne_nil h.1
  exact ⟨c, cs, rfl, run_cons_iff.mp h⟩

theorem drop_runLength (p : Char → Bool) (cs : List Char) :
    cs.drop (runLength p cs) = cs.dropWhile p := by
  have h : (cs.takeWhile p ++ cs.dropWhile p).drop (runLength p cs) = cs.dropWhile p :=
    List.drop_left
  rwa [List.takeWhile_append_dropWhile] at h

theorem length_le_runLength (h : ∀ c ∈ l, p c = true) (rest : List Char) :
    l.length ≤ runLength p (l ++ rest) := by
  rw [runLength, List.takeWhile_append_of_pos h, List.length_append]
  omega

/-- A run ends where a character fails the test. -/
theorem runLength_append_cons (h : ∀ c ∈ l, p c = true) (hc : p c = false) (rest : List Char) :
    runLength p (l ++ c :: rest) = l.length := by
  rw [runLength, List.takeWhile_append_of_pos h, List.takeWhile_cons_of_neg (by simp [hc]),
    List.append_nil]

end


/-! ## What the scanner takes is a lexeme -/

theorem fractionLength_sound (h : fractionLength cs ≠ 0) : ∃ es rest,
    cs = '.' :: es ++ rest ∧ es.length + 1 = fractionLength cs ∧ Run isDecimal es := by
  revert h
  unfold fractionLength
  split
  · rename_i e cs
    split
    · rename_i he
      refine fun _ => ⟨e :: cs.takeWhile isDecimal, cs.dropWhile isDecimal, ?_, ?_, ?_⟩
      · simp
      · simp [runLength]
      · exact run_cons_iff.mpr ⟨he, fun _ => List.mem_takeWhile_imp⟩
    · exact fun h => absurd rfl h
  · exact fun h => absurd rfl h

theorem segmentsLength_sound (cs : List Char) : ∃ names rest, cs = dotted names ++ rest ∧
    (dotted names).length = segmentsLength cs ∧ ∀ n ∈ names, Run continuesName n := by
  fun_induction segmentsLength cs with
  | case1 c cs hc n ih =>
    obtain ⟨names, rest, hcs, hlen, hn⟩ := ih
    refine ⟨(c :: cs.takeWhile continuesName) :: names, rest, ?_, ?_, ?_⟩
    · calc '.' :: c :: cs = '.' :: c :: (cs.takeWhile continuesName ++ cs.drop n) := by
            rw [drop_runLength, List.takeWhile_append_dropWhile]
        _ = _ := by simp [hcs, dotted]
    · calc _ = (cs.takeWhile continuesName).length + 2 + (dotted names).length := by
            simp [dotted, Nat.add_right_comm]
        _ = _ := by rw [hlen]; rfl
    · exact List.forall_mem_cons.mpr ⟨run_cons_iff.mpr ⟨hc, fun _ => List.mem_takeWhile_imp⟩, hn⟩
  | case2 => exact ⟨[], _, rfl, rfl, by simp⟩
  | case3 => exact ⟨[], _, rfl, rfl, by simp⟩

theorem textLength?_sound {n : Nat} (h : textLength? q cs = some n) :
    ∃ (pieces : List (List Char)) (rest : List Char), cs = pieces.flatten ++ q :: rest ∧
      pieces.flatten.length + 1 = n ∧ ∀ p ∈ pieces, Piece q p := by
  fun_induction textLength? q cs generalizing n with
  | case1 => cases h
  | case2 => exact ⟨[], _, rfl, by simpa using h, by simp⟩
  | case3 => cases h
  | case4 d cs => exact ⟨[], _, rfl, by simpa using h, by simp⟩
  | case5 => cases h
  | case6 d cs hd _ ih =>
    obtain ⟨m, hm, rfl⟩ := Option.map_eq_some_iff.mp h
    obtain ⟨pieces, rest, rfl, hlen, hp⟩ := ih hm
    exact ⟨['\\', d] :: pieces, rest, rfl, by simp [← hlen],
      List.forall_mem_cons.mpr ⟨.escape hd, hp⟩⟩
  | case7 c d cs hq hb ih =>
    obtain ⟨m, hm, rfl⟩ := Option.map_eq_some_iff.mp h
    obtain ⟨pieces, rest, hcs, hlen, hp⟩ := ih hm
    exact ⟨[c] :: pieces, rest, by simp [hcs], by simp [← hlen],
      List.forall_mem_cons.mpr ⟨.raw hq hb, hp⟩⟩

theorem operator?_sound {o : Op} {n : Nat} (h : operator? cs = some (o, n)) : ∃ rest,
    cs = o.spelling.toList ++ rest ∧ o.spelling.toList.length = n + 1 ∧ o.isWord = false := by
  unfold operator? at h
  split at h
  case h_15 => cases h
  all_goals
    cases h
    exact ⟨_, rfl, rfl, rfl⟩

theorem lexeme?_sound {n : Nat} (h : lexeme? c cs = some (cls, n)) :
    ∃ l rest, cs = l ++ rest ∧ l.length = n ∧ Lexeme cls (c :: l) := by
  unfold lexeme? at h
  split at h
  · rename_i hb
    cases h
    exact ⟨_, _, (cs.takeWhile_append_dropWhile (p := isBlank)).symm, rfl,
      .blank (run_cons_iff.mpr ⟨hb, fun _ => List.mem_takeWhile_imp⟩)⟩
  split at h
  · rename_i hd
    have hrun : Run isDecimal (c :: cs.takeWhile isDecimal) :=
      run_cons_iff.mpr ⟨hd, fun _ => List.mem_takeWhile_imp⟩
    have hcs := (cs.takeWhile_append_dropWhile (p := isDecimal)).symm
    dsimp only at h
    rw [drop_runLength] at h
    by_cases hf : fractionLength (cs.dropWhile isDecimal) = 0
    · rw [hf] at h
      cases h
      exact ⟨_, _, hcs, rfl, .whole hrun⟩
    · obtain ⟨es, rest, he, hlen, hes⟩ := fractionLength_sound hf
      simp only [bne_iff_ne.mpr hf, Option.some.injEq, Prod.mk.injEq] at h
      obtain ⟨rfl, rfl⟩ := h
      refine ⟨cs.takeWhile isDecimal ++ '.' :: es, rest, ?_, ?_, .fraction hrun hes⟩
      · rwa [List.append_assoc, ← he]
      · rw [List.length_append, List.length_cons, hlen, runLength]
  split at h
  · rename_i hq
    obtain ⟨n, hn, he⟩ := Option.map_eq_some_iff.mp h
    cases he
    obtain ⟨pieces, rest, rfl, hlen, hp⟩ := textLength?_sound hn
    exact ⟨pieces.flatten ++ [c], rest, by simp, by simpa using hlen, .text hq hp⟩
  split at h
  · rename_i hs
    cases h
    obtain ⟨names, rest, hd, hlen, hn⟩ := segmentsLength_sound (cs.dropWhile continuesName)
    refine ⟨cs.takeWhile continuesName ++ dotted names, rest, ?_, ?_,
      .path hs (fun _ => List.mem_takeWhile_imp) hn⟩
    · rw [List.append_assoc, ← hd, List.takeWhile_append_dropWhile]
    · rw [List.length_append, hlen, drop_runLength, runLength]
  · obtain ⟨⟨o, n⟩, hn, he⟩ := Option.map_eq_some_iff.mp h
    cases he
    obtain ⟨rest, hcs, hlen, hw⟩ := operator?_sound hn
    obtain ⟨l, hl⟩ : ∃ l, o.spelling.toList = c :: l := by
      cases ho : o.spelling.toList with
      | nil => simp [ho] at hlen
      | cons d l =>
        rw [ho, List.cons_append, List.cons.injEq] at hcs
        exact ⟨l, by rw [hcs.1]⟩
    rw [hl, List.cons_append, List.cons.injEq] at hcs
    rw [hl, List.length_cons, Nat.add_right_cancel_iff] at hlen
    exact ⟨l, rest, hcs.2, hlen, hl ▸ .op hw⟩

/-! ## No lexeme is longer than what the scanner takes -/

theorem le_fractionLength {es : List Char} (h : Run isDecimal es) (rest : List Char) :
    es.length + 1 ≤ fractionLength ('.' :: (es ++ rest)) := by
  obtain ⟨e, es, rfl, he, hes⟩ := h.exists_cons
  have := length_le_runLength hes rest
  simp only [List.cons_append, fractionLength, he, if_true, List.length_cons]
  omega

/-- The scan of a path does not stop within it. -/
theorem le_segmentsLength {name : List Char} {names : List (List Char)}
    (hn : ∀ d ∈ name, continuesName d = true) (hs : ∀ n ∈ names, Run continuesName n)
    (rest : List Char) {cs : List Char} (hcs : name ++ dotted names ++ rest = cs) :
    (name ++ dotted names).length ≤ runLength continuesName cs +
      segmentsLength (cs.drop (runLength continuesName cs)) := by
  induction names generalizing name cs with
  | nil =>
    subst hcs
    have := length_le_runLength hn rest
    simp [dotted] at this ⊢
    omega
  | cons n names ih =>
    obtain ⟨hrun, hs'⟩ := List.forall_mem_cons.mp hs
    obtain ⟨d, n, rfl, hd, hn'⟩ := hrun.exists_cons
    have hcs' : name ++ '.' :: (d :: (n ++ dotted names ++ rest)) = cs := by
      simpa [dotted] using hcs
    have hlen : runLength continuesName cs = name.length := by
      rw [← hcs', runLength_append_cons hn (by decide)]
    have := ih hn' hs' rfl
    rw [hlen, ← hcs', List.drop_left, segmentsLength, if_pos hd]
    simp [dotted] at this ⊢
    omega

/-- A quoted text is closed by the first quote that no backslash takes along. -/
theorem textLength?_flatten (hq : q ≠ '\\') {pieces : List (List Char)}
    (h : ∀ p ∈ pieces, Piece q p) (rest : List Char) :
    textLength? q (pieces.flatten ++ q :: rest) = some (pieces.flatten.length + 1) := by
  induction pieces with
  | nil => cases rest <;> simp [textLength?]
  | cons p pieces ih =>
    obtain ⟨hp, hps⟩ := List.forall_mem_cons.mp h
    have ih := ih hps
    cases hp with
    | @raw c hcq hb =>
      obtain ⟨d, cs, hcs⟩ : ∃ d cs, pieces.flatten ++ q :: rest = d :: cs :=
        List.exists_cons_of_ne_nil (by simp)
      rw [hcs] at ih
      simp [hcs, textLength?, hcq, hb, ih]
    | @escape c hn =>
      simp [textLength?, hq.symm, hn, ih]

theorem le_operator? {o : Op} (h : o.isWord = false) (rest : List Char) :
    ∃ o' n, operator? (o.spelling.toList ++ rest) = some (o', n) ∧
      o.spelling.toList.length ≤ n + 1 ∧ (o.spelling.toList.length = n + 1 → o' = o) := by
  cases o with
  | andWord | orWord | notWord => cases h
  | equal | notEqual | below | above =>
    cases rest with
    | nil => exact ⟨_, _, rfl, le_rfl, fun _ => rfl⟩
    | cons d rest =>
      by_cases hd : d = '='
      · subst hd
        exact ⟨_, _, rfl, by decide, fun h => absurd h (by decide)⟩
      · refine ⟨_, _, ?_, le_rfl, fun _ => rfl⟩
        simp [Op.spelling, operator?, hd]
  | bang =>
    cases rest with
    | nil => exact ⟨_, _, rfl, le_rfl, fun _ => rfl⟩
    | cons d rest =>
      by_cases hd : d = '='
      · subst hd
        cases rest with
        | nil => exact ⟨_, _, rfl, by decide, fun h => absurd h (by decide)⟩
        | cons e rest =>
          by_cases he : e = '='
          · subst he
            exact ⟨_, _, rfl, by decide, fun h => absurd h (by decide)⟩
          · refine ⟨.notEqual, 1, ?_, by decide, fun h => absurd h (by decide)⟩
            simp [Op.spelling, operator?, he]
      · refine ⟨_, _, ?_, le_rfl, fun _ => rfl⟩
        simp [Op.spelling, operator?, hd]
  | _ => exact ⟨_, _, rfl, le_rfl, fun _ => rfl⟩

theorem lexeme?_decimal (h : isDecimal c = true) (cs : List Char) :
    lexeme? c cs =
      some (.number (fractionLength (cs.drop (runLength isDecimal cs)) != 0),
        runLength isDecimal cs + fractionLength (cs.drop (runLength isDecimal cs))) := by
  rw [lexeme?, Numeral.isDecimal_not_blank h, if_neg (by decide), if_pos h]

theorem lexeme?_quote (h : IsQuote c) (cs : List Char) :
    lexeme? c cs = (textLength? c cs).map fun n => (.text, n) := by
  have hc : isBlank c = false ∧ isDecimal c = false := by rcases h with rfl | rfl <;> decide
  rw [lexeme?, hc.1, hc.2, if_neg (by decide), if_neg (by decide)]
  exact if_pos h

theorem lexeme?_name (h : startsName c = true) (cs : List Char) :
    lexeme? c cs = some (.path, runLength continuesName cs +
      segmentsLength (cs.drop (runLength continuesName cs))) := by
  have hb := isBlank_of_continuesName (continuesName_iff.mpr (.inl h))
  have hq : ¬ IsQuote c := by rintro (rfl | rfl) <;> exact absurd h (by decide)
  rw [lexeme?, hb, isDecimal_of_startsName h, if_neg (by decide), if_neg (by decide)]
  exact (if_neg hq).trans (if_pos h)

/-- The characters of the operators that are no words. -/
def signs : List Char := ['=', '!', '<', '>', '&', '|', '(', ')', '-']

theorem Op.mem_signs {o : Op} (h : o.isWord = false) : ∀ c ∈ o.spelling.toList, c ∈ signs := by
  cases o with
  | andWord | orWord | notWord => cases h
  | _ => simp [Op.spelling, signs]

theorem sign_char : ∀ c ∈ signs,
    isBlank c = false ∧ isDecimal c = false ∧ ¬ IsQuote c ∧ startsName c = false := by
  intro c hc
  fin_cases hc <;> decide

theorem lexeme?_op {o : Op} (h : o.isWord = false) (hc : c ∈ o.spelling.toList) (cs : List Char) :
    lexeme? c cs = (operator? (c :: cs)).map fun r => (.op r.1, r.2) := by
  obtain ⟨hb, hd, hq, hs⟩ := sign_char c (Op.mem_signs h c hc)
  rw [lexeme?, hb, hd, hs, if_neg (by decide), if_neg (by decide)]
  exact (if_neg hq).trans (if_neg (by decide))

/-- **The scanner takes as much as any lexeme in front**, and the lexeme itself if it takes no
more. -/
theorem Lexeme.le_lexeme? (h : Lexeme cls l) (hl : l ++ rest = c :: cs) : ∃ cls' n,
    lexeme? c cs = some (cls', n) ∧ l.length ≤ n + 1 ∧ (l.length = n + 1 → cls' = cls) := by
  cases h with
  | blank h =>
    obtain ⟨d, l, rfl, hd, hb⟩ := h.exists_cons
    rw [List.cons_append, List.cons.injEq] at hl
    obtain ⟨rfl, rfl⟩ := hl
    exact ⟨_, _, lexeme?_blank hd _, Nat.succ_le_succ (length_le_runLength hb rest), fun _ => rfl⟩
  | whole h =>
    obtain ⟨d, ds, rfl, hd, hds⟩ := h.exists_cons
    rw [List.cons_append, List.cons.injEq] at hl
    obtain ⟨rfl, rfl⟩ := hl
    have hle := length_le_runLength hds rest
    refine ⟨_, _, lexeme?_decimal hd _, by rw [List.length_cons]; omega, fun hlen => ?_⟩
    rw [List.length_cons] at hlen
    -- a fraction would make the lexeme longer
    have hf : fractionLength ((ds ++ rest).drop (runLength isDecimal (ds ++ rest))) = 0 := by omega
    rw [hf]
    rfl
  | @fraction ds es hd he =>
    obtain ⟨d, ds, rfl, hd, hds⟩ := hd.exists_cons
    rw [List.append_assoc, List.cons_append, List.cons.injEq] at hl
    obtain ⟨rfl, rfl⟩ := hl
    have hlen : runLength isDecimal (ds ++ ('.' :: es ++ rest)) = ds.length :=
      runLength_append_cons hds (by decide) _
    have hle := le_fractionLength he rest
    refine ⟨_, _, lexeme?_decimal hd _, ?_, fun _ => ?_⟩
    · rw [hlen, List.drop_left]
      simp
      omega
    · rw [hlen, List.drop_left]
      exact congrArg _ (bne_iff_ne.mpr (by simp; omega))
  | @text q pieces hq hp =>
    have hne : q ≠ '\\' := by rcases hq with rfl | rfl <;> decide
    rw [List.cons_append, List.cons.injEq] at hl
    obtain ⟨rfl, rfl⟩ := hl
    have := textLength?_flatten hne hp rest
    refine ⟨.text, _, ?_, le_rfl, fun _ => rfl⟩
    rw [lexeme?_quote hq]
    simp [this]
  | @op o h =>
    obtain ⟨d, l, hd⟩ : ∃ d l, o.spelling.toList = d :: l :=
      List.exists_cons_of_ne_nil (by cases o <;> decide)
    obtain ⟨o', n, ho, hle, heq⟩ := le_operator? h rest
    have hc : c ∈ o.spelling.toList := by
      rw [hd, List.cons_append, List.cons.injEq] at hl
      simp [hd, hl.1]
    refine ⟨.op o', n, ?_, hle, fun hlen => congrArg _ (heq hlen)⟩
    rw [lexeme?_op h hc, ← hl, ho]
    rfl
  | path hc hn hs =>
    rw [List.cons_append, List.cons.injEq] at hl
    obtain ⟨rfl, rfl⟩ := hl
    exact ⟨_, _, lexeme?_name hc _, Nat.succ_le_succ (le_segmentsLength hn hs rest rfl),
      fun _ => rfl⟩

/-! ## The longest lexeme -/

/-- A lexeme in front of the rest of a text, such that no lexeme in front is longer. -/
structure Longest (cls : Class) (l rest : List Char) : Prop where
  lexeme : Lexeme cls l
  longest : ∀ {cls' l'}, Lexeme cls' l' → l' <+: l ++ rest → l'.length ≤ l.length

theorem Lexeme.longest_nil (h : Lexeme cls l) : Longest cls l [] :=
  ⟨h, fun _ hp => by simpa using hp.length_le⟩

theorem Lexeme.exists_cons (h : Lexeme cls l) : ∃ c cs, l = c :: cs := by
  refine List.exists_cons_of_ne_nil ?_
  cases h with
  | blank h | whole h => exact h.1
  | fraction => simp
  | text => simp
  | @op o => cases o <;> decide
  | path => simp

/-- **The scanner takes the longest lexeme.** -/
theorem lexeme?_eq_some_iff {n : Nat} : lexeme? c cs = some (cls, n) ↔
    ∃ l rest, cs = l ++ rest ∧ l.length = n ∧ Longest cls (c :: l) rest := by
  constructor
  · intro h
    obtain ⟨l, rest, rfl, rfl, hl⟩ := lexeme?_sound h
    refine ⟨l, rest, rfl, rfl, hl, fun {cls' l'} hl' ⟨t, ht⟩ => ?_⟩
    obtain ⟨cls'', n, hn, hle, -⟩ := hl'.le_lexeme? ht
    obtain ⟨rfl, rfl⟩ := Prod.mk.inj (Option.some.inj (h.symm.trans hn))
    exact hle
  · rintro ⟨l, rest, rfl, rfl, hl⟩
    have happ : c :: l ++ rest = c :: (l ++ rest) := List.cons_append
    obtain ⟨cls', n, hn, hle, heq⟩ := hl.lexeme.le_lexeme? happ
    obtain ⟨l', rest', hcs, rfl, hl'⟩ := lexeme?_sound hn
    have hle' := hl.longest hl' ⟨rest', by rw [happ, List.cons_append, hcs]⟩
    have hlen : (c :: l).length = l'.length + 1 := Nat.le_antisymm hle hle'
    rw [hn, heq hlen, Nat.succ.inj hlen]

theorem lexeme?_eq_none_iff :
    lexeme? c cs = none ↔ ∀ cls l, Lexeme cls l → ¬ l <+: c :: cs := by
  constructor
  · rintro h cls l hl ⟨rest, hr⟩
    obtain ⟨cls', n, hn, -⟩ := hl.le_lexeme? hr
    cases h.symm.trans hn
  · intro h
    refine Option.eq_none_iff_forall_ne_some.mpr fun ⟨cls, n⟩ hn => ?_
    obtain ⟨l, rest, rfl, -, hl⟩ := lexeme?_sound hn
    exact h cls (c :: l) hl ⟨rest, rfl⟩

/-- There is one longest lexeme in front of a text. -/
theorem Longest.unique {rest' : List Char} (h : Longest cls l rest) (h' : Longest cls' l' rest')
    (heq : l ++ rest = l' ++ rest') : cls = cls' ∧ l = l' ∧ rest = rest' := by
  obtain ⟨c, cs, rfl⟩ := h.lexeme.exists_cons
  obtain ⟨d, ds, rfl⟩ := h'.lexeme.exists_cons
  rw [List.cons_append, List.cons_append, List.cons.injEq] at heq
  obtain ⟨rfl, heq⟩ := heq
  have hs := lexeme?_eq_some_iff.mpr ⟨cs, rest, rfl, rfl, h⟩
  have hs' := lexeme?_eq_some_iff.mpr ⟨ds, rest', heq, rfl, h'⟩
  obtain ⟨rfl, hlen⟩ := Prod.mk.inj (Option.some.inj (hs.symm.trans hs'))
  obtain ⟨rfl, rfl⟩ := List.append_inj heq hlen
  exact ⟨rfl, rfl, rfl⟩

/-! ## What the first character says -/

theorem Lexeme.lexeme?_self (h : Lexeme cls (c :: cs)) : lexeme? c cs = some (cls, cs.length) :=
  lexeme?_eq_some_iff.mpr ⟨cs, [], (List.append_nil cs).symm, rfl, h.longest_nil⟩

theorem Lexeme.eq_blank (h : Lexeme cls (c :: cs)) (hc : isBlank c = true) : cls = .blank := by
  have hs := h.lexeme?_self
  rw [lexeme?_blank hc, Option.some.injEq, Prod.mk.injEq] at hs
  exact hs.1.symm

theorem Lexeme.eq_text (h : Lexeme cls (c :: cs)) (hc : IsQuote c) : cls = .text := by
  have hs := h.lexeme?_self
  rw [lexeme?_quote hc, Option.map_eq_some_iff] at hs
  obtain ⟨n, -, hn⟩ := hs
  exact (Prod.mk.inj hn).1.symm

theorem longest_of_lexeme? (h : lexeme? c (l ++ rest) = some (cls, l.length)) :
    Longest cls (c :: l) rest := by
  obtain ⟨l', rest', heq, hlen, hl⟩ := lexeme?_eq_some_iff.mp h
  obtain ⟨rfl, rfl⟩ := List.append_inj heq hlen.symm
  exact hl

/-- A quoted text ends at its closing quote, whatever follows. -/
theorem Lexeme.longest_text (h : Lexeme .text l) (rest : List Char) : Longest .text l rest := by
  cases h with
  | @text q pieces hq hp =>
    have hne : q ≠ '\\' := by rcases hq with rfl | rfl <;> decide
    refine longest_of_lexeme? ?_
    have := textLength?_flatten hne hp rest
    rw [lexeme?_quote hq]
    simp [this]

/-- Blanks end in front of any other character, and at the end. -/
theorem Run.longest (h : Run isBlank l) (hr : ∀ c ∈ rest.head?, isBlank c = false) :
    Longest .blank l rest := by
  obtain ⟨c, cs, rfl, hc, hcs⟩ := h.exists_cons
  refine longest_of_lexeme? ?_
  rw [lexeme?_blank hc]
  cases rest with
  | nil =>
    have hle : runLength isBlank cs ≤ cs.length := (List.takeWhile_prefix isBlank).length_le
    have hge := length_le_runLength hcs []
    rw [List.append_nil] at hge ⊢
    rw [Nat.le_antisymm hle hge]
  | cons d rest => rw [runLength_append_cons hcs (hr d rfl)]

/-- Blanks stand only within blank lexemes and within quoted texts. -/
theorem Lexeme.isBlank_of_mem (h : Lexeme cls l) (hb : cls ≠ .blank) (ht : cls ≠ .text)
    (hc : c ∈ l) : isBlank c = false := by
  cases h with
  | blank => exact absurd rfl hb
  | text => exact absurd rfl ht
  | whole h => exact Numeral.isDecimal_not_blank (h.2 c hc)
  | fraction hd he =>
    rcases List.mem_append.mp hc with hc | hc
    · exact Numeral.isDecimal_not_blank (hd.2 c hc)
    · rcases List.mem_cons.mp hc with rfl | hc
      · decide
      · exact Numeral.isDecimal_not_blank (he.2 c hc)
  | op h => exact (sign_char c (Op.mem_signs h c hc)).1
  | path hs hn hds =>
    rcases List.mem_cons.mp hc with rfl | hc
    · exact isBlank_of_continuesName (continuesName_iff.mpr (.inl hs))
    rcases List.mem_append.mp hc with hc | hc
    · exact isBlank_of_continuesName (hn c hc)
    · obtain ⟨n, hn, hc⟩ := List.mem_flatMap.mp hc
      rcases List.mem_cons.mp hc with rfl | hc
      · decide
      · exact isBlank_of_continuesName ((hds n hn).2 c hc)

/-- A lexeme that is not blank ends in front of a blank, and at the end. -/
theorem Lexeme.longest_of_blank (h : Lexeme cls l) (hcls : cls ≠ .blank)
    (hr : ∀ c ∈ rest.head?, isBlank c = true) : Longest cls l rest := by
  by_cases htext : cls = .text
  · subst htext
    exact h.longest_text rest
  refine ⟨h, fun {cls' l'} h' hp => ?_⟩
  by_contra hlt
  -- the longer lexeme holds the blank behind the shorter one
  obtain ⟨m, rfl⟩ := List.prefix_of_prefix_length_le (List.prefix_append l rest) hp (by omega)
  have hm : m ≠ [] := by
    rintro rfl
    simp at hlt
  obtain ⟨d, m, rfl⟩ := List.exists_cons_of_ne_nil hm
  have hd : isBlank d = true := by
    obtain ⟨t, ht⟩ := hp
    rw [List.append_assoc, List.append_cancel_left_eq] at ht
    exact hr d (by simp [← ht])
  obtain ⟨c, cs, rfl⟩ := h.exists_cons
  have hb : cls' ≠ .blank := by
    rintro rfl
    cases h' with
    | blank h' => exact hcls (h.eq_blank (run_cons_iff.mp h').1)
  have ht : cls' ≠ .text := by
    rintro rfl
    generalize hl' : c :: cs ++ d :: m = l' at h'
    cases h' with
    | text hq => exact htext (h.eq_text ((List.cons.inj hl').1 ▸ hq))
  have := h'.isBlank_of_mem hb ht (List.mem_append_right _ (List.mem_cons_self ..))
  rw [hd] at this
  cases this

end Workflow.Guard
