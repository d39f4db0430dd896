import Workflow.Proofs.Guard.Overlong
import Workflow.Proofs.Guard.Parsing

/-!
# How a check ends

Cutting, parsing and evaluating a guard can each go wrong. A character that starts no lexeme, tokens
without a derivation, and a tree without a value make the guard fail, and such a failure is all that
is ever logged. An overlong number is not taken for a failure of the guard: it ends the check and
gets through to whoever asked, also where failures are taken for false.

Results:
* `scan_unexpected`: which character stops a cut, and where.
* `ends_check`: the ways in which a check ends.
* `check_answers_iff`: a check answers or fails exactly if the guard comes to no overlong number.
-/
namespace Workflow.Guard

open Text Decimal

/-! ## Cutting -/

theorem scan_unexpected {pos : Nat} {cs : List Char} {c : Char} {p : Nat}
    (h : scan pos cs = .error (.unexpected c p)) : ∃ before rest, cs = before ++ c :: rest ∧
      Reaches cs (c :: rest) ∧ lexeme? c rest = none ∧ p = pos + before.length := by
  fun_induction scan pos cs with
  | case1 pos => cases h
  | case2 pos c' cs hl =>
    cases h
    exact ⟨[], cs, rfl, .here _, hl, rfl⟩
  | case3 pos c' cs cls n hl t ht => cases h
  | case4 pos c' cs cls n hl token ht ih =>
    cases hs : scan (pos + 1 + n) (cs.drop n) with
    | ok ts => simp [hs, Except.map] at h
    | error f =>
      simp only [hs, Except.map, Except.error.injEq] at h
      subst h
      obtain ⟨before, rest, hd, hr, hc, rfl⟩ := ih hs
      have hcs : cs = cs.take n ++ (before ++ c :: rest) := by rw [← hd, List.take_append_drop]
      have hn : (cs.take n).length = n := by
        have hlen := congrArg List.length hd
        simp only [List.length_drop, List.length_append, List.length_cons] at hlen
        rw [List.length_take]
        omega
      refine ⟨c' :: (cs.take n ++ before), rest, ?_, .lexeme hl ht hr, hc, ?_⟩
      · rw [List.cons_append, List.append_assoc, ← hcs]
      · rw [List.length_cons, List.length_append, hn]
        omega

theorem scan_tooLong {pos : Nat} {cs : List Char} {x : TooLong}
    (h : scan pos cs = .error (.tooLong x)) : ∃ c rest n, Reaches cs (c :: rest) ∧
      lexeme? c rest = some (.number false, n) ∧ digitLimit < n + 1 ∧ x = ⟨n + 1⟩ := by
  fun_induction scan pos cs with
  | case1 pos => cases h
  | case2 pos c cs hl => cases h
  | case3 pos c cs cls n hl t ht =>
    cases h
    obtain ⟨rfl, hn⟩ := (token?_error_iff hl).mp ⟨_, ht⟩
    obtain ⟨hlen, hd⟩ := lexeme?_number hl
    have hv := digitValues_length hd
    rw [hlen] at hv
    have hw : wholeOf (digitValues (c :: cs.take n)) = .error ⟨n + 1⟩ := by
      rw [wholeOf, hv, if_pos hn]
    refine ⟨c, cs, n, .here _, hl, hn, ?_⟩
    rw [token?, numberValue, if_neg (by decide), hw] at ht
    cases ht
    rfl
  | case4 pos c cs cls n hl token ht ih =>
    cases hs : scan (pos + 1 + n) (cs.drop n) with
    | ok ts => simp [hs, Except.map] at h
    | error f =>
      simp only [hs, Except.map, Except.error.injEq] at h
      subst h
      obtain ⟨c', rest, k, hr, hk⟩ := ih hs
      exact ⟨c', rest, k, .lexeme hl ht hr, hk⟩

/-! ## Checking -/

/-- The tokens have a derivation with the tree `e` that respects the limit of nesting. -/
def Derives (ts : Tokens) (e : Expr) : Prop :=
  ∃ d : Derivation .disjunction, d.tokens = ts.items.map (·.token) ∧
    (∀ l ∈ d.levels, l ≤ nestingLimit) ∧ d.tree = e

theorem parse_iff_derives (ts : Tokens) (e : Expr) : parse ts = .ok e ↔ Derives ts e := by
  unfold Derives
  simp only [parse_eq_ok_iff, Derivation.nesting_le_iff]

/-- How the check of a guard can end. -/
inductive Ends (context : Context) : Option String → Except Fault Bool → Prop where
  | missing : Ends context none (.ok true)
  | blank {s : String} (h : trim s = "") : Ends context (some s) (.ok true)
  /-- The cut comes to a character that starts no lexeme. -/
  | stray {s : String} {before rest : List Char} {c : Char}
    (hs : (trim s).toList = before ++ c :: rest) (hr : Reaches (trim s).toList (c :: rest))
    (hl : lexeme? c rest = none) :
    Ends context (some s) (.error (.failure ⟨trim s, .character c before.length⟩))
  /-- The cut comes to a whole number with more digits than are read. -/
  | overlong {s : String} {rest : List Char} {c : Char} {n : Nat}
    (hr : Reaches (trim s).toList (c :: rest)) (hl : lexeme? c rest = some (.number false, n))
    (hn : digitLimit < n + 1) : Ends context (some s) (.error (.tooLong ⟨n + 1⟩))
  /-- The tokens are no guard of the grammar, or it nests too deeply. -/
  | malformed {s : String} {ts : Tokens} {f : ParseFault} (ht : tokens (trim s) = .ok ts)
    (hd : ∀ e, ¬ Derives ts e) (hf : Guard.parse ts = .error f) :
    Ends context (some s) (.error (.failure ⟨trim s, .parse f⟩))
  /-- A comparison, a negation or the number of an item has no value. -/
  | undefined {s : String} {ts : Tokens} {e : Expr} {f : EvalFault}
    (ht : tokens (trim s) = .ok ts) (hd : Derives ts e) (he : eval context e = .error f) :
    Ends context (some s) (.error (.failure ⟨s, .value f⟩))
  | valued {s : String} {ts : Tokens} {e : Expr} {v : Value} (ht : tokens (trim s) = .ok ts)
    (hd : Derives ts e) (he : eval context e = .ok v) : Ends context (some s) (.ok v.truthy)

/-- Every check ends in one of these ways. -/
theorem ends_check (guard? : Option String) (context : Context) :
    Ends context guard? (check guard? context) := by
  cases guard? with
  | none => exact .missing
  | some s =>
    change Ends context (some s) (checkText s context)
    unfold checkText
    split
    · rename_i hb
      exact .blank (by simpa using hb)
    · cases ht : tokens (trim s) with
      | error f =>
        cases f with
        | unexpected c p =>
          obtain ⟨before, rest, hs, hr, hl, hp⟩ := scan_unexpected ht
          rw [Nat.zero_add] at hp
          subst hp
          simpa [read, ht] using Ends.stray hs hr hl
        | tooLong x =>
          obtain ⟨c, rest, n, hr, hl, hn, rfl⟩ := scan_tooLong ht
          simpa [read, ht] using Ends.overlong hr hl hn
      | ok ts =>
        rw [read_of_tokens ht]
        cases hp : Guard.parse ts with
        | error f =>
          refine .malformed ht (fun e hd => ?_) hp
          cases hp.symm.trans ((parse_iff_derives ts e).mpr hd)
        | ok e =>
          have hd := (parse_iff_derives ts e).mp hp
          cases he : eval context e with
          | error f => simpa [he, Except.map, Except.mapError] using Ends.undefined ht hd he
          | ok v => simpa [he, Except.map, Except.mapError] using Ends.valued ht hd he

/-- A check has an answer, or the guard fails, unless it comes to an overlong number. -/
theorem check_ends_iff (guard? : Option String) (context : Context) :
    ((∃ b, check guard? context = .ok b) ∨ ∃ f, check guard? context = .error (.failure f)) ↔
      ¬ Overlong guard? := by
  rw [← check_tooLong_iff guard? context]
  rcases check guard? context with (f | x) | b <;> simp

/-- Where failures are taken for false, just the failures are logged. -/
theorem holds_eq_ok_iff (guard? : Option String) (context : Context) (b : Bool)
    (logs : List Log.Entry) : holds guard? context = .ok (b, logs) ↔
      (check guard? context = .ok b ∧ logs = []) ∨
        ∃ f, check guard? context = .error (.failure f) ∧ b = false ∧ logs = [f.entry guard?] := by
  unfold holds
  rcases check guard? context with (f | x) | a
  · simp [eq_comm]
  · simp
  · simp [eq_comm]

/-- **A guard fails in one way, numbers apart.** Every check ends in one of the ways that `Ends`
lists: it has an answer, the guard fails, or an overlong number is met; there is an answer or a
failure exactly if the guard comes to no overlong number. Exactly then there is an answer also where
failures are taken for false: it is that of the check, with nothing logged, or false where the guard
fails, with one entry logged, an error. No bound on the depth of calls is part of this: a host that
has one can end early on values that are nested deeper. -/
theorem check_answers_iff (guard? : Option String) (context : Context) :
    Ends context guard? (check guard? context) ∧
    (((∃ b, check guard? context = .ok b) ∨ ∃ f, check guard? context = .error (.failure f)) ↔
      ¬ Overlong guard?) ∧
    ((∃ b logs, holds guard? context = .ok (b, logs)) ↔ ¬ Overlong guard?) ∧
    ∀ b logs, holds guard? context = .ok (b, logs) ↔
      (check guard? context = .ok b ∧ logs = []) ∨
        ∃ f, check guard? context = .error (.failure f) ∧ b = false ∧
          logs = [f.entry guard?] ∧ (f.entry guard?).level = .error := by
  have hends := check_ends_iff guard? context
  have hholds (b : Bool) (logs : List Log.Entry) := holds_eq_ok_iff guard? context b logs
  refine ⟨ends_check guard? context, hends, ?_, fun b logs => ?_⟩
  · rw [← hends]
    constructor
    · rintro ⟨b, logs, h⟩
      rcases (hholds b logs).mp h with ⟨hc, -⟩ | ⟨f, hf, -⟩
      · exact .inl ⟨b, hc⟩
      · exact .inr ⟨f, hf⟩
    · rintro (⟨b, hb⟩ | ⟨f, hf⟩)
      · exact ⟨b, [], (hholds _ _).mpr (.inl ⟨hb, rfl⟩)⟩
      · exact ⟨false, _, (hholds _ _).mpr (.inr ⟨f, hf, rfl, rfl⟩)⟩
  · rw [hholds]
    have hlevel (f : Failure) : (f.entry guard?).level = .error := rfl
    simp only [hlevel, and_true]

/-! ## A number of too many digits -/

/-- The guard that consists of so many ones. -/
def ones (n : Nat) : String := String.ofList (List.replicate n '1')

theorem trim_ones (n : Nat) : trim (ones n) = ones n := by
  have hb : isBlank '1' = false := by decide
  simp [trim, trimStart, trimEnd, ones, hb]

theorem overlong_ones {n : Nat} (h : digitLimit < n) : Overlong (some (ones n)) := by
  obtain ⟨k, rfl⟩ : ∃ k, n = k + 1 := ⟨n - 1, by omega⟩
  have hcs : (ones (k + 1)).toList = '1' :: List.replicate k '1' := by
    rw [ones, String.toList_ofList, List.replicate_succ]
  have hb : isBlank '1' = false := by decide
  have hd : isDecimal '1' = true := by decide
  have hn : runLength isDecimal (List.replicate k '1') = k := by
    simp [runLength, hd]
  refine ⟨_, _, rfl, .here _, '1', List.replicate k '1', k, by rw [trim_ones, hcs], ?_, h⟩
  simp [lexeme?, hb, hd, hn, fractionLength]

/-- **Counterexample**: a guard need not have an answer, and need not fail. -/
theorem not_answers : ¬ ∀ (guard? : Option String) (context : Context),
    ((∃ b, check guard? context = .ok b) ∨ ∃ f, check guard? context = .error (.failure f)) ∧
      ∃ b logs, holds guard? context = .ok (b, logs) := by
  intro h
  exact (check_ends_iff (some (ones 4301)) []).mp (h _ _).1 (overlong_ones (by decide))

end Workflow.Guard
