import Mathlib
import Workflow.Guard.Check
import Workflow.Proofs.Guard.Lexeme

/-!
# Guards with an overlong number

Lexeme by lexeme a guard is cut from its front. A whole number of more than 4300 digits is a lexeme
like any other, but it has no value: where the cut comes to one, the guard has no answer, and that
is no failure of the guard either.

Results:
* `tokens_tooLong_iff`: when cutting a text into tokens comes to an overlong number.
* `check_tooLong_iff`: a check ends neither with an answer nor with a failure exactly then.
-/
namespace Workflow.Guard

open Text Decimal

/-- Lexemes that have their tokens lead from the front of one text to another. -/
inductive Reaches : List Char → List Char → Prop where
  | here (cs : List Char) : Reaches cs cs
  | lexeme {c : Char} {cs rest : List Char} {cls : Class} {n : Nat} {token : Option Token}
    (hl : lexeme? c cs = some (cls, n)) (ht : token? cls (c :: cs.take n) = .ok token)
    (h : Reaches (cs.drop n) rest) : Reaches (c :: cs) rest

/-- A whole number of more than 4300 digits stands in front. -/
def StartsOverlong (cs : List Char) : Prop :=
  ∃ c rest n, cs = c :: rest ∧ lexeme? c rest = some (.number false, n) ∧ digitLimit < n + 1

/-- Is there a guard, and does cutting it come to an overlong number? -/
def Overlong (guard? : Option String) : Prop :=
  ∃ s cs, guard? = some s ∧ Reaches (trim s).toList cs ∧ StartsOverlong cs

/-- A lexeme of the class of whole numbers consists of digits. -/
theorem lexeme?_number {c : Char} {cs : List Char} {n : Nat}
    (h : lexeme? c cs = some (.number false, n)) :
    (c :: cs.take n).length = n + 1 ∧ ∀ d ∈ c :: cs.take n, isDecimal d = true := by
  obtain ⟨l, rest, rfl, rfl, hl⟩ := lexeme?_sound h
  rw [List.take_left]
  cases hl with
  | whole hd => exact ⟨rfl, hd.2⟩

/-- Only an overlong whole number is a lexeme without its token. -/
theorem token?_error_iff {c : Char} {cs : List Char} {cls : Class} {n : Nat}
    (h : lexeme? c cs = some (cls, n)) :
    (∃ t, token? cls (c :: cs.take n) = .error t) ↔ cls = .number false ∧ digitLimit < n + 1 := by
  match cls with
  | .blank | .text | .op _ | .path => simp [token?]
  | .number true => simp [token?, numberValue, Except.map]
  | .number false =>
    obtain ⟨hlen, hd⟩ := lexeme?_number h
    have hv := digitValues_length hd
    rw [hlen] at hv
    simp only [token?, numberValue, Bool.false_eq_true, if_false, true_and]
    unfold wholeOf
    rw [hv]
    split
    · rename_i hlong
      exact ⟨fun _ => hlong, fun _ => ⟨_, rfl⟩⟩
    · rename_i hshort
      refine ⟨?_, fun hlong => absurd hlong hshort⟩
      rintro ⟨t, ht⟩
      cases ht

theorem scan_tooLong_iff (pos : Nat) (cs : List Char) :
    (∃ t, scan pos cs = .error (.tooLong t)) ↔ ∃ rest, Reaches cs rest ∧ StartsOverlong rest := by
  constructor
  · intro h
    fun_induction scan pos cs with
    | case1 pos => obtain ⟨t, ht⟩ := h; cases ht
    | case2 pos c cs hl => obtain ⟨t, ht⟩ := h; cases ht
    | case3 pos c cs cls n hl t ht =>
      obtain ⟨rfl, hn⟩ := (token?_error_iff hl).mp ⟨t, ht⟩
      exact ⟨c :: cs, .here _, c, cs, n, rfl, hl, hn⟩
    | case4 pos c cs cls n hl token ht ih =>
      obtain ⟨t, he⟩ := h
      cases hs : scan (pos + 1 + n) (cs.drop n) with
      | ok ts => simp [hs, Except.map] at he
      | error f =>
        simp only [hs, Except.map, Except.error.injEq] at he
        subst he
        obtain ⟨rest, hr, ho⟩ := ih ⟨t, hs⟩
        exact ⟨rest, .lexeme hl ht hr, ho⟩
  · rintro ⟨rest, hr, ho⟩
    induction hr generalizing pos with
    | here cs =>
      obtain ⟨c, rest, n, rfl, hl, hn⟩ := ho
      obtain ⟨t, ht⟩ := (token?_error_iff hl).mpr ⟨rfl, hn⟩
      exact ⟨t, by rw [scan]; simp only [hl, ht]⟩
    | @lexeme c cs rest cls n token hl ht hr ih =>
      obtain ⟨t, hs⟩ := ih (pos + 1 + n) ho
      exact ⟨t, by rw [scan]; simp only [hl, ht, hs, Except.map]⟩

theorem tokens_tooLong_iff (s : String) :
    (∃ t, tokens s = .error (.tooLong t)) ↔ ∃ rest, Reaches s.toList rest ∧ StartsOverlong rest :=
  scan_tooLong_iff 0 s.toList

/-- A blank guard is cut into nothing. -/
theorem not_overlong_of_isEmpty {s : String} (h : (trim s).isEmpty = true) {rest : List Char}
    (hr : Reaches (trim s).toList rest) : ¬ StartsOverlong rest := by
  have he : (trim s).toList = [] := by simpa using h
  rw [he] at hr
  rintro ⟨c, cs, n, rfl, -⟩
  cases hr

/-- A check that comes to an overlong number has no answer and does not fail either. -/
theorem check_tooLong_iff (guard? : Option String) (context : Context) :
    (∃ t, check guard? context = .error (.tooLong t)) ↔ Overlong guard? := by
  cases guard? with
  | none => simp [check, Overlong]
  | some s =>
    have hread : (∃ t, read (trim s) = .error (.tooLong t)) ↔ Overlong (some s) := by
      simp only [Overlong, Option.some.injEq]
      have key := tokens_tooLong_iff (trim s)
      unfold read
      cases ht : tokens (trim s) with
      | ok ts =>
        rw [ht] at key
        cases hp : Guard.parse ts <;> simp [hp, Except.mapError] at key ⊢ <;> exact key
      | error f =>
        rw [ht] at key
        cases f <;> simp at key ⊢ <;> exact key
    change (∃ t, checkText s context = _) ↔ _
    unfold checkText
    split
    · rename_i hb
      simp only [reduceCtorEq, exists_false, false_iff]
      rintro ⟨_, rest, ⟨⟩, hr, ho⟩
      exact not_overlong_of_isEmpty hb hr ho
    · rw [← hread]
      cases hr : read (trim s) with
      | error f => simp
      | ok e =>
        cases he : eval context e <;> simp [he, Except.map, Except.mapError]

end Workflow.Guard
