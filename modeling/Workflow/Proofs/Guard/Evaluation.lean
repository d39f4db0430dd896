import Workflow.Guard.Eval

/-!
# The course of an evaluation

An expression is evaluated leaf by leaf. Which leaves an evaluation comes to depends on what it has
come to before: operands behind the one that decides a conjunction or a disjunction are left alone,
and so is everything behind a fault. `evaluation` tells the leaves in the order in which they are
come to, beside the value or the fault of `eval`.

Results:
* `evaluation_outcome`: the outcome of an evaluation is that of `eval`.
* `leaves_ne_nil`: every evaluation comes to a leaf.
* `mem_paths_of_leaf`: it reads the context at paths of the expression only.
* `evaluation_congr`: where else contexts differ does not matter.
-/
namespace Workflow.Guard

/-- What an evaluation can come to without a further expression: a literal, a path, and a chain
without operands. -/
inductive Leaf where
  | literal (v : Value)
  | path (names : List String)
  | chain (stop : Bool)

/-- An evaluation: the leaves that it comes to, in their order, and the value or the fault that it
ends with. -/
structure Evaluation where
  leaves : List Leaf
  outcome : Except EvalFault Value

namespace Evaluation

/-- What is known without a further leaf. -/
def of (r : Except EvalFault Value) : Evaluation := ⟨[], r⟩

/-- One evaluation, and another one that goes on with its value. A fault ends it. -/
def bind (x : Evaluation) (next : Value → Evaluation) : Evaluation :=
  match x.outcome with
  | .error _ => x
  | .ok v => ⟨x.leaves ++ (next v).leaves, (next v).outcome⟩

variable {x : Evaluation} {next next' : Value → Evaluation} {leaf : Leaf} {v : Value}
  {f : EvalFault}

theorem bind_of_error (h : x.outcome = .error f) : x.bind next = x := by
  simp only [bind, h]

theorem bind_of_ok (h : x.outcome = .ok v) :
    x.bind next = ⟨x.leaves ++ (next v).leaves, (next v).outcome⟩ := by
  simp only [bind, h]

@[simp] theorem of_bind (v : Value) (next : Value → Evaluation) :
    (of (.ok v)).bind next = next v := rfl

theorem bind_map (x : Evaluation) (g : Value → Value) :
    (x.bind fun v => of (.ok (g v))) = ⟨x.leaves, x.outcome.map g⟩ := by
  obtain ⟨leaves, _ | v⟩ := x
  · rfl
  · simp [bind, of, Except.map]

theorem bind_of (x : Evaluation) : (x.bind fun v => of (.ok v)) = x := by
  obtain ⟨leaves, _ | v⟩ := x
  · rfl
  · simp [bind, of]

theorem bind_assoc (x : Evaluation) (next later : Value → Evaluation) :
    (x.bind next).bind later = x.bind fun v => (next v).bind later := by
  cases h : x.outcome with
  | error f => rw [bind_of_error h, bind_of_error h, bind_of_error h]
  | ok v =>
    rw [bind_of_ok h, bind_of_ok h]
    cases hn : (next v).outcome with
    | error f => simp only [bind, hn]
    | ok w => simp only [bind, hn, List.append_assoc]

theorem bind_congr (h : ∀ v, x.outcome = .ok v → next v = next' v) :
    x.bind next = x.bind next' := by
  cases hx : x.outcome with
  | error f => rw [bind_of_error hx, bind_of_error hx]
  | ok v => rw [bind_of_ok hx, bind_of_ok hx, h v hx]

theorem mem_bind : leaf ∈ (x.bind next).leaves ↔
    leaf ∈ x.leaves ∨ ∃ v, x.outcome = .ok v ∧ leaf ∈ (next v).leaves := by
  cases hx : x.outcome with
  | error f => simp [bind_of_error hx]
  | ok v => simp [bind_of_ok hx]

theorem bind_ne_nil (h : x.leaves ≠ []) : (x.bind next).leaves ≠ [] := by
  obtain ⟨leaf, hl⟩ := List.exists_mem_of_ne_nil _ h
  exact List.ne_nil_of_mem (mem_bind.mpr (.inl hl))

end Evaluation

mutual

/-- The evaluation of an expression. -/
def evaluation (context : Context) : Expr → Evaluation
  | .literal v => ⟨[.literal v], .ok v⟩
  | .path names => ⟨[.path names], (lookup (.obj context) names).mapError .numeral⟩
  | .not e => (evaluation context e).bind fun v => .of (.ok (.bool !v.truthy))
  | .negate e => (evaluation context e).bind fun v => .of (negated v)
  | .all [] => ⟨[.chain false], .ok (.bool true)⟩
  | .all (e :: es) => evaluations context false (.bool true) (e :: es)
  | .any [] => ⟨[.chain true], .ok (.bool false)⟩
  | .any (e :: es) => evaluations context true (.bool false) (e :: es)
  | .compare c l r => (evaluation context l).bind fun v =>
      (evaluation context r).bind fun w => .of ((compared c v w).map .bool)

/-- The evaluation of operands in turn, up to the first whose truth is `stop`. -/
def evaluations (context : Context) (stop : Bool) (last : Value) : List Expr → Evaluation
  | [] => .of (.ok last)
  | e :: es => (evaluation context e).bind fun v =>
      if v.truthy = stop then .of (.ok v) else evaluations context stop v es

end

variable {context context' : Context}

/-! ## The outcome -/

mutual

/-- An evaluation ends with the value or the fault of the expression. -/
theorem evaluation_outcome : ∀ e : Expr, (evaluation context e).outcome = eval context e
  | .literal _ => rfl
  | .path _ => rfl
  | .not e => by
    have he := evaluation_outcome e
    cases h : eval context e <;>
      simp [evaluation, eval, Evaluation.bind, he, h, Evaluation.of, Except.map]
  | .negate e => by
    have he := evaluation_outcome e
    cases h : eval context e <;> simp [evaluation, eval, Evaluation.bind, he, h, Evaluation.of]
  | .all [] => rfl
  | .all (e :: es) => outcome_evalAll _ (e :: es)
  | .any [] => rfl
  | .any (e :: es) => outcome_evalAny _ (e :: es)
  | .compare c l r => by
    have hl := evaluation_outcome l
    have hr := evaluation_outcome r
    cases h : eval context l with
    | error f => simp [evaluation, eval, Evaluation.bind, hl, h]
    | ok v =>
      cases h' : eval context r <;>
        simp [evaluation, eval, Evaluation.bind, hl, hr, h, h', Evaluation.of]

theorem outcome_evalAll (last : Value) :
    ∀ es : List Expr, (evaluations context false last es).outcome = evalAll context last es
  | [] => rfl
  | e :: es => by
    have he := evaluation_outcome e
    cases h : eval context e with
    | error f => simp [evaluations, evalAll, Evaluation.bind, he, h]
    | ok v =>
      have hes := outcome_evalAll v es
      cases hv : v.truthy <;>
        simp [evaluations, evalAll, Evaluation.bind, he, h, hv, hes, Evaluation.of]

theorem outcome_evalAny (last : Value) :
    ∀ es : List Expr, (evaluations context true last es).outcome = evalAny context last es
  | [] => rfl
  | e :: es => by
    have he := evaluation_outcome e
    cases h : eval context e with
    | error f => simp [evaluations, evalAny, Evaluation.bind, he, h]
    | ok v =>
      have hes := outcome_evalAny v es
      cases hv : v.truthy <;>
        simp [evaluations, evalAny, Evaluation.bind, he, h, hv, hes, Evaluation.of]

end

/-! ## The leaves -/

open Evaluation (bind_ne_nil mem_bind)

/-- Every evaluation comes to a leaf. -/
theorem leaves_ne_nil : ∀ e : Expr, (evaluation context e).leaves ≠ []
  | .literal _ => by simp [evaluation]
  | .path _ => by simp [evaluation]
  | .not e => bind_ne_nil (leaves_ne_nil e)
  | .negate e => bind_ne_nil (leaves_ne_nil e)
  | .all [] => by simp [evaluation]
  | .all (e :: _) => bind_ne_nil (leaves_ne_nil e)
  | .any [] => by simp [evaluation]
  | .any (e :: _) => bind_ne_nil (leaves_ne_nil e)
  | .compare _ l _ => bind_ne_nil (leaves_ne_nil l)

mutual

/-- An evaluation reads the context at paths of the expression only. -/
theorem mem_paths_of_leaf {names : List String} :
    ∀ e : Expr, .path names ∈ (evaluation context e).leaves → names ∈ e.paths
  | .literal _, h => by simp [evaluation] at h
  | .path _, h => by simpa [evaluation, Expr.paths] using h
  | .not e, h => by
    rcases mem_bind.mp h with h | ⟨v, -, h⟩
    · exact mem_paths_of_leaf e h
    · cases h
  | .negate e, h => by
    rcases mem_bind.mp h with h | ⟨v, -, h⟩
    · exact mem_paths_of_leaf e h
    · cases h
  | .all [], h => by simp [evaluation] at h
  | .all (e :: es), h => mem_allPaths_of_leaf _ _ (e :: es) h
  | .any [], h => by simp [evaluation] at h
  | .any (e :: es), h => mem_allPaths_of_leaf _ _ (e :: es) h
  | .compare c l r, h => by
    rw [Expr.paths, List.mem_append]
    rcases mem_bind.mp h with h | ⟨v, -, h⟩
    · exact .inl (mem_paths_of_leaf l h)
    · rcases mem_bind.mp h with h | ⟨w, -, h⟩
      · exact .inr (mem_paths_of_leaf r h)
      · cases h

theorem mem_allPaths_of_leaf {names : List String} (stop : Bool) (last : Value) :
    ∀ es : List Expr, .path names ∈ (evaluations context stop last es).leaves →
      names ∈ Expr.allPaths es
  | [], h => by cases h
  | e :: es, h => by
    rw [Expr.allPaths, List.mem_append]
    rcases mem_bind.mp h with h | ⟨v, -, h⟩
    · exact .inl (mem_paths_of_leaf e h)
    · split at h
      · cases h
      · exact .inr (mem_allPaths_of_leaf stop v es h)

end

mutual

/-- Contexts in which the paths that an evaluation comes to lead to the same have the same
evaluation. -/
theorem evaluation_congr : ∀ e : Expr,
    (∀ names, .path names ∈ (evaluation context e).leaves →
      lookup (.obj context') names = lookup (.obj context) names) →
    evaluation context' e = evaluation context e
  | .literal _, _ => rfl
  | .path names, h => by simp only [evaluation, h names (List.mem_singleton_self _)]
  | .not e, h => by
    rw [evaluation, evaluation, evaluation_congr e fun names hm => h names (mem_bind.mpr (.inl hm))]
  | .negate e, h => by
    rw [evaluation, evaluation, evaluation_congr e fun names hm => h names (mem_bind.mpr (.inl hm))]
  | .all [], _ => rfl
  | .all (e :: es), h => evaluations_congr _ _ (e :: es) h
  | .any [], _ => rfl
  | .any (e :: es), h => evaluations_congr _ _ (e :: es) h
  | .compare c l r, h => by
    have hl := evaluation_congr l fun names hm => h names (mem_bind.mpr (.inl hm))
    simp only [evaluation, hl]
    refine Evaluation.bind_congr fun v hv => ?_
    rw [evaluation_congr r fun names hm =>
      h names (mem_bind.mpr (.inr ⟨v, hv, mem_bind.mpr (.inl hm)⟩))]

theorem evaluations_congr (stop : Bool) (last : Value) : ∀ es : List Expr,
    (∀ names, .path names ∈ (evaluations context stop last es).leaves →
      lookup (.obj context') names = lookup (.obj context) names) →
    evaluations context' stop last es = evaluations context stop last es
  | [], _ => rfl
  | e :: es, h => by
    have he := evaluation_congr e fun names hm => h names (mem_bind.mpr (.inl hm))
    simp only [evaluations, he]
    refine Evaluation.bind_congr fun v hv => ?_
    split
    · rfl
    · rename_i hne
      refine evaluations_congr stop v es fun names hm => h names (mem_bind.mpr (.inr ⟨v, hv, ?_⟩))
      rwa [if_neg hne]

end

end Workflow.Guard
