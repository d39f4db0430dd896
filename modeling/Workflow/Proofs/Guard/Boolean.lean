import Mathlib
import Workflow.Proofs.Guard.Evaluation

/-!
# Boolean laws of guards

A conjunction stops at its first operand that is false, and a disjunction at its first that is true;
the value is that of the operand at which it stops, and a fault stops both. Nothing behind is come
to. With `stop` for the truth that decides, both are one chain, and a negation turns the one into
the other. The laws hold for the whole course of an evaluation: the leaves that it comes to, in
their order, and the value or the fault.

Results:
* `evaluations_not`: a negated chain is the other chain of the negated operands.
* `evaluations_append`, `evaluations_group`: the operands of a chain in parts.
* `evaluation_cut`: a chain comes to its operands up to the one that decides it.
* `evaluation_fill`: a part of an expression may be exchanged for one with the same course.
* `boolean_laws`: the laws of De Morgan, of grouping and of double negation.
-/
namespace Workflow.Guard

/-- A conjunction or a disjunction, by the truth that decides it. -/
def Expr.chain : Bool → List Expr → Expr
  | false => .all
  | true => .any

variable {context : Context} {stop : Bool} {last : Value} {es : List Expr}

theorem evaluation_chain (h : es ≠ []) :
    evaluation context (.chain stop es) = evaluations context stop (.bool !stop) es := by
  obtain ⟨e, es, rfl⟩ := List.exists_cons_of_ne_nil h
  cases stop <;> rfl

/-- What a chain of operands starts from does not matter. -/
theorem evaluations_start (h : es ≠ []) (u v : Value) :
    evaluations context stop u es = evaluations context stop v es := by
  obtain ⟨e, es, rfl⟩ := List.exists_cons_of_ne_nil h
  rfl

/-! ## Operands in parts -/

/-- The operands of a chain in two parts: the second one is come to if the first does not decide. -/
theorem evaluations_append (h : last.truthy = !stop) (front back : List Expr) :
    evaluations context stop last (front ++ back) = (evaluations context stop last front).bind
      fun v => if v.truthy = stop then .of (.ok v) else evaluations context stop v back := by
  induction front generalizing last with
  | nil =>
    have hne : ¬ last.truthy = stop := by simp [h]
    rw [List.nil_append, evaluations, Evaluation.of_bind, if_neg hne]
  | cons e front ih =>
    rw [List.cons_append, evaluations, evaluations, Evaluation.bind_assoc]
    refine Evaluation.bind_congr fun v _ => ?_
    split
    · rename_i hv
      rw [Evaluation.of_bind, if_pos hv]
    · rename_i hv
      exact ih (Bool.eq_not.mpr hv)

/-- Operands in brackets of their own. -/
theorem evaluations_group (hl : last.truthy = !stop) (before group after : List Expr)
    (hg : group ≠ []) :
    evaluations context stop last (before ++ .chain stop group :: after) =
      evaluations context stop last (before ++ group ++ after) := by
  rw [List.append_assoc, evaluations_append hl, evaluations_append hl]
  refine Evaluation.bind_congr fun v _ => ?_
  split
  · rfl
  · rename_i hv
    rw [evaluations, evaluation_chain hg, evaluations_start hg _ v,
      evaluations_append (Bool.eq_not.mpr hv)]

/-- **De Morgan**, for operands in turn. -/
theorem evaluations_not (es : List Expr) :
    (evaluations context stop last es).bind (fun v => .of (.ok (.bool !v.truthy))) =
      evaluations context (!stop) (.bool !last.truthy) (es.map .not) := by
  induction es generalizing last with
  | nil => rfl
  | cons e es ih =>
    rw [List.map_cons, evaluations, evaluations, evaluation, Evaluation.bind_assoc,
      Evaluation.bind_assoc]
    refine Evaluation.bind_congr fun v _ => ?_
    rw [Evaluation.of_bind]
    have ht : (Value.bool !v.truthy).truthy = !v.truthy := rfl
    by_cases hv : v.truthy = stop
    · rw [if_pos hv, if_pos (by rw [ht, hv]), Evaluation.of_bind]
    · rw [if_neg hv, if_neg (by rw [ht]; exact fun h => hv (Bool.not_inj h)), ih]

/-! ## The deciding operand -/

/-- Does an operand decide a chain? Its truth is the deciding one, or it has no value. -/
def Decides (context : Context) (stop : Bool) (e : Expr) : Prop :=
  ∀ v, eval context e = .ok v → v.truthy = stop

/-- Operands cut behind the one that the value of their chain comes from: the first that decides, or
the last if none does. -/
structure Cut (context : Context) (stop : Bool) (es before : List Expr) (e : Expr)
    (after : List Expr) : Prop where
  parts : es = before ++ e :: after
  undecided : ∀ a ∈ before, ¬ Decides context stop a
  decided : Decides context stop e ∨ after = []

theorem exists_cut (h : es ≠ []) : ∃ before e after, Cut context stop es before e after := by
  induction es with
  | nil => exact absurd rfl h
  | cons e es ih =>
    by_cases hd : Decides context stop e
    · exact ⟨[], e, es, rfl, by simp, .inl hd⟩
    · by_cases hn : es = []
      · exact ⟨[], e, es, rfl, by simp, .inr hn⟩
      · obtain ⟨before, d, after, hc⟩ := ih hn
        refine ⟨e :: before, d, after, by rw [hc.parts]; rfl, ?_, hc.decided⟩
        exact List.forall_mem_cons.mpr ⟨hd, hc.undecided⟩

/-- Operands in turn come to those up to the deciding one, and to its value or its fault. -/
theorem evaluations_cut {before after : List Expr} {e : Expr}
    (hu : ∀ a ∈ before, ¬ Decides context stop a) (hd : Decides context stop e ∨ after = []) :
    evaluations context stop last (before ++ e :: after) =
      ⟨(before ++ [e]).flatMap fun a => (evaluation context a).leaves, eval context e⟩ := by
  induction before generalizing last with
  | nil =>
    have hnext : ∀ v, (evaluation context e).outcome = .ok v →
        (if v.truthy = stop then Evaluation.of (.ok v) else evaluations context stop v after) =
          .of (.ok v) := by
      intro v hv
      rw [evaluation_outcome] at hv
      rcases hd with hd | rfl
      · rw [if_pos (hd v hv)]
      · split <;> rfl
    rw [List.nil_append, evaluations, Evaluation.bind_congr hnext, Evaluation.bind_of]
    simp [← evaluation_outcome]
  | cons a before ih =>
    obtain ⟨ha, hu⟩ := List.forall_mem_cons.mp hu
    obtain ⟨v, hv, hne⟩ : ∃ v, eval context a = .ok v ∧ v.truthy ≠ stop := by
      simpa [Decides] using ha
    rw [← evaluation_outcome] at hv
    rw [List.cons_append, evaluations, Evaluation.bind_of_ok hv, if_neg hne, ih hu]
    simp

/-- A chain comes to its operands up to the deciding one, and to its value or its fault. -/
theorem evaluation_cut {before after : List Expr} {e : Expr}
    (h : Cut context stop es before e after) : evaluation context (.chain stop es) =
      ⟨(before ++ [e]).flatMap fun a => (evaluation context a).leaves, eval context e⟩ := by
  rw [evaluation_chain (by simp [h.parts]), h.parts, evaluations_cut h.undecided h.decided]

/-! ## Parts of expressions -/

/-- An expression with a place for a part. -/
inductive Frame where
  | hole
  | not (f : Frame)
  | negate (f : Frame)
  | chain (stop : Bool) (before : List Expr) (f : Frame) (after : List Expr)
  | left (c : Comparison) (f : Frame) (r : Expr)
  | right (c : Comparison) (l : Expr) (f : Frame)

/-- The expression with a part in its place. -/
def Frame.fill : Frame → Expr → Expr
  | .hole, e => e
  | .not f, e => .not (f.fill e)
  | .negate f, e => .negate (f.fill e)
  | .chain stop before f after, e => .chain stop (before ++ f.fill e :: after)
  | .left c f r, e => .compare c (f.fill e) r
  | .right c l f, e => .compare c l (f.fill e)

theorem evaluations_congr_at {e e' : Expr} (h : evaluation context e = evaluation context e')
    (before after : List Expr) : evaluations context stop last (before ++ e :: after) =
      evaluations context stop last (before ++ e' :: after) := by
  induction before generalizing last with
  | nil => simp only [List.nil_append, evaluations, h]
  | cons a before ih => simp only [List.cons_append, evaluations, ih]

/-- Parts with the same course may be exchanged for each other. -/
theorem evaluation_fill {e e' : Expr} (h : evaluation context e = evaluation context e')
    (f : Frame) : evaluation context (f.fill e) = evaluation context (f.fill e') := by
  induction f with
  | hole => exact h
  | not f ih => simp only [Frame.fill, evaluation, ih]
  | negate f ih => simp only [Frame.fill, evaluation, ih]
  | chain stop before f after ih =>
    rw [Frame.fill, Frame.fill, evaluation_chain (by simp), evaluation_chain (by simp)]
    exact evaluations_congr_at ih before after
  | left c f r ih => simp only [Frame.fill, evaluation, ih]
  | right c l f ih => simp only [Frame.fill, evaluation, ih]

/-! ## The laws -/

/-- **De Morgan.** -/
theorem evaluation_not_chain (h : es ≠ []) (stop : Bool) :
    evaluation context (.not (.chain stop es)) =
      evaluation context (.chain (!stop) (es.map .not)) := by
  rw [evaluation, evaluation_chain h, evaluation_chain (by simpa using h), evaluations_not]
  rfl

theorem evaluation_group (stop : Bool) (before group after : List Expr) (h : group ≠ []) :
    evaluation context (.chain stop (before ++ .chain stop group :: after)) =
      evaluation context (.chain stop (before ++ group ++ after)) := by
  rw [evaluation_chain (by simp), evaluation_chain (by simp [h])]
  exact evaluations_group (by simp [Value.truthy]) before group after h

/-- Two negations leave the truth of a value. -/
theorem evaluation_not_not (e : Expr) : evaluation context (.not (.not e)) =
    ⟨(evaluation context e).leaves, (eval context e).map fun v => .bool v.truthy⟩ := by
  rw [evaluation, evaluation, Evaluation.bind_assoc, ← evaluation_outcome, ← Evaluation.bind_map]
  simp [Value.truthy]

theorem evaluation_not_not_not (e : Expr) :
    evaluation context (.not (.not (.not e))) = evaluation context (.not e) := by
  rw [evaluation, evaluation_not_not, evaluation, Evaluation.bind_map, Evaluation.bind_map,
    evaluation_outcome]
  cases eval context e <;> simp [Except.map, Value.truthy]

/-- **Boolean laws.** In any expression, on any context, and whatever the operands come to: a
negated conjunction has the same course as the disjunction of the negated operands, and a negated
disjunction as their conjunction; operands that stand side by side in a chain may be put in
brackets; and of three negations two may go. So the leaves that are come to, their order, and the
value or the fault are the same. Two negations leave the truth of the operand's value, or its fault.
A chain comes to its operands up to the first that decides it, and that one's value or fault is its
own, whatever stands behind. The course ends as evaluation does, and leaves that it does not come to
do not matter. -/
theorem boolean_laws (context : Context) (f : Frame) (es : List Expr) (h : es ≠ []) :
    evaluation context (f.fill (.not (.all es))) =
      evaluation context (f.fill (.any (es.map .not))) ∧
    evaluation context (f.fill (.not (.any es))) =
      evaluation context (f.fill (.all (es.map .not))) ∧
    (∀ before group after, es = before ++ group ++ after → group ≠ [] →
      evaluation context (f.fill (.all (before ++ .all group :: after))) =
        evaluation context (f.fill (.all es)) ∧
      evaluation context (f.fill (.any (before ++ .any group :: after))) =
        evaluation context (f.fill (.any es))) ∧
    (∀ e, evaluation context (.not (.not e)) =
        ⟨(evaluation context e).leaves, (eval context e).map fun v => .bool v.truthy⟩ ∧
      evaluation context (f.fill (.not (.not (.not e)))) = evaluation context (f.fill (.not e))) ∧
    (∀ stop, ∃ before e after, Cut context stop es before e after ∧
      evaluation context (.chain stop es) =
        ⟨(before ++ [e]).flatMap fun a => (evaluation context a).leaves, eval context e⟩ ∧
      (Decides context stop e → ∀ after', evaluation context (.chain stop (before ++ e :: after')) =
        evaluation context (.chain stop es))) ∧
    ∀ e, (evaluation context e).outcome = eval context e ∧ (evaluation context e).leaves ≠ [] ∧
      ∀ context', (∀ names, .path names ∈ (evaluation context e).leaves →
        lookup (.obj context') names = lookup (.obj context) names) →
        evaluation context' e = evaluation context e := by
  refine ⟨evaluation_fill (evaluation_not_chain h false) f,
    evaluation_fill (evaluation_not_chain h true) f, ?_, fun e => ⟨evaluation_not_not e,
    evaluation_fill (evaluation_not_not_not e) f⟩, fun stop => ?_, fun e => ⟨evaluation_outcome e,
    leaves_ne_nil e, fun context' => evaluation_congr e⟩⟩
  · rintro before group after rfl hg
    exact ⟨evaluation_fill (evaluation_group false before group after hg) f,
      evaluation_fill (evaluation_group true before group after hg) f⟩
  · obtain ⟨before, e, after, hc⟩ := exists_cut h
    refine ⟨before, e, after, hc, evaluation_cut hc, fun hd after' => ?_⟩
    rw [evaluation_cut hc, evaluation_cut ⟨rfl, hc.undecided, .inl hd⟩]

/-- Operands that are true, without a value, and without a value again. -/
def troubled : List Expr :=
  [.path ["ready"], .negate (.path ["name"]),
    .compare (.order .below) (.path ["name"]) (.literal (.int 1))]

/-- The second of three operands has no value, and the third is not come to, on both sides of the
law. -/
theorem boolean_laws_troubled :
    let context : Context := [("ready", .bool true), ("name", .str "tea")]
    let f : Frame := .left .equal .hole (.path ["other"])
    troubled ≠ [] ∧
      evaluation context (f.fill (.not (.all troubled))) =
        evaluation context (f.fill (.any (troubled.map .not))) ∧
      evaluation context (f.fill (.not (.all troubled))) =
        ⟨[.path ["ready"], .path ["name"]], .error (.notNegatable .str)⟩ := by
  intro context f
  have h : troubled ≠ [] := by simp [troubled]
  refine ⟨h, (boolean_laws context f troubled h).1, ?_⟩
  rfl

end Workflow.Guard
