import Mathlib
import Workflow.Proofs.Guard.Boolean
import Workflow.Proofs.Guard.Munch
import Workflow.Proofs.Guard.Parsing

/-!
# The height of guards

Between one bracket or negation and the next a guard can put a disjunction, a conjunction and a
comparison above each other, and nothing more; the operands of a chain stand side by side. So the
height of its tree is bounded by the nesting of its derivation, and that is at most sixty-four for
every guard that is read, however long.

An evaluation goes down the tree. `evalWithin` evaluates an expression with room for so many
expressions that are begun and not yet done, and gives up where the room ends. With room for the
height of an expression it never gives up.

Results:
* `Derivation.height_tree_le`: with each level of nesting a tree grows by three at most.
* `exists_read`: every derivation that nests no deeper than the limit, of tokens that can be
  written, is read from some text.
* `evalWithin_of_height_le`: an evaluation needs no more room than the expression is high.
* `height_tower`, `evalWithin_tower`: trees that are as high as they may be, and need all that room.
* `height_bounded`: guards are shallow, however long they are.
-/
namespace Workflow.Guard

/-- The greatest height of a guard: three for each level, and a leaf. -/
def heightLimit : Nat := 3 * (nestingLimit + 1) + 1

/-! ## Trees of derivations -/

/-- The greatest height of a phrase in which nothing nests. -/
def Symbol.storeys : Symbol → Nat
  | .disjunction => 4
  | .conjunction => 3
  | .negation => 2
  | .comparison => 2
  | .unary => 1
  | .primary => 1

/-- One operand is as high as it is, and several are joined one storey above the highest. -/
theorem height_joined_le (join : List Expr → Expr)
    (hj : ∀ es, (join es).height = Expr.heights es + 1) (first : Expr) (more : List Expr) :
    (joined join first more).height ≤ max first.height (Expr.heights more) + 1 := by
  unfold joined
  split
  · omega
  · rw [hj, Expr.heights]

mutual

/-- With each level of nesting a tree grows by three storeys at most. -/
theorem Derivation.height_tree_le {s : Symbol} :
    ∀ d : Derivation s, d.tree.height ≤ 3 * d.nesting + s.storeys
  | .disjunction first more => by
    have h := height_joined_le .any (fun es => by simp [Expr.height]) first.tree more.trees
    have h1 := first.height_tree_le
    have h2 := more.heights_trees_le
    simp only [Derivation.tree, Derivation.nesting, Symbol.storeys] at *
    omega
  | .conjunction first more => by
    have h := height_joined_le .all (fun es => by simp [Expr.height]) first.tree more.trees
    have h1 := first.height_tree_le
    have h2 := more.heights_trees_le
    simp only [Derivation.tree, Derivation.nesting, Symbol.storeys] at *
    omega
  | .notWord d => by
    have h := d.height_tree_le
    simp only [Derivation.tree, Derivation.nesting, Expr.height, Symbol.storeys] at *
    omega
  | .comparison d => by
    have h := d.height_tree_le
    simp only [Derivation.tree, Derivation.nesting, Symbol.storeys] at *
    omega
  | .single d => by
    have h := d.height_tree_le
    simp only [Derivation.tree, Derivation.nesting, Symbol.storeys] at *
    omega
  | .compared l _ _ _ r => by
    have h1 := l.height_tree_le
    have h2 := r.height_tree_le
    simp only [Derivation.tree, Derivation.nesting, Expr.height, Symbol.storeys] at *
    omega
  | .bang d => by
    have h := d.height_tree_le
    simp only [Derivation.tree, Derivation.nesting, Expr.height, Symbol.storeys] at *
    omega
  | .minus d => by
    have h := d.height_tree_le
    simp only [Derivation.tree, Derivation.nesting, Expr.height, Symbol.storeys] at *
    omega
  | .primary d => by
    have h := d.height_tree_le
    simp only [Derivation.tree, Derivation.nesting, Symbol.storeys] at *
    omega
  | .literal _ => by simp [Derivation.tree, Expr.height, Symbol.storeys]
  | .path _ => by simp [Derivation.tree, Expr.height, Symbol.storeys]
  | .bracketed d => by
    have h := d.height_tree_le
    simp only [Derivation.tree, Derivation.nesting, Symbol.storeys] at *
    omega

theorem Joined.heights_trees_le {s : Symbol} :
    ∀ m : Joined s, Expr.heights m.trees ≤ 3 * m.nesting + s.storeys
  | .nil => by simp [Joined.trees, Expr.heights]
  | .cons _ _ next more => by
    have h1 := next.height_tree_le
    have h2 := more.heights_trees_le
    simp only [Joined.trees, Joined.nesting, Expr.heights]
    omega

end

/-- Every guard that is read is shallow. -/
theorem height_le_of_read {s : String} {e : Expr} (h : read s = .ok e) :
    e.height ≤ heightLimit := by
  obtain ⟨ts, -, d, -, hn, rfl⟩ := read_eq_ok_iff.mp h
  have hd := d.height_tree_le
  simp only [Symbol.storeys] at hd
  unfold heightLimit
  omega

/-- A derivation of tokens that can be written is read from some text, if it respects the limit. -/
theorem exists_read {d : Derivation .disjunction} (hn : d.nesting ≤ nestingLimit)
    (h : ∀ t ∈ d.tokens, t.Written) : ∃ s, read s = .ok d.tree := by
  obtain ⟨s, ts, ht, hk⟩ := exists_tokens h
  exact ⟨s, read_eq_ok_iff.mpr ⟨ts, ht, d, hk.symm, hn, rfl⟩⟩

/-! ## Room -/

mutual

/-- The value or the fault of an expression, found with room for so many expressions that are begun
and not yet done. Without enough room there is no answer. -/
def evalWithin (context : Context) : Nat → Expr → Option (Except EvalFault Value)
  | 0, _ => none
  | _ + 1, .literal v => some (.ok v)
  | _ + 1, .path names => some ((lookup (.obj context) names).mapError .numeral)
  | room + 1, .not e => (evalWithin context room e).map fun r => r.map fun v => .bool !v.truthy
  | room + 1, .negate e => (evalWithin context room e).map fun r => r.bind negated
  | room + 1, .all es => evalEach context room false (.bool true) es
  | room + 1, .any es => evalEach context room true (.bool false) es
  | room + 1, .compare c l r =>
    match evalWithin context room l with
    | none => none
    | some (.error f) => some (.error f)
    | some (.ok v) =>
      (evalWithin context room r).map fun x => x.bind fun w => (compared c v w).map .bool

/-- The operands of a chain one after the other, up to the first whose truth is `stop`: each of them
has all the room. -/
def evalEach (context : Context) (room : Nat) (stop : Bool) (last : Value) :
    List Expr → Option (Except EvalFault Value)
  | [] => some (.ok last)
  | e :: es =>
    match evalWithin context room e with
    | none => none
    | some (.error f) => some (.error f)
    | some (.ok v) =>
      if v.truthy = stop then some (.ok v) else evalEach context room stop v es

end

variable {context : Context} {room : Nat}

mutual

/-- An evaluation needs no more room than the expression is high. -/
theorem evalWithin_of_height_le : ∀ (e : Expr) {room : Nat}, e.height ≤ room →
    evalWithin context room e = some (eval context e)
  | e, 0, h => by
    have := e.height_pos
    omega
  | .literal v, room + 1, _ => rfl
  | .path names, room + 1, _ => rfl
  | .not e, room + 1, h => by
    rw [Expr.height] at h
    rw [evalWithin, evalWithin_of_height_le e (by omega), eval]
    rfl
  | .negate e, room + 1, h => by
    rw [Expr.height] at h
    rw [evalWithin, evalWithin_of_height_le e (by omega), eval]
    cases eval context e <;> rfl
  | .all es, room + 1, h => by
    rw [Expr.height] at h
    rw [evalWithin, evalEach_of_heights_le false _ es (by omega), outcome_evalAll, eval]
  | .any es, room + 1, h => by
    rw [Expr.height] at h
    rw [evalWithin, evalEach_of_heights_le true _ es (by omega), outcome_evalAny, eval]
  | .compare c l r, room + 1, h => by
    rw [Expr.height] at h
    have hl : l.height ≤ room := by omega
    have hr : r.height ≤ room := by omega
    rw [evalWithin, evalWithin_of_height_le l hl, evalWithin_of_height_le r hr, eval]
    cases eval context l with
    | error f => rfl
    | ok v => cases eval context r <;> rfl

theorem evalEach_of_heights_le (stop : Bool) (last : Value) : ∀ (es : List Expr) {room : Nat},
    Expr.heights es ≤ room →
      evalEach context room stop last es = some (evaluations context stop last es).outcome
  | [], _, _ => rfl
  | e :: es, room, h => by
    rw [Expr.heights] at h
    have he : e.height ≤ room := by omega
    have hes : Expr.heights es ≤ room := by omega
    rw [evalEach, evalWithin_of_height_le e he, evaluations]
    have ho : (evaluation context e).outcome = eval context e := evaluation_outcome e
    cases hv : eval context e with
    | error f =>
      rw [hv] at ho
      rw [Evaluation.bind_of_error ho, ho]
    | ok v =>
      rw [hv] at ho
      rw [Evaluation.bind_of_ok ho]
      show (if v.truthy = stop then some (.ok v) else evalEach context room stop v es) = _
      split
      · rfl
      · exact evalEach_of_heights_le stop v es hes

end

/-! ## Guards that are as high as they may be -/

namespace Derivation

def leaf : Derivation .primary := .path ["a"]

def leafNegation : Derivation .negation := .comparison (.single (.primary leaf))

def leafConjunction : Derivation .conjunction := .conjunction leafNegation .nil

theorem compares_equal : comparison? .equal = some .equal := rfl

theorem joins_andWord : Symbol.negation.joins .andWord = true := rfl

theorem joins_orWord : Symbol.conjunction.joins .orWord = true := rfl

/-- A phrase in a comparison, that in a conjunction, and that in a disjunction. -/
def stacked (p : Derivation .primary) : Derivation .disjunction :=
  .disjunction
    (.conjunction (.comparison (.compared (.primary p) .equal .equal compares_equal
      (.primary leaf)))
      (.cons .andWord joins_andWord leafNegation .nil))
    (.cons .orWord joins_orWord leafConjunction .nil)

/-- Brackets in brackets, each of them with all three storeys. -/
def tower : Nat → Derivation .disjunction
  | 0 => stacked leaf
  | n + 1 => stacked (.bracketed (tower n))

theorem tree_stacked (p : Derivation .primary) : (stacked p).tree =
    .any [.all [.compare .equal p.tree (.path ["a"]), .path ["a"]], .path ["a"]] := rfl

theorem height_stacked (p : Derivation .primary) :
    (stacked p).tree.height = p.tree.height + 3 := by
  have := p.tree.height_pos
  simp only [tree_stacked, Expr.height, Expr.heights]
  omega

theorem written_leaf : Token.Written (.path ["a"]) := by
  have ha : pathToken ['a'] = .path ["a"] := by cbv
  exact written_name (by decide) rfl ha

theorem written_stacked {p : Derivation .primary} (h : ∀ t ∈ p.tokens, t.Written) :
    ∀ t ∈ (stacked p).tokens, t.Written := by
  have ht : (stacked p).tokens = p.tokens ++
      [.op .equal, .path ["a"], .op .andWord, .path ["a"], .op .orWord, .path ["a"]] := by
    simp [stacked, leafConjunction, leafNegation, leaf, Derivation.tokens, Joined.tokens]
  rw [ht]
  simp only [List.forall_mem_append, List.forall_mem_cons]
  exact ⟨h, written_op _, written_leaf, written_op _, written_leaf, written_op _, written_leaf,
    by simp⟩

theorem nesting_stacked (p : Derivation .primary) : (stacked p).nesting = p.nesting := by
  simp [stacked, leafConjunction, leafNegation, leaf, Derivation.nesting, Joined.nesting]

theorem nesting_tower (n : Nat) : (tower n).nesting = n := by
  induction n with
  | zero => rfl
  | succ n ih => rw [tower, nesting_stacked, Derivation.nesting, ih]

theorem height_tower (n : Nat) : (tower n).tree.height = 3 * (n + 1) + 1 := by
  induction n with
  | zero => rw [tower, height_stacked]; rfl
  | succ n ih =>
    rw [tower, height_stacked]
    show (tower n).tree.height + 3 = _
    omega

theorem written_tower (n : Nat) : ∀ t ∈ (tower n).tokens, t.Written := by
  induction n with
  | zero => exact written_stacked (by simpa [leaf, Derivation.tokens] using written_leaf)
  | succ n ih =>
    apply written_stacked
    intro t ht
    simp only [Derivation.tokens, List.mem_cons, List.mem_append, List.not_mem_nil, or_false] at ht
    rcases ht with rfl | ht | rfl
    · exact written_op _
    · exact ih t ht
    · exact written_op _

/-- What stands at the bottom is come to first, through all storeys. -/
theorem evalWithin_stacked {p : Derivation .primary}
    (h : ∀ r, r + 3 ≤ room → evalWithin context r p.tree = none) :
    evalWithin context room (stacked p).tree = none := by
  rw [tree_stacked]
  match room with
  | 0 => rfl
  | 1 => rfl
  | 2 => rfl
  | room + 3 => simp [evalWithin, evalEach, h room le_rfl]

/-- A tower needs all the room that it may need, whatever the context. -/
theorem evalWithin_tower (context : Context) (n : Nat) {room : Nat} (h : room < 3 * (n + 1) + 1) :
    evalWithin context room (tower n).tree = none := by
  induction n generalizing room with
  | zero =>
    apply evalWithin_stacked
    intro r hr
    obtain rfl : r = 0 := by omega
    rfl
  | succ n ih =>
    apply evalWithin_stacked
    intro r hr
    exact ih (by omega)

end Derivation

/-! ## Guards that are as wide as one likes -/

/-- A phrase again and again, each time behind the same operator. -/
def Joined.copies {s : Symbol} (o : Op) (h : s.joins o = true) (d : Derivation s) : Nat → Joined s
  | 0 => .nil
  | n + 1 => .cons o h d (copies o h d n)

section

variable {s : Symbol} {o : Op} (h : s.joins o = true) (d : Derivation s) (n : Nat)

theorem Joined.trees_copies : (copies o h d n).trees = List.replicate n d.tree := by
  induction n with
  | zero => rfl
  | succ n ih => rw [copies, Joined.trees, ih, List.replicate_succ]

theorem Joined.nesting_copies_le : (copies o h d n).nesting ≤ d.nesting := by
  induction n with
  | zero => exact Nat.zero_le _
  | succ n ih =>
    rw [copies, Joined.nesting]
    omega

theorem Joined.written_copies (hd : ∀ t ∈ d.tokens, t.Written) :
    ∀ t ∈ (copies o h d n).tokens, t.Written := by
  induction n with
  | zero => simp [copies, Joined.tokens]
  | succ n ih =>
    intro t ht
    simp only [copies, Joined.tokens, List.mem_cons, List.mem_append] at ht
    rcases ht with rfl | ht | ht
    · exact written_op o
    · exact hd t ht
    · exact ih t ht

end

theorem Expr.heights_replicate (e : Expr) (n : Nat) :
    Expr.heights (List.replicate (n + 1) e) = e.height := by
  induction n with
  | zero => simp [Expr.heights]
  | succ n ih =>
    rw [List.replicate_succ, Expr.heights, ih]
    omega

namespace Derivation

/-- A chain of names: a conjunction or a disjunction, by the truth that decides it. -/
def chained (n : Nat) : Bool → Derivation .disjunction
  | false =>
    .disjunction (.conjunction leafNegation (.copies .andWord joins_andWord leafNegation n)) .nil
  | true => .disjunction leafConjunction (.copies .orWord joins_orWord leafConjunction n)

theorem tree_chained (n : Nat) (stop : Bool) : (chained (n + 1) stop).tree =
    .chain stop (List.replicate (n + 2) (.path ["a"])) := by
  cases stop with
  | false =>
    show joined .all (.path ["a"])
      (Joined.copies .andWord joins_andWord leafNegation (n + 1)).trees = _
    rw [Joined.trees_copies]
    rfl
  | true =>
    show joined .any (.path ["a"])
      (Joined.copies .orWord joins_orWord leafConjunction (n + 1)).trees = _
    rw [Joined.trees_copies]
    rfl

theorem nesting_chained (n : Nat) (stop : Bool) : (chained n stop).nesting = 0 := by
  have hleaf : leafNegation.nesting = 0 := rfl
  have hleaf' : leafConjunction.nesting = 0 := rfl
  cases stop with
  | false =>
    have := Joined.nesting_copies_le joins_andWord leafNegation n
    simp only [chained, Derivation.nesting, Joined.nesting]
    omega
  | true =>
    have := Joined.nesting_copies_le joins_orWord leafConjunction n
    simp only [chained, Derivation.nesting]
    omega

theorem written_chained (n : Nat) (stop : Bool) : ∀ t ∈ (chained n stop).tokens, t.Written := by
  have hleaf : ∀ t ∈ leafNegation.tokens, t.Written := by
    simpa [leafNegation, leaf, Derivation.tokens] using written_leaf
  have hleaf' : ∀ t ∈ leafConjunction.tokens, t.Written := by
    simpa [leafConjunction, Derivation.tokens, Joined.tokens] using hleaf
  cases stop with
  | false =>
    simp only [chained, Derivation.tokens, Joined.tokens, List.append_nil]
    exact List.forall_mem_append.mpr ⟨hleaf, Joined.written_copies joins_andWord _ n hleaf⟩
  | true =>
    exact List.forall_mem_append.mpr ⟨hleaf', Joined.written_copies joins_orWord _ n hleaf'⟩

end Derivation

/-- A chain of names is read, whatever its length. -/
theorem exists_read_chain (stop : Bool) (n : Nat) :
    ∃ s, read s = .ok (.chain stop (List.replicate (n + 2) (.path ["a"]))) := by
  rw [← Derivation.tree_chained]
  apply exists_read
  · rw [Derivation.nesting_chained]
    exact Nat.zero_le _
  · exact Derivation.written_chained (n + 1) stop

theorem height_chain (stop : Bool) (n : Nat) (names : List String) :
    (Expr.chain stop (List.replicate (n + 1) (.path names))).height = 2 := by
  cases stop <;> simp only [Expr.chain, Expr.height, Expr.heights_replicate]

/-- **Guards are shallow, however long they are.** The tree of every guard that is read is at most
196 high: three on the ground and on each of sixty-four levels, and one for the leaf. So every
evaluation of it, on whatever context, gets by with room for 196 expressions that are begun and not
yet done. There is a guard of this height, and it gets by with no less, on whatever context. The
operands of conjunctions and disjunctions do not count: there may be any number of them in a tree of
height two. -/
theorem height_bounded :
    heightLimit = 196 ∧
    (∀ s e, read s = .ok e → e.height ≤ heightLimit ∧
      ∀ context, evalWithin context heightLimit e = some (eval context e)) ∧
    (∃ s e, read s = .ok e ∧ e.height = heightLimit ∧
      ∀ context room, room < heightLimit → evalWithin context room e = none) ∧
    ∀ n, (∃ s es, read s = .ok (.all es) ∧ es.length = n + 2 ∧ (Expr.all es).height = 2) ∧
      ∃ s es, read s = .ok (.any es) ∧ es.length = n + 2 ∧ (Expr.any es).height = 2 := by
  refine ⟨rfl, fun s e h => ?_, ?_, fun n => ⟨?_, ?_⟩⟩
  · have hh := height_le_of_read h
    exact ⟨hh, fun context => evalWithin_of_height_le e hh⟩
  · have hn : (Derivation.tower nestingLimit).nesting ≤ nestingLimit :=
      (Derivation.nesting_tower nestingLimit).le
    obtain ⟨s, hs⟩ := exists_read hn (Derivation.written_tower nestingLimit)
    exact ⟨s, _, hs, Derivation.height_tower nestingLimit,
      fun context room h => Derivation.evalWithin_tower context nestingLimit h⟩
  · obtain ⟨s, hs⟩ := exists_read_chain false n
    exact ⟨s, _, hs, List.length_replicate, height_chain false (n + 1) ["a"]⟩
  · obtain ⟨s, hs⟩ := exists_read_chain true n
    exact ⟨s, _, hs, List.length_replicate, height_chain true (n + 1) ["a"]⟩

/-- Three storeys in brackets, behind a sign, and compared. -/
theorem height_bounded_brackets : ∃ e, read "-(a == b && c || d) < e" = .ok e ∧ e.height = 6 ∧
    e.height ≤ heightLimit ∧
      ∀ context, evalWithin context heightLimit e = some (eval context e) := by
  have h : read "-(a == b && c || d) < e" = .ok (.compare (.order .below)
      (.negate (.any [.all [.compare .equal (.path ["a"]) (.path ["b"]), .path ["c"]],
        .path ["d"]])) (.path ["e"])) := by cbv
  obtain ⟨-, hread, -, -⟩ := height_bounded
  exact ⟨_, h, rfl, hread _ _ h⟩

end Workflow.Guard
