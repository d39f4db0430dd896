import Workflow.Guard.Parser

/-!
# The grammar of guards

The derivations of a guard from its tokens, as data, for the grammar

    disjunction := conjunction (("||" | "or") conjunction)*
    conjunction := negation (("&&" | "and") negation)*
    negation    := "not" negation | comparison
    comparison  := unary (compare unary)?
    unary       := ("!" | "-") unary | primary
    primary     := literal | path | "(" disjunction ")"

A derivation has the tokens that it derives, the tree that it means, and a nesting: the number of
brackets and negations around its deepest part. Operands of a chain stand side by side and do not
nest.

Results:
* `Derivation.nesting_le_iff`: the nesting of a phrase is the greatest level in it.
* `Derivation.head`: how a phrase may start.
* `Derivation.unique`: the tokens determine the derivation, as long as what stands behind the phrase
  could not have continued it.
-/
namespace Workflow.Guard

/-- The symbols of the grammar, from the loosest to the tightest. -/
inductive Symbol where
  | disjunction | conjunction | negation | comparison | unary | primary
  deriving DecidableEq, Repr

/-- Does an operator join phrases of a symbol to a chain? -/
def Symbol.joins : Symbol → Op → Bool
  | .conjunction, o => o.isOr
  | .negation, o => o.isAnd
  | _, _ => false

mutual

/-- A derivation of a phrase. -/
inductive Derivation : Symbol → Type where
  | disjunction (first : Derivation .conjunction) (more : Joined .conjunction) :
    Derivation .disjunction
  | conjunction (first : Derivation .negation) (more : Joined .negation) :
    Derivation .conjunction
  | notWord (operand : Derivation .negation) : Derivation .negation
  | comparison (phrase : Derivation .comparison) : Derivation .negation
  | single (operand : Derivation .unary) : Derivation .comparison
  | compared (left : Derivation .unary) (o : Op) (c : Comparison) (h : comparison? o = some c)
    (right : Derivation .unary) : Derivation .comparison
  | bang (operand : Derivation .unary) : Derivation .unary
  | minus (operand : Derivation .unary) : Derivation .unary
  | primary (phrase : Derivation .primary) : Derivation .unary
  | literal (v : Value) : Derivation .primary
  | path (segments : List String) : Derivation .primary
  | bracketed (inside : Derivation .disjunction) : Derivation .primary

inductive Joined : Symbol → Type where
  | nil {s : Symbol} : Joined s
  | cons {s : Symbol} (o : Op) (h : s.joins o = true) (next : Derivation s) (more : Joined s) :
    Joined s

end

variable {s : Symbol}

mutual

/-- The tokens that a derivation derives. -/
def Derivation.tokens {s : Symbol} : Derivation s → List Token
  | .disjunction first more => first.tokens ++ more.tokens
  | .conjunction first more => first.tokens ++ more.tokens
  | .notWord d => .op .notWord :: d.tokens
  | .comparison d => d.tokens
  | .single d => d.tokens
  | .compared l o _ _ r => l.tokens ++ .op o :: r.tokens
  | .bang d => .op .bang :: d.tokens
  | .minus d => .op .minus :: d.tokens
  | .primary d => d.tokens
  | .literal v => [.literal v]
  | .path segments => [.path segments]
  | .bracketed d => .op .opening :: (d.tokens ++ [.op .closing])

def Joined.tokens {s : Symbol} : Joined s → List Token
  | .nil => []
  | .cons o _ next more => .op o :: (next.tokens ++ more.tokens)

end

mutual

/-- The number of brackets and negations around the deepest part. -/
def Derivation.nesting {s : Symbol} : Derivation s → Nat
  | .disjunction first more => max first.nesting more.nesting
  | .conjunction first more => max first.nesting more.nesting
  | .notWord d => d.nesting + 1
  | .comparison d => d.nesting
  | .single d => d.nesting
  | .compared l _ _ _ r => max l.nesting r.nesting
  | .bang d => d.nesting + 1
  | .minus d => d.nesting + 1
  | .primary d => d.nesting
  | .literal _ => 0
  | .path _ => 0
  | .bracketed d => d.nesting + 1

def Joined.nesting {s : Symbol} : Joined s → Nat
  | .nil => 0
  | .cons _ _ next more => max next.nesting more.nesting

end

mutual

/-- For every literal and every path, the number of brackets and negations around it. -/
def Derivation.levels {s : Symbol} : Derivation s → List Nat
  | .disjunction first more => first.levels ++ more.levels
  | .conjunction first more => first.levels ++ more.levels
  | .notWord d => d.levels.map (· + 1)
  | .comparison d => d.levels
  | .single d => d.levels
  | .compared l _ _ _ r => l.levels ++ r.levels
  | .bang d => d.levels.map (· + 1)
  | .minus d => d.levels.map (· + 1)
  | .primary d => d.levels
  | .literal _ => [0]
  | .path _ => [0]
  | .bracketed d => d.levels.map (· + 1)

def Joined.levels {s : Symbol} : Joined s → List Nat
  | .nil => []
  | .cons _ _ next more => next.levels ++ more.levels

end

def Joined.phrases : Joined s → List (Derivation s)
  | .nil => []
  | .cons _ _ next more => next :: more.phrases

/-- One operand stands for itself, several are joined. -/
def joined (join : List Expr → Expr) (first : Expr) (more : List Expr) : Expr :=
  if more.isEmpty then first else join (first :: more)

mutual

/-- The tree that a derivation means. -/
def Derivation.tree {s : Symbol} : Derivation s → Expr
  | .disjunction first more => joined .any first.tree more.trees
  | .conjunction first more => joined .all first.tree more.trees
  | .notWord d => .not d.tree
  | .comparison d => d.tree
  | .single d => d.tree
  | .compared l _ c _ r => .compare c l.tree r.tree
  | .bang d => .not d.tree
  | .minus d => .negate d.tree
  | .primary d => d.tree
  | .literal v => .literal v
  | .path segments => .path segments
  | .bracketed d => d.tree

def Joined.trees {s : Symbol} : Joined s → List Expr
  | .nil => []
  | .cons _ _ next more => next.tree :: more.trees

end

/-! ## Nesting -/

theorem forall_mem_map_succ {ls : List Nat} {n : Nat} (h : ls ≠ []) :
    (∀ l ∈ ls.map (· + 1), l ≤ n) ↔ 0 < n ∧ ∀ l ∈ ls, l ≤ n - 1 := by
  obtain ⟨l, hl⟩ := List.exists_mem_of_ne_nil ls h
  simp only [List.mem_map, forall_exists_index, and_imp, forall_apply_eq_imp_iff₂]
  constructor
  · intro hn
    exact ⟨by have := hn l hl; omega, fun k hk => by have := hn k hk; omega⟩
  · rintro ⟨hp, hn⟩ k hk
    have := hn k hk; omega

theorem Derivation.levels_ne_nil {s : Symbol} : ∀ d : Derivation s, d.levels ≠ []
  | .disjunction first more => by simp [levels, first.levels_ne_nil]
  | .conjunction first more => by simp [levels, first.levels_ne_nil]
  | .notWord d => by simpa [levels] using d.levels_ne_nil
  | .comparison d => d.levels_ne_nil
  | .single d => d.levels_ne_nil
  | .compared l _ _ _ r => by simp [levels, l.levels_ne_nil]
  | .bang d => by simpa [levels] using d.levels_ne_nil
  | .minus d => by simpa [levels] using d.levels_ne_nil
  | .primary d => d.levels_ne_nil
  | .literal _ => by simp [levels]
  | .path _ => by simp [levels]
  | .bracketed d => by simpa [levels] using d.levels_ne_nil

mutual

/-- The nesting is the greatest level: the parts of a phrase that stand side by side count one by
one. -/
theorem Derivation.nesting_le_iff {s : Symbol} : ∀ (d : Derivation s) (n : Nat),
    d.nesting ≤ n ↔ ∀ l ∈ d.levels, l ≤ n
  | .disjunction first more, n => by
    simp only [Derivation.nesting, Derivation.levels, Nat.max_le, List.forall_mem_append,
      first.nesting_le_iff n, more.nesting_le_iff n]
  | .conjunction first more, n => by
    simp only [Derivation.nesting, Derivation.levels, Nat.max_le, List.forall_mem_append,
      first.nesting_le_iff n, more.nesting_le_iff n]
  | .notWord d, n => by
    rw [Derivation.nesting, Derivation.levels, forall_mem_map_succ d.levels_ne_nil,
      ← d.nesting_le_iff]
    omega
  | .comparison d, n => d.nesting_le_iff n
  | .single d, n => d.nesting_le_iff n
  | .compared l _ _ _ r, n => by
    simp only [Derivation.nesting, Derivation.levels, Nat.max_le, List.forall_mem_append,
      l.nesting_le_iff n, r.nesting_le_iff n]
  | .bang d, n => by
    rw [Derivation.nesting, Derivation.levels, forall_mem_map_succ d.levels_ne_nil,
      ← d.nesting_le_iff]
    omega
  | .minus d, n => by
    rw [Derivation.nesting, Derivation.levels, forall_mem_map_succ d.levels_ne_nil,
      ← d.nesting_le_iff]
    omega
  | .primary d, n => d.nesting_le_iff n
  | .literal _, n => by simp [Derivation.nesting, Derivation.levels]
  | .path _, n => by simp [Derivation.nesting, Derivation.levels]
  | .bracketed d, n => by
    rw [Derivation.nesting, Derivation.levels, forall_mem_map_succ d.levels_ne_nil,
      ← d.nesting_le_iff]
    omega

theorem Joined.nesting_le_iff {s : Symbol} : ∀ (m : Joined s) (n : Nat),
    m.nesting ≤ n ↔ ∀ l ∈ m.levels, l ≤ n
  | .nil, n => by simp [Joined.nesting, Joined.levels]
  | .cons _ _ next more, n => by
    simp only [Joined.nesting, Joined.levels, Nat.max_le, List.forall_mem_append,
      next.nesting_le_iff n, more.nesting_le_iff n]

end

theorem Joined.levels_eq_flatMap : ∀ m : Joined s, m.levels = m.phrases.flatMap Derivation.levels
  | .nil => rfl
  | .cons _ _ next more => by
    rw [Joined.levels, Joined.phrases, List.flatMap_cons, more.levels_eq_flatMap]

theorem Joined.trees_eq_map : ∀ m : Joined s, m.trees = m.phrases.map Derivation.tree
  | .nil => rfl
  | .cons _ _ next more => by
    rw [Joined.trees, Joined.phrases, List.map_cons, more.trees_eq_map]

/-! ## How phrases start, and where they stop -/

/-- May a phrase start with an operator? -/
def Symbol.opens : Symbol → Op → Bool
  | .primary, o => o = .opening
  | .unary, o => o = .opening || o = .bang || o = .minus
  | .comparison, o => o = .opening || o = .bang || o = .minus
  | _, o => o = .opening || o = .bang || o = .minus || o = .notWord

/-- Could a phrase go on with an operator? -/
def Symbol.continues : Symbol → Op → Bool
  | .disjunction, o => o.isOr || o.isAnd || (comparison? o).isSome
  | .conjunction, o => o.isAnd || (comparison? o).isSome
  | .negation, o => (comparison? o).isSome
  | .comparison, o => (comparison? o).isSome
  | _, _ => false

/-- A phrase cannot go on with what stands behind it. -/
def Symbol.Stops (s : Symbol) (ts : List Token) : Prop :=
  ∀ o us, ts = .op o :: us → s.continues o = false

/-- A chain of phrases cannot go on with what stands behind it. -/
def Symbol.Ends (s : Symbol) (ts : List Token) : Prop :=
  s.Stops ts ∧ ∀ o us, ts = .op o :: us → s.joins o = false

theorem continues_of_joins {o : Op} (h : s.joins o = true) : s.continues o = false := by
  cases s <;> cases o <;> revert h <;> decide

theorem stops_nil (s : Symbol) : s.Stops [] := fun _ _ h => by cases h

theorem stops_unary (ts : List Token) : Symbol.unary.Stops ts := fun _ _ _ => rfl

theorem stops_closing (ts : List Token) : Symbol.disjunction.Stops (.op .closing :: ts) := by
  intro o us h
  simp only [List.cons.injEq, Token.op.injEq] at h
  obtain ⟨rfl, -⟩ := h
  rfl

/-- A whole disjunction stops where its last conjunction does and no further one is joined. -/
theorem ends_of_stops_disjunction {ts : List Token} (h : Symbol.disjunction.Stops ts) :
    Symbol.conjunction.Ends ts := by
  refine ⟨fun o us e => ?_, fun o us e => ?_⟩ <;> have := h o us e <;>
    simp only [Symbol.continues, Symbol.joins, Bool.or_eq_false_iff] at this ⊢
  · exact ⟨this.1.2, this.2⟩
  · exact this.1.1

theorem ends_of_stops_conjunction {ts : List Token} (h : Symbol.conjunction.Stops ts) :
    Symbol.negation.Ends ts := by
  refine ⟨fun o us e => ?_, fun o us e => ?_⟩ <;> have := h o us e <;>
    simp only [Symbol.continues, Symbol.joins, Bool.or_eq_false_iff] at this ⊢
  · exact this.2
  · exact this.1

/-- Behind an operand of a chain, neither a further operand nor the end of the chain continues the
operand itself. -/
theorem Joined.stops (m : Joined s) {ts : List Token} (h : s.Ends ts) :
    s.Stops (m.tokens ++ ts) := by
  cases m with
  | nil => exact h.1
  | cons o ho next more =>
    intro o' us e
    simp only [Joined.tokens, List.cons_append, List.cons.injEq, Token.op.injEq] at e
    obtain ⟨rfl, -⟩ := e
    exact continues_of_joins ho

/-- A phrase has a first token; if that is an operator, it is one that may start the phrase. -/
theorem Derivation.head {s : Symbol} : ∀ d : Derivation s,
    ∃ t ts, d.tokens = t :: ts ∧ ∀ o, t = .op o → s.opens o = true
  | .disjunction first more => by
    obtain ⟨t, ts, e, h⟩ := first.head
    exact ⟨t, ts ++ more.tokens, by simp [tokens, e], h⟩
  | .conjunction first more => by
    obtain ⟨t, ts, e, h⟩ := first.head
    exact ⟨t, ts ++ more.tokens, by simp [tokens, e], h⟩
  | .notWord d => ⟨_, _, rfl, fun o ho => by cases ho; rfl⟩
  | .comparison d => by
    obtain ⟨t, ts, e, h⟩ := d.head
    exact ⟨t, ts, e, fun o ho => by have := h o ho; simp_all [Symbol.opens]⟩
  | .single d => by
    obtain ⟨t, ts, e, h⟩ := d.head
    exact ⟨t, ts, e, h⟩
  | .compared l o c hc r => by
    obtain ⟨t, ts, e, h⟩ := l.head
    exact ⟨t, ts ++ .op o :: r.tokens, by simp [tokens, e], h⟩
  | .bang d => ⟨_, _, rfl, fun o ho => by cases ho; rfl⟩
  | .minus d => ⟨_, _, rfl, fun o ho => by cases ho; rfl⟩
  | .primary d => by
    obtain ⟨t, ts, e, h⟩ := d.head
    exact ⟨t, ts, e, fun o ho => by have := h o ho; simp_all [Symbol.opens]⟩
  | .literal v => ⟨_, _, rfl, fun o ho => by cases ho⟩
  | .path segments => ⟨_, _, rfl, fun o ho => by cases ho⟩
  | .bracketed d => ⟨_, _, rfl, fun o ho => by cases ho; rfl⟩

/-- A phrase does not start with an operator that is not one of its openers. -/
theorem Derivation.ne_op_cons (d : Derivation s) {o : Op} (ho : s.opens o = false)
    (r us : List Token) : d.tokens ++ r ≠ .op o :: us := by
  obtain ⟨t, ts, e, h⟩ := d.head
  intro he
  simp only [e, List.cons_append, List.cons.injEq] at he
  rw [h o he.1] at ho
  cases ho

mutual

/-- Two phrases that start the same text, and that stop where they end, have one derivation. -/
theorem Derivation.unique {s : Symbol} : ∀ (d d' : Derivation s) {r r' : List Token},
    d.tokens ++ r = d'.tokens ++ r' → s.Stops r → s.Stops r' → d = d' ∧ r = r'
  | .disjunction first more, .disjunction first' more', r, r', e, hr, hr' => by
    simp only [Derivation.tokens, List.append_assoc] at e
    have he := ends_of_stops_disjunction hr
    have he' := ends_of_stops_disjunction hr'
    obtain ⟨rfl, e1⟩ := first.unique first' e (more.stops he) (more'.stops he')
    obtain ⟨rfl, rfl⟩ := more.unique more' e1 he he'
    exact ⟨rfl, rfl⟩
  | .conjunction first more, .conjunction first' more', r, r', e, hr, hr' => by
    simp only [Derivation.tokens, List.append_assoc] at e
    have he := ends_of_stops_conjunction hr
    have he' := ends_of_stops_conjunction hr'
    obtain ⟨rfl, e1⟩ := first.unique first' e (more.stops he) (more'.stops he')
    obtain ⟨rfl, rfl⟩ := more.unique more' e1 he he'
    exact ⟨rfl, rfl⟩
  | .notWord d, .notWord d', r, r', e, hr, hr' => by
    simp only [Derivation.tokens, List.cons_append, List.cons.injEq, true_and] at e
    obtain ⟨rfl, rfl⟩ := d.unique d' e hr hr'
    exact ⟨rfl, rfl⟩
  | .notWord d, .comparison d', r, r', e, _, _ => absurd e.symm (d'.ne_op_cons rfl _ _)
  | .comparison d, .notWord d', r, r', e, _, _ => absurd e (d.ne_op_cons rfl _ _)
  | .comparison d, .comparison d', r, r', e, hr, hr' => by
    obtain ⟨rfl, rfl⟩ := d.unique d' e hr hr'
    exact ⟨rfl, rfl⟩
  | .single d, .single d', r, r', e, _, _ => by
    obtain ⟨rfl, rfl⟩ := d.unique d' e (stops_unary _) (stops_unary _)
    exact ⟨rfl, rfl⟩
  | .single d, .compared l o c hc _, r, r', e, hr, _ => by
    simp only [Derivation.tokens, List.append_assoc, List.cons_append] at e
    obtain ⟨-, rfl⟩ := d.unique l e (stops_unary _) (stops_unary _)
    have := hr _ _ rfl
    simp [Symbol.continues, hc] at this
  | .compared l o c hc _, .single d, r, r', e, _, hr' => by
    simp only [Derivation.tokens, List.append_assoc, List.cons_append] at e
    obtain ⟨-, rfl⟩ := l.unique d e (stops_unary _) (stops_unary _)
    have := hr' _ _ rfl
    simp [Symbol.continues, hc] at this
  | .compared l o c hc t, .compared l' o' c' hc' t', r, r', e, _, _ => by
    simp only [Derivation.tokens, List.append_assoc, List.cons_append] at e
    obtain ⟨rfl, e1⟩ := l.unique l' e (stops_unary _) (stops_unary _)
    simp only [List.cons.injEq, Token.op.injEq] at e1
    obtain ⟨rfl, e2⟩ := e1
    obtain ⟨rfl, rfl⟩ := t.unique t' e2 (stops_unary _) (stops_unary _)
    obtain rfl := Option.some.inj (hc.symm.trans hc')
    exact ⟨rfl, rfl⟩
  | .bang d, .bang d', r, r', e, _, _ => by
    simp only [Derivation.tokens, List.cons_append, List.cons.injEq, true_and] at e
    obtain ⟨rfl, rfl⟩ := d.unique d' e (stops_unary _) (stops_unary _)
    exact ⟨rfl, rfl⟩
  | .bang d, .minus d', r, r', e, _, _ => by simp [Derivation.tokens] at e
  | .bang d, .primary d', r, r', e, _, _ => absurd e.symm (d'.ne_op_cons rfl _ _)
  | .minus d, .bang d', r, r', e, _, _ => by simp [Derivation.tokens] at e
  | .minus d, .minus d', r, r', e, _, _ => by
    simp only [Derivation.tokens, List.cons_append, List.cons.injEq, true_and] at e
    obtain ⟨rfl, rfl⟩ := d.unique d' e (stops_unary _) (stops_unary _)
    exact ⟨rfl, rfl⟩
  | .minus d, .primary d', r, r', e, _, _ => absurd e.symm (d'.ne_op_cons rfl _ _)
  | .primary d, .bang d', r, r', e, _, _ => absurd e (d.ne_op_cons rfl _ _)
  | .primary d, .minus d', r, r', e, _, _ => absurd e (d.ne_op_cons rfl _ _)
  | .primary d, .primary d', r, r', e, hr, hr' => by
    obtain ⟨rfl, rfl⟩ := d.unique d' e hr hr'
    exact ⟨rfl, rfl⟩
  | .literal v, .literal v', r, r', e, _, _ => by
    simp only [Derivation.tokens, List.cons_append, List.nil_append, List.cons.injEq,
      Token.literal.injEq] at e
    obtain ⟨rfl, rfl⟩ := e
    exact ⟨rfl, rfl⟩
  | .literal v, .path segments, r, r', e, _, _ => by simp [Derivation.tokens] at e
  | .literal v, .bracketed d, r, r', e, _, _ => by simp [Derivation.tokens] at e
  | .path segments, .literal v, r, r', e, _, _ => by simp [Derivation.tokens] at e
  | .path segments, .path segments', r, r', e, _, _ => by
    simp only [Derivation.tokens, List.cons_append, List.nil_append, List.cons.injEq,
      Token.path.injEq] at e
    obtain ⟨rfl, rfl⟩ := e
    exact ⟨rfl, rfl⟩
  | .path segments, .bracketed d, r, r', e, _, _ => by simp [Derivation.tokens] at e
  | .bracketed d, .literal v, r, r', e, _, _ => by simp [Derivation.tokens] at e
  | .bracketed d, .path segments, r, r', e, _, _ => by simp [Derivation.tokens] at e
  | .bracketed d, .bracketed d', r, r', e, _, _ => by
    simp only [Derivation.tokens, List.cons_append, List.append_assoc, List.nil_append,
      List.cons.injEq, true_and] at e
    obtain ⟨rfl, e1⟩ := d.unique d' e (stops_closing _) (stops_closing _)
    simp only [List.cons.injEq, true_and] at e1
    exact ⟨rfl, e1⟩

theorem Joined.unique {s : Symbol} : ∀ (m m' : Joined s) {r r' : List Token},
    m.tokens ++ r = m'.tokens ++ r' → s.Ends r → s.Ends r' → m = m' ∧ r = r'
  | .nil, .nil, _, _, e, _, _ => ⟨rfl, e⟩
  | .nil, .cons o ho next more, r, r', e, hr, _ => by
    have := hr.2 o _ e
    rw [ho] at this; cases this
  | .cons o ho next more, .nil, r, r', e, _, hr' => by
    have := hr'.2 o _ e.symm
    rw [ho] at this; cases this
  | .cons o ho next more, .cons o' ho' next' more', r, r', e, hr, hr' => by
    simp only [Joined.tokens, List.cons_append, List.append_assoc, List.cons.injEq,
      Token.op.injEq] at e
    obtain ⟨rfl, e1⟩ := e
    obtain ⟨rfl, e2⟩ := next.unique next' e1 (more.stops hr) (more'.stops hr')
    obtain ⟨rfl, rfl⟩ := more.unique more' e2 hr hr'
    exact ⟨rfl, rfl⟩

end

end Workflow.Guard
