import Workflow.Guard.Token
import Workflow.Guard.Expr

/-!
# Parsing guards

From the loosest to the tightest: disjunctions, conjunctions, the word `not`, one comparison, the
signs `!` and `-`, and the primaries. Brackets and the three negations nest, and no part of a guard
may lie inside more than sixty-four of them; operands of a chain do not nest.

Every part of a guard takes at least one token, which the type of a parser records.
-/
namespace Workflow.Guard

inductive ParseFault where
  | unexpected (token : Token) (pos : Nat)
  | chained (pos : Nat)
  | unclosed (pos : Nat)
  | ended
  | tooDeep

/-- The most brackets and negations around a part of a guard. -/
def nestingLimit : Nat := 64

/-- The tokens left after some of `ts` have been taken. -/
abbrev Rest (ts : List Located) := { rest : List Located // rest.length < ts.length }

/-- A parser of expressions: it takes at least one token. -/
abbrev Parser := (ts : List Located) → Except ParseFault (Expr × Rest ts)

/-- The comparison that an operator stands for. -/
def comparison? : Op → Option Comparison
  | .equal => some .equal
  | .identical => some .identical
  | .notEqual => some .notEqual
  | .notIdentical => some .notIdentical
  | .below => some (.order .below)
  | .atMost => some (.order .atMost)
  | .above => some (.order .above)
  | .atLeast => some (.order .atLeast)
  | _ => none

/-- The comparison that the first token stands for. -/
def leadingComparison? : List Located → Option Comparison
  | ⟨.op o, _⟩ :: _ => comparison? o
  | _ => none

/-- The offset of the first token, or of the end. -/
def offset (stop : Nat) : List Located → Nat
  | [] => stop
  | t :: _ => t.pos

def Op.isOr (o : Op) : Bool := o = .either || o = .orWord

def Op.isAnd (o : Op) : Bool := o = .both || o = .andWord

/-- The operands behind the first, each after a joining operator. -/
def tail (joins : Op → Bool) (operand : Parser) (ts : List Located) :
    Except ParseFault (List Expr × { rest : List Located // rest.length ≤ ts.length }) :=
  match ts with
  | ⟨.op o, p⟩ :: us =>
    if joins o then
      match operand us with
      | .error f => .error f
      | .ok (e, ⟨rest, h⟩) =>
        (tail joins operand rest).map fun r =>
          (e :: r.1, ⟨r.2.1, by have := r.2.2; simp only [List.length_cons]; omega⟩)
    else .ok ([], ⟨⟨.op o, p⟩ :: us, Nat.le_refl _⟩)
  | ts => .ok ([], ⟨ts, Nat.le_refl _⟩)
termination_by ts.length
decreasing_by simp only [List.length_cons]; omega

/-- One operand, or several joined into one expression. -/
def chain (joins : Op → Bool) (join : List Expr → Expr) (operand : Parser) : Parser := fun ts =>
  match operand ts with
  | .error f => .error f
  | .ok (e, ⟨rest, h⟩) =>
    (tail joins operand rest).map fun r =>
      (if r.1.isEmpty then e else join (e :: r.1), ⟨r.2.1, by have := r.2.2; omega⟩)

/-- The parsers for what may stand inside one more bracket or negation; mirrors
`_Parser._nested`. -/
structure Inner where
  disjunction : Parser
  negation : Parser
  unary : Parser

/-- Nothing may stand any deeper. -/
def Inner.none : Inner where
  disjunction := fun _ => .error .tooDeep
  negation := fun _ => .error .tooDeep
  unary := fun _ => .error .tooDeep

/-- The expression behind the first token. -/
def under (wrap : Expr → Expr) (inner : Parser) (t : Located) (us : List Located) :
    Except ParseFault (Expr × Rest (t :: us)) :=
  (inner us).map fun r =>
    (wrap r.1, ⟨r.2.1, by have := r.2.2; simp only [List.length_cons]; omega⟩)

/-- An expression in brackets. -/
def bracketed (stop : Nat) (inner : Parser) (t : Located) (us : List Located) :
    Except ParseFault (Expr × Rest (t :: us)) :=
  match inner us with
  | .error f => .error f
  | .ok (e, ⟨rest, h⟩) =>
    match rest, h with
    | ⟨.op .closing, _⟩ :: rest, h =>
      .ok (e, ⟨rest, by simp only [List.length_cons] at *; omega⟩)
    | rest, _ => .error (.unclosed (offset stop rest))

/-- A literal, a path, or an expression in brackets; mirrors `_Parser._primary`. -/
def primary (stop : Nat) (inner : Inner) : Parser
  | [] => .error .ended
  | ⟨.literal v, _⟩ :: us => .ok (.literal v, ⟨us, by simp⟩)
  | ⟨.path segments, _⟩ :: us => .ok (.path segments, ⟨us, by simp⟩)
  | ⟨.op .opening, p⟩ :: us => bracketed stop inner.disjunction ⟨.op .opening, p⟩ us
  | ⟨.op o, p⟩ :: _ => .error (.unexpected (.op o) p)

/-- A primary with signs in front; mirrors `_Parser._unary`. -/
def unary (stop : Nat) (inner : Inner) : Parser
  | ⟨.op .bang, p⟩ :: us => under .not inner.unary ⟨.op .bang, p⟩ us
  | ⟨.op .minus, p⟩ :: us => under .negate inner.unary ⟨.op .minus, p⟩ us
  | ts => primary stop inner ts

/-- The right side of a comparison; a second comparison may not follow. -/
def rightSide (stop : Nat) (inner : Inner) (us : List Located) :
    Except ParseFault (Expr × Rest us) :=
  match unary stop inner us with
  | .error f => .error f
  | .ok (r, ⟨rest, h⟩) =>
    if (leadingComparison? rest).isSome then .error (.chained (offset stop rest))
    else .ok (r, ⟨rest, h⟩)

/-- A unary expression, or two of them compared; mirrors `_Parser._comparison`. -/
def comparison (stop : Nat) (inner : Inner) : Parser := fun ts =>
  match unary stop inner ts with
  | .error f => .error f
  | .ok (l, ⟨rest, h⟩) =>
    match rest, leadingComparison? rest, h with
    | _ :: us, some c, h =>
      (rightSide stop inner us).map fun r =>
        (.compare c l r.1, ⟨r.2.1, by have := r.2.2; simp only [List.length_cons] at h; omega⟩)
    | rest, _, h => .ok (l, ⟨rest, h⟩)

/-- A comparison with the word `not` in front; mirrors `_Parser._not`. -/
def negation (stop : Nat) (inner : Inner) : Parser
  | ⟨.op .notWord, p⟩ :: us => under .not inner.negation ⟨.op .notWord, p⟩ us
  | ts => comparison stop inner ts

/-- Negations joined into conjunctions; mirrors `_Parser._and`. -/
def conjunction (stop : Nat) (inner : Inner) : Parser :=
  chain Op.isAnd .all (negation stop inner)

/-- Conjunctions joined into a disjunction; mirrors `_Parser._or`. -/
def disjunction (stop : Nat) (inner : Inner) : Parser :=
  chain Op.isOr .any (conjunction stop inner)

/-- The parsers for what may nest another `depth` levels. -/
def inner (stop : Nat) : Nat → Inner
  | 0 => .none
  | depth + 1 =>
    let below := inner stop depth
    { disjunction := Guard.disjunction stop below
      negation := Guard.negation stop below
      unary := Guard.unary stop below }

/-- Parses a guard: an expression and nothing behind it; mirrors `_Parser.parse`. -/
def parse (ts : Tokens) : Except ParseFault Expr :=
  match disjunction ts.stop (inner ts.stop nestingLimit) ts.items with
  | .error f => .error f
  | .ok (e, ⟨[], _⟩) => .ok e
  | .ok (_, ⟨t :: _, _⟩) => .error (.unexpected t.token t.pos)

end Workflow.Guard
