import Workflow.Value.Order

/-!
# Guard expressions

A guard as a tree: literals and paths at the leaves, negations, comparisons, and conjunctions and
disjunctions of any number of operands.

Results:
* `height_pos`: every tree has a height of at least one.
-/
namespace Workflow.Guard

inductive Comparison where
  | equal | notEqual | identical | notIdentical
  | order (o : Ordering4)
  deriving DecidableEq, Repr

/-- A guard expression. -/
inductive Expr where
  | literal (v : Value)
  | path (segments : List String)
  | not (e : Expr)
  | negate (e : Expr)
  | all (operands : List Expr)
  | any (operands : List Expr)
  | compare (c : Comparison) (left right : Expr)

namespace Expr

mutual

/-- The number of nodes on the longest way to a leaf. -/
def height : Expr → Nat
  | .literal _ => 1
  | .path _ => 1
  | .not e => height e + 1
  | .negate e => height e + 1
  | .all es => heights es + 1
  | .any es => heights es + 1
  | .compare _ l r => max (height l) (height r) + 1

def heights : List Expr → Nat
  | [] => 0
  | e :: es => max (height e) (heights es)

end

mutual

/-- The paths of an expression, from left to right. -/
def paths : Expr → List (List String)
  | .literal _ => []
  | .path segments => [segments]
  | .not e => paths e
  | .negate e => paths e
  | .all es => allPaths es
  | .any es => allPaths es
  | .compare _ l r => paths l ++ paths r

def allPaths : List Expr → List (List String)
  | [] => []
  | e :: es => paths e ++ allPaths es

end

theorem height_pos (e : Expr) : 0 < e.height := by cases e <;> simp [height]

end Expr
end Workflow.Guard
