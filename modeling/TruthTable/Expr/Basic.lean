import TruthTable.Name

/-!
# Boolean expressions

An expression is a tree whose leaves are truth values and variables and whose inner nodes are
negations and the two connectives. It is kept as it was written: nothing is simplified, a double
negation stays double, and a constant operand stays where it is. The groups of a written expression
shape its tree and leave no node of their own.
-/

namespace TruthTable

/-- The two connectives, which join two expressions into one. -/
inductive Connective where
  /-- True if both operands are. -/
  | and
  /-- True if at least one operand is. -/
  | or
  deriving DecidableEq, Repr

/-- The truth function of a connective. -/
def Connective.apply : Connective → Bool → Bool → Bool
  | .and, a, b => a && b
  | .or, a, b => a || b

/-- A Boolean expression. -/
inductive Expr where
  /-- A truth value. -/
  | literal (b : Bool)
  /-- A variable. -/
  | var (x : Name)
  /-- The negation of an expression. -/
  | not (e : Expr)
  /-- Two expressions joined by a connective. -/
  | join (c : Connective) (left right : Expr)
  deriving DecidableEq

namespace Expr

/-- The expression itself, or its negation. -/
def negateIf (negated : Bool) (e : Expr) : Expr :=
  if negated then e.not else e

/-- A leaf of a tree: a truth value or a variable. -/
def isLeaf : Expr → Bool
  | literal _ | var _ => true
  | not _ | join .. => false

/-- The truth value that the expression is, if it is one. -/
def literal? : Expr → Option Bool
  | literal b => some b
  | _ => none

/-- The number of nodes on a longest path from the root to a leaf. -/
def depth : Expr → Nat
  | literal _ | var _ => 1
  | not e => e.depth + 1
  | join _ a b => max a.depth b.depth + 1

/-- The variables at the leaves, from left to right, once for each leaf. -/
def leaves : Expr → List Name
  | literal _ => []
  | var x => [x]
  | not e => e.leaves
  | join _ a b => a.leaves ++ b.leaves

/-- The variables of the expression, each once, in the order of their first leaves. -/
def vars (e : Expr) : List Name :=
  e.leaves.eraseDups

end Expr

end TruthTable
