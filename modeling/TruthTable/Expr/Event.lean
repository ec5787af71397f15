import TruthTable.Expr.Basic

/-!
# The events of a walk through an expression

Every way of writing an expression walks through its tree from left to right, and they differ only
in what they put down at each step. The walk is therefore data: the list of its events, which a
writer maps to pieces of text.

A negation and a join are bracketed by two events, and the event between the operands of a join
stands at the level of the join. The brackets tell what a writer needs to decide on parentheses: of
a negation, whether its operand is a leaf; of a join, its place in the tree.
-/

namespace TruthTable

/-- Where a node stands in a tree. -/
inductive Place where
  /-- At the top. -/
  | root
  /-- As the left operand of a join. -/
  | left
  /-- As the right operand of a join. -/
  | right
  /-- As the operand of a negation. -/
  | negated
  deriving DecidableEq, Repr

/-- A step of a walk through an expression. -/
inductive Event where
  /-- A truth value at a leaf. -/
  | literal (b : Bool)
  /-- A variable at a leaf. -/
  | var (x : Name)
  /-- A negation begins; the flag tells whether its operand is a leaf. -/
  | startNot (ofLeaf : Bool)
  /-- A negation ends. -/
  | endNot (ofLeaf : Bool)
  /-- A join at the given place begins. -/
  | startJoin (c : Connective) (place : Place)
  /-- The left operand of a join is done and the right one follows. -/
  | between (c : Connective)
  /-- A join at the given place ends. -/
  | endJoin (c : Connective) (place : Place)
  deriving DecidableEq

namespace Expr

/-- The walk through an expression that stands at the given place. -/
def eventsAt (place : Place) : Expr → List Event
  | literal b => [.literal b]
  | var x => [.var x]
  | not e => .startNot e.isLeaf :: (e.eventsAt .negated ++ [.endNot e.isLeaf])
  | join c a b =>
    .startJoin c place ::
      (a.eventsAt .left ++ .between c :: (b.eventsAt .right ++ [.endJoin c place]))

/-- The walk through a whole expression. -/
def events (e : Expr) : List Event :=
  e.eventsAt .root

end Expr

end TruthTable
