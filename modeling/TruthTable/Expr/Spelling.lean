import TruthTable.Expr.Event

/-!
# Writing expressions

There are two forms. The *infix* form puts a connective between its operands, in the signs of a
chosen `Spelling`; the *operator-first* form puts it before them and encloses every inner node in
parentheses, as in `(| (! a) b)`.

All connectives have one priority and chains group to the right, so the infix form needs a group in
two places only: around the operand of a negation that is not a leaf, and around a join that is the
left operand of another join. A join on the right needs none.
-/

namespace TruthTable

/-- The signs of the infix form. -/
structure Spelling where
  /-- The sign of the connective *and*. -/
  conjunction : String
  /-- The sign of the connective *or*. -/
  disjunction : String
  /-- The sign of negation. -/
  negation : String

namespace Spelling

/-- The signs of logic. -/
def logical : Spelling := ⟨"&", "|", "!"⟩

/-- The signs of arithmetic, with the product for *and* and the sum for *or*. -/
def arithmetic : Spelling := ⟨".", "+", "!"⟩

/-- The sign of a connective. -/
def sign (s : Spelling) : Connective → String
  | .and => s.conjunction
  | .or => s.disjunction

/-- What the infix form puts down at a step of the walk. -/
def write (s : Spelling) : Event → String
  | .literal b => if b then "1" else "0"
  | .var x => x.text
  | .startNot ofLeaf => if ofLeaf then s.negation else s.negation ++ "("
  | .endNot ofLeaf => if ofLeaf then "" else ")"
  | .startJoin _ place => if place = .left then "(" else ""
  | .between c => " " ++ s.sign c ++ " "
  | .endJoin _ place => if place = .left then ")" else ""

end Spelling

/-- What the operator-first form puts down at a step of the walk. -/
def Event.writeFirst : Event → String
  | .literal b => if b then "1" else "0"
  | .var x => x.text
  | .startNot _ => "(! "
  | .endNot _ => ")"
  | .startJoin c _ => "(" ++ Spelling.logical.sign c ++ " "
  | .between _ => " "
  | .endJoin _ _ => ")"

namespace Expr

/-- The infix form in the given signs. -/
def textWith (s : Spelling) (e : Expr) : String :=
  String.join (e.events.map s.write)

/-- The infix form in the signs of logic, which stands for the expression in messages. -/
def text (e : Expr) : String :=
  e.textWith .logical

/-- The operator-first form. -/
def operatorFirst (e : Expr) : String :=
  String.join (e.events.map Event.writeFirst)

instance : ToString Expr := ⟨text⟩

/-- The characters of the infix form are those of its pieces, one after the other. -/
theorem toList_textWith (s : Spelling) (e : Expr) :
    (e.textWith s).toList = e.events.flatMap fun event ↦ (s.write event).toList := by
  rw [textWith, String.toList_join, List.flatMap_map]

/-- The characters of the operator-first form are those of its pieces, one after the other. -/
theorem toList_operatorFirst (e : Expr) :
    e.operatorFirst.toList = e.events.flatMap fun event ↦ event.writeFirst.toList := by
  rw [operatorFirst, String.toList_join, List.flatMap_map]

end Expr

end TruthTable
