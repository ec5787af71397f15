import TruthTable.Assignment
import TruthTable.Expr.Spelling
import TruthTable.Expr.Value

/-!
# Rules

A rule is what can be evaluated under an assignment: an expression, a name by itself, or a truth
value by itself. A name and a truth value behave as the leaves that they would be in an expression,
so every question about a rule is asked of its expression.

There are two ways to find out that a rule uses a name which is not declared. `Rule.eval` meets it
on its way, and a name that is skipped does no harm; `Inputs.check` looks at all leaves beforehand.
Both name the leftmost offender they see, and both show the rule in its infix form.
-/

namespace TruthTable

/-- Something that has a truth value under an assignment. -/
inductive Rule where
  /-- An expression. -/
  | expr (e : Expr)
  /-- A variable, by its name. -/
  | name (x : Name)
  /-- A truth value. -/
  | value (b : Bool)
  deriving DecidableEq

namespace Rule

instance : Coe Expr Rule := ⟨expr⟩

/-- The expression that a rule amounts to. -/
def toExpr : Rule → Expr
  | expr e => e
  | name x => .var x
  | value b => .literal b

/-- The walk through a rule. -/
def events (r : Rule) : List Event :=
  r.toExpr.events

/-- The infix form of a rule in the given signs. -/
def textWith (s : Spelling) (r : Rule) : String :=
  r.toExpr.textWith s

/-- The infix form of a rule in the signs of logic. -/
def text (r : Rule) : String :=
  r.toExpr.text

/-- The operator-first form of a rule. -/
def operatorFirst (r : Rule) : String :=
  r.toExpr.operatorFirst

/-- The variables of a rule from left to right, once for each leaf. -/
def leaves (r : Rule) : List Name :=
  r.toExpr.leaves

/-- The variables of a rule, each once, in the order of their first leaves. -/
def vars (r : Rule) : List Name :=
  r.toExpr.vars

/-- The value of a rule under an assignment, or the fault that a variable met on the way is not
declared. -/
def eval (r : Rule) (a : Assignment) : Except Fault Bool :=
  match r.toExpr.eval fun x ↦ a.get? x.text with
  | .ok b => .ok b
  | .error x => .error (.undeclared x.text r.text)

end Rule

namespace Inputs

/-- The first variable of a rule that is not declared. -/
def firstUndeclared? (inputs : Inputs) (r : Rule) : Option Name :=
  r.vars.find? fun x ↦ !inputs.contains x.text

/-- Succeeds if all variables of a rule are declared. -/
def check (inputs : Inputs) (r : Rule) : Except Fault Unit :=
  match inputs.firstUndeclared? r with
  | none => .ok ()
  | some x => .error (.undeclared x.text r.text)

end Inputs

end TruthTable
