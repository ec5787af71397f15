import TruthTable.Token

/-!
# The grammar of expressions

The language is given by derivation trees over lists of tokens, with three kinds of phrases:

* a *term* is an operand, or an operand, a connective and a term;
* an *operand* is a base, or the sign of negation and a base;
* a *base* is a truth value, a name, or a term in parentheses.

So a negation reaches as far as the base behind it and can not be stacked without parentheses, both
connectives have the same priority, and a chain of them groups to the right. A derivation carries
the tree that it builds: parentheses leave no trace in it.

Nothing here says how a derivation is found.
-/

namespace TruthTable

/-- The kinds of phrases. -/
inductive Phrase where
  /-- A whole expression. -/
  | term
  /-- What a connective joins. -/
  | operand
  /-- What a negation applies to. -/
  | base
  deriving DecidableEq, Repr

/-- `Derives k ts e`: the tokens `ts` form a phrase of kind `k`, whose tree is `e`. -/
inductive Derives : Phrase → List Token → Expr → Prop where
  /-- A truth value is a base. -/
  | literal (b : Bool) : Derives .base [.literal b] (.literal b)
  /-- A name is a base. -/
  | var (x : Name) : Derives .base [.name x] (.var x)
  /-- A term in parentheses is a base. -/
  | group {ts : List Token} {e : Expr} (h : Derives .term ts e) :
    Derives .base (.opening :: (ts ++ [.closing])) e
  /-- A base is an operand. -/
  | plain {ts : List Token} {e : Expr} (h : Derives .base ts e) : Derives .operand ts e
  /-- A negated base is an operand. -/
  | negated {ts : List Token} {e : Expr} (h : Derives .base ts e) :
    Derives .operand (.not :: ts) (.not e)
  /-- An operand is a term. -/
  | single {ts : List Token} {e : Expr} (h : Derives .operand ts e) : Derives .term ts e
  /-- An operand, a connective and a term are a term. -/
  | chain {ts us : List Token} {a b : Expr} (c : Connective) (left : Derives .operand ts a)
    (right : Derives .term us b) : Derives .term (ts ++ .connective c :: us) (.join c a b)

end TruthTable
