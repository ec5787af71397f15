import TruthTable.Token

/-!
# Reading expressions

A source is read token by token, without looking ahead and without going back. What has been read is
summed up in a `Reading`: whether an operand is wanted or one has just been completed, the operands
of the current group that still wait for their right-hand side, and the groups around it.
`Reading.step` takes one token or refuses it, and a refusal is final: no way of reading on from the
same tokens could have taken it.

Because of that, the place where reading stops is the place of the fault, and the reading that has
been reached says what could have stood there. `Reading.feed` goes as far as it can, and
`Expr.parse` either finds that everything was taken and no group is open, or reports the stop.
-/

namespace TruthTable

/-- Operands that wait, each with its connective, for what stands to the right of them. The nearest
one comes first. -/
abbrev Reading.Chain := List (Expr × Connective)

/-- The expression that a chain forms with its last operand; chains group to the right. -/
def Reading.Chain.close (chain : Chain) (last : Expr) : Expr :=
  chain.foldl (fun e p ↦ .join p.2 p.1 e) last

/-- A group that is open. -/
structure Reading.Group where
  /-- A sign of negation stands before the group. -/
  negated : Bool
  /-- The operands that waited when the group was opened. -/
  chain : Reading.Chain
  deriving DecidableEq

/-- What reading a part of a source has led to. The groups that are open are listed from the
innermost outwards. -/
inductive Reading where
  /-- An operand is wanted; the flag tells whether a sign of negation has been read before it. -/
  | wanting (negated : Bool) (chain : Reading.Chain) (groups : List Reading.Group)
  /-- An operand is complete. -/
  | complete (operand : Expr) (chain : Reading.Chain) (groups : List Reading.Group)
  deriving DecidableEq

namespace Reading

/-- Nothing has been read. -/
def start : Reading :=
  wanting false [] []

/-- Takes one token, if it can stand here. -/
def step : Reading → Token → Option Reading
  | wanting negated chain groups, .literal b =>
    some (complete (Expr.negateIf negated (.literal b)) chain groups)
  | wanting negated chain groups, .name x =>
    some (complete (Expr.negateIf negated (.var x)) chain groups)
  | wanting negated chain groups, .opening =>
    some (wanting false [] (⟨negated, chain⟩ :: groups))
  | wanting false chain groups, .not =>
    some (wanting true chain groups)
  | complete e chain groups, .connective c =>
    some (wanting false ((e, c) :: chain) groups)
  | complete e chain (g :: groups), .closing =>
    some (complete (Expr.negateIf g.negated (chain.close e)) g.chain groups)
  | _, _ => none

/-- Takes as many lexemes as possible; returns the reading reached and the lexemes not taken. -/
def feed : Reading → List Lexeme → Reading × List Lexeme
  | r, [] => (r, [])
  | r, l :: ls =>
    match r.step l.token with
    | some next => next.feed ls
    | none => (r, l :: ls)

/-- The expression that has been read, if the source may end here. -/
def result? : Reading → Option Expr
  | complete e chain [] => some (chain.close e)
  | _ => none

/-- What can stand here. -/
def expectation : Reading → Expectation
  | wanting false _ _ => .expression
  | wanting true _ _ => .operand
  | complete _ _ [] => .ending
  | complete _ _ (_ :: _) => .connective

/-- Reading on takes up where all lexemes before have been taken. -/
theorem feed_append {r s : Reading} {ls ms : List Lexeme} (h : r.feed ls = (s, [])) :
    r.feed (ls ++ ms) = s.feed ms := by
  induction ls generalizing r with
  | nil =>
    obtain rfl : r = s := congrArg Prod.fst h
    rfl
  | cons l ls ih =>
    rw [List.cons_append]
    simp only [feed] at h ⊢
    split at h
    · exact ih h
    · cases h

end Reading

/-- The expression that a source text is, or the place where it stops being one. -/
def Expr.parse (source : String) : Except ParseError Expr :=
  match Reading.start.feed (lexemes source) with
  | (r, []) =>
    match r.result? with
    | some e => .ok e
    | none => .error ⟨source, source.utf8ByteSize, r.expectation⟩
  | (r, l :: _) => .error ⟨source, l.start, r.expectation⟩

end TruthTable
