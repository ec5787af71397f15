import TruthTable.Expr.Spelling
import TruthTable.Proofs.Reading.Grammar
import TruthTable.Proofs.Token.Boundary

/-!
# Reading what was written

The infix form of an expression is read back as the same tree, in every spelling whose signs the
reader knows (`Expr.parse_textWith`). Between the text and the tree stand the tokens of the walk,
`Expr.tokensAt`, and the two halves of the argument meet there:

* the text is cut into these tokens (`cut_writeAt`), since no piece of it can run into the next:
  what stands behind a name or a sign is a blank, a closing parenthesis or nothing;
* the tree is derived from these tokens (`derives_tokensAt`), since the walk puts a group round an
  expression exactly where the grammar does not admit it bare.

Both are inductions on the tree, and only the second looks at the places of the nodes.
-/

namespace TruthTable

/-! ### The tokens of a walk -/

/-- The tokens that are put down at a step of the walk. -/
def Event.tokens : Event → List Token
  | .literal b => [.literal b]
  | .var x => [.name x]
  | .startNot ofLeaf => if ofLeaf then [.not] else [.not, .opening]
  | .endNot ofLeaf => if ofLeaf then [] else [.closing]
  | .startJoin _ place => if place = .left then [.opening] else []
  | .between c => [.connective c]
  | .endJoin _ place => if place = .left then [.closing] else []

/-- The tokens between a pair of parentheses, if there is to be one. -/
def groupIf (grouped : Bool) (ts : List Token) : List Token :=
  if grouped then .opening :: (ts ++ [.closing]) else ts

/-- The characters between a pair of parentheses, if there is to be one. -/
def enclosedIf (grouped : Bool) (cs : List Char) : List Char :=
  if grouped then '(' :: (cs ++ [')']) else cs

namespace Expr

/-- The tokens of an expression that stands at the given place. -/
def tokensAt (place : Place) (e : Expr) : List Token :=
  (e.eventsAt place).flatMap Event.tokens

/-- The characters of the infix form of an expression that stands at the given place. -/
def writeAt (s : Spelling) (place : Place) (e : Expr) : List Char :=
  (e.eventsAt place).flatMap fun event ↦ (s.write event).toList

variable (s : Spelling) (place : Place)

@[simp] theorem tokensAt_literal (b : Bool) : (literal b).tokensAt place = [.literal b] :=
  rfl

@[simp] theorem tokensAt_var (x : Name) : (var x).tokensAt place = [.name x] :=
  rfl

@[simp] theorem tokensAt_not (e : Expr) :
    e.not.tokensAt place = .not :: groupIf (!e.isLeaf) (e.tokensAt .negated) := by
  rw [tokensAt, eventsAt]
  rcases e.isLeaf with - | - <;> simp [Event.tokens, groupIf, tokensAt]

@[simp] theorem tokensAt_join (c : Connective) (a b : Expr) :
    (join c a b).tokensAt place =
      groupIf (place = .left) (a.tokensAt .left ++ .connective c :: b.tokensAt .right) := by
  rw [tokensAt, eventsAt]
  by_cases h : place = .left <;> simp [Event.tokens, groupIf, tokensAt, h]

@[simp] theorem writeAt_literal (b : Bool) : (literal b).writeAt s place = [Text.bit b] := by
  rcases b with - | - <;> simp [writeAt, eventsAt, Spelling.write, Text.bit]

@[simp] theorem writeAt_var (x : Name) : (var x).writeAt s place = x.text.toList :=
  List.append_nil _

@[simp] theorem writeAt_not (e : Expr) :
    e.not.writeAt s place =
      s.negation.toList ++ enclosedIf (!e.isLeaf) (e.writeAt s .negated) := by
  rw [writeAt, eventsAt]
  rcases e.isLeaf with - | - <;> simp [Spelling.write, enclosedIf, writeAt]

@[simp] theorem writeAt_join (c : Connective) (a b : Expr) :
    (join c a b).writeAt s place =
      enclosedIf (place = .left)
        (a.writeAt s .left ++ ' ' :: ((s.sign c).toList ++ ' ' :: b.writeAt s .right)) := by
  rw [writeAt, eventsAt]
  by_cases h : place = .left <;> simp [Spelling.write, enclosedIf, writeAt, h]

end Expr

/-! ### The tree is derived from its tokens -/

/-- A leaf is a base, wherever it stands. -/
theorem derives_tokensAt_of_isLeaf {e : Expr} (h : e.isLeaf = true) (place : Place) :
    Derives .base (e.tokensAt place) e := by
  rcases e with b | x | e | ⟨c, a, b⟩
  · exact .literal b
  · exact .var x
  · cases h
  · cases h

/-- The walk puts groups where the grammar asks for them: a left operand is an operand, and at any
other place stands a term. -/
theorem derives_tokensAt (e : Expr) :
    Derives .operand (e.tokensAt .left) e ∧
      ∀ place, place ≠ .left → Derives .term (e.tokensAt place) e := by
  induction e with
  | literal b => exact ⟨.plain (.literal b), fun _ _ ↦ .single (.plain (.literal b))⟩
  | var x => exact ⟨.plain (.var x), fun _ _ ↦ .single (.plain (.var x))⟩
  | not e ih =>
    -- behind the sign stands a base: a leaf as it is, anything else in a group
    have hbase : Derives .base (groupIf (!e.isLeaf) (e.tokensAt .negated)) e := by
      rcases hleaf : e.isLeaf with - | -
      · exact .group (ih.2 .negated (by decide))
      · exact derives_tokensAt_of_isLeaf hleaf .negated
    simp only [Expr.tokensAt_not]
    exact ⟨.negated hbase, fun _ _ ↦ .single (.negated hbase)⟩
  | join c a b iha ihb =>
    have hterm : Derives .term (a.tokensAt .left ++ .connective c :: b.tokensAt .right)
        (.join c a b) :=
      .chain c iha.1 (ihb.2 .right (by decide))
    simp only [Expr.tokensAt_join]
    refine ⟨.plain (.group hterm), fun place hplace ↦ ?_⟩
    simpa [groupIf, hplace] using hterm

/-! ### The text is cut into its tokens -/

/-- The reader knows the signs of a spelling. -/
structure Spelling.Readable (s : Spelling) : Prop where
  /-- The sign of negation is the only one that the reader knows. -/
  negation : s.negation = "!"
  /-- The sign of a connective is one of its words. -/
  sign (c : Connective) : (s.sign c).toList ∈ c.words

theorem Spelling.readable_logical : logical.Readable :=
  ⟨rfl, by rintro (_ | _) <;> decide⟩

theorem Spelling.readable_arithmetic : arithmetic.Readable :=
  ⟨rfl, by rintro (_ | _) <;> decide⟩

/-- Parentheses round a text that is cut are tokens of their own. -/
theorem Cut.enclosedIf {cs : List Char} {ts : List Token} (grouped : Bool) (h : Cut cs ts) :
    Cut (enclosedIf grouped cs) (groupIf grouped ts) := by
  rcases grouped with - | -
  · exact h
  · have hclosed := h.append separates_closing (.singleton .closing)
    exact .token .opening (Token.isLongest_of_read_le (Nat.le_refl _)) hclosed

/-- The infix form is cut into the tokens of the walk. -/
theorem cut_writeAt {s : Spelling} (hs : s.Readable) (place : Place) (e : Expr) :
    Cut (e.writeAt s place) (e.tokensAt place) := by
  induction e generalizing place with
  | literal b => rw [Expr.writeAt_literal]; exact .singleton (.literal b)
  | var x => rw [Expr.writeAt_var]; exact .singleton (.name x)
  | not e ih =>
    rw [Expr.writeAt_not, Expr.tokensAt_not, hs.negation]
    exact .token .not (Token.isLongest_of_read_le (Nat.le_refl _)) ((ih .negated).enclosedIf _)
  | join c a b iha ihb =>
    rw [Expr.writeAt_join, Expr.tokensAt_join]
    have hsign : Cut (s.sign c).toList [.connective c] := .singleton (.connective (hs.sign c))
    have hright := hsign.append_blank (d := ' ') rfl (ihb .right)
    exact ((iha .left).append_blank rfl hright).enclosedIf _

namespace Expr

/-- What is written in signs that the reader knows is read back. -/
theorem parse_textWith {s : Spelling} (hs : s.Readable) (e : Expr) :
    parse (e.textWith s) = .ok e := by
  refine parse_eq_ok_iff.2 ⟨e.tokensAt .root, ?_, (derives_tokensAt e).2 .root (by decide)⟩
  rw [toList_textWith]
  exact cut_writeAt hs .root e

/-- Both standard spellings of an expression are read back as the expression. -/
theorem parse_text (e : Expr) :
    parse e.text = .ok e ∧ parse (e.textWith .arithmetic) = .ok e :=
  ⟨parse_textWith Spelling.readable_logical e, parse_textWith Spelling.readable_arithmetic e⟩

end Expr

end TruthTable
