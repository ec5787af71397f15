import Mathlib.Data.Set.Subsingleton
import TruthTable.Grammar
import TruthTable.Proofs.Reading.Run
import TruthTable.Proofs.Token.Cut

/-!
# Reading finds the derivation

The reader never goes back, and the grammar says nothing about how a derivation is found. They are
matched in two directions, and neither direction uses the other:

* a derivation can be followed by a run, whatever waits and whatever groups are open around it
  (`run_of_derives`, by induction on the derivation);
* a reading knows how the tokens behind it are derived: the groups, the chain and the operand that
  it holds are each derived by a segment of them, in that order (`Reading.Holds`, kept by every
  step).

Since a run has one outcome, the first direction also shows that no list of tokens has two trees.
-/

namespace TruthTable

namespace Reading

/-! ### What a reading holds -/

/-- The sign of negation, if there is one. -/
def negationIf (negated : Bool) : List Token :=
  if negated then [.not] else []

@[simp] theorem negationIf_false : negationIf false = [] :=
  rfl

/-- `chain.Holds ts`: the tokens `ts` are the operands of a chain, each followed by its
connective. -/
inductive Chain.Holds : Chain → List Token → Prop where
  /-- Nothing waits. -/
  | nil : Holds [] []
  /-- One more operand waits. -/
  | cons {chain : Chain} {ts us : List Token} {e : Expr} {c : Connective} (before : Holds chain ts)
    (operand : Derives .operand us e) : Holds ((e, c) :: chain) (ts ++ us ++ [.connective c])

/-- `GroupsHold groups ts`: the tokens `ts` lead into the groups, up to the opening parenthesis of
the innermost one. -/
inductive GroupsHold : List Group → List Token → Prop where
  /-- No group is open. -/
  | nil : GroupsHold [] []
  /-- One more group is open. -/
  | cons {groups : List Group} {g : Group} {ts us : List Token} (around : GroupsHold groups ts)
    (chain : g.chain.Holds us) :
    GroupsHold (g :: groups) (ts ++ us ++ negationIf g.negated ++ [.opening])

/-- `r.Holds ts`: the reading `r` is what has been read from the tokens `ts`. -/
inductive Holds : Reading → List Token → Prop where
  /-- The tokens end where an operand is wanted. -/
  | wanting {negated : Bool} {chain : Chain} {groups : List Group} {ts us : List Token}
    (around : GroupsHold groups ts) (before : chain.Holds us) :
    Holds (wanting negated chain groups) (ts ++ us ++ negationIf negated)
  /-- The tokens end with an operand. -/
  | complete {e : Expr} {chain : Chain} {groups : List Group} {ts us vs : List Token}
    (around : GroupsHold groups ts) (before : chain.Holds us) (operand : Derives .operand vs e) :
    Holds (complete e chain groups) (ts ++ us ++ vs)

/-- A base with or without a sign of negation is an operand. -/
theorem derives_negateIf {ts : List Token} {e : Expr} (negated : Bool) (h : Derives .base ts e) :
    Derives .operand (negationIf negated ++ ts) (Expr.negateIf negated e) := by
  rcases negated with - | -
  · exact .plain h
  · exact .negated h

/-- A chain with a last term is a term. -/
theorem Chain.Holds.derives_close {chain : Chain} {ts us : List Token} {e : Expr}
    (h : chain.Holds ts) (hlast : Derives .term us e) : Derives .term (ts ++ us) (chain.close e) := by
  induction h generalizing us e with
  | nil => exact hlast
  | @cons chain ts vs a c before operand ih =>
    have hterm : Derives .term (vs ++ .connective c :: us) (.join c a e) := .chain c operand hlast
    simpa [Chain.close] using ih hterm

/-- Every step keeps what the reading holds. -/
theorem Holds.step {r s : Reading} {t : Token} {ts : List Token} (hstep : Step r t s)
    (h : r.Holds ts) : s.Holds (ts ++ [t]) := by
  rcases hstep with
    ⟨b, negated, chain, groups⟩ | ⟨x, negated, chain, groups⟩ | ⟨chain, groups⟩ |
    ⟨negated, chain, groups⟩ | ⟨c, e, chain, groups⟩ | ⟨e, chain, g, groups⟩
  case literal =>
    obtain ⟨around, before⟩ := h
    rw [List.append_assoc]
    exact .complete around before (derives_negateIf negated (.literal b))
  case name =>
    obtain ⟨around, before⟩ := h
    rw [List.append_assoc]
    exact .complete around before (derives_negateIf negated (.var x))
  case not =>
    obtain ⟨around, before⟩ := h
    rw [negationIf_false, List.append_nil]
    exact .wanting around before
  case opening =>
    obtain ⟨around, before⟩ := h
    have hgroup : GroupsHold (⟨negated, chain⟩ :: groups) _ := .cons around before
    have h : (Reading.wanting false [] (⟨negated, chain⟩ :: groups)).Holds _ := .wanting hgroup .nil
    simpa using h
  case connective =>
    obtain - | ⟨around, before, operand⟩ := h
    have h : (Reading.wanting false ((e, c) :: chain) groups).Holds _ :=
      .wanting around (.cons before operand)
    simpa using h
  case closing =>
    -- what stands in the innermost group becomes one operand of the chain around it
    obtain - | ⟨- | ⟨around, before⟩, inner, operand⟩ := h
    have hgroup := derives_negateIf g.negated (.group (inner.derives_close (.single operand)))
    have h := Holds.complete around before hgroup
    simpa using h

theorem holds_start : start.Holds [] :=
  .wanting .nil .nil

/-- A reading that is reached holds what has been read. -/
theorem holds_of_run {r : Reading} {ts : List Token} (h : start.run ts = some r) : r.Holds ts :=
  run_induction h holds_start Holds.step

/-- The result of a reading is derived from what has been read. -/
theorem Holds.derives_of_result? {r : Reading} {ts : List Token} {e : Expr} (h : r.Holds ts)
    (he : r.result? = some e) : Derives .term ts e := by
  rcases h with - | ⟨⟨⟩ | ⟨⟩, before, operand⟩
  · cases he
  · obtain rfl := Option.some.inj he
    exact before.derives_close (.single operand)
  · cases he

/-! ### Following a derivation -/

/-- What a run over a phrase with the tree `e` does. The operand or the negation before it, the
chain that waits and the groups around stay as they are; a term may leave a longer chain, but one
that closes to the same expression. -/
def Follows : Phrase → List Token → Expr → Prop
  | .base, ts, e => ∀ negated chain groups,
    (wanting negated chain groups).run ts =
      some (complete (Expr.negateIf negated e) chain groups)
  | .operand, ts, e => ∀ chain groups,
    (wanting false chain groups).run ts = some (complete e chain groups)
  | .term, ts, e => ∀ chain groups, ∃ more last,
    (wanting false chain groups).run ts = some (complete last more groups) ∧
      more.close last = chain.close e

/-- A derivation can be followed. -/
theorem follows_of_derives {k : Phrase} {ts : List Token} {e : Expr} (h : Derives k ts e) :
    Follows k ts e := by
  induction h with
  | literal b => exact fun _ _ _ ↦ rfl
  | var x => exact fun _ _ _ ↦ rfl
  | @group ts e _ ih =>
    intro negated chain groups
    -- the term inside may leave a chain, but the closing parenthesis closes it
    obtain ⟨more, last, hrun, hclose⟩ := ih [] (⟨negated, chain⟩ :: groups)
    have hopen : (wanting negated chain groups).step .opening =
        some (wanting false [] (⟨negated, chain⟩ :: groups)) :=
      step_eq_some_iff.2 (.opening ..)
    rw [run_cons, hopen, Option.bind_some, run_append_of_eq_some hrun, run_cons]
    show some (complete (Expr.negateIf negated (more.close last)) chain groups) = _
    rw [hclose]
    rfl
  | plain _ ih => exact ih false
  | negated _ ih =>
    intro chain groups
    rw [run_cons]
    exact ih true chain groups
  | @single ts e _ ih => exact fun chain groups ↦ ⟨chain, e, ih chain groups, rfl⟩
  | @chain ts us a b c _ _ ihleft ihright =>
    intro chain groups
    obtain ⟨more, last, hrun, hclose⟩ := ihright ((a, c) :: chain) groups
    refine ⟨more, last, ?_, hclose⟩
    rw [run_append_of_eq_some (ihleft chain groups), run_cons]
    exact hrun

/-- A derived source leads to its tree. -/
theorem run_of_derives {ts : List Token} {e : Expr} (h : Derives .term ts e) :
    ∃ r, start.run ts = some r ∧ r.result? = some e := by
  obtain ⟨more, last, hrun, hclose⟩ := follows_of_derives h [] []
  exact ⟨complete last more [], hrun, congrArg some hclose⟩

end Reading

open Reading

/-- The tokens of a term are those that lead the reader to a result, and its tree is the result. -/
theorem derives_iff_run {ts : List Token} {e : Expr} :
    Derives .term ts e ↔ ∃ r, start.run ts = some r ∧ r.result? = some e := by
  constructor
  · exact run_of_derives
  · rintro ⟨r, hr, he⟩
    exact (holds_of_run hr).derives_of_result? he

/-- A list of tokens has at most one tree. -/
theorem Derives.unique {ts : List Token} {e e' : Expr} (h : Derives .term ts e)
    (h' : Derives .term ts e') : e = e' := by
  obtain ⟨r, hr, he⟩ := run_of_derives h
  obtain ⟨r', hr', he'⟩ := run_of_derives h'
  obtain rfl : r = r' := Option.some.inj (hr.symm.trans hr')
  exact Option.some.inj (he.symm.trans he')

/-- A source is read as the tree that is derived from its cut. -/
theorem parse_eq_ok_iff {source : String} {e : Expr} :
    Expr.parse source = .ok e ↔ ∃ ts, Cut source.toList ts ∧ Derives .term ts e := by
  rw [Expr.parse_eq_ok_iff_run, ← derives_iff_run]
  constructor
  · intro h
    obtain ⟨r, hr, -⟩ := run_of_derives h
    exact ⟨tokens source, cut_iff.2 ⟨rfl, stray_notMem_of_run hr⟩, h⟩
  · rintro ⟨ts, hcut, h⟩
    rwa [(cut_iff.1 hcut).1]

/-- The language of the reader is the one of the grammar, and the grammar is not ambiguous: no text
has two cuts, and no list of tokens two trees. -/
theorem parse_eq_ok_iff_derives (source : String) :
    (∀ e, Expr.parse source = .ok e ↔ ∃ ts, Cut source.toList ts ∧ Derives .term ts e) ∧
      {ts | Cut source.toList ts}.Subsingleton ∧ ∀ ts, {e | Derives .term ts e}.Subsingleton := by
  refine ⟨fun e ↦ parse_eq_ok_iff, ?_, ?_⟩
  · intro ts hts us hus
    exact (cut_iff.1 hts).1.symm.trans (cut_iff.1 hus).1
  · intro ts e he e' he'
    exact he.unique he'

end TruthTable
