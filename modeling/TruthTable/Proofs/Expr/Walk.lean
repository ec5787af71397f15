import TruthTable.Proofs.Expr.Brackets
import TruthTable.Proofs.Expr.OperatorFirst

/-!
# What a walk tells

Whoever writes an expression sees its walk and nothing of its tree. This module says what can be
relied on in the walk, in terms of the list of events alone (`WellNested`): which end belongs to
which start, what stands between the two, and what their arguments tell of the inside and of the
surroundings.

The way there leads through the tree. Each of its nodes has a part of the walk, with some events in
front of it and some behind (`Expr.Stands`), and each event comes from a node in one of seven ways
(`Expr.Meets`). That there is no other way is an induction on the tree, the only one in which a
walk is split (`Expr.Stands.meets`). It follows that the brackets of a walk are the inner nodes of
the tree (`Expr.spans_of_bracket`), and what a bracket has inside and around is then seen on the
node.
-/

namespace TruthTable

/-! ### Where an operand stands -/

/-- What stands in front of an operand and behind it, when the operand stands at the given place. -/
inductive Surrounds : Place → List Event → List Event → Prop where
  /-- Nothing. -/
  | root : Surrounds .root [] []
  /-- The start of a join in front of it; behind it the right operand and the end of the join. -/
  | left {front back right : List Event} {c : Connective} {place : Place}
    (operand : IsOperand right) :
    Surrounds .left (front ++ [.startJoin c place])
      (.between c :: (right ++ .endJoin c place :: back))
  /-- The start of a join and the left operand in front of it; the end of the join behind it. -/
  | right {front back left : List Event} {c : Connective} {place : Place}
    (operand : IsOperand left) :
    Surrounds .right ((front ++ .startJoin c place :: left) ++ [.between c])
      (.endJoin c place :: back)
  /-- The start of a negation in front of it and its end behind it. -/
  | negated {front back : List Event} {ofLeaf : Bool} :
    Surrounds .negated (front ++ [.startNot ofLeaf]) (.endNot ofLeaf :: back)

/-- The place of an operand right behind an event. -/
def Event.placeBehind : Event → Place
  | startJoin .. => .left
  | between _ => .right
  | startNot _ => .negated
  | literal _ | var _ | endNot _ | endJoin .. => .root

variable {before front back after inner : List Event} {event opening closing : Event}
  {place : Place}

/-- The event in front of an operand tells its place. -/
theorem Surrounds.place_eq (h : Surrounds place before after) :
    place = (before.getLast?.map Event.placeBehind).getD .root := by
  cases h with
  | root => rfl
  | left | right | negated =>
    rw [List.getLast?_concat]
    rfl

/-! ### Splitting a list at an element -/

section Split

variable {α : Type} {xs ys front back : List α} {x y : α}

/-- An element of a list that is put together from two stands in the first or in the second. -/
theorem append_eq_append_cons_cases (h : xs ++ ys = front ++ x :: back) :
    (∃ rest, xs = front ++ x :: rest ∧ back = rest ++ ys) ∨
      ∃ first, front = xs ++ first ∧ ys = first ++ x :: back := by
  rcases List.append_eq_append_iff.1 h with ⟨first, rfl, hys⟩ | ⟨_ | ⟨y, rest⟩, rfl, hrest⟩
  · exact .inr ⟨first, rfl, hys⟩
  · exact .inr ⟨[], by simp, hrest.symm⟩
  · obtain ⟨rfl, rfl⟩ := List.cons.inj hrest
    exact .inl ⟨rest, rfl, rfl⟩

/-- An element of a list with a first element is this one or stands behind it. -/
theorem cons_eq_append_cons_cases (h : y :: ys = front ++ x :: back) :
    (front = [] ∧ x = y ∧ back = ys) ∨ ∃ first, front = y :: first ∧ ys = first ++ x :: back := by
  rcases List.cons_eq_append_iff.1 h with ⟨rfl, hfirst⟩ | ⟨first, rfl, hrest⟩
  · obtain ⟨rfl, rfl⟩ := List.cons.inj hfirst
    exact .inl ⟨rfl, rfl, rfl⟩
  · exact .inr ⟨first, rfl, hrest⟩

theorem singleton_eq_append_cons (h : [y] = front ++ x :: back) :
    front = [] ∧ x = y ∧ back = [] := by
  rcases cons_eq_append_cons_cases h with hfirst | ⟨first, -, hrest⟩
  · exact hfirst
  · cases (List.append_eq_nil_iff.1 hrest.symm).2

end Split

/-! ### The nodes of a tree -/

namespace Expr

variable {root e a b : Expr} {c : Connective}

/-- `Stands root before e place after`: in the walk through `root`, the walk through the node `e` at
its place stands between `before` and `after`. -/
inductive Stands (root : Expr) : List Event → Expr → Place → List Event → Prop where
  /-- The tree itself. -/
  | root : Stands root [] root .root []
  /-- The operand of a negation. -/
  | negated {before after : List Event} {e : Expr} {place : Place}
    (node : Stands root before e.not place after) :
    Stands root (before ++ [.startNot e.isLeaf]) e .negated (.endNot e.isLeaf :: after)
  /-- The left operand of a join. -/
  | left {before after : List Event} {c : Connective} {a b : Expr} {place : Place}
    (node : Stands root before (join c a b) place after) :
    Stands root (before ++ [.startJoin c place]) a .left
      (.between c :: (b.eventsAt .right ++ .endJoin c place :: after))
  /-- The right operand of a join. -/
  | right {before after : List Event} {c : Connective} {a b : Expr} {place : Place}
    (node : Stands root before (join c a b) place after) :
    Stands root ((before ++ .startJoin c place :: a.eventsAt .left) ++ [.between c]) b .right
      (.endJoin c place :: after)

/-- The walk through a node is one operand. -/
theorem isOperand_eventsAt (e : Expr) (place : Place) : IsOperand (e.eventsAt place) := by
  induction e generalizing place with
  | literal | var => exact .leaf rfl
  | not e ih => exact .bracket rfl rfl (ih .negated).balanced
  | join c a b iha ihb =>
    have hwalk : (join c a b).eventsAt place = .startJoin c place ::
        ((a.eventsAt .left ++ .between c :: b.eventsAt .right) ++ [.endJoin c place]) := by
      simp [eventsAt]
    rw [hwalk]
    exact .bracket rfl rfl ((iha .left).balanced_append_between (ihb .right))

theorem Stands.events_eq (h : Stands root before e place after) :
    root.events = before ++ (e.eventsAt place ++ after) := by
  induction h with
  | root => simp [events]
  | negated _ ih => simpa [eventsAt] using ih
  | left _ ih => simpa [eventsAt] using ih
  | right _ ih => simpa [eventsAt] using ih

theorem Stands.surrounds (h : Stands root before e place after) : Surrounds place before after := by
  cases h with
  | root => exact .root
  | negated => exact .negated
  | left => exact .left (isOperand_eventsAt _ _)
  | right => exact .right (isOperand_eventsAt _ _)

/-- An event of the walk through `root`, with the events in front of it and behind it, by the node
from which it comes. -/
inductive Meets (root : Expr) : List Event → Event → List Event → Prop where
  /-- A truth value. -/
  | literal {before after : List Event} {b : Bool} {place : Place}
    (node : Stands root before (.literal b) place after) : Meets root before (.literal b) after
  /-- A variable. -/
  | var {before after : List Event} {x : Name} {place : Place}
    (node : Stands root before (.var x) place after) : Meets root before (.var x) after
  /-- A negation begins. -/
  | startNot {before after : List Event} {e : Expr} {place : Place}
    (node : Stands root before e.not place after) :
    Meets root before (.startNot e.isLeaf) (e.eventsAt .negated ++ .endNot e.isLeaf :: after)
  /-- A negation ends. -/
  | endNot {before after : List Event} {e : Expr} {place : Place}
    (node : Stands root before e.not place after) :
    Meets root (before ++ .startNot e.isLeaf :: e.eventsAt .negated) (.endNot e.isLeaf) after
  /-- A join begins. -/
  | startJoin {before after : List Event} {c : Connective} {a b : Expr} {place : Place}
    (node : Stands root before (join c a b) place after) :
    Meets root before (.startJoin c place)
      (a.eventsAt .left ++ .between c :: (b.eventsAt .right ++ .endJoin c place :: after))
  /-- The left operand of a join is done. -/
  | between {before after : List Event} {c : Connective} {a b : Expr} {place : Place}
    (node : Stands root before (join c a b) place after) :
    Meets root (before ++ .startJoin c place :: a.eventsAt .left) (.between c)
      (b.eventsAt .right ++ .endJoin c place :: after)
  /-- A join ends. -/
  | endJoin {before after : List Event} {c : Connective} {a b : Expr} {place : Place}
    (node : Stands root before (join c a b) place after) :
    Meets root
      (before ++ .startJoin c place :: (a.eventsAt .left ++ .between c :: b.eventsAt .right))
      (.endJoin c place) after

/-- Each event of the walk through a node comes from that node or from one below it. -/
theorem Stands.meets (h : Stands root before e place after)
    (hsplit : e.eventsAt place = front ++ event :: back) :
    Meets root (before ++ front) event (back ++ after) := by
  -- an event inside an operand is left to the operand, with all that stands around it
  induction e generalizing before place after front back with
  | literal b =>
    obtain ⟨rfl, rfl, rfl⟩ := singleton_eq_append_cons hsplit
    simpa using Meets.literal h
  | var x =>
    obtain ⟨rfl, rfl, rfl⟩ := singleton_eq_append_cons hsplit
    simpa using Meets.var h
  | not e ih =>
    rcases cons_eq_append_cons_cases hsplit with ⟨rfl, rfl, rfl⟩ | ⟨front, rfl, hrest⟩
    · simpa using Meets.startNot h
    rcases append_eq_append_cons_cases hrest with ⟨rest, hinner, rfl⟩ | ⟨first, rfl, hend⟩
    · simpa using ih h.negated hinner
    · obtain ⟨rfl, rfl, rfl⟩ := singleton_eq_append_cons hend
      simpa using Meets.endNot h
  | join c a b iha ihb =>
    rcases cons_eq_append_cons_cases hsplit with ⟨rfl, rfl, rfl⟩ | ⟨front, rfl, hrest⟩
    · simpa using Meets.startJoin h
    rcases append_eq_append_cons_cases hrest with ⟨rest, hleft, rfl⟩ | ⟨first, rfl, hbehind⟩
    · simpa using iha h.left hleft
    rcases cons_eq_append_cons_cases hbehind with ⟨rfl, rfl, rfl⟩ | ⟨first, rfl, hlast⟩
    · simpa using Meets.between h
    rcases append_eq_append_cons_cases hlast with ⟨rest, hright, rfl⟩ | ⟨first, rfl, hend⟩
    · simpa using ihb h.right hright
    · obtain ⟨rfl, rfl, rfl⟩ := singleton_eq_append_cons hend
      simpa using Meets.endJoin h

/-- What an event of a walk is, by the events in front of it and behind it. -/
theorem meets (h : root.events = front ++ event :: back) : Meets root front event back := by
  simpa using Stands.root.meets h

/-! ### The brackets of a walk are its inner nodes -/

/-- A bracket in the walk through `root`, by the node that is bracketed. -/
inductive Spans (root : Expr) :
    List Event → Event → List Event → Event → List Event → Prop where
  /-- A negation. -/
  | negation {before after : List Event} {e : Expr} {place : Place}
    (node : Stands root before e.not place after) :
    Spans root before (.startNot e.isLeaf) (e.eventsAt .negated) (.endNot e.isLeaf) after
  /-- A join. -/
  | join {before after : List Event} {c : Connective} {a b : Expr} {place : Place}
    (node : Stands root before (join c a b) place after) :
    Spans root before (.startJoin c place) (a.eventsAt .left ++ .between c :: b.eventsAt .right)
      (.endJoin c place) after

theorem Spans.bracket (h : Spans root before opening inner closing after) :
    Bracket root.events before opening inner closing after := by
  cases h with
  | negation node =>
    refine ⟨?_, rfl, rfl, (isOperand_eventsAt _ _).balanced⟩
    simpa [eventsAt] using node.events_eq
  | join node =>
    refine ⟨?_, rfl, rfl, ?_⟩
    · simpa [eventsAt] using node.events_eq
    · exact (isOperand_eventsAt _ _).balanced_append_between (isOperand_eventsAt _ _)

/-- There are no other brackets: a start has only one end. -/
theorem spans_of_bracket (h : Bracket root.events before opening inner closing after) :
    Spans root before opening inner closing after := by
  have hmeets := meets h.events_eq
  have hrise := h.opening_rise
  generalize inner ++ closing :: after = rest at hmeets
  cases hmeets with
  | literal | var | endNot | between | endJoin => cases hrise
  | startNot node =>
    obtain ⟨rfl, rfl, rfl⟩ := h.end_unique (Spans.negation node).bracket
    exact .negation node
  | startJoin node =>
    obtain ⟨rfl, rfl, rfl⟩ := h.end_unique (Spans.join node).bracket
    exact .join node

/-- What begins in a walk has an end. -/
theorem exists_bracket_of_opening (h : root.events = before ++ opening :: back)
    (hrise : opening.rise = 1) :
    ∃ inner closing after, Bracket root.events before opening inner closing after := by
  cases meets h with
  | literal | var | endNot | between | endJoin => cases hrise
  | startNot node => exact ⟨_, _, _, (Spans.negation node).bracket⟩
  | startJoin node => exact ⟨_, _, _, (Spans.join node).bracket⟩

/-- What ends in a walk has begun. -/
theorem exists_bracket_of_closing (h : root.events = front ++ closing :: after)
    (hrise : closing.rise = -1) :
    ∃ before opening inner, Bracket root.events before opening inner closing after := by
  cases meets h with
  | literal | var | startNot | between | startJoin => cases hrise
  | endNot node => exact ⟨_, _, _, (Spans.negation node).bracket⟩
  | endJoin node => exact ⟨_, _, _, (Spans.join node).bracket⟩

/-! ### What the arguments tell -/

/-- The walk through a leaf is a single leaf event, and that through an inner node is longer. -/
theorem isLeaf_iff_eventsAt (e : Expr) (place : Place) :
    e.isLeaf = true ↔ ∃ event, event.isLeaf = true ∧ e.eventsAt place = [event] := by
  cases e with
  | literal b => simp [isLeaf, eventsAt, Event.isLeaf]
  | var x => simp [isLeaf, eventsAt, Event.isLeaf]
  | not e => simp [isLeaf, eventsAt]
  | join c a b => simp [isLeaf, eventsAt]

end Expr

/-- The name at a leaf. -/
def Event.name? : Event → Option Name
  | var x => some x
  | literal _ | startNot _ | endNot _ | startJoin .. | between _ | endJoin .. => none

theorem Expr.filterMap_name?_eventsAt (e : Expr) (place : Place) :
    (e.eventsAt place).filterMap Event.name? = e.leaves := by
  induction e generalizing place with
  | literal | var => rfl
  | not e ih => simp [eventsAt, leaves, List.filterMap_cons, Event.name?, ih]
  | join c a b iha ihb => simp [eventsAt, leaves, List.filterMap_cons, Event.name?, iha, ihb]

/-- The brackets of a list of events are in order, and the arguments of its events tell what is
inside a bracket and around it. -/
structure WellNested (events : List Event) : Prop where
  /-- All of it is one operand. -/
  isOperand : IsOperand events
  /-- Each start has exactly one end. -/
  existsUnique_end {before back : List Event} {opening : Event} :
    events = before ++ opening :: back → opening.rise = 1 →
      ∃! inner, ∃ closing after, Bracket events before opening inner closing after
  /-- Each end has exactly one start. -/
  existsUnique_start {front after : List Event} {closing : Event} :
    events = front ++ closing :: after → closing.rise = -1 →
      ∃! inner, ∃ before opening, Bracket events before opening inner closing after
  /-- The two have the same arguments. -/
  isEndedBy {before inner after : List Event} {opening closing : Event} :
    Bracket events before opening inner closing after → opening.IsEndedBy closing
  /-- A bracket that begins inside another one ends inside it. -/
  nested {before front back after inner' after' : List Event}
    {opening closing opening' closing' : Event} :
    Bracket events before opening (front ++ opening' :: back) closing after →
      Bracket events (before ++ opening :: front) opening' inner' closing' after' →
        ∃ behind, back = inner' ++ closing' :: behind
  /-- Inside a negation is one operand, and the flag tells whether it is a leaf. -/
  ofLeaf_iff {before inner after : List Event} {ofLeaf : Bool} {closing : Event} :
    Bracket events before (.startNot ofLeaf) inner closing after →
      IsOperand inner ∧ (ofLeaf = true ↔ ∃ event, event.isLeaf = true ∧ inner = [event])
  /-- Inside a join are two operands with one event between them, which has the connective of the
  join, and no other event between operands is on the same level. -/
  operands {before inner after : List Event} {c : Connective} {place : Place} {closing : Event} :
    Bracket events before (.startJoin c place) inner closing after →
      ∃ left right, inner = left ++ .between c :: right ∧ IsOperand left ∧ IsOperand right ∧
        ∀ left' d right', inner = left' ++ .between d :: right' → level left' = 0 → left' = left
  /-- Each event between operands stands between the operands of a join. -/
  between {front back : List Event} {c : Connective} :
    events = front ++ .between c :: back →
      ∃ before place left right closing after,
        Bracket events before (.startJoin c place) (left ++ .between c :: right) closing after ∧
          front = before ++ .startJoin c place :: left ∧ IsOperand left ∧ IsOperand right
  /-- The place of a join is told by what stands around it. -/
  place_iff {before inner after : List Event} {c : Connective} {place : Place} {closing : Event} :
    Bracket events before (.startJoin c place) inner closing after →
      ∀ place', place = place' ↔ Surrounds place' before after

namespace Expr

theorem wellNested_events (e : Expr) : WellNested e.events where
  isOperand := e.isOperand_eventsAt .root
  existsUnique_end h hrise := by
    obtain ⟨inner, closing, after, hbracket⟩ := exists_bracket_of_opening h hrise
    refine ⟨inner, ⟨closing, after, hbracket⟩, ?_⟩
    rintro inner' ⟨closing', after', hbracket'⟩
    exact (hbracket'.end_unique hbracket).1
  existsUnique_start h hrise := by
    obtain ⟨before, opening, inner, hbracket⟩ := exists_bracket_of_closing h hrise
    refine ⟨inner, ⟨before, opening, hbracket⟩, ?_⟩
    rintro inner' ⟨before', opening', hbracket'⟩
    exact (hbracket'.start_unique hbracket).1
  isEndedBy h := by
    cases spans_of_bracket h with
    | negation => exact .negation _
    | join => exact .join _ _
  nested h h' := h.exists_eq_of_inner h'
  ofLeaf_iff h := by
    cases spans_of_bracket h with
    | negation => exact ⟨isOperand_eventsAt _ _, isLeaf_iff_eventsAt _ _⟩
  operands h := by
    cases spans_of_bracket h with
    | join =>
      exact ⟨_, _, rfl, isOperand_eventsAt _ _, isOperand_eventsAt _ _, fun _ _ _ ↦
        (isOperand_eventsAt _ _).eq_of_append_between (isOperand_eventsAt _ _)⟩
  between h := by
    cases meets h with
    | between node =>
      exact ⟨_, _, _, _, _, _, (Spans.join node).bracket, rfl, isOperand_eventsAt _ _,
        isOperand_eventsAt _ _⟩
  place_iff h := by
    cases spans_of_bracket h with
    | join node =>
      intro place'
      constructor
      · rintro rfl
        exact node.surrounds
      · intro hsurrounds
        rw [node.surrounds.place_eq, hsurrounds.place_eq]

/-- The walk through an expression is well nested, and its arguments tell what is inside a bracket
and around it. The names at its leaves are those of the expression, in the same order, and no two
expressions have the same walk. -/
theorem wellNested_events_and_injective (e : Expr) :
    WellNested e.events ∧ e.events.filterMap Event.name? = e.leaves ∧
      ∀ f : Expr, f.events = e.events → f = e := by
  refine ⟨e.wellNested_events, e.filterMap_name?_eventsAt .root, fun f hf ↦ ?_⟩
  -- the operator-first form is written from the walk alone
  refine operatorFirst_injective ?_
  rw [operatorFirst, operatorFirst, hf]

/-- A negation whose operand is no leaf, at the top; a join as its operand. -/
example (x : Name) : (not (join .and (var x) (literal false))).events =
    [.startNot false, .startJoin .and .negated, .var x, .between .and, .literal false,
      .endJoin .and .negated, .endNot false] :=
  rfl

end Expr

end TruthTable
