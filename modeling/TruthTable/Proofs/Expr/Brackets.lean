import Mathlib.Data.List.Infix
import TruthTable.Expr.Event

/-!
# Brackets in a list of events

A list of events has brackets, whether or not it is the walk through an expression: some events
begin a bracket and some end one. Which end belongs to which start is a matter of counting and not
of what the events say. The *level* of a list is the number of brackets begun less the number of
those ended, and an end belongs to a start if what stands between them is `Balanced`, that is, comes
back to the level where it began and never falls below it.

So an end and a start can belong together without having the same arguments, and a start can be left
without an end. But no start has two ends (`Bracket.end_unique`), no end has two starts
(`Bracket.start_unique`), and a bracket that begins inside another one ends there
(`Bracket.exists_eq_of_inner`), in any list whatever.

A part of the list that is a leaf or a single bracket is an operand. The events that stand between
operands neither begin nor end a bracket, so they are told apart by their level alone: between two
operands there is only one on the level of both (`IsOperand.eq_of_append_between`).
-/

namespace TruthTable

namespace Event

/-- A truth value or a variable. -/
def isLeaf : Event → Bool
  | literal _ | var _ => true
  | startNot _ | endNot _ | startJoin .. | between _ | endJoin .. => false

/-- The number of brackets that an event begins, less the number of those that it ends. -/
def rise : Event → Int
  | startNot _ | startJoin .. => 1
  | endNot _ | endJoin .. => -1
  | literal _ | var _ | between _ => 0

/-- `a.IsEndedBy b`: the event `b` ends what the event `a` begins, and has the same arguments. -/
inductive IsEndedBy : Event → Event → Prop where
  /-- The ends of a negation. -/
  | negation (ofLeaf : Bool) : IsEndedBy (startNot ofLeaf) (endNot ofLeaf)
  /-- The ends of a join. -/
  | join (c : Connective) (place : Place) : IsEndedBy (startJoin c place) (endJoin c place)

theorem rise_of_isLeaf {event : Event} (h : event.isLeaf = true) : event.rise = 0 := by
  cases event with
  | literal | var => rfl
  | startNot | endNot | startJoin | between | endJoin => cases h

end Event

variable {events before front part inner inner' after after' back rest : List Event}
  {event opening opening' closing closing' : Event}

/-! ### Levels -/

/-- The number of brackets that begin in a list of events, less the number of those that end. -/
def level : List Event → Int
  | [] => 0
  | event :: events => event.rise + level events

@[simp] theorem level_nil : level [] = 0 :=
  rfl

@[simp] theorem level_cons (event : Event) (events : List Event) :
    level (event :: events) = event.rise + level events :=
  rfl

@[simp] theorem level_append (front back : List Event) :
    level (front ++ back) = level front + level back := by
  induction front with
  | nil => simp
  | cons event front ih => rw [List.cons_append, level_cons, level_cons, ih, Int.add_assoc]

/-- As many brackets begin as end, and on the way no more have ended than have begun. -/
structure Balanced (events : List Event) : Prop where
  /-- The level at the end is that at the beginning. -/
  level_eq : level events = 0
  /-- It is not fallen below. -/
  nonneg : ∀ front, front <+: events → 0 ≤ level front

namespace Balanced

theorem level_nonneg (h : Balanced events) : 0 ≤ level events :=
  h.nonneg events List.prefix_rfl

/-- From anywhere on, no more brackets begin than end. -/
theorem level_le (h : Balanced events) (hback : back <:+ events) : level back ≤ 0 := by
  obtain ⟨front, rfl⟩ := hback
  have hfront : 0 ≤ level front := h.nonneg front (List.prefix_append front back)
  have hall := h.level_eq
  rw [level_append] at hall
  omega

/-- An event that neither begins nor ends a bracket. -/
theorem singleton (h : event.rise = 0) : Balanced [event] where
  level_eq := by rw [level_cons, h, level_nil, Int.add_zero]
  nonneg := by
    intro front hfront
    rcases List.prefix_cons_iff.1 hfront with rfl | ⟨rest, rfl, hrest⟩
    · exact Int.le_refl 0
    · obtain rfl := List.prefix_nil.1 hrest
      exact Int.le_of_eq (by rw [level_cons, h, level_nil, Int.add_zero])

theorem append (h : Balanced front) (h' : Balanced back) : Balanced (front ++ back) where
  level_eq := by rw [level_append, h.level_eq, h'.level_eq, Int.add_zero]
  nonneg := by
    intro part hpart
    rcases List.prefix_or_prefix_of_prefix hpart (List.prefix_append front back) with
      hfront | ⟨rest, rfl⟩
    · exact h.nonneg part hfront
    · rw [level_append, h.level_eq, Int.zero_add]
      exact h'.nonneg rest ((List.prefix_append_right_inj front).1 hpart)

/-- A bracket is on a higher level from its beginning to its end. -/
theorem level_pos (h : Balanced inner) (hopening : opening.rise = 1)
    (hfront : front <+: opening :: inner) (hne : front ≠ []) : 0 < level front := by
  obtain ⟨part, rfl, hpart⟩ := (List.prefix_cons_iff.1 hfront).resolve_left hne
  have hnonneg := h.nonneg part hpart
  rw [level_cons, hopening]
  omega

/-- A bracket round a list that is balanced. -/
theorem bracket (h : Balanced inner) (hopening : opening.rise = 1) (hclosing : closing.rise = -1) :
    Balanced (opening :: (inner ++ [closing])) where
  level_eq := by
    rw [level_cons, level_append, level_cons, level_nil, h.level_eq, hopening, hclosing]
    rfl
  nonneg := by
    intro front hfront
    rw [← List.cons_append, List.prefix_concat_iff] at hfront
    rcases hfront with rfl | hfront
    · rw [level_append, level_cons, level_cons, level_nil, h.level_eq, hopening, hclosing]
      decide
    · by_cases hne : front = []
      · exact Int.le_of_eq (by rw [hne, level_nil])
      · exact Int.le_of_lt (h.level_pos hopening hfront hne)

/-! ### Ends that belong together -/

/-- No end is passed over. -/
theorem not_prefix (h : Balanced events) (hfront : level front = 0) (hclosing : closing.rise = -1) :
    ¬ front ++ [closing] <+: events := by
  intro hprefix
  have hnonneg := h.nonneg _ hprefix
  rw [level_append, level_cons, level_nil, hfront, hclosing] at hnonneg
  omega

/-- No start is passed over. -/
theorem not_suffix (h : Balanced events) (hback : 0 ≤ level back) (hopening : opening.rise = 1) :
    ¬ opening :: back <:+ events := by
  intro hsuffix
  have hle := h.level_le hsuffix
  rw [level_cons, hopening] at hle
  omega

/-- A start has at most one end. -/
theorem eq_of_append_cons (h : Balanced inner) (h' : Balanced inner') (hclosing : closing.rise = -1)
    (hclosing' : closing'.rise = -1)
    (heq : inner ++ closing :: after = inner' ++ closing' :: after') : inner = inner' := by
  -- if one of them were longer, the end of the other would stand in it
  rcases List.append_eq_append_iff.1 heq with ⟨_ | ⟨event, rest⟩, rfl, hrest⟩ |
    ⟨_ | ⟨event, rest⟩, rfl, hrest⟩
  · exact (List.append_nil inner).symm
  · obtain ⟨rfl, -⟩ := List.cons.inj hrest
    exact absurd ⟨rest, List.append_assoc _ _ _⟩ (h'.not_prefix h.level_eq hclosing)
  · exact List.append_nil inner'
  · obtain ⟨rfl, -⟩ := List.cons.inj hrest
    exact absurd ⟨rest, List.append_assoc _ _ _⟩ (h.not_prefix h'.level_eq hclosing')

/-- An end has at most one start. -/
theorem eq_of_cons_append {before before' : List Event} (h : Balanced inner)
    (h' : Balanced inner') (hopening : opening.rise = 1) (hopening' : opening'.rise = 1)
    (heq : before ++ opening :: inner = before' ++ opening' :: inner') : inner = inner' := by
  rcases List.append_eq_append_iff.1 heq with ⟨_ | ⟨event, rest⟩, rfl, hrest⟩ |
    ⟨_ | ⟨event, rest⟩, rfl, hrest⟩
  · exact (List.cons.inj hrest).2
  · obtain ⟨rfl, rfl⟩ := List.cons.inj hrest
    exact absurd (List.suffix_append rest _) (h.not_suffix h'.level_nonneg hopening')
  · exact (List.cons.inj hrest).2.symm
  · obtain ⟨rfl, rfl⟩ := List.cons.inj hrest
    exact absurd (List.suffix_append rest _) (h'.not_suffix h.level_nonneg hopening)

end Balanced

/-- In the list `events`, the event `opening` begins a bracket, the event `closing` ends one, and
they belong together: what stands between them is balanced. -/
structure Bracket (events before : List Event) (opening : Event) (inner : List Event)
    (closing : Event) (after : List Event) : Prop where
  /-- The bracket stands between `before` and `after`. -/
  events_eq : events = before ++ opening :: (inner ++ closing :: after)
  /-- The first event of the bracket begins one. -/
  opening_rise : opening.rise = 1
  /-- The last event of the bracket ends one. -/
  closing_rise : closing.rise = -1
  /-- What stands between them is balanced. -/
  balanced : Balanced inner

namespace Bracket

variable {before before' : List Event}

/-- A start has at most one end. -/
theorem end_unique (h : Bracket events before opening inner closing after)
    (h' : Bracket events before opening inner' closing' after') :
    inner = inner' ∧ closing = closing' ∧ after = after' := by
  have heq := (List.cons.inj (List.append_cancel_left (h.events_eq.symm.trans h'.events_eq))).2
  obtain rfl := h.balanced.eq_of_append_cons h'.balanced h.closing_rise h'.closing_rise heq
  exact ⟨rfl, List.cons.inj (List.append_cancel_left heq)⟩

/-- An end has at most one start. -/
theorem start_unique (h : Bracket events before opening inner closing after)
    (h' : Bracket events before' opening' inner' closing after) :
    inner = inner' ∧ opening = opening' ∧ before = before' := by
  have heq : (before ++ opening :: inner) ++ closing :: after =
      (before' ++ opening' :: inner') ++ closing :: after := by
    simpa using h.events_eq.symm.trans h'.events_eq
  have hfront := List.append_cancel_right heq
  obtain rfl := h.balanced.eq_of_cons_append h'.balanced h.opening_rise h'.opening_rise hfront
  obtain ⟨hbefore, hopening⟩ := List.append_inj' hfront rfl
  exact ⟨rfl, (List.cons.inj hopening).1, hbefore⟩

/-- A bracket that begins inside another one ends inside it. -/
theorem exists_eq_of_inner
    (h : Bracket events before opening (front ++ opening' :: rest) closing after)
    (h' : Bracket events (before ++ opening :: front) opening' inner' closing' after') :
    ∃ behind, rest = inner' ++ closing' :: behind := by
  have heq : rest ++ closing :: after = inner' ++ closing' :: after' := by
    simpa using h.events_eq.symm.trans h'.events_eq
  -- the start of the inner bracket is made up for in `rest`, so the inner bracket can not outlast it
  have hrest : ¬ 0 ≤ level rest := fun hlevel ↦
    h.balanced.not_suffix hlevel h'.opening_rise (List.suffix_append front _)
  rcases List.append_eq_append_iff.1 heq with ⟨more, rfl, -⟩ | ⟨_ | ⟨event, behind⟩, rfl, hmore⟩
  · exact absurd (h'.balanced.nonneg rest (List.prefix_append rest more)) hrest
  · rw [List.append_nil] at hrest
    exact absurd h'.balanced.level_nonneg hrest
  · obtain ⟨rfl, -⟩ := List.cons.inj hmore
    exact ⟨behind, rfl⟩

end Bracket

/-! ### Operands -/

/-- A part of a list of events that is one operand: a leaf, or a bracket from end to end. -/
inductive IsOperand : List Event → Prop where
  /-- A leaf. -/
  | leaf {event : Event} (isLeaf : event.isLeaf = true) : IsOperand [event]
  /-- A bracket. -/
  | bracket {opening closing : Event} {inner : List Event} (opening_rise : opening.rise = 1)
    (closing_rise : closing.rise = -1) (balanced : Balanced inner) :
    IsOperand (opening :: (inner ++ [closing]))

namespace IsOperand

variable {c d : Connective} {left left' right right' : List Event}

theorem balanced (h : IsOperand part) : Balanced part := by
  cases h with
  | leaf isLeaf => exact .singleton (Event.rise_of_isLeaf isLeaf)
  | bracket opening_rise closing_rise balanced => exact balanced.bracket opening_rise closing_rise

/-- Two operands and what stands between them. -/
theorem balanced_append_between (h : IsOperand left) (h' : IsOperand right) :
    Balanced (left ++ .between c :: right) :=
  h.balanced.append ((Balanced.singleton rfl).append h'.balanced)

/-- An event between operands that stands in an operand is not on the level of that operand. -/
theorem level_pos (h : IsOperand part) (hfront : front ++ [.between c] <+: part) :
    0 < level front := by
  have hrise : (Event.between c).rise = 0 := rfl
  cases h with
  | leaf isLeaf =>
    rcases front with - | ⟨event, front⟩
    · obtain ⟨rfl, -⟩ := List.cons_prefix_cons.1 hfront
      cases isLeaf
    · simpa using (List.cons_prefix_cons.1 hfront).2
  | bracket opening_rise closing_rise balanced =>
    rw [← List.cons_append, List.prefix_concat_iff] at hfront
    rcases hfront with hall | hfront
    -- the event would be the last of the bracket, which ends it
    · obtain ⟨-, hlast⟩ := List.append_inj' hall rfl
      rw [← List.singleton_inj.1 hlast] at closing_rise
      cases closing_rise
    · have hne : front ++ [.between c] ≠ [] := List.append_ne_nil_of_right_ne_nil _ (by simp)
      have hpos := balanced.level_pos opening_rise hfront hne
      rw [level_append, level_cons, hrise, level_nil] at hpos
      omega

/-- Of the events between operands, only one stands on the level of the two operands. -/
theorem eq_of_append_between (h : IsOperand left) (h' : IsOperand right)
    (heq : left ++ .between c :: right = left' ++ .between d :: right') (hlevel : level left' = 0) :
    left' = left := by
  rcases List.append_eq_append_iff.1 heq with ⟨_ | ⟨event, rest⟩, rfl, hrest⟩ |
    ⟨_ | ⟨event, rest⟩, rfl, hrest⟩
  · exact List.append_nil left
  -- the other event would stand in the right operand
  · obtain ⟨rfl, rfl⟩ := List.cons.inj hrest
    have hrise : (Event.between c).rise = 0 := rfl
    have hpos : 0 < level rest := h'.level_pos ⟨right', List.append_assoc _ _ _⟩
    rw [level_append, level_cons, h.balanced.level_eq, hrise] at hlevel
    omega
  · exact (List.append_nil left').symm
  -- it would stand in the left operand
  · obtain ⟨rfl, -⟩ := List.cons.inj hrest
    have hpos : 0 < level left' := h.level_pos ⟨rest, List.append_assoc _ _ _⟩
    omega

end IsOperand

end TruthTable
