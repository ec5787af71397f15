import TruthTable.Expr.Spelling
import TruthTable.Text.Bits

/-!
# The operator-first form is unambiguous

The operator-first form is read in one way only. An inner node shows itself by an opening
parenthesis, the sign behind it tells which node it is, and what follows are its operands, one
behind the other. A leaf has neither a parenthesis nor a sign that would end it: the text of `r` is
an initial part of that of `r_1`. It ends where a character follows that can not stand in a leaf,
and behind an operand there is always one of two such characters, the space or the closing
parenthesis (`EndsOperand`).

So the statement that goes through the induction on the tree is about a form with something behind
it, and finds the tree and the rest together (`Expr.eq_of_operatorFirst_append`). Equal forms,
initial parts of forms and operands inside a form are all cases of it.
-/

namespace TruthTable

/-- What may stand behind an operand of the operator-first form: nothing, or a text that begins with
a space or a closing parenthesis. -/
def EndsOperand (rest : List Char) : Prop :=
  ∀ c ∈ rest.head?, c = ' ' ∨ c = ')'

namespace EndsOperand

variable {word rest : List Char}

theorem nil : EndsOperand [] := by
  rintro c ⟨⟩

theorem space : EndsOperand (' ' :: rest) := by
  rintro c ⟨⟩
  exact .inl rfl

theorem closing : EndsOperand (')' :: rest) := by
  rintro c ⟨⟩
  exact .inr rfl

/-- A leaf ends there. -/
theorem takeWhile_append (h : EndsOperand rest) (hword : ∀ c ∈ word, Name.isContinue c = true) :
    (word ++ rest).takeWhile Name.isContinue = word := by
  have hrest : rest.takeWhile Name.isContinue = [] := by
    rcases rest with - | ⟨c, rest⟩
    · rfl
    · obtain rfl | rfl := h c rfl
      · exact List.takeWhile_cons_of_neg (by decide +kernel)
      · exact List.takeWhile_cons_of_neg (by decide +kernel)
  rw [List.takeWhile_append_of_pos hword, hrest, List.append_nil]

end EndsOperand

namespace Expr

variable {e e₁ e₂ : Expr} {r₁ r₂ : List Char}

/-! ### The characters of the form, by the shape of the tree -/

/-- The form does not depend on the place of the expression. -/
theorem flatMap_writeFirst_eventsAt (place : Place) (e : Expr) :
    ((e.eventsAt place).flatMap fun event ↦ event.writeFirst.toList) = e.operatorFirst.toList := by
  rw [toList_operatorFirst]
  cases e with
  | literal | var | not => rfl
  | join => simp only [events, eventsAt, List.flatMap_cons, List.flatMap_append, Event.writeFirst]

@[simp] theorem toList_operatorFirst_literal (b : Bool) :
    (literal b).operatorFirst.toList = [Text.bit b] := by
  cases b <;> rfl

@[simp] theorem toList_operatorFirst_var (x : Name) :
    (var x).operatorFirst.toList = x.text.toList := by
  rw [toList_operatorFirst]
  exact List.append_nil _

@[simp] theorem toList_operatorFirst_not (e : Expr) :
    e.not.operatorFirst.toList = '(' :: '!' :: ' ' :: (e.operatorFirst.toList ++ [')']) := by
  rw [toList_operatorFirst, events, eventsAt, List.flatMap_cons, List.flatMap_append,
    flatMap_writeFirst_eventsAt]
  simp [Event.writeFirst]

@[simp] theorem toList_operatorFirst_join (c : Connective) (a b : Expr) :
    (join c a b).operatorFirst.toList =
      '(' :: ((Spelling.logical.sign c).toList ++
        ' ' :: (a.operatorFirst.toList ++ ' ' :: (b.operatorFirst.toList ++ [')']))) := by
  rw [toList_operatorFirst, events, eventsAt, List.flatMap_cons, List.flatMap_append,
    List.flatMap_cons, List.flatMap_append, flatMap_writeFirst_eventsAt,
    flatMap_writeFirst_eventsAt]
  simp [Event.writeFirst]

/-! ### Leaves -/

/-- A leaf is written in characters of names. -/
theorem isContinue_of_isLeaf (h : e.isLeaf = true) :
    ∀ c ∈ e.operatorFirst.toList, Name.isContinue c = true := by
  intro c hc
  cases e with
  | literal b =>
    rw [toList_operatorFirst_literal, List.mem_singleton] at hc
    obtain rfl := hc
    cases b <;> decide +kernel
  | var x =>
    rw [toList_operatorFirst_var] at hc
    exact Name.isContinue_of_mem hc
  | not | join => cases h

/-- No name is written as a truth value is. -/
theorem toList_text_ne_bit (x : Name) (b : Bool) : x.text.toList ≠ [Text.bit b] := by
  intro hx
  obtain ⟨c, cs, hcons, hstart, -⟩ := x.exists_toList_eq_cons
  obtain ⟨rfl, -⟩ := List.cons.inj (hcons.symm.trans hx)
  have hdigit : (Text.bit b).isDigit = true := by cases b <;> rfl
  rw [Name.isStart_of_isDigit hdigit] at hstart
  cases hstart

/-- Leaves that are written alike are equal. -/
theorem eq_of_isLeaf (h₁ : e₁.isLeaf = true) (h₂ : e₂.isLeaf = true)
    (h : e₁.operatorFirst.toList = e₂.operatorFirst.toList) : e₁ = e₂ := by
  rcases e₁ with a | x | e | ⟨c, f, g⟩
  case not | join => cases h₁
  all_goals
    rcases e₂ with b | y | e | ⟨c, f, g⟩
    case not | join => cases h₂
    all_goals simp only [toList_operatorFirst_literal, toList_operatorFirst_var] at h
  · rw [Text.bit_injective (List.singleton_inj.1 h)]
  · exact absurd h.symm (toList_text_ne_bit y a)
  · exact absurd h (toList_text_ne_bit x b)
  · rw [Name.ext (String.toList_inj.1 h)]

/-- An inner node does not begin with a character of names. -/
theorem takeWhile_of_not_isLeaf (h : e.isLeaf = false) (rest : List Char) :
    (e.operatorFirst.toList ++ rest).takeWhile Name.isContinue = [] := by
  have hopening : ¬ Name.isContinue '(' = true := by decide +kernel
  cases e with
  | literal | var => cases h
  | not e =>
    rw [toList_operatorFirst_not]
    exact List.takeWhile_cons_of_neg hopening
  | join c a b =>
    rw [toList_operatorFirst_join]
    exact List.takeWhile_cons_of_neg hopening

theorem toList_operatorFirst_ne_nil (e : Expr) : e.operatorFirst.toList ≠ [] := by
  cases e with
  | var x =>
    obtain ⟨c, cs, hx, -⟩ := x.exists_toList_eq_cons
    rw [toList_operatorFirst_var, hx]
    exact List.cons_ne_nil c cs
  | literal | not | join => simp

/-! ### Forms with something behind them -/

/-- A leaf is as much of a text as has characters of names. -/
theorem eq_of_isLeaf_of_append (hleaf : e₁.isLeaf = true) (h₁ : EndsOperand r₁)
    (h₂ : EndsOperand r₂) (h : e₁.operatorFirst.toList ++ r₁ = e₂.operatorFirst.toList ++ r₂) :
    e₁ = e₂ ∧ r₁ = r₂ := by
  have htake : e₁.operatorFirst.toList =
      (e₂.operatorFirst.toList ++ r₂).takeWhile Name.isContinue := by
    rw [← h, h₁.takeWhile_append (isContinue_of_isLeaf hleaf)]
  rcases hother : e₂.isLeaf with - | -
  · rw [takeWhile_of_not_isLeaf hother] at htake
    exact absurd htake e₁.toList_operatorFirst_ne_nil
  · rw [h₂.takeWhile_append (isContinue_of_isLeaf hother)] at htake
    obtain rfl := eq_of_isLeaf hleaf hother htake
    exact ⟨rfl, List.append_cancel_left h⟩

/-- A form with something behind it falls into these two in one way only. -/
theorem eq_of_operatorFirst_append (h₁ : EndsOperand r₁) (h₂ : EndsOperand r₂)
    (h : e₁.operatorFirst.toList ++ r₁ = e₂.operatorFirst.toList ++ r₂) : e₁ = e₂ ∧ r₁ = r₂ := by
  induction e₁ generalizing e₂ r₁ r₂ with
  | literal | var => exact eq_of_isLeaf_of_append rfl h₁ h₂ h
  | not e ih =>
    cases e₂ with
    | literal | var => exact (eq_of_isLeaf_of_append rfl h₂ h₁ h.symm).imp Eq.symm Eq.symm
    | not f =>
      simp only [toList_operatorFirst_not, List.cons_append, List.append_assoc, List.nil_append,
        List.cons.injEq, true_and] at h
      obtain ⟨rfl, hrest⟩ := ih .closing .closing h
      exact ⟨rfl, (List.cons.inj hrest).2⟩
    | join c a b => cases c <;> simp [Spelling.sign, Spelling.logical] at h
  | join c a b iha ihb =>
    cases e₂ with
    | literal | var => exact (eq_of_isLeaf_of_append rfl h₂ h₁ h.symm).imp Eq.symm Eq.symm
    | not f => cases c <;> simp [Spelling.sign, Spelling.logical] at h
    | join d f g =>
      obtain rfl : c = d := by
        cases c <;> cases d <;> simp [Spelling.sign, Spelling.logical] at h ⊢
      simp only [toList_operatorFirst_join, List.cons_append, List.append_assoc, List.nil_append,
        List.cons.injEq, true_and, List.append_cancel_left_eq] at h
      obtain ⟨rfl, hright⟩ := iha .space .space h
      obtain ⟨rfl, hrest⟩ := ihb .closing .closing (List.cons.inj hright).2
      exact ⟨rfl, (List.cons.inj hrest).2⟩

theorem operatorFirst_injective : Function.Injective operatorFirst := by
  intro e₁ e₂ h
  have happend : e₁.operatorFirst.toList ++ [] = e₂.operatorFirst.toList ++ [] := by rw [h]
  exact (eq_of_operatorFirst_append .nil .nil happend).1

/-- Two expressions with the same operator-first form are equal. If the form of one of them is a
proper initial part of the form of the other, neither a space nor a closing parenthesis follows
there. So in any text with an operand at its beginning, behind which there is nothing, a space or a
closing parenthesis, that operand is the only one. -/
theorem operatorFirst_unambiguous (e₁ e₂ : Expr) :
    (e₁.operatorFirst = e₂.operatorFirst → e₁ = e₂) ∧
      (∀ c rest, e₂.operatorFirst.toList = e₁.operatorFirst.toList ++ c :: rest →
        c ≠ ' ' ∧ c ≠ ')') ∧
      ∀ r₁ r₂, EndsOperand r₁ → EndsOperand r₂ →
        e₁.operatorFirst.toList ++ r₁ = e₂.operatorFirst.toList ++ r₂ → e₁ = e₂ ∧ r₁ = r₂ := by
  -- an initial part is a form with something behind it, and so is a form with nothing behind it
  have hpart {c : Char} {rest : List Char} (hc : EndsOperand (c :: rest)) :
      e₂.operatorFirst.toList ≠ e₁.operatorFirst.toList ++ c :: rest := by
    intro h
    obtain ⟨-, hnil⟩ := eq_of_operatorFirst_append .nil hc ((List.append_nil _).trans h)
    cases hnil
  refine ⟨fun h ↦ operatorFirst_injective h, fun c rest h ↦ ⟨?_, ?_⟩,
    fun r₁ r₂ h₁ h₂ h ↦ eq_of_operatorFirst_append h₁ h₂ h⟩
  · rintro rfl
    exact hpart .space h
  · rintro rfl
    exact hpart .closing h

/-- One name is an initial part of another, and in front of it as an operand it is still found. -/
theorem operatorFirst_unambiguous_names :
    let r : Expr := .var ⟨"r", by decide +kernel⟩
    let s : Expr := .var ⟨"r_1", by decide +kernel⟩
    (s.operatorFirst.toList = r.operatorFirst.toList ++ '_' :: ['1'] ∧ '_' ≠ ' ' ∧ '_' ≠ ')') ∧
      (join .and r s).operatorFirst = "(& r r_1)" ∧
        ∀ e rest, EndsOperand rest → e.operatorFirst.toList ++ rest = "r r_1)".toList →
          e = r ∧ rest = " r_1)".toList := by
  intro r s
  have hpart : s.operatorFirst.toList = r.operatorFirst.toList ++ '_' :: ['1'] := by
    decide +kernel
  have htext : r.operatorFirst.toList ++ " r_1)".toList = "r r_1)".toList := by decide +kernel
  refine ⟨⟨hpart, (operatorFirst_unambiguous r s).2.1 '_' ['1'] hpart⟩, by decide +kernel, ?_⟩
  intro e rest hrest h
  exact (operatorFirst_unambiguous e r).2.2 rest _ hrest .space (h.trans htext.symm)

end Expr

end TruthTable
