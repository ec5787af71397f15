import Mathlib.Data.List.Basic
import TruthTable.Proofs.Inputs.Undeclared

/-!
# Evaluation when more inputs are declared

Evaluation goes from left to right and skips what can not matter, so an expression may have a value
under an assignment that does not declare all of its variables. Such a value is not provisional.
When more inputs are declared, in whatever order, and the inputs that were there keep their values,
the variables that were looked up have the values that they had, the same operands are skipped, and
the value is the same.

A failure lasts as long as its cause. Evaluation stops at the first variable it meets that is not
declared; until this variable is declared, it is met again, and everything in front of it is as it
was. Both follow from one statement about look-ups (`Expr.eval_eq_of_refines`): a look-up that knows
more gives the same result, unless it knows the very variable that was missing.
-/

namespace TruthTable

/-! ### Look-ups that know more -/

namespace Expr

variable {lookup more : Name → Option Bool} {e : Expr} {x : Name}

theorem eval_not (lookup : Name → Option Bool) (e : Expr) :
    (not e).eval lookup = (e.eval lookup).map (!·) := by
  rw [eval]
  rcases e.eval lookup with x | u <;> rfl

/-- The right operand of a join is evaluated if the left one has a value that does not settle it. -/
theorem eval_join (lookup : Name → Option Bool) (c : Connective) (a b : Expr) :
    (join c a b).eval lookup = match a.eval lookup with
      | .ok u => if u = c.absorbing then .ok u else b.eval lookup
      | .error x => .error x := by
  rw [eval]
  rcases a.eval lookup with x | u <;> rfl

/-- What is missing when evaluation fails is the variable of a leaf, and it has no value. -/
theorem mem_leaves_of_eval_eq_error (h : e.eval lookup = .error x) :
    x ∈ e.leaves ∧ lookup x = none := by
  induction e with
  | literal b => cases h
  | var y =>
    rw [eval] at h
    split at h
    · cases h
    · rename_i hy
      obtain rfl : y = x := Except.error.inj h
      exact ⟨List.mem_singleton_self y, hy⟩
  | not e ih =>
    rw [eval_not] at h
    rcases he : e.eval lookup with y | u
    · rw [he] at h
      obtain rfl : y = x := Except.error.inj h
      exact ih he
    · rw [he] at h
      cases h
  | join c a b iha ihb =>
    rw [eval_join] at h
    rcases ha : a.eval lookup with y | u
    · simp only [ha] at h
      obtain rfl : y = x := Except.error.inj h
      obtain ⟨hmem, hnone⟩ := iha ha
      exact ⟨List.mem_append_left _ hmem, hnone⟩
    · simp only [ha] at h
      split at h
      · cases h
      · obtain ⟨hmem, hnone⟩ := ihb h
        exact ⟨List.mem_append_right _ hmem, hnone⟩

/-- A look-up that knows more gives the same result, unless it knows the variable that was missing.
The path through the tree is the same: what is looked up on it has the value that it had. -/
theorem eval_eq_of_refines (hmore : ∀ y u, lookup y = some u → more y = some u)
    (hmissing : ∀ y, e.eval lookup = .error y → more y = none) : e.eval more = e.eval lookup := by
  induction e with
  | literal b => rfl
  | var y =>
    rcases hy : lookup y with - | u
    · have hnone : more y = none := hmissing y (by rw [eval, hy])
      rw [eval, eval, hy, hnone]
    · rw [eval, eval, hy, hmore y u hy]
  | not e ih =>
    have he := ih fun y hy ↦ hmissing y (by rw [eval_not, hy]; rfl)
    rw [eval_not, eval_not, he]
  | join c a b iha ihb =>
    have ha := iha fun y hy ↦ hmissing y (by rw [eval_join, hy])
    rw [eval_join, eval_join, ha]
    rcases hu : a.eval lookup with y | u
    · rfl
    · by_cases hsettled : u = c.absorbing
      · simp only [if_pos hsettled]
      · -- the right operand is evaluated both times, and what it misses the join misses
        have hb := ihb fun y hy ↦ hmissing y (by rw [eval_join, hu, ← hy]; exact if_neg hsettled)
        simp only [if_neg hsettled, hb]

end Expr

/-! ### Rules -/

variable {a more : Assignment} {r : Rule} {x : Name}

theorem Rule.eval_eq_ok_iff {u : Bool} :
    r.eval a = .ok u ↔ r.toExpr.eval (fun x ↦ a.get? x.text) = .ok u := by
  rw [eval]
  split
  · rename_i v hv
    rw [hv, Except.ok.injEq, Except.ok.injEq]
  · rename_i x hx
    rw [hx]
    exact iff_of_false (fun h ↦ by cases h) (fun h ↦ by cases h)

/-- The fault names the variable that was missing, and shows the whole rule. -/
theorem Rule.eval_eq_error_iff {fault : Fault} :
    r.eval a = .error fault ↔
      ∃ x, r.toExpr.eval (fun x ↦ a.get? x.text) = .error x ∧
        fault = .undeclared x.text r.text := by
  rw [eval]
  split
  · rename_i u hu
    rw [hu]
    exact iff_of_false (fun h ↦ by cases h) (fun ⟨_, h, _⟩ ↦ by cases h)
  · rename_i x hx
    rw [hx]
    constructor
    · intro h
      exact ⟨x, rfl, (Except.error.inj h).symm⟩
    · rintro ⟨y, hy, rfl⟩
      rw [Except.error.inj hy]

namespace Assignment

/-- A name has no value exactly if it is not declared. -/
theorem get?_text_eq_none_iff : a.get? x.text = none ↔ x ∉ a.inputs.names := by
  rw [get?, Option.map_eq_none_iff, ← Option.not_isSome_iff_eq_none, ← Inputs.contains_text_iff]
  rfl

/-- The assignment `more` declares all inputs of `a`, in any order and with any others among them,
and gives them the same values. -/
structure Extends (more a : Assignment) : Prop where
  /-- The inputs are declared. -/
  declares : ∀ x ∈ a.inputs.names, x ∈ more.inputs.names
  /-- They have the same values. -/
  get?_eq : ∀ x ∈ a.inputs.names, more.get? x.text = a.get? x.text

/-- What has a value has the same value in an extension. -/
theorem Extends.get?_eq_some (h : more.Extends a) {u : Bool} (hx : a.get? x.text = some u) :
    more.get? x.text = some u := by
  by_cases hdeclared : x ∈ a.inputs.names
  · rw [h.get?_eq x hdeclared, hx]
  · rw [get?_text_eq_none_iff.2 hdeclared] at hx
    cases hx

end Assignment

/-- An expression that has a value keeps it when more inputs are declared. One that fails does so
because of a variable that is not declared, shows itself in the fault, and fails in the same way as
long as this variable is not declared. -/
theorem Rule.eval_of_extends (h : more.Extends a) (e : Expr) :
    (∀ u, (e : Rule).eval a = .ok u → (e : Rule).eval more = .ok u) ∧
      ∀ fault, (e : Rule).eval a = .error fault →
        ∃ x ∈ e.leaves, x ∉ a.inputs.names ∧ fault = .undeclared x.text e.text ∧
          (x ∉ more.inputs.names → (e : Rule).eval more = .error fault) := by
  have hmore (y : Name) (u : Bool) : a.get? y.text = some u → more.get? y.text = some u :=
    h.get?_eq_some
  constructor
  · intro u hu
    rw [eval_eq_ok_iff] at hu ⊢
    have hsame := Expr.eval_eq_of_refines hmore fun y hy ↦ by
      rw [hu] at hy
      cases hy
    exact hsame.trans hu
  · intro fault hfault
    obtain ⟨x, hx, rfl⟩ := eval_eq_error_iff.1 hfault
    obtain ⟨hmem, hnone⟩ := Expr.mem_leaves_of_eval_eq_error hx
    refine ⟨x, hmem, Assignment.get?_text_eq_none_iff.1 hnone, rfl, fun hundeclared ↦ ?_⟩
    have hsame := Expr.eval_eq_of_refines hmore fun y hy ↦ by
      rw [hx] at hy
      rw [← Except.error.inj hy]
      exact Assignment.get?_text_eq_none_iff.2 hundeclared
    exact eval_eq_error_iff.2 ⟨x, hsame.trans hx, rfl⟩

/-- With `x` false and nothing else declared, `x & y` is false, and `x | y` fails for want of `y`.
The former stays false when `y` is declared in front of `x`; the latter fails again when `z` is. -/
theorem Rule.eval_of_extends_in_front :
    let x : Name := ⟨"x", by decide⟩
    let y : Name := ⟨"y", by decide⟩
    let z : Name := ⟨"z", by decide⟩
    let yx := (Inputs.empty.push y (by decide +kernel)).push x (by decide +kernel)
    let zx := (Inputs.empty.push z (by decide +kernel)).push x (by decide +kernel)
    let a := Assignment.ofRow (Inputs.empty.push x (by decide +kernel)) 0
    let both : Expr := .join .and (.var x) (.var y)
    let either : Expr := .join .or (.var x) (.var y)
    let fault : Fault := .undeclared "y" "x | y"
    ((Assignment.ofRow yx 2).Extends a ∧ (both : Rule).eval a = .ok false ∧
        (both : Rule).eval (.ofRow yx 2) = .ok false) ∧
      (Assignment.ofRow zx 2).Extends a ∧ (either : Rule).eval a = .error fault ∧
        (either : Rule).eval (.ofRow zx 2) = .error fault := by
  intro x y z yx zx a both either fault
  have hyx : (Assignment.ofRow yx 2).Extends a := ⟨by decide +kernel, by decide +kernel⟩
  have hzx : (Assignment.ofRow zx 2).Extends a := ⟨by decide +kernel, by decide +kernel⟩
  have hboth : (both : Rule).eval a = .ok false := by decide +kernel
  have heither : (either : Rule).eval a = .error fault := by decide +kernel
  obtain ⟨v, -, -, hfault, hstill⟩ := (eval_of_extends hzx either).2 fault heither
  obtain rfl : y = v := Name.ext (Fault.undeclared.inj hfault).1
  exact ⟨⟨hyx, hboth, (eval_of_extends hyx both).1 false hboth⟩, hzx, heither,
    hstill (by decide +kernel)⟩

end TruthTable
