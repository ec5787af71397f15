import TruthTable.Expr.Basic

/-!
# The value of an expression

`value` is the meaning of an expression: its truth value when every variable has one. `eval` is how
a value is found when some variables may have none. It goes from left to right and does not look at
the right operand of a join whose left operand settles the matter, so a variable without a value
does harm only where it is reached.

The two are tied by the absorbing value of a connective: a join has the value of its left operand if
that is absorbing, and of its right operand otherwise (`Connective.apply_eq`). Hence skipping never
changes a value, it only saves a look-up.
-/

namespace TruthTable

/-- The value of one operand that settles a join, whatever the other is. -/
def Connective.absorbing : Connective → Bool
  | .and => false
  | .or => true

theorem Connective.apply_eq (c : Connective) (a b : Bool) :
    c.apply a b = if a = c.absorbing then a else b := by
  cases c <;> cases a <;> cases b <;> rfl

namespace Expr

/-- The truth value of an expression whose variables have the values `v`. -/
def value (v : Name → Bool) : Expr → Bool
  | literal b => b
  | var x => v x
  | not e => !e.value v
  | join c a b => c.apply (a.value v) (b.value v)

/-- The meaning depends on the variables at the leaves and on nothing else. -/
theorem value_congr {v w : Name → Bool} {e : Expr} (h : ∀ x ∈ e.leaves, v x = w x) :
    e.value v = e.value w := by
  induction e with
  | literal b => rfl
  | var x => exact h x (by simp [leaves])
  | not e ih => rw [value, value, ih h]
  | join c a b iha ihb =>
    have ha := iha fun x hx ↦ h x (by simp [leaves, hx])
    have hb := ihb fun x hx ↦ h x (by simp [leaves, hx])
    rw [value, value, ha, hb]

/-- The truth value found from left to right, or the first variable met that has no value. -/
def eval (lookup : Name → Option Bool) : Expr → Except Name Bool
  | literal b => .ok b
  | var x =>
    match lookup x with
    | some b => .ok b
    | none => .error x
  | not e => do
    let b ← e.eval lookup
    return !b
  | join c a b => do
    let u ← a.eval lookup
    if u = c.absorbing then return u else b.eval lookup

/-- Where every variable of an expression has a value, going from left to right finds the meaning. -/
theorem eval_eq_ok_value {lookup : Name → Option Bool} {v : Name → Bool} {e : Expr}
    (h : ∀ x ∈ e.leaves, lookup x = some (v x)) : e.eval lookup = .ok (e.value v) := by
  induction e with
  | literal b => rfl
  | var x => simp only [eval, value, h x (by simp [leaves])]
  | not e ih =>
    rw [eval, ih h]
    rfl
  | join c a b iha ihb =>
    have ha := iha fun x hx ↦ h x (by simp [leaves, hx])
    have hb := ihb fun x hx ↦ h x (by simp [leaves, hx])
    show (a.eval lookup >>= fun u ↦ if u = c.absorbing then pure u else b.eval lookup) = _
    rw [ha, hb, value, c.apply_eq]
    show (if _ then _ else _) = _
    split <;> rfl

end Expr

end TruthTable
