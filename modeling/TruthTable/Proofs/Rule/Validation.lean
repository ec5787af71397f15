import TruthTable.Proofs.Expr.RoundTrip
import TruthTable.Proofs.Rule.Stability

/-!
# Checking a rule before it is evaluated

A rule is checked once, without an assignment, and evaluated under many assignments. The check looks
at every leaf; evaluation goes from left to right and leaves out what can not matter. Between the
two stands a third way to go through the tree, `Expr.evalEager`, which evaluates both operands of
every join and then applies the connective.

* The check is eager evaluation without a value. Under every assignment of the inputs, eager
  evaluation fails with the fault that the check reports, and has a value if there is no such fault
  (`Rule.evalEager_eq_check`). That is why the check needs no assignment.
* What eager evaluation finds, evaluation finds too (`Rule.eval_eq_of_evalEager`), since an operand
  is only left out if it does not change the value.

So after a check that succeeds no evaluation fails (`Inputs.foresees_eval`). The converse does not hold:
a variable that is always left out fails the check and no evaluation.
-/

namespace TruthTable

/-! ### Evaluating both operands -/

namespace Expr

variable {lookup : Name → Option Bool} {e : Expr}

/-- The truth value found by evaluating both operands of every join, or the first variable from the
left that has no value. -/
def evalEager (lookup : Name → Option Bool) : Expr → Except Name Bool
  | literal b => .ok b
  | var x =>
    match lookup x with
    | some b => .ok b
    | none => .error x
  | not e => (e.evalEager lookup).map (!·)
  | join c a b => do
    let u ← a.evalEager lookup
    let w ← b.evalEager lookup
    return c.apply u w

/-- Eager evaluation fails at the first leaf without a value, and otherwise finds the meaning. -/
theorem evalEager_eq (lookup : Name → Option Bool) (e : Expr) :
    e.evalEager lookup =
      match e.leaves.find? fun x ↦ (lookup x).isNone with
      | some x => .error x
      | none => .ok (e.value fun x ↦ (lookup x).getD false) := by
  induction e with
  | literal b => rfl
  | var x =>
    rcases h : lookup x with - | u
    · simp [evalEager, leaves, h]
    · simp [evalEager, leaves, value, h]
  | not e ih =>
    rw [evalEager, ih]
    show _ = match e.leaves.find? _ with | some x => _ | none => _
    rcases e.leaves.find? _ with - | x
    · rfl
    · rfl
  | join c a b iha ihb =>
    rw [evalEager, iha, ihb]
    show _ = match (a.leaves ++ b.leaves).find? _ with | some x => _ | none => _
    rw [List.find?_append]
    rcases a.leaves.find? _ with - | x
    · rcases b.leaves.find? _ with - | y
      · rfl
      · rfl
    · rfl

/-- What is found by evaluating everything is found from left to right. -/
theorem eval_eq_of_evalEager {u : Bool} (h : e.evalEager lookup = .ok u) :
    e.eval lookup = .ok u := by
  rw [evalEager_eq] at h
  split at h
  · cases h
  · next hnone =>
    rw [← Except.ok.inj h]
    refine eval_eq_ok_value fun x hx ↦ ?_
    have hsome : lookup x ≠ none := by simpa using List.find?_eq_none.1 hnone x hx
    obtain ⟨w, hw⟩ := Option.ne_none_iff_exists'.1 hsome
    rw [hw, Option.getD_some]

end Expr

namespace Rule

variable {r : Rule} {a : Assignment} {fault : Fault}

/-- The value of a rule under an assignment if all its operands are evaluated, or the fault that a
variable is not declared. -/
def evalEager (r : Rule) (a : Assignment) : Except Fault Bool :=
  match r.toExpr.evalEager fun x ↦ a.get? x.text with
  | .ok b => .ok b
  | .error x => .error (.undeclared x.text r.text)

/-- Eager evaluation gives the fault of the check, whatever the values are, and the meaning of the
rule if there is none. -/
theorem evalEager_eq_check (r : Rule) (a : Assignment) :
    r.evalEager a =
      (a.inputs.check r).map fun _ ↦ r.toExpr.value fun x ↦ (a.get? x.text).getD false := by
  -- a variable has no value under an assignment exactly if it is not declared
  have hfirst : (r.toExpr.leaves.find? fun x ↦ (a.get? x.text).isNone) =
      a.inputs.firstUndeclared? r := by
    rw [Inputs.firstUndeclared?_eq_find?, Rule.leaves]
    congr 1
    funext x
    show ((a.inputs.position? x.text).map a.valueAt).isNone = !(a.inputs.position? x.text).isSome
    rw [Option.isNone_map, Option.not_isSome]
  rw [evalEager, Expr.evalEager_eq, hfirst, Inputs.check]
  rcases a.inputs.firstUndeclared? r with - | x
  · rfl
  · rfl

/-- Where eager evaluation has a value, evaluation has the same one. -/
theorem eval_eq_of_evalEager {u : Bool} (h : r.evalEager a = .ok u) : r.eval a = .ok u := by
  rw [evalEager] at h
  split at h
  · next w hw =>
    rw [← Except.ok.inj h]
    exact eval_eq_ok_iff.2 (Expr.eval_eq_of_evalEager hw)
  · cases h

/-- The infix form of a rule, which its faults show, is read back as the tree of the rule. -/
theorem parse_text_eq (r : Rule) : Expr.parse r.text = .ok r.toExpr :=
  Expr.parse_textWith Spelling.readable_logical r.toExpr

end Rule

namespace Inputs

variable {inputs : Inputs} {r : Rule} {a : Assignment}

/-- Evaluation after a check that succeeds finds what eager evaluation finds. -/
theorem exists_eval_of_check (h : a.inputs.check r = .ok ()) :
    ∃ u, r.eval a = .ok u ∧ r.evalEager a = .ok u := by
  have heager := r.evalEager_eq_check a
  rw [h] at heager
  exact ⟨_, Rule.eval_eq_of_evalEager heager, heager⟩

/-- A check that fails names the first variable that is not declared, and shows the rule. -/
theorem check_eq_error_iff {fault : Fault} :
    inputs.check r = .error fault ↔
      ∃ x, inputs.FirstUndeclared r.toExpr x ∧ fault = .undeclared x.text r.text := by
  simp only [← firstUndeclared?_eq_some_iff]
  rw [check]
  rcases inputs.firstUndeclared? r with - | x
  · exact iff_of_false (fun h ↦ by cases h) (fun ⟨_, h, _⟩ ↦ by cases h)
  · simp [eq_comm]

/-- What looking for undeclared variables beforehand tells about the evaluation of a rule. -/
structure Foresees (inputs : Inputs) (r : Rule) : Prop where
  /-- What is found undeclared is the leftmost leaf whose variable is not among the inputs. -/
  found_iff : ∀ x, inputs.firstUndeclared? r = some x ↔
    x ∉ inputs.names ∧ ∃ before after, r.leaves = before ++ x :: after ∧
      ∀ y ∈ before, y ∈ inputs.names
  /-- Nothing is found exactly if the variables of all leaves are among the inputs. -/
  notFound_iff : inputs.firstUndeclared? r = none ↔ ∀ x ∈ r.leaves, x ∈ inputs.names
  /-- After a check that succeeds, the rule has a value under every assignment of the inputs, and
  it is the one found by evaluating both operands of every join. -/
  eval_of_check : inputs.check r = .ok () → ∀ a : Assignment, a.inputs = inputs →
    ∃ u, r.eval a = .ok u ∧ r.evalEager a = .ok u
  /-- If evaluation fails under some assignment of the inputs, the check fails too, and its fault
  shows the rule in a form that is read back as its tree. -/
  check_of_eval : ∀ (a : Assignment) (fault : Fault), a.inputs = inputs →
    r.eval a = .error fault → ∃ x shown, inputs.check r = .error (.undeclared x shown) ∧
      Expr.parse shown = .ok r.toExpr

/-- Of every rule and any inputs it tells that. -/
theorem foresees_eval (inputs : Inputs) (r : Rule) : inputs.Foresees r where
  found_iff _ := firstUndeclared?_eq_some_iff
  notFound_iff := firstUndeclared?_eq_none_iff
  eval_of_check := by
    intro h a ha
    subst ha
    exact exists_eval_of_check h
  check_of_eval := by
    intro a fault ha hfault
    subst ha
    rcases hcheck : a.inputs.check r with other | ⟨⟩
    · obtain ⟨x, -, rfl⟩ := check_eq_error_iff.1 hcheck
      exact ⟨x.text, r.text, rfl, r.parse_text_eq⟩
    · obtain ⟨u, hu, -⟩ := exists_eval_of_check hcheck
      rw [hu] at hfault
      cases hfault

/-- The check looks at the operand that evaluation leaves out. -/
example :
    let q : Name := ⟨"q", by decide⟩
    let r : Rule := .expr (.join .and (.literal false) (.not (.var q)))
    empty.check r = .error (.undeclared "q" "0 & !q") ∧ r.eval (.allFalse empty) = .ok false ∧
      r.evalEager (.allFalse empty) = .error (.undeclared "q" "0 & !q") := by
  decide +kernel

end Inputs

end TruthTable
