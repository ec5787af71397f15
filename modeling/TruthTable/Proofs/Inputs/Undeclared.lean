import TruthTable.Rule

/-!
# The first undeclared variable

`Inputs.firstUndeclared?` looks through the distinct variables of a rule and asks the index of the
inputs. Neither matters for what it finds: it is the leftmost leaf whose name is not among the names
of the inputs, and there is none exactly if every leaf is declared.
-/

namespace TruthTable

/-- Dropping repetitions does not change what is found first. -/
theorem find?_eraseDups {α : Type} [BEq α] [LawfulBEq α] (p : α → Bool) :
    ∀ as : List α, as.eraseDups.find? p = as.find? p
  | [] => rfl
  | a :: as => by
    rw [List.eraseDups_cons, List.find?_cons, List.find?_cons,
      find?_eraseDups p (as.filter fun b ↦ !b == a), List.find?_filter]
    rcases ha : p a with - | -
    · -- a repetition of `a` would not have been found either
      show as.find? (fun b ↦ _) = as.find? p
      congr 1
      funext b
      rcases hb : b == a with - | -
      · simp
      · simp [eq_of_beq hb, ha]
    · rfl
termination_by as => as.length
decreasing_by exact Nat.lt_succ_of_le (List.length_filter_le _ _)

namespace Inputs

variable {inputs : Inputs} {e : Expr} {r : Rule} {x : Name}

/-- All variables of an expression are declared. -/
def Declares (inputs : Inputs) (e : Expr) : Prop :=
  ∀ x ∈ e.leaves, x ∈ inputs.names

instance (inputs : Inputs) (e : Expr) : Decidable (inputs.Declares e) :=
  inferInstanceAs (Decidable (∀ x ∈ e.leaves, x ∈ inputs.names))

/-- A variable is not declared, but all leaves to the left of its first one are. -/
def FirstUndeclared (inputs : Inputs) (e : Expr) (x : Name) : Prop :=
  x ∉ inputs.names ∧ ∃ before after, e.leaves = before ++ x :: after ∧
    ∀ y ∈ before, y ∈ inputs.names

theorem FirstUndeclared.not_declares (h : inputs.FirstUndeclared e x) : ¬ inputs.Declares e := by
  obtain ⟨hx, before, after, hsplit, -⟩ := h
  exact fun he ↦ hx (he x (by simp [hsplit]))

theorem contains_text_iff : inputs.contains x.text = true ↔ x ∈ inputs.names := by
  rw [contains_iff]
  constructor
  · rintro ⟨y, hy, hxy⟩
    rwa [← Name.ext hxy]
  · exact fun hx ↦ ⟨x, hx, rfl⟩

theorem firstUndeclared?_eq_find? (inputs : Inputs) (r : Rule) :
    inputs.firstUndeclared? r = r.leaves.find? fun x ↦ !inputs.contains x.text :=
  find?_eraseDups _ _

theorem firstUndeclared?_eq_some_iff :
    inputs.firstUndeclared? r = some x ↔ inputs.FirstUndeclared r.toExpr x := by
  rw [firstUndeclared?_eq_find?, List.find?_eq_some_iff_append]
  simp [FirstUndeclared, Rule.leaves, ← contains_text_iff]

theorem firstUndeclared?_eq_none_iff :
    inputs.firstUndeclared? r = none ↔ inputs.Declares r.toExpr := by
  rw [firstUndeclared?_eq_find?, List.find?_eq_none]
  simp [Declares, Rule.leaves, ← contains_text_iff]

end Inputs

end TruthTable
