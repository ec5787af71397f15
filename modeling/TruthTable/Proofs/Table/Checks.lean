import TruthTable.Proofs.Inputs.Undeclared
import TruthTable.Table.Basic

/-!
# The checks before an enumeration

Two checks stand before the first row of a table. The limit refuses a table without inputs and one
with too many; the outputs are refused if one of them uses an undeclared variable. For each check it
is said when it succeeds and which fault it reports otherwise, so that nothing else has to look into
the checks.
-/

namespace TruthTable

/-! ### Limits -/

namespace InputLimit

variable {limit : InputLimit} {inputs : Inputs} {fault : Fault}

/-- The limit after a number of requests for another one, the last of which is the last in the
list. -/
def requested (wanted : List Nat) : InputLimit :=
  wanted.foldl (fun _ n ↦ .ofNat n) .standard

/-- Only the last request counts, and it is granted up to 24. -/
theorem value_requested (wanted : List Nat) :
    (requested wanted).value = (wanted.getLast?.map (min · 24)).getD 16 := by
  rcases List.eq_nil_or_concat wanted with rfl | ⟨earlier, n, rfl⟩
  · rfl
  · simp [requested, ofNat, largest]

theorem check_eq_ok_iff :
    limit.check inputs = .ok () ↔ 0 < inputs.size ∧ inputs.size ≤ limit.value := by
  rw [check]
  split
  · simp
    omega
  · split
    · simp
      omega
    · simp
      omega

theorem check_eq_error_iff :
    limit.check inputs = .error fault ↔
      inputs.size = 0 ∧ fault = .noInputs ∨
        (0 < inputs.size ∧ limit.value < inputs.size) ∧
          fault = .tooManyInputs inputs.size limit.value := by
  rw [check]
  split
  · simp [*, eq_comm]
  · split
    · simp [*, @eq_comm _ _ fault, Nat.pos_iff_ne_zero]
    · simp [*]

/-- No limit is so large that the rows could not be numbered by 64-bit words. -/
theorem size_lt_of_check (h : limit.check inputs = .ok ()) : inputs.size < 64 := by
  have hle := (check_eq_ok_iff.1 h).2
  have hlargest := limit.le_largest
  rw [largest] at hlargest
  omega

end InputLimit

/-! ### Outputs -/

namespace Inputs

variable {inputs : Inputs} {outputs : List Output} {fault : Fault} {x : Name} {label : String}

/-- The first output with an undeclared variable has the given label, and `x` is the leftmost
undeclared variable in it. -/
inductive Blames (inputs : Inputs) : List Output → Name → String → Prop
  /-- It is the first output at all. -/
  | here {output : Output} {outputs : List Output} {x : Name} :
    inputs.FirstUndeclared output.expr x → inputs.Blames (output :: outputs) x output.label
  /-- It is behind an output that uses declared variables only. -/
  | behind {output : Output} {outputs : List Output} {x : Name} {label : String} :
    inputs.Declares output.expr → inputs.Blames outputs x label →
      inputs.Blames (output :: outputs) x label

theorem checkOutputs_eq_ok_iff :
    inputs.checkOutputs outputs = .ok () ↔ ∀ o ∈ outputs, inputs.Declares o.expr := by
  induction outputs with
  | nil => simp [checkOutputs]
  | cons output outputs ih =>
    rw [checkOutputs, List.forall_mem_cons]
    rcases h : inputs.firstUndeclared? output.expr with - | x
    · have hdeclares : inputs.Declares output.expr := firstUndeclared?_eq_none_iff.1 h
      exact ih.trans (and_iff_right hdeclares).symm
    · have hfirst : inputs.FirstUndeclared output.expr x := firstUndeclared?_eq_some_iff.1 h
      simp [hfirst.not_declares]

theorem checkOutputs_eq_error_iff :
    inputs.checkOutputs outputs = .error fault ↔
      ∃ x label, inputs.Blames outputs x label ∧ fault = .undeclared x.text label := by
  induction outputs with
  | nil =>
    constructor
    · rintro ⟨⟩
    · rintro ⟨x, label, ⟨⟩, -⟩
  | cons output outputs ih =>
    rw [checkOutputs]
    rcases h : inputs.firstUndeclared? output.expr with - | x
    · have hdeclares : inputs.Declares output.expr := firstUndeclared?_eq_none_iff.1 h
      refine ih.trans ⟨?_, ?_⟩
      · rintro ⟨x, label, hx, hfault⟩
        exact ⟨x, label, .behind hdeclares hx, hfault⟩
      · rintro ⟨x, label, hfirst | ⟨-, hx⟩, hfault⟩
        · exact absurd hdeclares hfirst.not_declares
        · exact ⟨x, label, hx, hfault⟩
    · have hfirst : inputs.FirstUndeclared output.expr x := firstUndeclared?_eq_some_iff.1 h
      constructor
      · intro hfault
        exact ⟨x, output.label, .here hfirst, (Except.error.inj hfault).symm⟩
      · rintro ⟨y, label, hfirst' | ⟨hdeclares, -⟩, rfl⟩
        · have hxy : some x = some y := h.symm.trans (firstUndeclared?_eq_some_iff.2 hfirst')
          rw [Option.some.inj hxy]
        · exact absurd hdeclares hfirst.not_declares

end Inputs

end TruthTable
