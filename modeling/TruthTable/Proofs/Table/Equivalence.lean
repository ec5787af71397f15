import TruthTable.Proofs.Table.Enumeration

/-!
# Tables decide equivalence

Two expressions are equivalent if no valuation tells them apart, and a valuation gives *every* name
a value. A table has finitely many rows and knows its inputs only. It decides equivalence all the
same, for two reasons that are kept apart here:

* on expressions whose variables are all declared, the rows tell apart what valuations tell apart
  (`Inputs.forall_value_eq_iff`): they miss no list of values, and other names do not matter;
* a column holds, row by row, the values of its expression under the assignments of the rows
  (`Table.column_complete`).

So two columns are equal exactly if their expressions are equivalent, and a column is true
throughout exactly if its expression is a tautology (`Table.columns_decide`).
-/

namespace TruthTable

/-! ### Equivalence and validity -/

namespace Expr

/-- Two expressions have the same value under every valuation of all names. -/
def Equivalent (a b : Expr) : Prop :=
  ∀ v : Name → Bool, a.value v = b.value v

/-- An expression is true under every valuation of all names. -/
def IsTautology (e : Expr) : Prop :=
  ∀ v : Name → Bool, e.value v = true

end Expr

variable {limit : InputLimit} {inputs : Inputs} {outputs : List Output}

/-- On expressions with declared variables, the assignments of the rows tell apart what valuations
of all names tell apart. -/
theorem Inputs.forall_value_eq_iff {a b : Expr} (hsize : inputs.size < 64) (ha : inputs.Declares a)
    (hb : inputs.Declares b) :
    (∀ r ∈ inputs.assignments, a.value r.valuation = b.value r.valuation) ↔ a.Equivalent b := by
  constructor
  · intro hrows v
    have hmem : Assignment.ofValuation inputs v ∈ inputs.assignments :=
      Assignment.mem_assignments (a := .ofValuation inputs v) hsize
    rw [Assignment.value_eq_of_declares (a := .ofValuation inputs v) ha rfl,
      Assignment.value_eq_of_declares (a := .ofValuation inputs v) hb rfl]
    exact hrows _ hmem
  · exact fun hequivalent r _ ↦ hequivalent r.valuation

/-! ### Columns -/

namespace Table

/-- A column holds the values of its expression in the order of the rows. -/
theorem column_complete {j : Nat} (hj : j < outputs.length) :
    (complete inputs outputs).column j =
      inputs.assignments.map fun a ↦ outputs[j].expr.value a.valuation := by
  rw [column, complete, List.map_map]
  refine List.map_congr_left fun a _ ↦ ?_
  show (outputs.map fun o ↦ o.expr.value a.valuation).getD j false = _
  rw [List.getD_eq_getElem?_getD, List.getElem?_map, List.getElem?_eq_getElem hj]
  rfl

/-- Equal columns belong to expressions that no valuation tells apart. -/
theorem column_complete_eq_iff (hsize : inputs.size < 64)
    (hdeclares : ∀ o ∈ outputs, inputs.Declares o.expr) {j k : Nat} (hj : j < outputs.length)
    (hk : k < outputs.length) :
    (complete inputs outputs).column j = (complete inputs outputs).column k ↔
      outputs[j].expr.Equivalent outputs[k].expr := by
  rw [column_complete hj, column_complete hk, List.map_inj_left]
  exact Inputs.forall_value_eq_iff hsize (hdeclares _ (List.getElem_mem hj))
    (hdeclares _ (List.getElem_mem hk))

/-- A column that is true throughout belongs to a tautology, which is the same as an expression
equivalent to the truth value. -/
theorem column_complete_eq_replicate_iff (hsize : inputs.size < 64)
    (hdeclares : ∀ o ∈ outputs, inputs.Declares o.expr) {j : Nat} (hj : j < outputs.length) :
    (complete inputs outputs).column j = List.replicate inputs.rowCount true ↔
      outputs[j].expr.IsTautology := by
  have hlength : inputs.assignments.length = inputs.rowCount := by
    rw [Inputs.assignments_eq hsize, List.length_map, List.length_range]
  have htrue : inputs.Declares (.literal true) := fun x hx ↦ absurd hx List.not_mem_nil
  rw [column_complete hj, ← hlength, ← List.map_const', List.map_inj_left]
  exact Inputs.forall_value_eq_iff hsize (hdeclares _ (List.getElem_mem hj)) htrue

/-- Over inputs that are within the limit there is a table for all outputs that use declared
variables only. Two of its columns are equal exactly if their expressions have the same value under
every valuation of all names, and a column is true in all rows exactly if its expression is true
under every valuation. -/
theorem columns_decide (hpos : 0 < inputs.size) (hle : inputs.size ≤ limit.value)
    (hdeclares : ∀ o ∈ outputs, inputs.Declares o.expr) (messages : Array Message) :
    ∃ table, ((enumerate limit inputs outputs).run.run messages).1 = .ok table ∧
      table.inputs = inputs ∧ table.outputs = outputs ∧
      ∀ j (hj : j < outputs.length),
        (table.column j = List.replicate (2 ^ inputs.size) true ↔ outputs[j].expr.IsTautology) ∧
          ∀ k (hk : k < outputs.length),
            table.column j = table.column k ↔ outputs[j].expr.Equivalent outputs[k].expr := by
  have hcheck := InputLimit.check_eq_ok_iff.2 ⟨hpos, hle⟩
  have hsize := InputLimit.size_lt_of_check hcheck
  have houtputs := Inputs.checkOutputs_eq_ok_iff.2 hdeclares
  refine ⟨complete inputs outputs, ?_, rfl, rfl, fun j hj ↦ ⟨?_, fun k hk ↦ ?_⟩⟩
  · rw [run_enumerate_of_ok hcheck houtputs]
  · exact column_complete_eq_replicate_iff hsize hdeclares hj
  · exact column_complete_eq_iff hsize hdeclares hj hk

/-- Four rows tell that the two sides of a law of De Morgan have the same value under all
valuations, of which there are infinitely many. -/
theorem columns_decide_de_morgan :
    let p : Name := ⟨"p", by decide⟩
    let q : Name := ⟨"q", by decide⟩
    let inputs := (Inputs.empty.push p (by decide +kernel)).push q (by decide +kernel)
    let a : Expr := .not (.join .and (.var p) (.var q))
    let b : Expr := .join .or (.not (.var p)) (.not (.var q))
    let outputs : List Output := [⟨"!(p.q)", a⟩, ⟨"!p + !q", b⟩]
    (0 < inputs.size ∧ inputs.size ≤ InputLimit.standard.value ∧
      ∀ o ∈ outputs, inputs.Declares o.expr) ∧
      ∃ table, ((enumerate .standard inputs outputs).run.run #[]).1 = .ok table ∧
        table.column 0 = table.column 1 ∧ a.Equivalent b := by
  intro p q inputs a b outputs
  have hpos : 0 < inputs.size := by decide +kernel
  have hle : inputs.size ≤ InputLimit.standard.value := by decide +kernel
  have hdeclares : ∀ o ∈ outputs, inputs.Declares o.expr := by decide +kernel
  refine ⟨⟨hpos, hle, hdeclares⟩, ?_⟩
  obtain ⟨table, htable, -, -, hcolumns⟩ := columns_decide hpos hle hdeclares #[]
  have hequal : ((enumerate .standard inputs outputs).run.run #[]).1.map
      (fun t ↦ decide (t.column 0 = t.column 1)) = .ok true := by decide +kernel
  rw [htable] at hequal
  have hequal : table.column 0 = table.column 1 := of_decide_eq_true (Except.ok.inj hequal)
  exact ⟨table, htable, hequal, ((hcolumns 0 (by decide)).2 1 (by decide)).1 hequal⟩

end Table

end TruthTable
