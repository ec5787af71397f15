import TruthTable.Proofs.Assignment.History
import TruthTable.Proofs.Assignment.Numbering
import TruthTable.Proofs.Table.OtherInputs
import TruthTable.Proofs.Table.ReadBack

/-!
# From a row back to its assignment

The values in a row can be given to any inputs again. They are given by name, one after the other,
and each time the name is looked up: a name that is not declared would be refused, and a name that
occurs twice would lose its first value. Neither happens, since the names are those of the inputs and
the inputs are distinct. So the values end up where they stand in the row, and inputs behind the end
of the row stay false (`Row.assignment_eq_ok`, `Row.Fills`).

Given to the inputs of its own table, the values of a row make the assignment that the row was
computed from (`Row.assignment_expected`), so the way from a number to a row can be gone back, and the
outputs of the row can be computed again (`Table.IsEnumerated.rebuilds`).
-/

namespace TruthTable

/-! ### Values given one after the other -/

section Update

variable {names : List Name} {x : Name}

/-- What a valuation becomes when names are given values one after the other. -/
def updateAll (v : Name → Bool) (pairs : List (Name × Bool)) : Name → Bool :=
  pairs.foldl (fun v p ↦ Function.update v p.1 p.2) v

/-- A name that is not given a value keeps the one it has. -/
theorem updateAll_of_notMem (hx : x ∉ names) (values : List Bool) (v : Name → Bool) :
    updateAll v (names.zip values) x = v x := by
  induction names generalizing values v with
  | nil => rfl
  | cons y names ih =>
    rcases values with - | ⟨b, values⟩
    · rfl
    · have hy : x ≠ y := List.ne_of_not_mem_cons hx
      rw [List.zip_cons_cons]
      exact (ih (List.not_mem_of_not_mem_cons hx) values _).trans (Function.update_of_ne hy b v)

/-- Distinct names have the values that they were given, as far as there are values. -/
theorem updateAll_of_mem (hnodup : names.Nodup) (hx : x ∈ names) (values : List Bool)
    (v : Name → Bool) :
    updateAll v (names.zip values) x = values.getD (names.idxOf x) (v x) := by
  induction names generalizing values v with
  | nil => cases hx
  | cons y names ih =>
    obtain ⟨hy, hnodup⟩ := List.nodup_cons.1 hnodup
    rcases values with - | ⟨b, values⟩
    · rfl
    · by_cases hxy : x = y
      -- no later name is the same, so the value is not overwritten
      · subst hxy
        rw [List.idxOf_cons_self]
        exact (updateAll_of_notMem hy values _).trans (Function.update_self x b v)
      · have hxnames : x ∈ names := (List.mem_cons.1 hx).resolve_left hxy
        rw [List.idxOf_cons_ne _ (Ne.symm hxy), List.getD_cons_succ]
        rw [← Function.update_of_ne hxy b v]
        exact ih hnodup hxnames values _

end Update

namespace Assignment

variable {inputs : Inputs} {x : Name} {v : Name → Bool}

/-- One more value for a declared name. -/
theorem set_ofValuation (hx : x ∈ inputs.names) (b : Bool) :
    (ofValuation inputs v).set x.text b = .ok (ofValuation inputs (Function.update v x b)) := by
  rw [set_text (a := ofValuation inputs v) hx]
  refine congrArg Except.ok (ofValuation_congr fun (y : Name) (hy : y ∈ inputs.names) ↦ ?_)
  rw [Function.update_apply, Function.update_apply, valuation_ofValuation hy]

/-- Values for declared names are given one after the other, and none is refused. -/
theorem foldlM_set_ofValuation {pairs : List (Name × Bool)}
    (h : ∀ p ∈ pairs, p.1 ∈ inputs.names) (v : Name → Bool) :
    pairs.foldlM (fun a p ↦ a.set p.1.text p.2) (ofValuation inputs v) =
      .ok (ofValuation inputs (updateAll v pairs)) := by
  induction pairs generalizing v with
  | nil => rfl
  | cons p pairs ih =>
    obtain ⟨hp, hpairs⟩ := List.forall_mem_cons.1 h
    rw [List.foldlM_cons, set_ofValuation hp]
    exact ih hpairs _

theorem allFalse_eq_ofValuation (inputs : Inputs) :
    allFalse inputs = ofValuation inputs fun _ ↦ false :=
  ext_values rfl List.map_const'.symm

theorem ofValuation_valuation (a : Assignment) : ofValuation a.inputs a.valuation = a :=
  ext_values rfl a.map_valuation

end Assignment

/-! ### Rows -/

namespace Row

variable {row : Row} {inputs : Inputs}

/-- The value of a name that stands in the row where the name stands among the inputs. -/
def valuation (row : Row) (inputs : Inputs) (x : Name) : Bool :=
  row.inputs.getD (inputs.names.idxOf x) false

/-- The values of a row can be given to any inputs. -/
theorem assignment_eq_ok (row : Row) (inputs : Inputs) :
    row.assignment inputs = .ok (.ofValuation inputs (row.valuation inputs)) := by
  have hdeclared : ∀ p ∈ inputs.names.zip row.inputs, p.1 ∈ inputs.names :=
    fun p hp ↦ (List.of_mem_zip hp).1
  rw [assignment, Assignment.allFalse_eq_ofValuation, Assignment.foldlM_set_ofValuation hdeclared]
  refine congrArg Except.ok (Assignment.ofValuation_congr fun x hx ↦ ?_)
  exact updateAll_of_mem inputs.nodup_names hx row.inputs _

/-- The assignment gives the inputs the values of the row in order, and makes those false for which
the row has no value. -/
structure Fills (row : Row) (inputs : Inputs) (a : Assignment) : Prop where
  /-- It is an assignment of these inputs. -/
  inputs_eq : a.inputs = inputs
  /-- The values stand in their places. -/
  valueAt_eq : ∀ i < inputs.size, a.valueAt i = row.inputs[i]?.getD false
  /-- They are found under the names of the inputs. -/
  get?_eq : ∀ i (hi : i < inputs.names.length),
    a.get? inputs.names[i].text = some (row.inputs[i]?.getD false)

theorem valuation_getElem {i : Nat} (hi : i < inputs.names.length) :
    row.valuation inputs inputs.names[i] = row.inputs[i]?.getD false := by
  rw [valuation, inputs.nodup_names.idxOf_getElem, List.getD_eq_getElem?_getD]

theorem fills_ofValuation (row : Row) (inputs : Inputs) :
    row.Fills inputs (.ofValuation inputs (row.valuation inputs)) where
  inputs_eq := rfl
  valueAt_eq i hi := by rw [Assignment.valueAt_ofValuation hi, valuation_getElem hi]
  get?_eq i hi := by rw [Assignment.get?_ofValuation (List.getElem_mem hi), valuation_getElem hi]

/-- The row of an assignment leads back to it. -/
theorem assignment_expected (outputs : List Output) (a : Assignment) :
    (expected outputs a).assignment a.inputs = .ok a :=
  (assignment_eq_ok _ _).trans (congrArg Except.ok a.ofValuation_valuation)

end Row

namespace Table

variable {table : Table} {inputs : Inputs} {outputs : List Output} {r : Nat}

theorem getElem_rows_complete (hsize : inputs.size < 64)
    (hr : r < (complete inputs outputs).rows.length) :
    (complete inputs outputs).rows[r] = Row.expected outputs (.ofRow inputs r.toUInt64) := by
  have hrow : (complete inputs outputs).rows[r]? =
      some (Row.expected outputs (.ofRow inputs r.toUInt64)) :=
    getElem?_rows_complete hsize (hr.trans_eq (length_rows_complete outputs hsize))
  exact (List.getElem_of_getElem? hrow).2

/-- The row with a number leads back to the assignment with this number. -/
theorem assignment_rows_complete (hsize : inputs.size < 64)
    (hr : r < (complete inputs outputs).rows.length) :
    (complete inputs outputs).rows[r].assignment inputs = .ok (.ofRow inputs r.toUInt64) := by
  rw [getElem_rows_complete hsize hr]
  exact Row.assignment_expected outputs _

/-- The outputs of a row are what the assignment with its number makes of them. -/
theorem exists_eval_rows_complete {j : Nat} (hsize : inputs.size < 64)
    (hdeclares : ∀ o ∈ outputs, inputs.Declares o.expr)
    (hr : r < (complete inputs outputs).rows.length) (hj : j < outputs.length) :
    ∃ b, (complete inputs outputs).rows[r].outputs[j]? = some b ∧
      (outputs[j].expr : Rule).eval (.ofRow inputs r.toUInt64) = .ok b := by
  refine ⟨_, ?_, Assignment.eval_eq_ok (hdeclares _ (List.getElem_mem hj))⟩
  rw [getElem_rows_complete hsize hr, Row.expected, List.getElem?_map, List.getElem?_eq_getElem hj]
  rfl

/-- Whatever inputs there are, the values of a row of an enumerated table can be given to them, in
order, and inputs without a value are false. The inputs of the table get back the assignment with the
number of the row, from which this number and all outputs of the row are found again. -/
theorem IsEnumerated.rebuilds (h : table.IsEnumerated) (hr : r < table.rows.length) :
    (∀ inputs : Inputs, ∃ a, table.rows[r].assignment inputs = .ok a ∧
      table.rows[r].Fills inputs a) ∧
      ∃ a, table.rows[r].assignment table.inputs = .ok a ∧
        a = .ofRow table.inputs r.toUInt64 ∧ a.row.toNat = r ∧
          ∀ j (hj : j < table.outputs.length), ∃ b, table.rows[r].outputs[j]? = some b ∧
            (table.outputs[j].expr : Rule).eval a = .ok b := by
  refine ⟨fun inputs ↦ ⟨_, Row.assignment_eq_ok _ _, Row.fills_ofValuation _ _⟩, ?_⟩
  obtain ⟨limit, inputs, outputs, messages, h⟩ := h
  obtain ⟨hadmitted, rfl⟩ := run_enumerate_eq_ok_iff.1 h
  have hsize := hadmitted.size_lt
  have hlt : r < inputs.rowCount := hr.trans_eq (length_rows_complete outputs hsize)
  refine ⟨_, assignment_rows_complete hsize hr, rfl, ?_, fun j hj ↦ ?_⟩
  · exact Assignment.toNat_row_ofRow_toUInt64 hsize hlt
  · exact exists_eval_rows_complete hsize hadmitted.declares hr hj

/-- The third row of the table of `s & t` can be given to any inputs, and over its own it leads back
to the assignment with the number two. -/
theorem IsEnumerated.rebuilds_conjunction :
    let s : Name := ⟨"s", by decide⟩
    let t : Name := ⟨"t", by decide⟩
    let inputs := (Inputs.empty.push s (by decide +kernel)).push t (by decide +kernel)
    let table : Table := complete inputs [⟨"s & t", .join .and (.var s) (.var t)⟩]
    table.IsEnumerated ∧ table.rows[2]? = some ⟨[true, false], [false]⟩ ∧
      (∀ others : Inputs, ∃ a, (⟨[true, false], [false]⟩ : Row).assignment others = .ok a ∧
        (⟨[true, false], [false]⟩ : Row).Fills others a) ∧
      ∃ a, (⟨[true, false], [false]⟩ : Row).assignment inputs = .ok a ∧ a.row.toNat = 2 := by
  intro s t inputs table
  have h : table.IsEnumerated :=
    ⟨.standard, table.inputs, table.outputs, #[], by decide +kernel⟩
  have hthird : table.rows[2]? = some ⟨[true, false], [false]⟩ := by decide +kernel
  obtain ⟨hr, hrow⟩ := List.getElem?_eq_some_iff.1 hthird
  obtain ⟨hfills, a, ha, -, hnumber, -⟩ := IsEnumerated.rebuilds h hr
  rw [hrow] at hfills ha
  exact ⟨h, hthird, hfills, a, ha, hnumber⟩

end Table

end TruthTable
