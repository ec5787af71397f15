import Mathlib.Data.Nat.Bitwise
import TruthTable.Proofs.Inputs.Undeclared

/-!
# Assignments as valuations

An assignment is a list of values with positions, and expressions have a value under a function from
names to truth values. `Assignment.valuation` is the function that an assignment stands for. It is
determined on the declared names only; what it says of other names does not matter to a rule all of
whose leaves are declared (`value_eq_of_declares`), and such a rule never fails (`eval_eq_ok`).

Under the assignment with number `r` the input at position `i` of `n` takes the bit `n - 1 - i` of
`r`. The number passes through a 64-bit word on its way, which loses nothing as long as there are
fewer than 64 inputs. Every list of values is the list of the bits of some number, so no assignment
is missed when all numbers are gone through (`mem_assignments`).
-/

namespace TruthTable

/-- A declared name has the position at which it stands. -/
theorem Inputs.position?_text {inputs : Inputs} {x : Name} (hx : x ∈ inputs.names) :
    inputs.position? x.text = some (inputs.names.idxOf x) := by
  have hlt := List.idxOf_lt_length_of_mem hx
  rw [position?_eq_some_iff, List.getElem?_eq_getElem hlt, List.getElem_idxOf hlt]
  rfl

namespace Assignment

variable {a : Assignment} {inputs : Inputs} {e : Expr} {x : Name}

/-- The value of each name under an assignment. -/
def valuation (a : Assignment) (x : Name) : Bool :=
  a.valueAt (a.inputs.names.idxOf x)

/-- The assignment that a valuation amounts to on the given inputs. -/
def ofValuation (inputs : Inputs) (v : Name → Bool) : Assignment where
  inputs := inputs
  values := inputs.names.map v
  length_values := List.length_map v

theorem get?_text (hx : x ∈ a.inputs.names) : a.get? x.text = some (a.valuation x) := by
  rw [get?, Inputs.position?_text hx]
  rfl

theorem valuation_getElem {i : Nat} (hi : i < a.inputs.names.length) :
    a.valuation a.inputs.names[i] = a.valueAt i := by
  rw [valuation, a.inputs.nodup_names.idxOf_getElem]

/-- The list of values is what the valuation makes of the list of names. -/
theorem map_valuation (a : Assignment) : a.inputs.names.map a.valuation = a.values := by
  have hlength : (a.inputs.names.map a.valuation).length = a.values.length := by
    rw [List.length_map, a.length_values, Inputs.size]
  refine List.ext_getElem hlength fun i hi hi' ↦ ?_
  rw [List.getElem_map, valuation_getElem (by simpa using hi), valueAt,
    List.getD_eq_getElem?_getD, List.getElem?_eq_getElem hi', Option.getD_some]

/-- Every valuation with the same values at the declared names gives an expression the same
value. -/
theorem value_eq_of_declares (he : a.inputs.Declares e) {v : Name → Bool}
    (hv : a.inputs.names.map v = a.values) : e.value v = e.value a.valuation := by
  rw [← a.map_valuation] at hv
  exact Expr.value_congr fun x hx ↦ List.map_inj_left.1 hv x (he x hx)

/-- Where all variables are declared, evaluation gives the value and can not fail. -/
theorem eval_eq_ok {r : Rule} (hr : a.inputs.Declares r.toExpr) :
    r.eval a = .ok (r.toExpr.value a.valuation) := by
  rw [Rule.eval, Expr.eval_eq_ok_value fun x hx ↦ get?_text (hr x hx)]

/-! ### Numbers -/

theorem toNat_toUInt64 {r : Nat} (hsize : inputs.size < 64) (hr : r < inputs.rowCount) :
    r.toUInt64.toNat = r := by
  have hpow : inputs.rowCount ≤ 2 ^ 64 := Nat.pow_le_pow_right Nat.two_pos (Nat.le_of_lt hsize)
  exact UInt64.toNat_ofNat_of_lt' (Nat.lt_of_lt_of_le hr hpow)

/-- The bits of the number are the values. -/
theorem values_ofRow {r : Nat} (hsize : inputs.size < 64) (hr : r < inputs.rowCount) :
    (ofRow inputs r.toUInt64).values =
      (List.range inputs.size).map fun i ↦ r.testBit (inputs.size - 1 - i) := by
  show (List.range inputs.size).map (fun i ↦ r.toUInt64.toNat.testBit _) = _
  rw [toNat_toUInt64 hsize hr]

end Assignment

/-- Up to 63 inputs, every number of a row is used. -/
theorem Inputs.assignments_eq {inputs : Inputs} (hsize : inputs.size < 64) :
    inputs.assignments =
      (List.range inputs.rowCount).map fun r ↦ .ofRow inputs r.toUInt64 := by
  rw [assignments, firstAssignments, rowCount?, if_pos hsize, Option.getD_some, Nat.min_self]

theorem Inputs.inputs_of_mem_assignments {inputs : Inputs} {a : Assignment}
    (ha : a ∈ inputs.assignments) : a.inputs = inputs := by
  rw [assignments, firstAssignments] at ha
  obtain ⟨r, -, rfl⟩ := List.mem_map.1 ha
  rfl

/-- A list of values holds the bits of some number, from the highest down. -/
theorem exists_testBit_eq (values : List Bool) :
    ∃ r < 2 ^ values.length,
      (List.range values.length).map (fun i ↦ r.testBit (values.length - 1 - i)) = values := by
  let bit (k : Fin values.length) : Bool := values.get k.rev
  refine ⟨Nat.ofBits bit, Nat.ofBits_lt_two_pow bit, List.ext_getElem (by simp) fun i hi hi' ↦ ?_⟩
  have hback : values.length - (values.length - 1 - i + 1) = i := by omega
  rw [List.getElem_map, List.getElem_range, Nat.testBit_ofBits_lt bit _ (by omega)]
  simp [bit, hback]

/-- Up to 63 inputs, no assignment is missed. -/
theorem Assignment.mem_assignments {a : Assignment} (hsize : a.inputs.size < 64) :
    a ∈ a.inputs.assignments := by
  obtain ⟨r, hr, hvalues⟩ := exists_testBit_eq a.values
  rw [a.length_values] at hr hvalues
  have ha : ofRow a.inputs r.toUInt64 = a := ext_values rfl ((values_ofRow hsize hr).trans hvalues)
  rw [Inputs.assignments_eq hsize]
  exact List.mem_map.2 ⟨r, List.mem_range.2 hr, ha⟩

end TruthTable
