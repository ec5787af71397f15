import Mathlib.Algebra.BigOperators.Ring.Finset
import Mathlib.Data.Nat.Bitwise
import TruthTable.Proofs.Inputs.Valuation

/-!
# Assignments and their numbers

The values of an assignment are the digits of a binary number, the value of the first input being
the highest digit. This number (`Assignment.number`) has one digit for each input and forgets
nothing. The number of the row, a word of 64 bits, is what remains of it (`toNat_row`), and the
assignment with the number of a given row takes its digits from this word.

So the way from a word to an assignment and back keeps the bits that have an input, and the way from
an assignment to a word and back keeps the values that have a bit (`numbered`). With exactly 64
inputs both are the identity, and in any case both are read off the bits one by one.

As long as the *number of rows* is a word too, which takes one input less than that, all assignments
can be listed, and none of them is missed or listed twice (`visited_assignments`).
-/

namespace TruthTable

/-! ### Binary numbers -/

/-- The number with the given binary digits, the first of them being the highest. -/
def binaryNumber (digits : List Bool) : Nat :=
  digits.foldl (fun r b ↦ Nat.bit b r) 0

theorem binaryNumber_concat (digits : List Bool) (b : Bool) :
    binaryNumber (digits ++ [b]) = Nat.bit b (binaryNumber digits) := by
  rw [binaryNumber, List.foldl_concat]
  rfl

/-- The bits are the digits, counted from the last one. -/
theorem testBit_binaryNumber (digits : List Bool) (j : Nat) :
    (binaryNumber digits).testBit j = digits.reverse.getD j false := by
  induction digits using List.reverseRecOn generalizing j with
  | nil => exact Nat.zero_testBit j
  | append_singleton digits b ih =>
    rw [binaryNumber_concat, List.reverse_append, List.reverse_singleton, List.singleton_append]
    cases j with
    | zero => exact Nat.testBit_bit_zero b _
    | succ j => rw [Nat.testBit_bit_succ, ih, List.getD_cons_succ]

/-- Each digit counts twice as much as the one behind it. -/
theorem binaryNumber_eq_sum (digits : List Bool) :
    binaryNumber digits = ∑ i ∈ Finset.range digits.length,
      (digits.getD i false).toNat * 2 ^ (digits.length - 1 - i) := by
  induction digits using List.reverseRecOn with
  | nil => rfl
  | append_singleton digits b ih =>
    have hlast : ((digits ++ [b]).getD digits.length false).toNat = b.toNat := by
      rw [List.getD_append_right _ _ _ _ (Nat.le_refl _), Nat.sub_self]
      rfl
    have hearlier : ∀ i ∈ Finset.range digits.length,
        ((digits ++ [b]).getD i false).toNat * 2 ^ (digits.length - i) =
          2 * ((digits.getD i false).toNat * 2 ^ (digits.length - 1 - i)) := by
      intro i hi
      have hlt := Finset.mem_range.1 hi
      have hexponent : digits.length - i = digits.length - 1 - i + 1 := by omega
      rw [List.getD_append _ _ _ _ hlt, hexponent, Nat.pow_succ', Nat.mul_left_comm]
    calc binaryNumber (digits ++ [b])
      _ = 2 * (∑ i ∈ Finset.range digits.length,
            (digits.getD i false).toNat * 2 ^ (digits.length - 1 - i)) + b.toNat := by
          rw [binaryNumber_concat, Nat.bit_val, ih]
      _ = (∑ i ∈ Finset.range digits.length,
            ((digits ++ [b]).getD i false).toNat * 2 ^ (digits.length - i)) + b.toNat := by
          rw [Finset.mul_sum, Finset.sum_congr rfl hearlier]
      _ = ∑ i ∈ Finset.range (digits ++ [b]).length,
            ((digits ++ [b]).getD i false).toNat * 2 ^ ((digits ++ [b]).length - 1 - i) := by
          rw [List.length_append, List.length_singleton, Nat.add_sub_cancel,
            Finset.sum_range_succ, hlast, Nat.sub_self, Nat.pow_zero, Nat.mul_one]

example : binaryNumber [true, true, false] = 6 := by decide

namespace Assignment

variable {a b : Assignment} {inputs : Inputs} {i : Nat}

/-- Two assignments of the same inputs are equal if all positions have the same value. -/
theorem eq_iff_valueAt :
    a = b ↔ a.inputs = b.inputs ∧ ∀ i < a.inputs.size, a.valueAt i = b.valueAt i := by
  constructor
  · rintro rfl
    exact ⟨rfl, fun _ _ ↦ rfl⟩
  · rintro ⟨hinputs, hvalues⟩
    have hlength : a.values.length = b.values.length := by
      rw [a.length_values, b.length_values, hinputs]
    refine ext_values hinputs (List.ext_getElem hlength fun i hi hi' ↦ ?_)
    have hvalue := hvalues i (a.length_values ▸ hi)
    rwa [valueAt, valueAt, List.getD_eq_getElem _ _ hi, List.getD_eq_getElem _ _ hi'] at hvalue

/-- The number that has the values as its digits. -/
def number (a : Assignment) : Nat :=
  binaryNumber a.values

theorem number_eq_sum (a : Assignment) :
    a.number =
      ∑ i ∈ Finset.range a.inputs.size, (a.valueAt i).toNat * 2 ^ (a.inputs.size - 1 - i) := by
  rw [number, binaryNumber_eq_sum, a.length_values]
  rfl

/-- There is a bit for each input, the lowest one for the last. -/
theorem testBit_number (a : Assignment) (j : Nat) :
    a.number.testBit j = (decide (j < a.inputs.size) && a.valueAt (a.inputs.size - 1 - j)) := by
  rw [number, testBit_binaryNumber, List.getD_eq_getElem?_getD, ← a.length_values]
  by_cases hj : j < a.values.length
  · rw [List.getElem?_reverse hj, decide_eq_true hj, Bool.true_and, valueAt,
      List.getD_eq_getElem?_getD]
  · rw [List.getElem?_eq_none (by simpa using hj), decide_eq_false hj, Bool.false_and]
    rfl

/-- The number of the row is what a word of 64 bits can hold of it. -/
theorem toNat_row (a : Assignment) : a.row.toNat = a.number % 2 ^ 64 := by
  rw [row, number]
  induction a.values using List.reverseRecOn with
  | nil => rfl
  | append_singleton digits b ih =>
    have hdigit : b.toUInt64.toNat = b.toNat := by cases b <;> rfl
    rw [List.foldl_concat, UInt64.toNat_add, UInt64.toNat_mul, ih, hdigit, binaryNumber_concat,
      Nat.bit_val]
    show (2 * _ % _ + _) % _ = _
    omega

/-! ### There and back -/

/-- The bits that have an input are kept in an assignment. -/
theorem number_ofRow (inputs : Inputs) (r : RowIndex) :
    (ofRow inputs r).number = r.toNat % 2 ^ inputs.size := by
  refine Nat.eq_of_testBit_eq fun j ↦ ?_
  rw [testBit_number, Nat.testBit_mod_two_pow]
  show (decide (j < inputs.size) && (ofRow inputs r).valueAt (inputs.size - 1 - j)) = _
  by_cases hj : j < inputs.size
  · have hback : inputs.size - 1 - (inputs.size - 1 - j) = j := by omega
    rw [valueAt_ofRow (by omega), hback]
  · rw [decide_eq_false hj, Bool.false_and, Bool.false_and]

theorem toNat_row_ofRow (inputs : Inputs) (r : RowIndex) :
    (ofRow inputs r).row.toNat = r.toNat % 2 ^ min inputs.size 64 := by
  rw [toNat_row, number_ofRow]
  refine Nat.eq_of_testBit_eq fun j ↦ ?_
  simp only [Nat.testBit_mod_two_pow, Nat.lt_min, Bool.decide_and]
  rw [← Bool.and_assoc, Bool.and_comm (decide (j < 64))]

/-- The assignment with the number of a row has this number. -/
theorem toNat_row_ofRow_toUInt64 {r : Nat} (hsize : inputs.size < 64) (hr : r < inputs.rowCount) :
    (ofRow inputs r.toUInt64).row.toNat = r := by
  rw [toNat_row_ofRow, toNat_toUInt64 hsize hr, Nat.min_eq_left (Nat.le_of_lt hsize)]
  exact Nat.mod_eq_of_lt hr

/-- The values that have a bit are kept in a word. -/
theorem valueAt_ofRow_row (a : Assignment) (hi : i < a.inputs.size) :
    (ofRow a.inputs a.row).valueAt i = (decide (a.inputs.size - i ≤ 64) && a.valueAt i) := by
  have hback : a.inputs.size - 1 - (a.inputs.size - 1 - i) = i := by omega
  have hbit : a.inputs.size - 1 - i < 64 ↔ a.inputs.size - i ≤ 64 := by omega
  have hinput : a.inputs.size - 1 - i < a.inputs.size := by omega
  rw [valueAt_ofRow hi, toNat_row, Nat.testBit_mod_two_pow, testBit_number, hback,
    decide_eq_true hinput, Bool.true_and]
  simp only [hbit]

/-- A value that has no bit is not kept unless it is false. -/
theorem ofRow_row_eq_iff (a : Assignment) :
    ofRow a.inputs a.row = a ↔
      ∀ i < a.inputs.size, 64 < a.inputs.size - i → a.valueAt i = false := by
  have hinputs : (ofRow a.inputs a.row).inputs = a.inputs := rfl
  rw [eq_iff_valueAt, and_iff_right hinputs]
  refine forall₂_congr fun i (hi : i < a.inputs.size) ↦ ?_
  rw [valueAt_ofRow_row a hi]
  by_cases hbit : a.inputs.size - i ≤ 64
  · rw [decide_eq_true hbit, Bool.true_and]
    exact iff_of_true rfl fun hfar ↦ absurd hbit (Nat.not_le_of_lt hfar)
  · rw [decide_eq_false hbit, Bool.false_and]
    exact ⟨fun hfalse _ ↦ hfalse.symm, fun hfalse ↦ (hfalse (Nat.lt_of_not_le hbit)).symm⟩

/-- How the assignments of the inputs are numbered by words of 64 bits. -/
structure Numbered (inputs : Inputs) : Prop where
  /-- The input at position `i` takes the bit that is as far from the lowest bit as the input is
  from the last one, and is false if the word has no such bit. -/
  valueAt_ofRow_iff : ∀ (r : RowIndex) (i : Nat), i < inputs.size →
    ((ofRow inputs r).valueAt i = true ↔
      inputs.size - 1 - i < 64 ∧ r.toNat.testBit (inputs.size - 1 - i) = true)
  /-- Each input counts twice as much as the one behind it, and the sum is reduced to a word. -/
  toNat_row_eq : ∀ a : Assignment, a.inputs = inputs →
    a.row.toNat =
      (∑ i ∈ Finset.range inputs.size, (a.valueAt i).toNat * 2 ^ (inputs.size - 1 - i)) % 2 ^ 64
  /-- From a word to an assignment and back, the lowest bits are kept, one for each input. -/
  row_ofRow : ∀ r : RowIndex, (ofRow inputs r).row.toNat = r.toNat % 2 ^ min inputs.size 64
  /-- From an assignment to a word and back, nothing is lost exactly if the inputs that are more
  than 64 places from the end are false. -/
  ofRow_row_iff : ∀ a : Assignment, a.inputs = inputs →
    (ofRow inputs a.row = a ↔ ∀ i < inputs.size, 64 < inputs.size - i → a.valueAt i = false)
  /-- There are no such inputs if there are at most 64. -/
  ofRow_row : inputs.size ≤ 64 → ∀ a : Assignment, a.inputs = inputs → ofRow inputs a.row = a

/-- The assignments of any inputs, however many there are, are numbered as described. -/
theorem numbered (inputs : Inputs) : Numbered inputs where
  valueAt_ofRow_iff r i hi := by
    rw [valueAt_ofRow hi, iff_and_self]
    intro hbit
    by_contra hlarge
    have hlt : r.toNat < 2 ^ (inputs.size - 1 - i) :=
      Nat.lt_of_lt_of_le r.toNat_lt (Nat.pow_le_pow_right Nat.two_pos (Nat.le_of_not_lt hlarge))
    rw [Nat.testBit_lt_two_pow hlt] at hbit
    cases hbit
  toNat_row_eq := by
    rintro a rfl
    rw [toNat_row, number_eq_sum]
  row_ofRow := toNat_row_ofRow inputs
  ofRow_row_iff := by
    rintro a rfl
    exact ofRow_row_eq_iff a
  ofRow_row hsize := by
    rintro a rfl
    exact (ofRow_row_eq_iff a).2 fun i _ hi ↦ by omega

end Assignment

/-! ### All assignments in order -/

namespace Inputs

variable {inputs : Inputs} {a : Assignment} {r : Nat}

/-- A number of rows and a list of assignments that belong to the inputs. -/
inductive Visited (inputs : Inputs) : Option Nat → List Assignment → Prop where
  /-- The number of rows is a word. The list goes through the numbers of the rows from 0 on, and
  each assignment of the inputs, whatever calls have led to it, stands in exactly one place. -/
  | all {as : List Assignment} (hsize : inputs.size < 64) (inputs_eq : ∀ a ∈ as, a.inputs = inputs)
    (rows_eq : as.map (fun a ↦ a.row.toNat) = List.range (2 ^ inputs.size))
    (existsUnique : ∀ a : Assignment, a.inputs = inputs → ∃! r : Nat, as[r]? = some a) :
    Visited inputs (some (2 ^ inputs.size)) as
  /-- The number of rows is no word, and there is nothing in the list. -/
  | none (hsize : 64 ≤ inputs.size) : Visited inputs none []

/-- The numbers of the listed assignments are those of their places. -/
theorem map_row_assignments (hsize : inputs.size < 64) :
    inputs.assignments.map (fun a ↦ a.row.toNat) = List.range inputs.rowCount := by
  rw [assignments_eq hsize, List.map_map]
  refine (List.map_congr_left fun r hr ↦ ?_).trans (List.map_id _)
  exact Assignment.toNat_row_ofRow_toUInt64 hsize (List.mem_range.1 hr)

/-- An assignment stands nowhere but in the place with its number. -/
theorem eq_row_of_getElem?_assignments (hsize : inputs.size < 64)
    (h : inputs.assignments[r]? = some a) : r = a.row.toNat := by
  have hrow : (inputs.assignments.map fun a ↦ a.row.toNat)[r]? = some a.row.toNat := by
    rw [List.getElem?_map, h]
    rfl
  rw [map_row_assignments hsize] at hrow
  obtain ⟨hr, heq⟩ := List.getElem?_eq_some_iff.1 hrow
  rwa [List.getElem_range] at heq

/-- As long as the number of rows is a word, all assignments are listed in order, and otherwise none
is. -/
theorem visited_assignments (inputs : Inputs) :
    Visited inputs inputs.rowCount? inputs.assignments := by
  by_cases hsize : inputs.size < 64
  · rw [rowCount?, if_pos hsize]
    refine .all hsize (fun a ha ↦ inputs_of_mem_assignments ha) (map_row_assignments hsize) ?_
    rintro a rfl
    obtain ⟨r, hr⟩ := List.mem_iff_getElem?.1 (Assignment.mem_assignments hsize)
    refine ⟨r, hr, fun s hs ↦ ?_⟩
    rw [eq_row_of_getElem?_assignments hsize hs, eq_row_of_getElem?_assignments hsize hr]
  · have hcount : inputs.rowCount? = none := by rw [rowCount?, if_neg hsize]
    have hnone : inputs.assignments = [] := by
      rw [assignments, firstAssignments, hcount]
      rfl
    rw [hcount, hnone]
    exact .none (Nat.le_of_not_lt hsize)

end Inputs

end TruthTable
