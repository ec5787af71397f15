import Mathlib.Data.Fintype.EquivFin
import TruthTable.Proofs.Inputs.Valuation

/-!
# The values in a row, read off its number

The number of a row is a valuation in another form: the bit of an input is its value in the row
(`Inputs.rowValue`). Over inputs of their own, the numbers below the number of rows and the ways to
give values to the inputs are the same things: every way has a number (`exists_rowValue_eq`), and
only one (`eq_of_rowValue_eq`).

Which number it is depends on the order of the inputs, since the first input has the highest bit. So
when inputs are declared in another order, or one more is declared, the same values are found in a
row with another number. The statements on other inputs say which row that is: after a permutation
the rows are permuted, behind one more input at the end a row is found at twice its number or next
to it, and behind one more input in front at its number or half a table further down.
-/

namespace TruthTable.Inputs

variable {inputs s t : Inputs} {q r : Nat} {x y : Name}

/-- The value of an input in the row with the given number. -/
def rowValue (inputs : Inputs) (r : Nat) (x : Name) : Bool :=
  r.testBit (inputs.size - 1 - inputs.names.idxOf x)

theorem rowValue_getElem {i : Nat} (hi : i < inputs.names.length) (r : Nat) :
    inputs.rowValue r inputs.names[i] = r.testBit (inputs.size - 1 - i) := by
  rw [rowValue, inputs.nodup_names.idxOf_getElem]

/-- In the order of the inputs, the values are the bits from the highest down. -/
theorem map_rowValue (inputs : Inputs) (r : Nat) :
    inputs.names.map (inputs.rowValue r) =
      (List.range inputs.size).map fun i ↦ r.testBit (inputs.size - 1 - i) := by
  refine List.ext_getElem (by simp [size]) fun i hi _ ↦ ?_
  rw [List.length_map] at hi
  rw [List.getElem_map, List.getElem_map, List.getElem_range, rowValue_getElem hi]

/-- In some row, the inputs have any values that they are to have. -/
theorem exists_rowValue_eq (inputs : Inputs) (v : Name → Bool) :
    ∃ r < inputs.rowCount, ∀ x ∈ inputs.names, inputs.rowValue r x = v x := by
  obtain ⟨r, hr, hbits⟩ := exists_testBit_eq (inputs.names.map v)
  rw [List.length_map] at hr hbits
  refine ⟨r, hr, List.map_inj_left.1 ?_⟩
  rw [map_rowValue, ← hbits]
  rfl

/-- No two rows have the same values of all inputs. -/
theorem eq_of_rowValue_eq (hq : q < inputs.rowCount) (hr : r < inputs.rowCount)
    (h : ∀ x ∈ inputs.names, inputs.rowValue q x = inputs.rowValue r x) : q = r := by
  refine Nat.eq_of_testBit_eq fun j ↦ ?_
  by_cases hj : j < inputs.size
  · -- the bit belongs to the input that is as far from the end
    have hlt : inputs.size - 1 - j < inputs.names.length := by
      show _ < inputs.size
      omega
    have hback : inputs.size - 1 - (inputs.size - 1 - j) = j := by omega
    have hbit := h _ (List.getElem_mem hlt)
    rwa [rowValue_getElem hlt, rowValue_getElem hlt, hback] at hbit
  · have hpow : inputs.rowCount ≤ 2 ^ j :=
      Nat.pow_le_pow_right Nat.two_pos (Nat.le_of_not_lt hj)
    rw [Nat.testBit_lt_two_pow (by omega), Nat.testBit_lt_two_pow (by omega)]

/-! ### Other inputs -/

/-- Over the same inputs in another order, the rows are the same in another order. -/
theorem exists_perm_rowValue_eq (h : t.names.Perm s.names) :
    ∃ σ : Equiv.Perm (Fin (2 ^ s.size)), ∀ r, ∀ x ∈ s.names,
      s.rowValue (σ r) x = t.rowValue r x := by
  have hcount : t.rowCount = s.rowCount := congrArg (2 ^ ·) h.length_eq
  choose row hlt hrow using fun r : Nat ↦ s.exists_rowValue_eq (t.rowValue r)
  let f (r : Fin (2 ^ s.size)) : Fin (2 ^ s.size) := ⟨row r, hlt r⟩
  have hinjective : Function.Injective f := by
    intro q r hqr
    have hsame : row q = row r := congrArg Fin.val hqr
    have hq : q.val < t.rowCount := hcount ▸ q.isLt
    have hr : r.val < t.rowCount := hcount ▸ r.isLt
    refine Fin.ext (eq_of_rowValue_eq hq hr fun x hx ↦ ?_)
    have hx : x ∈ s.names := h.subset hx
    rw [← hrow q x hx, ← hrow r x hx, hsame]
  exact ⟨Equiv.ofBijective f hinjective.bijective_of_finite, fun r ↦ hrow r⟩

/-- One more input at the end takes the lowest bit. -/
theorem rowValue_of_append (h : t.names = s.names ++ [x]) (hy : y ∈ s.names) (r : Nat) :
    t.rowValue r y = s.rowValue (r / 2) y := by
  have hsize : t.size = s.size + 1 := by rw [size, h, List.length_append]; rfl
  have hlt : s.names.idxOf y < s.size := List.idxOf_lt_length_of_mem hy
  rw [rowValue, rowValue, Nat.testBit_div_two, h, List.idxOf_append_of_mem hy]
  congr 1
  omega

/-- One more input in front takes the highest bit. -/
theorem rowValue_of_cons (h : t.names = x :: s.names) (hy : y ∈ s.names) (r : Nat) :
    t.rowValue r y = s.rowValue (r % 2 ^ s.size) y := by
  have hsize : t.size = s.size + 1 := by rw [size, h]; rfl
  have hlt : s.names.idxOf y < s.size := List.idxOf_lt_length_of_mem hy
  have hne : x ≠ y := by
    have hnodup := t.nodup_names
    rw [h, List.nodup_cons] at hnodup
    exact fun heq ↦ hnodup.1 (heq ▸ hy)
  have hbit : s.size - 1 - s.names.idxOf y < s.size := by omega
  rw [rowValue, rowValue, Nat.testBit_mod_two_pow, decide_eq_true hbit, Bool.true_and, h,
    List.idxOf_cons_ne _ hne]
  congr 1
  omega

end TruthTable.Inputs
