import TruthTable.Inputs
import TruthTable.Text.Bits

/-!
# Assignments

An assignment gives every declared input a truth value, and nothing else a value. It is the list of
these values in the order of the inputs; that the list has the right length is part of the type, so
there is no input without a value and no value without an input.

Assignments are numbered by reading the values as binary digits, the first input being the most
significant. The numbers are 64-bit words. With up to 64 inputs every assignment has a number of its
own. With more, the number forgets the inputs that are more than 64 places from the end, and the
assignment made from a number sets them to false.
-/

namespace TruthTable

/-- The number of a row. -/
abbrev RowIndex := UInt64

/-- A truth value for every input. -/
structure Assignment where
  /-- The inputs that have a value. -/
  inputs : Inputs
  /-- Their values, in the order of the inputs. -/
  values : List Bool
  /-- There is one value for each input. -/
  length_values : values.length = inputs.size
  deriving DecidableEq

namespace Assignment

/-- The assignment that makes all inputs false. -/
def allFalse (inputs : Inputs) : Assignment where
  inputs := inputs
  values := List.replicate inputs.size false
  length_values := List.length_replicate

/-- The assignment with the given number: the last input takes the lowest bit. -/
def ofRow (inputs : Inputs) (row : RowIndex) : Assignment where
  inputs := inputs
  values := (List.range inputs.size).map fun i ↦ row.toNat.testBit (inputs.size - 1 - i)
  length_values := by simp

/-- The number of an assignment, as far as 64 bits can tell. -/
def row (a : Assignment) : RowIndex :=
  a.values.foldl (fun r b ↦ 2 * r + b.toUInt64) 0

/-! ### Reading and changing values -/

/-- The value at a position; positions beyond the inputs have the value false. -/
def valueAt (a : Assignment) (i : Nat) : Bool :=
  a.values.getD i false

/-- The input at position `i` of `n` takes the bit `n - 1 - i` of the number. -/
theorem valueAt_ofRow {inputs : Inputs} {i : Nat} (h : i < inputs.size) (row : RowIndex) :
    (ofRow inputs row).valueAt i = row.toNat.testBit (inputs.size - 1 - i) := by
  rw [valueAt, ofRow, List.getD_eq_getElem?_getD, List.getElem?_map, List.getElem?_range h]
  rfl

/-- The value of a name, if it is declared. -/
def get? (a : Assignment) (name : String) : Option Bool :=
  (a.inputs.position? name).map a.valueAt

/-- Gives the input with the given name a value. -/
def set (a : Assignment) (name : String) (b : Bool) : Except Fault Assignment := do
  let i ← a.inputs.position name
  return ⟨a.inputs, a.values.set i b, by rw [List.length_set, a.length_values]⟩

/-- The names with their values, in order. -/
def pairs (a : Assignment) : List (Name × Bool) :=
  a.inputs.names.zip a.values

/-- The values as a row of digits. -/
def text (a : Assignment) : String :=
  Text.bits a.values

/-- Two assignments of the same inputs are equal if their values are. -/
theorem ext_values {a b : Assignment} (hinputs : a.inputs = b.inputs) (hvalues : a.values = b.values) :
    a = b := by
  cases a
  cases b
  cases hinputs
  cases hvalues
  rfl

end Assignment

namespace Inputs

/-- The assignments numbered from 0 on, in order, as many as there are but at most `k`. There are
none at all if the number of rows is no 64-bit word. -/
def firstAssignments (inputs : Inputs) (k : Nat) : List Assignment :=
  (List.range (min k (inputs.rowCount?.getD 0))).map fun row ↦ .ofRow inputs row.toUInt64

/-- All assignments in the order of their numbers. -/
def assignments (inputs : Inputs) : List Assignment :=
  inputs.firstAssignments (inputs.rowCount?.getD 0)

end Inputs

end TruthTable
