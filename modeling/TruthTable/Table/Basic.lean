import TruthTable.Output
import TruthTable.Rule

/-!
# Truth tables

A table has a row for each assignment of its inputs, in the order of their numbers, and in each row
the values of its outputs. The number of rows doubles with every input, so a table is only begun
within an `InputLimit`, and no limit is larger than 24.

`Table.enumerate` asks all its questions before it computes the first row: are there inputs, are
they within the limit, are all names used by the outputs declared. What it has checked is enough for
every row to have a value at every output, so a table is complete or there is none.
-/

namespace TruthTable

/-! ### Limits -/

/-- The largest number of inputs that any limit admits. -/
def InputLimit.largest : Nat := 24

/-- The number of inputs up to which a table is begun. -/
structure InputLimit where
  /-- The number. -/
  value : Nat
  /-- It is not beyond all reason. -/
  le_largest : value ≤ InputLimit.largest
  deriving DecidableEq

namespace InputLimit

/-- The limit that holds unless another one is asked for. -/
def standard : InputLimit := ⟨16, by decide⟩

instance : Inhabited InputLimit := ⟨standard⟩

/-- The limit nearest to the wanted number. -/
def ofNat (wanted : Nat) : InputLimit :=
  ⟨min wanted largest, Nat.min_le_right _ _⟩

/-- Succeeds if there are inputs and not too many. -/
def check (limit : InputLimit) (inputs : Inputs) : Except Fault Unit :=
  if inputs.size = 0 then .error .noInputs
  else if limit.value < inputs.size then .error (.tooManyInputs inputs.size limit.value)
  else .ok ()

end InputLimit

/-- Succeeds if all variables of all outputs are declared. The label of an output stands for its
expression in the fault. -/
def Inputs.checkOutputs (inputs : Inputs) : List Output → Except Fault Unit
  | [] => .ok ()
  | output :: outputs =>
    match inputs.firstUndeclared? output.expr with
    | some x => .error (.undeclared x.text output.label)
    | none => inputs.checkOutputs outputs

/-! ### Rows -/

/-- A row of a table. -/
structure Row where
  /-- The values of the inputs, in order. -/
  inputs : List Bool
  /-- The values of the outputs, in order. -/
  outputs : List Bool
  deriving DecidableEq

namespace Row

/-- The values of all columns, the inputs first. -/
def values (row : Row) : List Bool :=
  row.inputs ++ row.outputs

/-- The row of an assignment. -/
def ofAssignment (outputs : List Output) (a : Assignment) : Except Fault Row := do
  let values ← outputs.mapM fun output ↦ (output.expr : Rule).eval a
  return ⟨a.values, values⟩

/-- The row of an assignment; the row is logged. -/
def compute (outputs : List Output) (a : Assignment) : ExceptT Fault LogM Row := do
  let row ← ofAssignment outputs a
  log (.row row.inputs row.outputs)
  return row

/-- The assignment that gives the values of the inputs, one by one, to the names of `inputs`. If
there are fewer values than names, the remaining names are false. -/
def assignment (row : Row) (inputs : Inputs) : Except Fault Assignment :=
  (inputs.names.zip row.inputs).foldlM (fun a p ↦ a.set p.1.text p.2) (.allFalse inputs)

end Row

/-! ### Tables -/

/-- A truth table. -/
structure Table where
  /-- The inputs, which head the first columns. -/
  inputs : Inputs
  /-- The outputs, which head the columns after them. -/
  outputs : List Output
  /-- The rows in the order of their numbers. -/
  rows : List Row
  deriving DecidableEq

namespace Table

/-- The number of columns. -/
def width (table : Table) : Nat :=
  table.inputs.size + table.outputs.length

/-- The values of the output at the given position, from the first row to the last. -/
def column (table : Table) (j : Nat) : List Bool :=
  table.rows.map fun row ↦ row.outputs.getD j false

/-- The table of the given outputs over the given inputs. -/
def enumerate (limit : InputLimit) (inputs : Inputs) (outputs : List Output) :
    ExceptT Fault LogM Table := do
  limit.check inputs
  inputs.checkOutputs outputs
  log (.enumerating inputs.rowCount inputs.size outputs.length)
  let rows ← inputs.assignments.mapM (Row.compute outputs)
  return ⟨inputs, outputs, rows⟩

end Table

end TruthTable
