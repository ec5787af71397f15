import TruthTable.Expr.Reading
import TruthTable.Log

/-!
# Outputs

An output is a column of a truth table: an expression under a label. The label is usually the source
text of the expression, and it is shown as it was given, blanks included.

Outputs are read in batches. A batch reads no text twice once it has been read with success: the
outputs found so far are searched for the label first. It also goes on after a text that can not be
read, so that all unreadable texts are reported together, each of them once.
-/

namespace TruthTable

/-- Reads a source and writes down that it was read. -/
def Expr.parseLogged (source : String) : ExceptT ParseError LogM Expr := do
  let e ← Expr.parse source
  log (.parsed source e)
  return e

/-- A column of a truth table. -/
structure Output where
  /-- The text at the head of the column. -/
  label : String
  /-- The expression whose values fill the column. -/
  expr : Expr
  deriving DecidableEq

/-- What a batch of sources has come to. -/
structure Batch where
  /-- The outputs of the sources that could be read, in order. -/
  outputs : List Output := []
  /-- The errors of the others, in order, one for each text. -/
  errors : List ParseError := []

/-- Takes one more source into a batch. -/
def Batch.add (batch : Batch) (source : String) : LogM Batch := do
  match batch.outputs.find? (·.label = source) with
  | some known => return { batch with outputs := batch.outputs ++ [known] }
  | none =>
    match ← (Expr.parseLogged source).run with
    | .ok e => return { batch with outputs := batch.outputs ++ [⟨source, e⟩] }
    | .error error =>
      if batch.errors.any (·.source = source) then return batch
      else return { batch with errors := batch.errors ++ [error] }

namespace Output

/-- The output labelled with a source text, whose expression is read from it. -/
def parse (source : String) : ExceptT ParseError LogM Output := do
  let e ← Expr.parseLogged source
  return ⟨source, e⟩

/-- The outputs of a list of sources, or the fault that some of them can not be read. -/
def parseAll (sources : List String) : ExceptT Fault LogM (List Output) := do
  let batch ← (sources.foldlM Batch.add {} : LogM Batch)
  if batch.errors.isEmpty then return batch.outputs
  else
    log (.unreadable batch.errors.length)
    throw (.unreadable batch.errors)

end Output

end TruthTable
