import TruthTable.Table.Markdown

/-!
# Requests

A request asks for a truth table in the form in which a person would type it: one text with the
names of the inputs and one with the expressions of the outputs, both with commas between the items.

Several things may be wrong with a request at once, and one of them is reported: first all outputs
that can not be read, then the first input that is no name or is repeated, then what keeps the table
from being begun. A refused request is logged as such, last of all.
-/

namespace TruthTable

/-- A request for a truth table. -/
structure Request where
  /-- The names of the inputs, with commas between them. -/
  inputs : String
  /-- The expressions of the outputs, with commas between them. -/
  outputs : String
  /-- The glyphs of the written table. -/
  style : Style := default
  /-- The number of inputs up to which a table is begun. -/
  limit : InputLimit := default
  deriving DecidableEq

namespace Request

/-- The table asked for. -/
def tryBuild (request : Request) : ExceptT Fault LogM Table := do
  let outputs ← Output.parseAll (Text.CommaList.items request.outputs)
  let inputs ← Inputs.ofText request.inputs
  Table.enumerate request.limit inputs outputs

/-- The table asked for; a refusal is logged. -/
def build (request : Request) : ExceptT Fault LogM Table :=
  tryCatch request.tryBuild fun fault ↦ do
    log (.rejected fault)
    throw fault

/-- The table asked for, written in the chosen style. -/
def render (request : Request) : ExceptT Fault LogM String := do
  let table ← request.build
  return table.markdown request.style

end Request

end TruthTable
