import TruthTable.Style
import TruthTable.Table.Basic

/-!
# Tables in markdown

A table is written as a markdown table: a header line with the names of the inputs and the labels of
the outputs, a separator line, and a line for each row. Every line begins and ends with a bar and is
followed by a newline.

Labels are copied as they are. A label that contains a bar, as one with the sign `|` for *or* does,
therefore adds cells to the header line, and one that contains a newline breaks it.
-/

namespace TruthTable.Table

/-- The texts at the heads of the columns. -/
def heads (table : Table) : List String :=
  table.inputs.names.map Name.text ++ table.outputs.map Output.label

/-- The header line. -/
def headerLine (table : Table) : String :=
  "| " ++ String.intercalate " | " table.heads ++ " |\n"

/-- The line between the header and the rows. -/
def separatorLine (table : Table) : String :=
  "|" ++ String.join (List.replicate table.width " - |") ++ "\n"

/-- The line of a row. -/
def rowLine (style : Style) (row : Row) : String :=
  "|" ++ String.join (row.values.map fun b ↦ " " ++ style.glyph b ++ " |") ++ "\n"

/-- The whole table. -/
def markdown (table : Table) (style : Style) : String :=
  table.headerLine ++ table.separatorLine ++ String.join (table.rows.map (rowLine style))

end TruthTable.Table
