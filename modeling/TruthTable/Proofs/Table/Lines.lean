import TruthTable.Proofs.Text.Pieces
import TruthTable.Table.Markdown

/-!
# The lines of a written table

The header, the separator and the rows of a table are written in three different ways, and all of
them come to the same kind of line: a bar with padded cells behind it that end with bars. The number
of cells is the number of columns in each of them.

The separator and the rows never contain a newline. The header contains those of the labels, so a
table is written in two lines more than it has rows, and in one more for each newline in a label
(`Table.length_lines`).
-/

namespace TruthTable

variable {table : Table} {style : Style}

/-- No newline stands in a name. -/
theorem Name.newline_notMem (x : Name) : '\n' ∉ x.text.toList :=
  notMem_of_isContinue (isContinue_of_isBlank (by decide))

/-- No bar stands in a name. -/
theorem Name.bar_notMem (x : Name) : '|' ∉ x.text.toList :=
  notMem_of_isContinue (isContinue_of_mem_signs (by decide))

/-- Glyphs consist of letters and digits. -/
theorem Style.notMem_glyph {c : Char} (h : c.isAlphanum = false) (style : Style) (b : Bool) :
    c ∉ (style.glyph b).toList := by
  have hall : (style.glyph b).toList.all Char.isAlphanum = true := by
    cases style <;> cases b <;> decide
  intro hmem
  rw [List.all_eq_true.1 hall c hmem] at h
  cases h

/-! ### Two ways to write a line -/

namespace Text

theorem cons_intercalate_append {contents : List (List Char)} (h : contents ≠ []) :
    ' ' :: (" | ".toList.intercalate contents ++ " |".toList) =
      ended '|' (contents.map padded) := by
  induction contents with
  | nil => exact absurd rfl h
  | cons cs contents ih =>
    rw [List.map_cons, ended_cons, padded]
    by_cases hne : contents = []
    · subst hne
      simp [ended]
    · rw [← ih hne, List.intercalate_cons_of_ne_nil hne]
      simp

/-- Bars in front of the contents, behind them, and between two of them. -/
theorem toList_intercalate_bar {contents : List String} (h : contents ≠ []) :
    ("| " ++ String.intercalate " | " contents ++ " |\n").toList =
      barred (contents.map String.toList) ++ ['\n'] := by
  have hne : contents.map String.toList ≠ [] := by simpa using h
  rw [barred, ← cons_intercalate_append hne]
  simp [String.toList_intercalate]

/-- A bar in front, and one behind each of the contents. -/
theorem toList_join_bar (contents : List String) :
    ("|" ++ String.join (contents.map fun cs ↦ " " ++ cs ++ " |") ++ "\n").toList =
      barred (contents.map String.toList) ++ ['\n'] := by
  simp [barred, ended, padded, String.toList_join, List.flatMap_map]

end Text

/-- The line with the given truth values. -/
def Style.line (style : Style) (values : List Bool) : List Char :=
  Text.barred (values.map fun b ↦ (style.glyph b).toList)

theorem Style.newline_notMem_line (style : Style) (values : List Bool) :
    '\n' ∉ style.line values := by
  refine Text.newline_notMem_barred fun cs hcs ↦ ?_
  obtain ⟨b, -, rfl⟩ := List.mem_map.1 hcs
  exact style.notMem_glyph (by decide) b

namespace Table

/-- The header line. -/
def header (table : Table) : List Char :=
  Text.barred (table.heads.map String.toList)

/-- The separator line. -/
def separator (table : Table) : List Char :=
  Text.barred (List.replicate table.width ['-'])

/-- The lines of the rows. -/
def body (table : Table) (style : Style) : List (List Char) :=
  table.rows.map fun row ↦ style.line row.values

theorem toList_headerLine (h : table.heads ≠ []) :
    table.headerLine.toList = table.header ++ ['\n'] :=
  Text.toList_intercalate_bar h

theorem toList_separatorLine (table : Table) :
    table.separatorLine.toList = table.separator ++ ['\n'] := by
  have hcells : List.replicate table.width " - |" =
      (List.replicate table.width "-").map fun cs ↦ " " ++ cs ++ " |" := by
    rw [List.map_replicate]
    rfl
  rw [separatorLine, hcells, Text.toList_join_bar, List.map_replicate]
  rfl

theorem toList_rowLine (style : Style) (row : Row) :
    (rowLine style row).toList = style.line row.values ++ ['\n'] := by
  have hcells := Text.toList_join_bar (row.values.map style.glyph)
  rwa [List.map_map, List.map_map] at hcells

/-- The text of a table: the header, and behind it lines that end with newlines. -/
theorem toList_markdown (h : table.heads ≠ []) (style : Style) :
    (table.markdown style).toList =
      table.header ++ '\n' :: Text.ended '\n' (table.separator :: table.body style) := by
  have hbody : (String.join (table.rows.map (rowLine style))).toList =
      Text.ended '\n' (table.body style) := by
    rw [String.toList_join, List.flatMap_map, Text.ended, body, List.flatMap_map]
    exact congrArg (table.rows.flatMap ·) (funext (toList_rowLine style))
  rw [markdown, String.toList_append, String.toList_append, toList_headerLine h,
    toList_separatorLine, hbody, Text.ended_cons, List.append_assoc, List.append_assoc,
    List.append_assoc]
  rfl

/-! ### Newlines -/

theorem newline_notMem_separator (table : Table) : '\n' ∉ table.separator := by
  refine Text.newline_notMem_barred fun cs hcs ↦ ?_
  rw [(List.mem_replicate.1 hcs).2]
  decide

theorem newline_notMem_lines (table : Table) (style : Style) :
    ∀ line ∈ table.separator :: table.body style, '\n' ∉ line := by
  rw [List.forall_mem_cons, body, List.forall_mem_map]
  exact ⟨table.newline_notMem_separator, fun row _ ↦ style.newline_notMem_line row.values⟩

/-- The newlines of the header are those of the labels. -/
theorem count_newline_header (table : Table) :
    table.header.count '\n' = (table.outputs.map (·.label.toList.count '\n')).sum := by
  have hnames : (table.inputs.names.map (·.text.toList.count '\n')).sum = 0 := by
    rw [List.sum_eq_zero_iff_forall_eq_nat, List.forall_mem_map]
    exact fun x _ ↦ List.count_eq_zero.2 x.newline_notMem
  rw [header, Text.count_newline_barred, heads, List.map_append, List.map_append, List.sum_append]
  simpa [List.map_map, Function.comp_def] using hnames

/-- The lines of the written table: those into which the header falls, the separator, and one for
each row. -/
def lines (table : Table) (style : Style) : List (List Char) :=
  table.header.splitOn '\n' ++ table.separator :: table.body style

theorem length_lines (table : Table) (style : Style) :
    (table.lines style).length =
      table.rows.length + 2 + (table.outputs.map (·.label.toList.count '\n')).sum := by
  rw [lines, List.length_append, Text.length_splitOn, count_newline_header, List.length_cons, body,
    List.length_map]
  omega

theorem pieces?_markdown (h : table.heads ≠ []) (style : Style) :
    Text.pieces? '\n' (table.markdown style).toList = some (table.lines style) := by
  rw [toList_markdown h, Text.pieces?_append,
    Text.pieces?_ended (table.newline_notMem_lines style)]
  rfl

end Table

end TruthTable
