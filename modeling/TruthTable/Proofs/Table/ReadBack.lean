import TruthTable.Proofs.Table.Enumeration
import TruthTable.Proofs.Table.Lines

/-!
# Reading a written table back

The text of a table holds everything that stands in its rows. `Style.rows?` reads them off the end of
the text, for which it has to know the style and the number of inputs: as many lines as there are
rows, split at the bars, the blanks cut off, and each glyph replaced by the value it stands for. What
the header is like does not matter for this, so labels may contain bars and newlines.

`Text.heads?` reads the names and labels off the first line. Here labels without bars and newlines
are needed, for otherwise the header has other cells or is not in one line.

The tables that an enumeration answers can be read back in both ways
(`Table.IsEnumerated.reads_back`).
-/

namespace TruthTable

variable {table : Table} {style : Style}

/-! ### Readers -/

/-- The row with the given values, the first `n` of which are those of its inputs. -/
def Row.ofValues (n : Nat) (values : List Bool) : Row where
  inputs := values.take n
  outputs := values.drop n

theorem Row.ofValues_values {row : Row} {n : Nat} (h : row.inputs.length = n) :
    ofValues n row.values = row := by
  rw [ofValues, values, ← h, List.take_left, List.drop_left]

namespace Style

/-- The truth value that a glyph stands for. -/
def value? (style : Style) (cs : List Char) : Option Bool :=
  [false, true].find? fun b ↦ (style.glyph b).toList = cs

theorem value?_eq_some_iff {cs : List Char} {b : Bool} :
    style.value? cs = some b ↔ (style.glyph b).toList = cs := by
  constructor
  · intro h
    have hglyph := List.find?_some h
    exact of_decide_eq_true hglyph
  · rintro rfl
    cases style <;> cases b <;> decide

/-- The truth value in a cell. -/
def cell? (style : Style) (cs : List Char) : Option Bool :=
  style.value? (Text.trim cs)

/-- The truth values in the cells of a line. -/
def values? (style : Style) (line : List Char) : Option (List Bool) :=
  (Text.cells? line).bind (·.mapM style.cell?)

/-- The rows in the last `2 ^ n` lines of a text, for a table with `n` inputs. -/
def rows? (style : Style) (n : Nat) (text : String) : Option (List Row) := do
  let lines ← Text.pieces? '\n' text.toList
  let rows ← (lines.drop (lines.length - 2 ^ n)).mapM style.values?
  return rows.map (Row.ofValues n)

end Style

/-- The contents of the cells in the first line of a text. -/
def Text.heads? (text : String) : Option (List String) := do
  let lines ← pieces? '\n' text.toList
  let contents ← lines.head?.bind contents?
  return contents.map String.ofList

/-! ### Reading what was written -/

namespace Style

theorem cell?_padded (style : Style) (b : Bool) :
    style.cell? (Text.padded (style.glyph b).toList) = some b := by
  have htrim : Text.trim (Text.padded (style.glyph b).toList) = (style.glyph b).toList := by
    cases style <;> cases b <;> decide
  rw [cell?, htrim, value?_eq_some_iff]

theorem cells?_line (style : Style) (values : List Bool) :
    Text.cells? (style.line values) =
      some (values.map fun b ↦ Text.padded (style.glyph b).toList) := by
  rw [line, Text.cells?_barred, List.map_map]
  · rfl
  · rw [List.forall_mem_map]
    exact fun b _ ↦ style.notMem_glyph (by decide) b

theorem values?_line (style : Style) (values : List Bool) :
    style.values? (style.line values) = some values := by
  rw [values?, cells?_line, Option.bind_some, Text.mapM_map_eq_some style.cell?_padded,
    List.map_id']

end Style

/-! ### Tables -/

namespace Table

/-- Some enumeration answers the table. -/
def IsEnumerated (table : Table) : Prop :=
  ∃ limit inputs outputs messages,
    ((enumerate limit inputs outputs).run.run messages).1 = .ok table

/-- A table has columns, twice as many rows for each input, and a value in each cell. -/
structure IsFull (table : Table) : Prop where
  /-- There are inputs. -/
  pos : 0 < table.inputs.size
  /-- There is a row for each number. -/
  length_rows : table.rows.length = 2 ^ table.inputs.size
  /-- In each row, each input has a value. -/
  length_inputs : ∀ row ∈ table.rows, row.inputs.length = table.inputs.size
  /-- In each row, each output has a value. -/
  length_outputs : ∀ row ∈ table.rows, row.outputs.length = table.outputs.length

theorem IsEnumerated.isFull (h : table.IsEnumerated) : table.IsFull := by
  obtain ⟨limit, inputs, outputs, messages, h⟩ := h
  obtain ⟨hadmitted, rfl⟩ := run_enumerate_eq_ok_iff.1 h
  refine ⟨hadmitted.pos, length_rows_complete outputs hadmitted.size_lt, ?_, ?_⟩
  · intro row hrow
    obtain ⟨a, ha, rfl⟩ := List.mem_map.1 hrow
    exact Inputs.inputs_of_mem_assignments ha ▸ a.length_values
  · intro row hrow
    obtain ⟨a, -, rfl⟩ := List.mem_map.1 hrow
    exact List.length_map _

/-- The text of a table consists of these lines. -/
structure HasLines (table : Table) (style : Style) (separator : List Char)
    (body : List (List Char)) : Prop where
  /-- First the header, which shows the names and then the labels as they are; then the separator
  and the body. -/
  text_eq : (table.markdown style).toList =
    Text.barred ((table.inputs.names.map Name.text ++ table.outputs.map Output.label).map
      String.toList) ++ '\n' :: Text.ended '\n' (separator :: body)
  /-- The separator and the body fall into no more lines. -/
  newline_notMem : ∀ line ∈ separator :: body, '\n' ∉ line
  /-- They have as many cells as there are columns. -/
  length_cells : ∀ line ∈ separator :: body,
    ∃ cells, Text.cells? line = some cells ∧
      cells.length = table.inputs.size + table.outputs.length
  /-- The body has a line for each row. -/
  length_body : body.length = 2 ^ table.inputs.size
  /-- In its cells stand the values of the row, the inputs first. -/
  values_body : body.map style.values? =
    table.rows.map fun row ↦ some (row.inputs ++ row.outputs)

namespace IsFull

theorem heads_ne_nil (h : table.IsFull) : table.heads ≠ [] := by
  have hnames : table.inputs.names ≠ [] := List.ne_nil_of_length_pos h.pos
  simp [heads, hnames]

theorem length_values (h : table.IsFull) {row : Row} (hrow : row ∈ table.rows) :
    row.values.length = table.inputs.size + table.outputs.length := by
  rw [Row.values, List.length_append, h.length_inputs row hrow, h.length_outputs row hrow]

theorem hasLines (h : table.IsFull) (style : Style) :
    table.HasLines style table.separator (table.body style) where
  text_eq := toList_markdown h.heads_ne_nil style
  newline_notMem := table.newline_notMem_lines style
  length_cells := by
    refine List.forall_mem_cons.2 ⟨?_, ?_⟩
    · refine ⟨_, Text.cells?_barred fun cs hcs ↦ ?_, ?_⟩
      · rw [(List.mem_replicate.1 hcs).2]
        decide
      · rw [List.length_map, List.length_replicate, width]
    · rw [body, List.forall_mem_map]
      intro row hrow
      exact ⟨_, style.cells?_line row.values, by rw [List.length_map, h.length_values hrow]⟩
  length_body := by
    rw [body, List.length_map, h.length_rows]
  values_body := by
    rw [body, List.map_map]
    refine List.map_congr_left fun row _ ↦ ?_
    exact style.values?_line row.values

/-- The last lines are those of the rows. -/
theorem drop_lines (h : table.IsFull) (style : Style) :
    (table.lines style).drop ((table.lines style).length - 2 ^ table.inputs.size) =
      table.body style := by
  have hfront : table.lines style =
      (table.header.splitOn '\n' ++ [table.separator]) ++ table.body style := by
    rw [lines, List.append_assoc]
    rfl
  rw [hfront, List.length_append, (h.hasLines style).length_body, Nat.add_sub_cancel,
    List.drop_left]

/-- The rows can be read off the text. -/
theorem rows?_markdown (h : table.IsFull) (style : Style) :
    style.rows? table.inputs.size (table.markdown style) = some table.rows := by
  have hvalues : (table.body style).mapM style.values? = some (table.rows.map Row.values) := by
    rw [body, Text.mapM_map_eq_some fun row : Row ↦ style.values?_line row.values]
  have hrows : (table.rows.map Row.values).map (Row.ofValues table.inputs.size) = table.rows := by
    rw [List.map_map]
    refine (List.map_congr_left fun row hrow ↦ ?_).trans (List.map_id table.rows)
    exact Row.ofValues_values (h.length_inputs row hrow)
  rw [Style.rows?, pieces?_markdown h.heads_ne_nil style, Option.bind_eq_bind, Option.bind_some,
    h.drop_lines style, hvalues, Option.bind_eq_bind, Option.bind_some, hrows]
  rfl

/-- The names and labels can be read off the text if no label brings a bar or a newline into the
header. -/
theorem heads?_markdown (h : table.IsFull) (style : Style)
    (hlabels : ∀ o ∈ table.outputs, '|' ∉ o.label.toList ∧ '\n' ∉ o.label.toList) :
    Text.heads? (table.markdown style) = some table.heads := by
  have hheads : ∀ cs ∈ table.heads.map String.toList, '|' ∉ cs ∧ '\n' ∉ cs := by
    rw [List.forall_mem_map, heads, List.forall_mem_append, List.forall_mem_map,
      List.forall_mem_map]
    exact ⟨fun x _ ↦ ⟨x.bar_notMem, x.newline_notMem⟩, hlabels⟩
  have hfirst : (table.lines style).head? = some table.header := by
    have hnewline : '\n' ∉ table.header :=
      Text.newline_notMem_barred fun cs hcs ↦ (hheads cs hcs).2
    rw [lines, List.splitOn_eq_singleton hnewline]
    rfl
  have hcontents : Text.contents? table.header = some (table.heads.map String.toList) :=
    Text.contents?_barred fun cs hcs ↦ (hheads cs hcs).1
  have htexts : (table.heads.map String.toList).map String.ofList = table.heads := by
    rw [List.map_map]
    exact (List.map_congr_left fun head _ ↦ String.ofList_toList).trans (List.map_id _)
  rw [Text.heads?, pieces?_markdown h.heads_ne_nil style, Option.bind_eq_bind, Option.bind_some,
    hfirst, Option.bind_some, hcontents, Option.bind_some, htexts]
  rfl

end IsFull

/-- The text of a table that was enumerated consists of a header line, a separator line and a line
for each row. Whatever the labels are, an enumerated table with as many inputs and the same text has
the same rows. If no label contains a bar or a newline, the names and labels can be read off the
header. -/
theorem IsEnumerated.reads_back (h : table.IsEnumerated) (style : Style) :
    (∃ separator body, table.HasLines style separator body) ∧
      (∀ other : Table, other.IsEnumerated → other.inputs.size = table.inputs.size →
        other.markdown style = table.markdown style → other.rows = table.rows) ∧
      ((∀ o ∈ table.outputs, '|' ∉ o.label.toList ∧ '\n' ∉ o.label.toList) →
        Text.heads? (table.markdown style) =
          some (table.inputs.names.map Name.text ++ table.outputs.map Output.label)) := by
  refine ⟨⟨_, _, h.isFull.hasLines style⟩, ?_, h.isFull.heads?_markdown style⟩
  intro other hother hsize htext
  have hrows := hother.isFull.rows?_markdown style
  rw [hsize, htext, h.isFull.rows?_markdown style] at hrows
  exact (Option.some.inj hrows).symm

/-- The table of `!a` is found again in its text. -/
theorem IsEnumerated.reads_back_negation :
    let a : Name := ⟨"a", by decide⟩
    let table : Table :=
      { inputs := Inputs.empty.push a (by decide +kernel)
        outputs := [⟨"!a", .not (.var a)⟩]
        rows := [⟨[false], [true]⟩, ⟨[true], [false]⟩] }
    table.IsEnumerated ∧ (∃ separator body, table.HasLines .initials separator body) ∧
      (∀ other : Table, other.IsEnumerated → other.inputs.size = 1 →
        other.markdown .initials = "| a | !a |\n| - | - |\n| F | T |\n| T | F |\n" →
          other.rows = table.rows) ∧
      Text.heads? (table.markdown .initials) = some ["a", "!a"] := by
  intro a table
  have h : table.IsEnumerated :=
    ⟨.standard, table.inputs, table.outputs, #[], by decide +kernel⟩
  obtain ⟨hlines, hrows, hheads⟩ := IsEnumerated.reads_back h .initials
  refine ⟨h, hlines, fun other hother hsize htext ↦ ?_, hheads (by decide +kernel)⟩
  exact hrows other hother hsize (htext.trans (by decide +kernel))

/-- The rows are also found behind a header that has too many cells and falls into two lines. -/
example :
    Style.initials.rows? 1 "| p | p |\n!p |\n| - | - |\n| F | T |\n| T | T |\n" =
      some [⟨[false], [true]⟩, ⟨[true], [true]⟩] := by
  decide +kernel

end Table

end TruthTable
