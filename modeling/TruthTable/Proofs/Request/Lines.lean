import TruthTable.Proofs.Request.Faults
import TruthTable.Proofs.Table.Lines

/-!
# The lines of an answer

What is written for a request ends with a separator line and a line for each row, and its header
stands in front of them. The header shows the items of the outputs as they are. Commas and the blanks
around an item are cut off, and no other character is: a newline between two tokens is read over when
the expression is read, and is still there when the table is written. So the header falls into one
line more for each newline inside an item (`Request.run_render_lines`).
-/

namespace TruthTable.Request

variable {request : Request} {messages : Array Message} {table : Table} {text : String}

/-- The table is written over the items: its inputs are those of the request, and so are its
labels. -/
theorem map_label_of_answers (h : request.Answers (.ok table)) :
    table.inputs.names.map Name.text = request.inputItems ∧
      table.outputs.map Output.label = request.outputItems := by
  cases h with
  | built _ hinputs houtputs => exact ⟨hinputs, Output.map_label_of_reads houtputs⟩

/-- There is something to write above the columns. -/
theorem heads_ne_nil_of_answers (h : request.Answers (.ok table)) : table.heads ≠ [] := by
  obtain ⟨hinputs, -⟩ := map_label_of_answers h
  cases h with
  | built hsound =>
    have hitems : request.inputItems ≠ [] := fun hnone ↦ hsound 2 _ (.noInputs hnone)
    simp [Table.heads, hinputs, hitems]

theorem answers_of_run_render (h : (request.render.run.run messages).1 = .ok text) :
    ∃ table, request.Answers (.ok table) ∧ text = table.markdown request.style := by
  rw [run_render_fst, run_build_fst] at h
  rcases hbuild : (request.tryBuild.run.run messages).1 with fault | table
  · rw [hbuild] at h
    cases h
  · rw [hbuild] at h
    exact ⟨table, (answers_iff_tryBuild messages).2 hbuild, (Except.ok.inj h).symm⟩

/-- What is written has a line for each row, which are twice as many for each input, and a separator
line in front of them. The header in front of these has as many newlines as the items of the outputs
have together. So it is a single line exactly if none of them contains a newline. -/
theorem run_render_lines (h : (request.render.run.run messages).1 = .ok text) :
    (∃ header separator body,
      text.toList = header ++ '\n' :: Text.ended '\n' (separator :: body) ∧
        header.count '\n' = (request.outputItems.map (·.toList.count '\n')).sum ∧
          (∀ line ∈ separator :: body, '\n' ∉ line) ∧
            body.length = 2 ^ request.inputItems.length) ∧
      Text.HasLineCount text (2 ^ request.inputItems.length + 2 +
        (request.outputItems.map (·.toList.count '\n')).sum) ∧
      (Text.HasLineCount text (2 ^ request.inputItems.length + 2) ↔
        ∀ item ∈ request.outputItems, '\n' ∉ item.toList) := by
  obtain ⟨table, hanswers, rfl⟩ := answers_of_run_render h
  obtain ⟨hinputs, hlabels⟩ := map_label_of_answers hanswers
  have hheads := heads_ne_nil_of_answers hanswers
  have hrows : table.rows.length = 2 ^ request.inputItems.length := by
    rw [← hinputs, List.length_map]
    cases hanswers with
    | built _ _ _ hlength => exact hlength
  have hnewlines : (table.outputs.map (·.label.toList.count '\n')).sum =
      (request.outputItems.map (·.toList.count '\n')).sum := by
    rw [← hlabels, List.map_map]
    rfl
  have hcount (k : Nat) : Text.HasLineCount (table.markdown request.style) k ↔
      2 ^ request.inputItems.length + 2 +
        (request.outputItems.map (·.toList.count '\n')).sum = k := by
    rw [Text.hasLineCount_iff, Table.pieces?_markdown hheads, Option.map_some, Option.some.injEq,
      Table.length_lines, hrows, hnewlines]
  refine ⟨⟨table.header, table.separator, table.body request.style,
    Table.toList_markdown hheads _, ?_, ?_, ?_⟩, (hcount _).2 rfl, ?_⟩
  · rw [Table.count_newline_header, hnewlines]
  · exact Table.newline_notMem_lines table request.style
  · rw [Table.body, List.length_map, hrows]
  · rw [hcount, Nat.add_eq_left, List.sum_eq_zero_iff_forall_eq_nat, List.forall_mem_map]
    exact forall₂_congr fun item _ ↦ List.count_eq_zero

/-- A newline behind the sign of a negation is read over, and breaks the header: above the two rows
of the table, and the separator, stand two lines. -/
theorem run_render_lines_broken :
    let request : Request := { inputs := "p", outputs := "!\np" }
    let text := "| p | !\np |\n| - | - |\n| F | T |\n| T | F |\n"
    (request.render.run.run #[]).1 = .ok text ∧ Text.HasLineCount text 5 := by
  intro request text
  have h : (request.render.run.run #[]).1 = .ok text := by decide +kernel
  have hinputs : request.inputItems = ["p"] := by decide +kernel
  have houtputs : request.outputItems = ["!\np"] := by decide +kernel
  obtain ⟨-, hcount, -⟩ := run_render_lines h
  rw [hinputs, houtputs] at hcount
  exact ⟨h, hcount⟩

/-- So what is written may have more lines than two and one for each row. -/
theorem not_forall_hasLineCount :
    ¬ ∀ (request : Request) (messages : Array Message) (text : String),
      (request.render.run.run messages).1 = .ok text →
        Text.HasLineCount text (2 ^ request.inputItems.length + 2) := by
  intro hall
  have hcount := hall { inputs := "p", outputs := "!\np" } #[]
    "| p | !\np |\n| - | - |\n| F | T |\n| T | F |\n" (by decide +kernel)
  revert hcount
  decide +kernel

end TruthTable.Request
