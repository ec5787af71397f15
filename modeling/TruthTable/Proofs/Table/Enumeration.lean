import TruthTable.Proofs.Inputs.Valuation
import TruthTable.Proofs.Table.Checks

/-!
# What an enumeration comes to

An enumeration has four endings: there are no inputs, there are too many of them, an output uses an
undeclared variable, or there is a table. `Table.Outcome` lists them as a relation between question
and answer. It does not say how a row is computed but what it is (`Row.IsNumbered`): the bits of its
number, and the values of the outputs under every valuation that gives the inputs these bits.

`Table.enumerate_eq_iff_outcome` says that an enumeration answers what the relation admits and
nothing else. The evaluations in the rows could fail as far as their types tell, and never do: what
is checked once, before the first row, is enough for all of them (`Row.run_compute`). So there is a
table exactly if it is admitted, and it is the complete one (`Table.run_enumerate_eq_ok_iff`).
-/

namespace TruthTable

variable {limit : InputLimit} {inputs : Inputs} {outputs : List Output} {a : Assignment}
  {fault : Fault}

/-! ### Rows -/

namespace Row

/-- The row of an assignment that gives all variables a value. -/
def expected (outputs : List Output) (a : Assignment) : Row where
  inputs := a.values
  outputs := outputs.map fun o ↦ o.expr.value a.valuation

/-- The message about a row. -/
def message (row : Row) : Message :=
  .row row.inputs row.outputs

/-- What row number `r` of a table is. -/
structure IsNumbered (inputs : Inputs) (outputs : List Output) (r : Nat) (row : Row) : Prop where
  /-- The inputs are the lowest bits of the number, the last input being the lowest. -/
  inputs_eq : row.inputs = (List.range inputs.size).map fun i ↦ r.testBit (inputs.size - 1 - i)
  /-- The outputs are the values of their expressions. Some valuation gives the inputs these values,
  since no name is declared twice. -/
  outputs_eq : ∀ v : Name → Bool, inputs.names.map v = row.inputs →
    row.outputs = outputs.map fun o ↦ o.expr.value v

theorem ofAssignment_eq_ok (h : ∀ o ∈ outputs, a.inputs.Declares o.expr) :
    ofAssignment outputs a = .ok (expected outputs a) := by
  have hvalues : (outputs.mapM fun o ↦ (o.expr : Rule).eval a) =
      .ok (outputs.map fun o ↦ o.expr.value a.valuation) := by
    induction outputs with
    | nil => rfl
    | cons o outputs ih =>
      obtain ⟨ho, houtputs⟩ := List.forall_mem_cons.1 h
      rw [List.mapM_cons, Assignment.eval_eq_ok ho, ih houtputs]
      rfl
  rw [ofAssignment, hvalues]
  rfl

/-- Where all variables are declared, computing a row can not fail, and it is logged. -/
theorem run_compute (h : ∀ o ∈ outputs, a.inputs.Declares o.expr) (messages : Array Message) :
    (compute outputs a).run.run messages =
      (.ok (expected outputs a), messages.push (expected outputs a).message) := by
  rw [compute, LogM.run_lift_bind_of_ok (ofAssignment_eq_ok h)]
  rfl

/-- The row with a number is the row of the assignment with this number. -/
theorem isNumbered_iff {r : Nat} {row : Row} (h : ∀ o ∈ outputs, inputs.Declares o.expr)
    (hsize : inputs.size < 64) (hr : r < inputs.rowCount) :
    IsNumbered inputs outputs r row ↔ row = expected outputs (.ofRow inputs r.toUInt64) := by
  have hvalues := Assignment.values_ofRow hsize hr
  have hmap := (Assignment.ofRow inputs r.toUInt64).map_valuation
  constructor
  · rintro ⟨hinputs, houtputs⟩
    rw [← hvalues] at hinputs
    have houtputs := houtputs _ (hmap.trans hinputs.symm)
    rcases row with ⟨_, _⟩
    exact mk.injEq .. ▸ ⟨hinputs, houtputs⟩
  · rintro rfl
    -- another valuation with these inputs differs at undeclared names only
    refine ⟨hvalues, fun v hv ↦ List.map_congr_left fun o ho ↦ ?_⟩
    exact (Assignment.value_eq_of_declares (h o ho) hv).symm

end Row

/-! ### Tables -/

namespace Table

/-- The table whose rows are as they should be. -/
def complete (inputs : Inputs) (outputs : List Output) : Table where
  inputs := inputs
  outputs := outputs
  rows := inputs.assignments.map (Row.expected outputs)

theorem rows_complete (outputs : List Output) (hsize : inputs.size < 64) :
    (complete inputs outputs).rows = (List.range inputs.rowCount).map fun r ↦
      Row.expected outputs (.ofRow inputs r.toUInt64) := by
  rw [complete, Inputs.assignments_eq hsize, List.map_map]
  rfl

theorem length_rows_complete (outputs : List Output) (hsize : inputs.size < 64) :
    (complete inputs outputs).rows.length = inputs.rowCount := by
  rw [rows_complete outputs hsize, List.length_map, List.length_range]

theorem run_enumerate_of_check_error (h : limit.check inputs = .error fault)
    (messages : Array Message) :
    (enumerate limit inputs outputs).run.run messages = (.error fault, messages) := by
  rw [enumerate, LogM.run_lift_bind_of_error h]

theorem run_enumerate_of_checkOutputs_error (h : limit.check inputs = .ok ())
    (houtputs : inputs.checkOutputs outputs = .error fault) (messages : Array Message) :
    (enumerate limit inputs outputs).run.run messages = (.error fault, messages) := by
  rw [enumerate, LogM.run_lift_bind_of_ok h,
    LogM.run_lift_bind_of_error houtputs]

/-- After the checks there is a table, the announcement of its rows, and a message for each. -/
theorem run_enumerate_of_ok (h : limit.check inputs = .ok ())
    (houtputs : inputs.checkOutputs outputs = .ok ()) (messages : Array Message) :
    (enumerate limit inputs outputs).run.run messages =
      (.ok (complete inputs outputs),
        messages.push (.enumerating inputs.rowCount inputs.size outputs.length) ++
          ((complete inputs outputs).rows.map Row.message).toArray) := by
  have hrows : ∀ a ∈ inputs.assignments, ∀ earlier, (Row.compute outputs a).run.run earlier =
      (.ok (Row.expected outputs a), earlier.push (Row.expected outputs a).message) := by
    intro a ha earlier
    refine Row.run_compute ?_ earlier
    rw [Inputs.inputs_of_mem_assignments ha]
    exact Inputs.checkOutputs_eq_ok_iff.1 houtputs
  rw [enumerate, LogM.run_lift_bind_of_ok h,
    LogM.run_lift_bind_of_ok houtputs,
    LogM.run_bind_of_ok (LogM.run_log _ messages), LogM.run_bind_of_ok (LogM.run_mapM hrows),
    LogM.run_pure, complete, List.map_map]
  rfl

/-- The limit admits a table of the outputs over the inputs. -/
structure Admitted (limit : InputLimit) (inputs : Inputs) (outputs : List Output) : Prop where
  /-- There are inputs. -/
  pos : 0 < inputs.size
  /-- There are not too many. -/
  le_limit : inputs.size ≤ limit.value
  /-- The outputs use no other variables. -/
  declares : ∀ o ∈ outputs, inputs.Declares o.expr

theorem Admitted.size_lt (h : Admitted limit inputs outputs) : inputs.size < 64 :=
  InputLimit.size_lt_of_check (InputLimit.check_eq_ok_iff.2 ⟨h.pos, h.le_limit⟩)

/-- An admitted table is enumerated. -/
theorem run_enumerate_of_admitted (h : Admitted limit inputs outputs) (messages : Array Message) :
    (enumerate limit inputs outputs).run.run messages =
      (.ok (complete inputs outputs),
        messages.push (.enumerating inputs.rowCount inputs.size outputs.length) ++
          ((complete inputs outputs).rows.map Row.message).toArray) :=
  run_enumerate_of_ok (InputLimit.check_eq_ok_iff.2 ⟨h.pos, h.le_limit⟩)
    (Inputs.checkOutputs_eq_ok_iff.2 h.declares) messages

/-- A table that is not admitted is refused before anything is written. -/
theorem exists_run_enumerate_of_not_admitted (h : ¬ Admitted limit inputs outputs)
    (messages : Array Message) :
    ∃ fault, (enumerate limit inputs outputs).run.run messages = (.error fault, messages) := by
  rcases hcheck : limit.check inputs with fault | ⟨⟩
  · exact ⟨fault, run_enumerate_of_check_error hcheck messages⟩
  · rcases houtputs : inputs.checkOutputs outputs with fault | ⟨⟩
    · exact ⟨fault, run_enumerate_of_checkOutputs_error hcheck houtputs messages⟩
    · obtain ⟨hpos, hle⟩ := InputLimit.check_eq_ok_iff.1 hcheck
      exact absurd ⟨hpos, hle, Inputs.checkOutputs_eq_ok_iff.1 houtputs⟩ h

/-- There is a table exactly if it is admitted, and it is the complete one. -/
theorem run_enumerate_eq_ok_iff {messages : Array Message} {table : Table} :
    ((enumerate limit inputs outputs).run.run messages).1 = .ok table ↔
      Admitted limit inputs outputs ∧ table = complete inputs outputs := by
  by_cases hadmitted : Admitted limit inputs outputs
  · rw [run_enumerate_of_admitted hadmitted, Except.ok.injEq, eq_comm]
    exact (and_iff_right hadmitted).symm
  · obtain ⟨fault, hfault⟩ := exists_run_enumerate_of_not_admitted hadmitted messages
    rw [hfault]
    exact iff_of_false (fun h ↦ by cases h) fun h ↦ hadmitted h.1

/-- Either nothing is written, or the announcement of a table and its rows in order. -/
theorem run_enumerate_cases (limit : InputLimit) (inputs : Inputs) (outputs : List Output)
    (messages : Array Message) :
    (∃ fault, (enumerate limit inputs outputs).run.run messages = (.error fault, messages)) ∨
      ∃ table : Table, (enumerate limit inputs outputs).run.run messages =
        (.ok table, messages ++ (.enumerating table.rows.length table.inputs.size
          table.outputs.length :: table.rows.map Row.message).toArray) := by
  by_cases hadmitted : Admitted limit inputs outputs
  · refine .inr ⟨complete inputs outputs, ?_⟩
    rw [run_enumerate_of_admitted hadmitted, length_rows_complete outputs hadmitted.size_lt]
    simp [complete]
  · exact .inl (exists_run_enumerate_of_not_admitted hadmitted messages)

/-- The rows are known by what each of them is, if there is the right number of them. -/
theorem isNumbered_rows_iff {rows : List Row} (h : ∀ o ∈ outputs, inputs.Declares o.expr)
    (hsize : inputs.size < 64) :
    (rows.length = inputs.rowCount ∧
      ∀ r (hr : r < rows.length), rows[r].IsNumbered inputs outputs r) ↔
        rows = (complete inputs outputs).rows := by
  rw [rows_complete outputs hsize]
  constructor
  · rintro ⟨hlength, hrows⟩
    refine List.ext_getElem (by simpa using hlength) fun r hr _ ↦ ?_
    rw [List.getElem_map, List.getElem_range]
    exact (Row.isNumbered_iff h hsize (hlength ▸ hr)).1 (hrows r hr)
  · rintro rfl
    refine ⟨by simp, fun r hr ↦ ?_⟩
    rw [List.getElem_map, List.getElem_range]
    exact (Row.isNumbered_iff h hsize (by simpa using hr)).2 rfl

/-- What a table over the given inputs and outputs comes to if `bound` inputs are admitted. The
conditions of the four cases exclude each other. -/
inductive Outcome (bound : Nat) (inputs : Inputs) (outputs : List Output) :
    Except Fault Table → Prop
  /-- There are no inputs. -/
  | noInputs :
    inputs.size = 0 → Outcome bound inputs outputs (.error .noInputs)
  /-- There are more inputs than are admitted. -/
  | tooManyInputs :
    0 < inputs.size → bound < inputs.size →
      Outcome bound inputs outputs (.error (.tooManyInputs inputs.size bound))
  /-- An output uses an undeclared variable. -/
  | undeclared {x : Name} {label : String} :
    0 < inputs.size → inputs.size ≤ bound → inputs.Blames outputs x label →
      Outcome bound inputs outputs (.error (.undeclared x.text label))
  /-- There is a table. -/
  | table {rows : List Row} :
    0 < inputs.size → inputs.size ≤ bound → (∀ o ∈ outputs, inputs.Declares o.expr) →
      rows.length = Nat.pow 2 inputs.size →
        (∀ r (hr : r < rows.length), rows[r].IsNumbered inputs outputs r) →
          Outcome bound inputs outputs (.ok ⟨inputs, outputs, rows⟩)

variable {answer : Except Fault Table}

theorem Outcome.answer_eq (h : Outcome limit.value inputs outputs answer) (messages : Array Message) :
    ((enumerate limit inputs outputs).run.run messages).1 = answer := by
  rcases h with hzero | ⟨hpos, hlarge⟩ | ⟨hpos, hle, hblames⟩ |
    ⟨hpos, hle, hdeclares, hlength, hrows⟩
  · have hcheck : limit.check inputs = .error .noInputs :=
      InputLimit.check_eq_error_iff.2 (.inl ⟨hzero, rfl⟩)
    rw [run_enumerate_of_check_error hcheck]
  · have hcheck := InputLimit.check_eq_error_iff.2 (.inr ⟨⟨hpos, hlarge⟩, rfl⟩)
    rw [run_enumerate_of_check_error hcheck]
  · have hcheck := InputLimit.check_eq_ok_iff.2 ⟨hpos, hle⟩
    have houtputs := Inputs.checkOutputs_eq_error_iff.2 ⟨_, _, hblames, rfl⟩
    rw [run_enumerate_of_checkOutputs_error hcheck houtputs]
  · have hcheck := InputLimit.check_eq_ok_iff.2 ⟨hpos, hle⟩
    have houtputs := Inputs.checkOutputs_eq_ok_iff.2 hdeclares
    have hsize := InputLimit.size_lt_of_check hcheck
    rw [run_enumerate_of_ok hcheck houtputs,
      (isNumbered_rows_iff hdeclares hsize).1 ⟨hlength, hrows⟩]
    rfl

theorem outcome_enumerate (limit : InputLimit) (inputs : Inputs) (outputs : List Output)
    (messages : Array Message) :
    Outcome limit.value inputs outputs ((enumerate limit inputs outputs).run.run messages).1 := by
  rcases hcheck : limit.check inputs with fault | ⟨⟩
  · rw [run_enumerate_of_check_error hcheck]
    rcases InputLimit.check_eq_error_iff.1 hcheck with ⟨hzero, rfl⟩ | ⟨⟨hpos, hlarge⟩, rfl⟩
    · exact .noInputs hzero
    · exact .tooManyInputs hpos hlarge
  · obtain ⟨hpos, hle⟩ := InputLimit.check_eq_ok_iff.1 hcheck
    rcases houtputs : inputs.checkOutputs outputs with fault | ⟨⟩
    · rw [run_enumerate_of_checkOutputs_error hcheck houtputs]
      obtain ⟨x, label, hblames, rfl⟩ := Inputs.checkOutputs_eq_error_iff.1 houtputs
      exact .undeclared hpos hle hblames
    · rw [run_enumerate_of_ok hcheck houtputs]
      have hdeclares := Inputs.checkOutputs_eq_ok_iff.1 houtputs
      have hsize := InputLimit.size_lt_of_check hcheck
      obtain ⟨hlength, hrows⟩ := (isNumbered_rows_iff hdeclares hsize).2 rfl
      exact .table hpos hle hdeclares hlength hrows

/-- Whatever limits were requested and whatever is in the log already: an enumeration answers what
the relation admits for the last requested limit, and the relation admits nothing else. -/
theorem enumerate_eq_iff_outcome (wanted : List Nat) (inputs : Inputs) (outputs : List Output)
    (messages : Array Message) (answer : Except Fault Table) :
    ((enumerate (.requested wanted) inputs outputs).run.run messages).1 = answer ↔
      Outcome ((wanted.getLast?.map (min · 24)).getD 16) inputs outputs answer := by
  rw [← InputLimit.value_requested]
  constructor
  · rintro rfl
    exact outcome_enumerate _ inputs outputs messages
  · exact fun h ↦ h.answer_eq messages

end Table

end TruthTable
