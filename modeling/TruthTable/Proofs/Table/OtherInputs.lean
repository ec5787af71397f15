import TruthTable.Proofs.Inputs.RowValue
import TruthTable.Proofs.Table.Equivalence

/-!
# The same outputs over other inputs

An output depends on the values of its own variables and on nothing else: not on the other inputs,
and not on the order in which the inputs are declared. Over other inputs the variables stand in
other columns and the rows have other numbers, but rows that give the variables of an output the
same values give the output the same value (`Table.column_complete_eq`).

What this comes to for whole tables depends on where the same values are found, which is said of the
numbers of rows alone (`Inputs.rowValue`). With the inputs in another order a column is in another
order, the same one for all outputs. Behind one more input at the end each value of a column occurs
twice in succession, and behind one more input in front the whole column does.
-/

namespace TruthTable

variable {inputs s t : Inputs} {outputs : List Output} {q r j : Nat} {x : Name}

/-- Where the variables of an expression are declared and have the same values, the expression has a
value, and the same one. -/
theorem Assignment.exists_eval_eq {a b : Assignment} {e : Expr} (ha : a.inputs.Declares e)
    (hb : b.inputs.Declares e) (h : ∀ x ∈ e.leaves, a.get? x.text = b.get? x.text) :
    ∃ u, (e : Rule).eval a = .ok u ∧ (e : Rule).eval b = .ok u := by
  have hvalue : e.value a.valuation = e.value b.valuation := by
    refine Expr.value_congr fun x hx ↦ ?_
    have hx' := h x hx
    rwa [get?_text (ha x hx), get?_text (hb x hx), Option.some.injEq] at hx'
  refine ⟨e.value a.valuation, eval_eq_ok ha, ?_⟩
  rw [hvalue]
  exact eval_eq_ok hb

namespace Table

/-! ### Reading off a table -/

/-- The value of an input in the row with the given number, if there are such a row and input. -/
def input? (table : Table) (r : Nat) (x : Name) : Option Bool :=
  table.rows[r]?.bind fun row ↦ row.inputs[table.inputs.names.idxOf x]?

theorem getElem?_rows_complete (hsize : inputs.size < 64) (hr : r < inputs.rowCount) :
    (complete inputs outputs).rows[r]? =
      some (Row.expected outputs (.ofRow inputs r.toUInt64)) := by
  rw [rows_complete outputs hsize, List.getElem?_map, List.getElem?_range hr]
  rfl

/-- The values in a row are those that its number tells. -/
theorem map_rowValue_eq_values (hsize : inputs.size < 64) (hr : r < inputs.rowCount) :
    inputs.names.map (inputs.rowValue r) = (Assignment.ofRow inputs r.toUInt64).values := by
  rw [Assignment.values_ofRow hsize hr, Inputs.map_rowValue]

/-- In a complete table, the inputs have the values that the number of the row tells. -/
theorem input?_complete (hsize : inputs.size < 64) (hr : r < inputs.rowCount)
    (hx : x ∈ inputs.names) :
    (complete inputs outputs).input? r x = some (inputs.rowValue r x) := by
  have hlt := List.idxOf_lt_length_of_mem hx
  rw [input?, getElem?_rows_complete hsize hr, Option.bind_some]
  show (Assignment.ofRow inputs r.toUInt64).values[inputs.names.idxOf x]? = _
  rw [← map_rowValue_eq_values hsize hr, List.getElem?_map, List.getElem?_eq_getElem hlt,
    List.getElem_idxOf hlt]
  rfl

/-- In a complete table, an output has its value under the values of the inputs. -/
theorem getElem?_column_complete (hsize : inputs.size < 64) (hr : r < inputs.rowCount)
    (hdeclares : ∀ o ∈ outputs, inputs.Declares o.expr) (hj : j < outputs.length) :
    ((complete inputs outputs).column j)[r]? =
      some (outputs[j].expr.value (inputs.rowValue r)) := by
  have hvalue : outputs[j].expr.value (inputs.rowValue r) =
      outputs[j].expr.value (Assignment.ofRow inputs r.toUInt64).valuation :=
    Assignment.value_eq_of_declares (a := .ofRow inputs r.toUInt64)
      (hdeclares _ (List.getElem_mem hj)) (map_rowValue_eq_values hsize hr)
  rw [column_complete hj, Inputs.assignments_eq hsize, List.map_map, List.getElem?_map,
    List.getElem?_range hr, hvalue]
  rfl

/-! ### Complete tables over different inputs -/

section Complete

variable (hs : s.size < 64) (ht : t.size < 64)
  (hdeclares : ∀ o ∈ outputs, s.Declares o.expr ∧ t.Declares o.expr)
include hs ht hdeclares

/-- Rows that give the variables of an output the same values give the output the same value. -/
theorem column_complete_eq (hq : q < s.rowCount) (hr : r < t.rowCount) (hj : j < outputs.length)
    (h : ∀ x ∈ outputs[j].expr.leaves, s.rowValue q x = t.rowValue r x) :
    ((complete s outputs).column j)[q]? = ((complete t outputs).column j)[r]? := by
  rw [getElem?_column_complete hs hq (fun o ho ↦ (hdeclares o ho).1) hj,
    getElem?_column_complete ht hr (fun o ho ↦ (hdeclares o ho).2) hj, Expr.value_congr h]

/-- Whether they do can be read off the tables. -/
theorem column_complete_eq_of_input? (hq : q < s.rowCount) (hr : r < t.rowCount)
    (hj : j < outputs.length) (h : ∀ x ∈ outputs[j].expr.leaves,
      (complete s outputs).input? q x = (complete t outputs).input? r x) :
    ((complete s outputs).column j)[q]? = ((complete t outputs).column j)[r]? := by
  refine column_complete_eq hs ht hdeclares hq hr hj fun x hx ↦ ?_
  obtain ⟨hdeclares₁, hdeclares₂⟩ := hdeclares _ (List.getElem_mem hj)
  have hvalue := h x hx
  rwa [input?_complete hs hq (hdeclares₁ x hx), input?_complete ht hr (hdeclares₂ x hx),
    Option.some.injEq] at hvalue

/-- Rows that give all inputs of the smaller table the same values agree on all outputs. -/
theorem column_complete_eq_of_forall (hq : q < s.rowCount) (hr : r < t.rowCount)
    (h : ∀ x ∈ s.names, s.rowValue q x = t.rowValue r x) (hj : j < outputs.length) :
    ((complete t outputs).column j)[r]? = ((complete s outputs).column j)[q]? := by
  have hleaf := (hdeclares _ (List.getElem_mem hj)).1
  exact (column_complete_eq hs ht hdeclares hq hr hj fun x hx ↦ h x (hleaf x hx)).symm

/-- Over inputs in another order, all columns are permuted in the same way. -/
theorem exists_perm_column_complete (h : t.names.Perm s.names) :
    ∃ σ : Equiv.Perm (Fin (2 ^ s.size)), ∀ r,
      (∀ x ∈ s.names,
        (complete s outputs).input? (σ r) x = (complete t outputs).input? r x) ∧
        ∀ j < outputs.length, ((complete t outputs).column j)[r.val]? =
          ((complete s outputs).column j)[(σ r).val]? := by
  obtain ⟨σ, hσ⟩ := Inputs.exists_perm_rowValue_eq h
  refine ⟨σ, fun r ↦ ?_⟩
  have hcount : t.rowCount = s.rowCount := congrArg (2 ^ ·) h.length_eq
  have hr : r.val < t.rowCount := hcount ▸ r.isLt
  refine ⟨fun x hx ↦ ?_, fun j hj ↦ ?_⟩
  · rw [input?_complete hs (σ r).isLt hx, input?_complete ht hr (h.symm.subset hx), hσ r x hx]
  · exact column_complete_eq_of_forall hs ht hdeclares (σ r).isLt hr (hσ r) hj

/-- Behind one more input at the end, a row is found at half its number. -/
theorem column_complete_append (h : t.names = s.names ++ [x]) (hr : r < t.rowCount)
    (hj : j < outputs.length) :
    ((complete t outputs).column j)[r]? = ((complete s outputs).column j)[r / 2]? := by
  have hcount : t.rowCount = 2 ^ s.size * 2 := by
    rw [Inputs.rowCount, Inputs.size, h, List.length_append]
    rfl
  have hhalf : r / 2 < 2 ^ s.size := by omega
  exact column_complete_eq_of_forall hs ht hdeclares hhalf hr
    (fun y hy ↦ (Inputs.rowValue_of_append h hy r).symm) hj

/-- Behind one more input in front, a row is found at the remainder of its number. -/
theorem column_complete_cons (h : t.names = x :: s.names) (hr : r < t.rowCount)
    (hj : j < outputs.length) :
    ((complete t outputs).column j)[r]? =
      ((complete s outputs).column j)[r % 2 ^ s.size]? := by
  have hmod : r % 2 ^ s.size < 2 ^ s.size := Nat.mod_lt _ (Nat.two_pow_pos _)
  exact column_complete_eq_of_forall hs ht hdeclares hmod hr
    (fun y hy ↦ (Inputs.rowValue_of_cons h hy r).symm) hj

end Complete

/-! ### Two tables of the same outputs -/

/-- How the table `other` follows from the table `table` with the same outputs. -/
structure Determines (table other : Table) : Prop where
  /-- Both have a row for each number below a power of two. -/
  length_rows : table.rows.length = 2 ^ table.inputs.size ∧
    other.rows.length = 2 ^ other.inputs.size
  /-- Rows that give the variables of an output the same values give the output the same value. -/
  column_eq : ∀ q < table.rows.length, ∀ r < other.rows.length,
    ∀ j (hj : j < table.outputs.length),
      (∀ x ∈ table.outputs[j].expr.leaves, table.input? q x = other.input? r x) →
        (table.column j)[q]? = (other.column j)[r]?
  /-- With the inputs in another order, each row is found where the inputs have the same values, so
  that all columns are permuted in the same way. -/
  permuted : other.inputs.names.Perm table.inputs.names →
    ∃ σ : Equiv.Perm (Fin (2 ^ table.inputs.size)), ∀ r,
      (∀ x ∈ table.inputs.names, table.input? (σ r) x = other.input? r x) ∧
        ∀ j < table.outputs.length, (other.column j)[r.val]? = (table.column j)[(σ r).val]?
  /-- With one more input at the end, each value occurs twice in succession. -/
  appended : ∀ x, other.inputs.names = table.inputs.names ++ [x] →
    ∀ r < other.rows.length, ∀ j < table.outputs.length,
      (other.column j)[r]? = (table.column j)[r / 2]?
  /-- With one more input in front, the whole column occurs twice in succession. -/
  prepended : ∀ x, other.inputs.names = x :: table.inputs.names →
    ∀ r < other.rows.length, ∀ j < table.outputs.length,
      (other.column j)[r]? = (table.column j)[r % 2 ^ table.inputs.size]?

/-- Complete tables of the same outputs follow from each other. -/
theorem determines_complete (hs : s.size < 64) (ht : t.size < 64)
    (hdeclares : ∀ o ∈ outputs, s.Declares o.expr ∧ t.Declares o.expr) :
    Determines (complete s outputs) (complete t outputs) := by
  have hrows := length_rows_complete outputs hs
  have hrows' := length_rows_complete outputs ht
  exact {
    length_rows := ⟨hrows, hrows'⟩
    column_eq := fun _ hq _ hr _ hj h ↦
      column_complete_eq_of_input? hs ht hdeclares (hq.trans_eq hrows) (hr.trans_eq hrows') hj h
    permuted := exists_perm_column_complete hs ht hdeclares
    appended := fun _ h _ hr _ hj ↦ column_complete_append hs ht hdeclares h (hr.trans_eq hrows') hj
    prepended := fun _ h _ hr _ hj ↦ column_complete_cons hs ht hdeclares h (hr.trans_eq hrows') hj }

/-- Rows of any inputs that give the variables of an expression the same values give it the same
value, however many inputs there are and in whatever order. If both are within a limit, there are
tables of all outputs that use declared variables only, and each of them follows from the other. -/
theorem outputs_follow_variables (s t : Inputs) :
    (∀ (e : Expr) (q r : RowIndex), s.Declares e → t.Declares e →
      (∀ x ∈ e.leaves, (Assignment.ofRow s q).get? x.text = (Assignment.ofRow t r).get? x.text) →
        ∃ u, (e : Rule).eval (.ofRow s q) = .ok u ∧ (e : Rule).eval (.ofRow t r) = .ok u) ∧
      ∀ (limit : InputLimit) (outputs : List Output) (messages : Array Message),
        Admitted limit s outputs → Admitted limit t outputs → ∃ table other,
          ((enumerate limit s outputs).run.run messages).1 = .ok table ∧
            ((enumerate limit t outputs).run.run messages).1 = .ok other ∧
              (table.inputs = s ∧ table.outputs = outputs) ∧
                (other.inputs = t ∧ other.outputs = outputs) ∧ Determines table other := by
  refine ⟨fun e q r hs ht h ↦ ?_, fun limit outputs messages hs ht ↦ ?_⟩
  · exact Assignment.exists_eval_eq (a := .ofRow s q) (b := .ofRow t r) hs ht h
  · have hdeclares (o : Output) (ho : o ∈ outputs) : s.Declares o.expr ∧ t.Declares o.expr :=
      ⟨hs.declares o ho, ht.declares o ho⟩
    exact ⟨complete s outputs, complete t outputs, run_enumerate_eq_ok_iff.2 ⟨hs, rfl⟩,
      run_enumerate_eq_ok_iff.2 ⟨ht, rfl⟩, ⟨rfl, rfl⟩, ⟨rfl, rfl⟩,
      determines_complete hs.size_lt ht.size_lt hdeclares⟩

/-- The column of `p & !q` over four choices of inputs. -/
example :
    let column (names : String) : Except Fault (List Bool) := do
      let inputs ← Inputs.ofText names
      let e ← (Expr.parse "p & !q").mapError (.unreadable [·])
      let table ← ((enumerate .standard inputs [⟨"p & !q", e⟩]).run.run #[]).1
      return table.column 0
    column "p, q" = .ok [false, false, true, false] ∧
      column "q, p" = .ok [false, true, false, false] ∧
      column "p, q, r" = .ok [false, false, false, false, true, true, false, false] ∧
      column "r, p, q" = .ok [false, false, true, false, false, false, true, false] := by
  decide +kernel

end Table

end TruthTable
