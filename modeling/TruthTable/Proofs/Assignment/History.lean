import Mathlib.Data.Finset.Basic
import Mathlib.Data.Finset.Range
import TruthTable.Proofs.Inputs.Declaring
import TruthTable.Proofs.Inputs.Valuation

/-!
# Assignments after a history of calls

An assignment is kept as a state, and inputs are given values in it by one call after the other.
Some calls succeed, some name what is not declared and are refused. `Assignment.after` is the state
that a history of calls leads to; it is begun with all inputs false or with the number of a row.

What such a state is worth does not depend on how it was reached. It is the valuation that gives a
name what the last call for this name asked for (`after_eq_ofValuation`), restricted to the declared
names, and a valuation is all that an assignment shows (`Binds`). So two histories lead to equal
assignments exactly if they give every name the same value: no call that was refused, undone or
repeated leaves a trace.

Seen from the positions, an assignment is the set of those that are true, and a call that succeeds
puts one position into this set or takes it out (`Call`).
-/

namespace TruthTable

/-- A name that is not declared has no position. -/
theorem Inputs.position?_eq_none {inputs : Inputs} {name : String}
    (h : name ∉ inputs.names.map Name.text) : inputs.position? name = none := by
  rwa [mem_map_text_iff, contains, Option.not_isSome_iff_eq_none] at h

namespace Assignment

variable {a b : Assignment} {inputs : Inputs} {x : Name} {name : String} {v w : Name → Bool}

/-! ### Assignments and valuations -/

/-- Values of names that are not declared do not matter. -/
theorem ofValuation_congr (h : ∀ x ∈ inputs.names, v x = w x) :
    ofValuation inputs v = ofValuation inputs w :=
  ext_values rfl (List.map_congr_left h)

theorem valueAt_ofValuation {i : Nat} (hi : i < inputs.names.length) :
    (ofValuation inputs v).valueAt i = v inputs.names[i] := by
  show (inputs.names.map v).getD i false = _
  rw [List.getD_eq_getElem?_getD, List.getElem?_map, List.getElem?_eq_getElem hi]
  rfl

theorem valuation_ofValuation (hx : x ∈ inputs.names) :
    (ofValuation inputs v).valuation x = v x := by
  have hlt := List.idxOf_lt_length_of_mem hx
  show (ofValuation inputs v).valueAt (inputs.names.idxOf x) = _
  rw [valueAt_ofValuation hlt, List.getElem_idxOf hlt]

theorem get?_ofValuation (hx : x ∈ inputs.names) :
    (ofValuation inputs v).get? x.text = some (v x) := by
  rw [get?_text hx, valuation_ofValuation hx]

/-- There is no value for a name that is not declared. -/
theorem get?_eq_none (h : name ∉ a.inputs.names.map Name.text) : a.get? name = none := by
  rw [get?, Inputs.position?_eq_none h]
  rfl

/-- There is no value at a position beyond the inputs. -/
theorem valueAt_of_size_le {i : Nat} (hi : a.inputs.size ≤ i) : a.valueAt i = false := by
  rw [← a.length_values] at hi
  rw [valueAt, List.getD_eq_getElem?_getD, List.getElem?_eq_none hi]
  rfl

/-- An assignment is known by its inputs and what it answers to names. -/
theorem eq_iff_get? :
    a = b ↔ a.inputs = b.inputs ∧ ∀ name, a.get? name = b.get? name := by
  constructor
  · rintro rfl
    exact ⟨rfl, fun _ ↦ rfl⟩
  · rintro ⟨hinputs, hget⟩
    refine ext_values hinputs ?_
    rw [← a.map_valuation, ← b.map_valuation, hinputs]
    refine List.map_congr_left fun x hx ↦ ?_
    have hx' := hget x.text
    rw [get?_text (hinputs ▸ hx), get?_text hx] at hx'
    exact Option.some.inj hx'

/-- The assignment gives each of the inputs the value that `v` gives to its name, and no value to
anything else. All ways to look at it agree on that. -/
structure Binds (inputs : Inputs) (v : Name → Bool) (a : Assignment) : Prop where
  /-- It is an assignment of these inputs. -/
  inputs_eq : a.inputs = inputs
  /-- By name, an input has its value. -/
  get?_text : ∀ x ∈ inputs.names, a.get? x.text = some (v x)
  /-- By name, nothing else has a value. -/
  get?_eq_none : ∀ name ∉ inputs.names.map Name.text, a.get? name = none
  /-- By position, an input has its value. -/
  valueAt_eq : ∀ i (hi : i < inputs.names.length), a.valueAt i = v inputs.names[i]
  /-- By position, there is nothing that is true beyond the inputs. -/
  valueAt_eq_false : ∀ i, inputs.size ≤ i → a.valueAt i = false
  /-- The values stand in the order of the inputs. -/
  values_eq : a.values = inputs.names.map v
  /-- So do the names with their values. -/
  pairs_eq : a.pairs = inputs.names.map fun x ↦ (x, v x)
  /-- So do the digits of the values. -/
  text_eq : a.text = String.ofList (inputs.names.map fun x ↦ if v x then '1' else '0')

theorem binds_ofValuation (inputs : Inputs) (v : Name → Bool) :
    Binds inputs v (ofValuation inputs v) where
  inputs_eq := rfl
  get?_text _ := get?_ofValuation
  get?_eq_none _ hname := Assignment.get?_eq_none (a := ofValuation inputs v) hname
  valueAt_eq _ := valueAt_ofValuation
  valueAt_eq_false _ hi := valueAt_of_size_le (a := ofValuation inputs v) hi
  values_eq := rfl
  pairs_eq := List.map_prod_left_eq_zip.symm
  text_eq := by
    show Text.bits (inputs.names.map v) = _
    rw [Text.bits, List.map_map]
    rfl

/-! ### The positions that are true -/

/-- The positions of the inputs that are true. -/
def truePositions (a : Assignment) : Finset Nat :=
  (Finset.range a.inputs.size).filter fun i ↦ a.valueAt i = true

theorem mem_truePositions {i : Nat} : i ∈ a.truePositions ↔ a.valueAt i = true := by
  rw [truePositions, Finset.mem_filter, Finset.mem_range, and_iff_right_iff_imp]
  intro hi
  by_contra hlt
  rw [valueAt_of_size_le (Nat.le_of_not_lt hlt)] at hi
  cases hi

/-- Another value for one name is another value at its position. -/
theorem valueAt_update (hx : x ∈ a.inputs.names) (value : Bool) (i : Nat) :
    (ofValuation a.inputs (Function.update a.valuation x value)).valueAt i =
      if i = a.inputs.names.idxOf x then value else a.valueAt i := by
  have hlt := List.idxOf_lt_length_of_mem hx
  by_cases hi : i < a.inputs.names.length
  · have hname : a.inputs.names[i] = x ↔ i = a.inputs.names.idxOf x := by
      constructor
      · rintro rfl
        exact (a.inputs.nodup_names.idxOf_getElem i hi).symm
      · rintro rfl
        exact List.getElem_idxOf hlt
    rw [valueAt_ofValuation hi, Function.update_apply, valuation_getElem hi]
    simp only [hname]
  · have hsize : a.inputs.size ≤ i := Nat.le_of_not_lt hi
    rw [valueAt_of_size_le (a := ofValuation _ _) hsize, valueAt_of_size_le hsize,
      if_neg (by omega)]

/-- It puts this position into the set of those that are true, or takes it out. -/
theorem truePositions_update (hx : x ∈ a.inputs.names) (value : Bool) :
    (ofValuation a.inputs (Function.update a.valuation x value)).truePositions =
      if value then insert (a.inputs.names.idxOf x) a.truePositions
      else a.truePositions.erase (a.inputs.names.idxOf x) := by
  ext i
  rw [mem_truePositions, valueAt_update hx]
  cases value with
  | false => simp [mem_truePositions]
  | true => simp [mem_truePositions]

/-! ### One call -/

/-- A call that gives the input with the given name a value in a state. -/
def setting (name : String) (value : Bool) : ExceptT Fault (StateM Assignment) Unit := do
  let a ← get
  let later ← liftM (a.set name value)
  MonadState.set later

/-- What a call is answered with, and the assignment that it leaves behind. -/
inductive Call (a : Assignment) (name : String) (value : Bool) :
    Except Fault Unit × Assignment → Prop where
  /-- The name is not declared, and nothing is changed. -/
  | refused (h : name ∉ a.inputs.names.map Name.text) :
    Call a name value (.error (.noSuchInput name), a)
  /-- The name is declared, and stands at position `i`. It has the value from now on, and all other
  names keep theirs. -/
  | done {i : Nat} {later : Assignment} (h : (a.inputs.names.map Name.text)[i]? = some name)
    (inputs_eq : later.inputs = a.inputs) (get?_eq : later.get? name = some value)
    (keeps : ∀ other, other ≠ name → later.get? other = a.get? other)
    (truePositions_eq : later.truePositions =
      if value then insert i a.truePositions else a.truePositions.erase i) :
    Call a name value (.ok (), later)

/-- A call leaves what changing the value gives, and what was there before if it gives nothing. -/
theorem run_setting (a : Assignment) (name : String) (value : Bool) :
    (setting name value).run.run a = match a.set name value with
      | .ok later => (.ok (), later)
      | .error fault => (.error fault, a) := by
  show ((liftM (a.set name value) : ExceptT Fault (StateM Assignment) Assignment) >>= fun later ↦
    MonadState.set later).run.run a = _
  rcases a.set name value with fault | later <;> rfl

theorem set_eq_error (h : name ∉ a.inputs.names.map Name.text) (value : Bool) :
    a.set name value = .error (.noSuchInput name) := by
  rw [set, Inputs.position, Inputs.position?_eq_none h]
  rfl

/-- To change a value is to change the valuation at one name. -/
theorem set_text (hx : x ∈ a.inputs.names) (value : Bool) :
    a.set x.text value = .ok (ofValuation a.inputs (Function.update a.valuation x value)) := by
  have hvalues : a.values.set (a.inputs.names.idxOf x) value =
      a.inputs.names.map (Function.update a.valuation x value) := by
    rw [a.inputs.nodup_names.map_update, if_pos hx, map_valuation]
  rw [set, Inputs.position, Inputs.position?_text hx]
  exact congrArg Except.ok (ext_values rfl hvalues)

/-- A call with an undeclared name leaves the assignment as it was. -/
theorem run_setting_of_notMem (h : name ∉ a.inputs.names.map Name.text) (value : Bool) :
    (setting name value).run.run a = (.error (.noSuchInput name), a) := by
  rw [run_setting, set_eq_error h]

/-- A call with a declared name changes the valuation at this name. -/
theorem run_setting_text (hx : x ∈ a.inputs.names) (value : Bool) :
    (setting x.text value).run.run a =
      (.ok (), ofValuation a.inputs (Function.update a.valuation x value)) := by
  rw [run_setting, set_text hx]

/-- Another value for one name is no other value for another one. -/
theorem get?_update_of_ne {other : String} (hother : other ≠ x.text) (value : Bool) :
    (ofValuation a.inputs (Function.update a.valuation x value)).get? other = a.get? other := by
  by_cases h : other ∈ a.inputs.names.map Name.text
  · obtain ⟨y, hy, rfl⟩ := List.mem_map.1 h
    have hne : y ≠ x := fun heq ↦ hother (congrArg Name.text heq)
    rw [get?_ofValuation hy, get?_text hy, Function.update_of_ne hne]
  · rw [get?_eq_none h]
    exact get?_eq_none h

/-- Every call is as described. -/
theorem call_setting (a : Assignment) (name : String) (value : Bool) :
    Call a name value ((setting name value).run.run a) := by
  by_cases h : name ∈ a.inputs.names.map Name.text
  · obtain ⟨x, hx, rfl⟩ := List.mem_map.1 h
    have hlt := List.idxOf_lt_length_of_mem hx
    have hposition : (a.inputs.names.map Name.text)[a.inputs.names.idxOf x]? = some x.text := by
      rw [List.getElem?_map, List.getElem?_eq_getElem hlt, List.getElem_idxOf hlt]
      rfl
    have hget : (ofValuation a.inputs (Function.update a.valuation x value)).get? x.text =
        some value := by
      rw [get?_ofValuation hx, Function.update_self]
    rw [run_setting_text hx]
    exact .done hposition rfl hget (fun other hother ↦ get?_update_of_ne hother value)
      (truePositions_update hx value)
  · rw [run_setting_of_notMem h]
    exact .refused h

/-! ### A history of calls -/

/-- How an assignment is begun. -/
inductive Beginning where
  /-- With all inputs false. -/
  | allFalse
  /-- With the number of a row. -/
  | row (r : RowIndex)
  deriving DecidableEq

namespace Beginning

/-- The assignment that is begun with. -/
def assignment (inputs : Inputs) : Beginning → Assignment
  | allFalse => .allFalse inputs
  | row r => .ofRow inputs r

/-- The value with which the input at position `i` of `n` begins. -/
def valueAt (n i : Nat) : Beginning → Bool
  | allFalse => false
  | row r => r.toNat.testBit (n - 1 - i)

/-- The value of a name after a history of calls. It is what the last call for this name asked for,
and the value with which its input began if there was none. -/
def valueAfter (start : Beginning) (inputs : Inputs) (calls : List (String × Bool)) (x : Name) :
    Bool :=
  (calls.reverse.lookup x.text).getD (start.valueAt inputs.size (inputs.names.idxOf x))

end Beginning

variable {start : Beginning} {calls : List (String × Bool)}

/-- The assignment after calls with the given names and values, one after the other, whether they
succeed or not. -/
def after (inputs : Inputs) (start : Beginning) (calls : List (String × Bool)) : Assignment :=
  calls.foldl (fun a call ↦ ((setting call.1 call.2).run.run a).2) (start.assignment inputs)

theorem after_concat (inputs : Inputs) (start : Beginning) (calls : List (String × Bool))
    (name : String) (value : Bool) :
    after inputs start (calls ++ [(name, value)]) =
      ((setting name value).run.run (after inputs start calls)).2 := by
  rw [after, List.foldl_concat]
  rfl

/-- At each position an assignment begins as said. -/
theorem Beginning.valueAt_assignment {i : Nat} (hi : i < inputs.size) :
    (start.assignment inputs).valueAt i = start.valueAt inputs.size i := by
  cases start with
  | allFalse =>
    show (List.replicate inputs.size false).getD i false = false
    rw [List.getD_eq_getElem?_getD, List.getElem?_replicate_of_lt hi]
    rfl
  | row r => exact valueAt_ofRow hi r

/-- One more call counts for its own name only. -/
theorem Beginning.valueAfter_concat (value : Bool) :
    start.valueAfter inputs (calls ++ [(name, value)]) x =
      if x.text = name then value else start.valueAfter inputs calls x := by
  rw [valueAfter, List.reverse_append, List.reverse_singleton, List.singleton_append,
    List.lookup_cons]
  by_cases hx : x.text = name
  · rw [if_pos hx, beq_iff_eq.2 hx]
    rfl
  · rw [if_neg hx, beq_eq_false_iff_ne.2 hx]
    rfl

/-- What is begun with is made from the values with which the inputs begin. -/
theorem Beginning.assignment_eq (inputs : Inputs) (start : Beginning) :
    start.assignment inputs = ofValuation inputs (start.valueAfter inputs []) := by
  have hinputs : (start.assignment inputs).inputs = inputs := by cases start <;> rfl
  have hvaluation : ∀ x ∈ inputs.names,
      (start.assignment inputs).valuation x = start.valueAfter inputs [] x := by
    intro x hx
    have hlt := List.idxOf_lt_length_of_mem hx
    rw [valuation, hinputs, Beginning.valueAt_assignment hlt]
    rfl
  calc start.assignment inputs
    _ = ofValuation inputs (start.assignment inputs).valuation :=
        ext_values hinputs (by rw [← map_valuation, hinputs]; rfl)
    _ = ofValuation inputs (start.valueAfter inputs []) := ofValuation_congr hvaluation

/-- An assignment after a history is made from the last values that were asked for. -/
theorem after_eq_ofValuation (inputs : Inputs) (start : Beginning) (calls : List (String × Bool)) :
    after inputs start calls = ofValuation inputs (start.valueAfter inputs calls) := by
  induction calls using List.reverseRecOn with
  | nil => exact Beginning.assignment_eq inputs start
  | append_singleton calls call ih =>
    obtain ⟨name, value⟩ := call
    rw [after_concat, ih]
    by_cases h : name ∈ inputs.names.map Name.text
    · obtain ⟨x, hx, rfl⟩ := List.mem_map.1 h
      rw [run_setting_text (a := ofValuation inputs _) hx]
      refine ofValuation_congr fun (y : Name) (hy : y ∈ inputs.names) ↦ ?_
      rw [Beginning.valueAfter_concat, Function.update_apply, valuation_ofValuation hy]
      simp only [Name.ext_iff]
    · rw [run_setting_of_notMem (a := ofValuation inputs _) h]
      refine ofValuation_congr fun y hy ↦ ?_
      have hne : y.text ≠ name := fun heq ↦ h (heq ▸ List.mem_map_of_mem hy)
      rw [Beginning.valueAfter_concat, if_neg hne]

/-- Whatever calls have been made: the assignment binds the declared names to the last values that
were asked for, and the next call is as described. Two histories lead to equal assignments exactly
if the inputs are the same and every name is given the same value. -/
theorem binds_after (inputs : Inputs) (start : Beginning) (calls : List (String × Bool)) :
    Binds inputs (start.valueAfter inputs calls) (after inputs start calls) ∧
      (∀ name value, Call (after inputs start calls) name value
        ((setting name value).run.run (after inputs start calls))) ∧
        ∀ others start' calls', after inputs start calls = after others start' calls' ↔
          inputs = others ∧ ∀ name,
            (after inputs start calls).get? name = (after others start' calls').get? name := by
  have hinputs (inputs start calls) : (after inputs start calls).inputs = inputs := by
    rw [after_eq_ofValuation]
    rfl
  refine ⟨?_, call_setting _, fun others start' calls' ↦ ?_⟩
  · rw [after_eq_ofValuation]
    exact binds_ofValuation inputs _
  · rw [eq_iff_get?, hinputs, hinputs]

/-- A refused call, a call that is undone and a call that is repeated leave no trace. -/
example :
    (Inputs.ofNames ["p", "q"]).map (fun inputs ↦ decide
      (after inputs .allFalse [("q", true), ("r", true), ("p", true), ("q", false), ("p", true)] =
        after inputs (.row 2) [])) = .ok true := by
  decide +kernel

end Assignment

end TruthTable
