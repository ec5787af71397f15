import TruthTable.Proofs.FirstOccurrences
import TruthTable.Proofs.Inputs.Declaring

/-!
# Inputs after a history of calls

Inputs are kept as a state, and names are declared in it by one call after the other. Some calls
succeed and some are refused, in any order; `Inputs.after` is the state that a history of calls
leads to, beginning without inputs.

The state holds everything twice, as a list of names and as an index from their texts to positions.
The list is known from the history: it is made of the texts that are names, each once, in the order
in which they were first asked for (`firstOccurrences_after`). The index is known from the list, and
it is inverse to it (`HasInverseIndex`). So a call can be described completely (`Call`): a refusal
leaves the state as it was, and a success adds one position and changes none.
-/

namespace TruthTable.Inputs

variable {inputs : Inputs} {texts : List String} {text : String}

/-! ### The list and its index -/

/-- The index of the inputs is inverse to their list. -/
structure HasInverseIndex (inputs : Inputs) : Prop where
  /-- The texts in the list are names, and no two of them are equal. -/
  declarable : Declarable (inputs.names.map Name.text)
  /-- A name has a position exactly if it stands there. -/
  position?_iff : ∀ name i,
    inputs.position? name = some i ↔ (inputs.names.map Name.text)[i]? = some name
  /-- A name is found exactly if it is in the list. -/
  contains_iff : ∀ name, inputs.contains name = true ↔ name ∈ inputs.names.map Name.text
  /-- The index has no other entries. -/
  size_index : inputs.index.size = inputs.size

/-- The index holds as many entries as there are names. -/
theorem size_index (inputs : Inputs) : inputs.index.size = inputs.size := by
  have hmem (name : String) : name ∈ inputs.index.keys ↔ name ∈ inputs.names.map Name.text := by
    rw [Std.ExtTreeMap.mem_keys, ← Std.ExtTreeMap.isSome_getElem?_iff_mem, mem_map_text_iff]
    rfl
  have hperm : inputs.index.keys.Perm (inputs.names.map Name.text) :=
    (List.perm_ext_iff_of_nodup Std.ExtTreeMap.nodup_keys inputs.declarable_map_text.nodup).2 hmem
  rw [← Std.ExtTreeMap.length_keys, hperm.length_eq, List.length_map, size]

theorem hasInverseIndex (inputs : Inputs) : inputs.HasInverseIndex where
  declarable := inputs.declarable_map_text
  position?_iff name i := by rw [position?_eq_some_iff, List.getElem?_map]
  contains_iff _ := mem_map_text_iff.symm
  size_index := inputs.size_index

/-! ### One call -/

/-- A call that declares the name with the given text in a state, and returns its position. -/
def declaring (text : String) : ExceptT Fault (StateM Inputs) Nat := do
  let inputs ← get
  let (i, more) ← liftM (inputs.declare text)
  set more
  return i

/-- What a call is answered with, and the state that it leaves behind. -/
inductive Call (inputs : Inputs) (text : String) : Except Fault Nat × Inputs → Prop where
  /-- The text offends, and nothing is changed. -/
  | refused {fault : Fault} (h : Offence (inputs.names.map Name.text) text fault) :
    Call inputs text (.error fault, inputs)
  /-- The text is a new name. It takes the first free position, and all others keep theirs. -/
  | declared {more : Inputs} (hvalid : Name.IsValid text) (hnew : inputs.contains text = false)
    (names_eq : more.names.map Name.text = inputs.names.map Name.text ++ [text])
    (position?_eq : more.position? text = some inputs.size)
    (keeps : ∀ name, name ≠ text → more.position? name = inputs.position? name) :
    Call inputs text (.ok inputs.size, more)

/-- A call leaves what declaring gives, and what was there before if it gives nothing. -/
theorem run_declaring (inputs : Inputs) (text : String) :
    (declaring text).run.run inputs = match inputs.declare text with
      | .ok (i, more) => (.ok i, more)
      | .error fault => (.error fault, inputs) := by
  show ((liftM (inputs.declare text) : ExceptT Fault (StateM Inputs) (Nat × Inputs)) >>= fun p ↦
    set p.2 >>= fun _ ↦ pure p.1).run.run inputs = _
  rcases inputs.declare text with fault | ⟨i, more⟩ <;> rfl

/-- One more name at the end has the first free position, and no other position is changed. -/
theorem position?_of_concat {more : Inputs}
    (h : more.names.map Name.text = inputs.names.map Name.text ++ [text]) :
    more.position? text = some inputs.size ∧
      ∀ name, name ≠ text → more.position? name = inputs.position? name := by
  constructor
  · rw [more.hasInverseIndex.position?_iff, h, size, ← List.length_map Name.text]
    exact List.getElem?_concat_length
  · intro name hne
    refine Option.ext fun i ↦ ?_
    rw [more.hasInverseIndex.position?_iff, inputs.hasInverseIndex.position?_iff, h,
      List.getElem?_append]
    split
    · rfl
    · -- behind the names that were there before stands the new one only
      rename_i hi
      rw [List.getElem?_singleton, List.getElem?_eq_none (Nat.le_of_not_lt hi)]
      split <;> simp [hne.symm]

/-- Every call is as described. -/
theorem call_declaring (inputs : Inputs) (text : String) :
    Call inputs text ((declaring text).run.run inputs) := by
  rw [run_declaring]
  rcases inputs.declare_cases text with ⟨more, hdeclare, hnames⟩ | ⟨fault, hdeclare, hoffence⟩
  · rw [hdeclare]
    have hdeclarable := more.declarable_map_text
    rw [hnames] at hdeclarable
    have hnew : inputs.contains text = false := by
      rw [← Bool.not_eq_true, ← mem_map_text_iff]
      exact fun hmem ↦ List.disjoint_of_nodup_append hdeclarable.nodup hmem List.mem_cons_self
    obtain ⟨hposition, hkeeps⟩ := position?_of_concat hnames
    exact .declared (hdeclarable.valid text (by simp)) hnew hnames hposition hkeeps
  · rw [hdeclare]
    exact .refused hoffence

/-! ### A history of calls -/

/-- The inputs after calls with the given texts, one after the other, whether they succeed or not.
At the beginning there are no inputs. -/
def after (texts : List String) : Inputs :=
  texts.foldl (fun inputs text ↦ ((declaring text).run.run inputs).2) empty

theorem after_concat (texts : List String) (text : String) :
    after (texts ++ [text]) = ((declaring text).run.run (after texts)).2 := by
  rw [after, List.foldl_concat]
  rfl

/-- What has been declared are the texts that are names, in the order in which they were first asked
for. -/
theorem firstOccurrences_after (texts : List String) :
    FirstOccurrences Name.IsValid texts ((after texts).names.map Name.text) := by
  induction texts using List.reverseRecOn with
  | nil => exact .nil _
  | append_singleton texts text ih =>
    have hcall := call_declaring (after texts) text
    rw [after_concat]
    generalize (declaring text).run.run (after texts) = result at hcall
    cases hcall with
    | refused hoffence =>
      refine ih.concat_of_old ?_
      cases hoffence with
      | invalid hinvalid => exact .inr hinvalid
      | repeated _ hmem => exact .inl ((ih.mem_iff text).1 hmem).1
    | declared hvalid hnew hnames _ _ =>
      rw [hnames]
      refine ih.concat_of_new hvalid fun hmem ↦ ?_
      have hcontains := mem_map_text_iff.1 ((ih.mem_iff text).2 ⟨hmem, hvalid⟩)
      rw [hnew] at hcontains
      cases hcontains

/-- Whatever calls have been made: the index is inverse to the list, the list holds the texts that
are names in the order in which they were first asked for, and the next call is as described. Two
histories lead to equal inputs exactly if they lead to the same list. -/
theorem hasInverseIndex_after (texts : List String) :
    (after texts).HasInverseIndex ∧
      FirstOccurrences Name.IsValid texts ((after texts).names.map Name.text) ∧
        (∀ text, Call (after texts) text ((declaring text).run.run (after texts))) ∧
          ∀ others, after others = after texts ↔
            (after others).names.map Name.text = (after texts).names.map Name.text := by
  refine ⟨(after texts).hasInverseIndex, firstOccurrences_after texts, call_declaring _, ?_⟩
  intro others
  exact ⟨fun heq ↦ by rw [heq], eq_of_map_text⟩

/-- A repetition and a text that is no name are refused on the way, and leave no trace. -/
example : (after ["p", "p q", "p", "q"]).names.map Name.text = ["p", "q"] := by
  decide +kernel

end TruthTable.Inputs
