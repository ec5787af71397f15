import Std.Data.ExtTreeMap
import TruthTable.Name
import TruthTable.Text.CommaList

/-!
# Inputs

The inputs of a truth table are an ordered list of names without repetition. Their order is the
order of the columns and decides which input counts most in the number of a row.

Positions are asked for by name at every leaf of every expression in every row, so the list carries
an index from the texts of its names to their positions. The index is no second source of truth: the
field `index_spec` says that it answers exactly as a search through the list would. From this one
equation follow that no name is repeated (two equal names would have one position) and that two
collections of inputs with the same list are equal.

A collection grows by `declare` alone, which refuses a text that is not a name before it looks for a
repetition, and which changes nothing when it refuses.
-/

namespace TruthTable

/-- An ordered list of distinct names. -/
structure Inputs where
  /-- The names, in the order of their declaration. -/
  names : List Name
  /-- The position of each name. -/
  index : Std.ExtTreeMap String Nat
  /-- The index gives a text a position exactly if the name at this position has that text. -/
  index_spec : ∀ text i, index[text]? = some i ↔ names[i]?.map Name.text = some text
  deriving DecidableEq

namespace Inputs

/-- No inputs. -/
def empty : Inputs where
  names := []
  index := ∅
  index_spec := by simp

instance : Inhabited Inputs := ⟨empty⟩

/-! ### Looking up -/

/-- The number of inputs. -/
def size (inputs : Inputs) : Nat :=
  inputs.names.length

/-- The position of the input with the given name. -/
def position? (inputs : Inputs) (name : String) : Option Nat :=
  inputs.index[name]?

/-- The position of the input with the given name, or the fault that there is none. -/
def position (inputs : Inputs) (name : String) : Except Fault Nat :=
  match inputs.position? name with
  | some i => .ok i
  | none => .error (.noSuchInput name)

/-- Whether a name is declared. -/
def contains (inputs : Inputs) (name : String) : Bool :=
  (inputs.position? name).isSome

theorem position?_eq_some_iff {inputs : Inputs} {name : String} {i : Nat} :
    inputs.position? name = some i ↔ inputs.names[i]?.map Name.text = some name :=
  inputs.index_spec name i

theorem contains_iff {inputs : Inputs} {name : String} :
    inputs.contains name = true ↔ ∃ x ∈ inputs.names, x.text = name := by
  rw [contains, Option.isSome_iff_exists]
  simp only [position?_eq_some_iff, Option.map_eq_some_iff]
  constructor
  · rintro ⟨i, x, hx, hname⟩
    exact ⟨x, List.mem_of_getElem? hx, hname⟩
  · rintro ⟨x, hx, hname⟩
    obtain ⟨i, hi⟩ := List.mem_iff_getElem?.1 hx
    exact ⟨i, x, hi, hname⟩

/-- The list of names determines the whole. -/
theorem ext_names {s t : Inputs} (h : s.names = t.names) : s = t := by
  have hindex : s.index = t.index := by
    refine Std.ExtTreeMap.ext_getElem? fun name ↦ Option.ext fun i ↦ ?_
    rw [s.index_spec, t.index_spec, h]
  cases s
  cases t
  cases h
  cases hindex
  rfl

/-- No name is declared twice. -/
theorem nodup_names (inputs : Inputs) : inputs.names.Nodup := by
  rw [List.Nodup, List.pairwise_iff_getElem]
  intro i j hi hj hij heq
  have posi : inputs.position? inputs.names[j].text = some i :=
    position?_eq_some_iff.2 (by rw [List.getElem?_eq_getElem hi, heq]; rfl)
  have posj : inputs.position? inputs.names[j].text = some j :=
    position?_eq_some_iff.2 (by rw [List.getElem?_eq_getElem hj]; rfl)
  rw [posi, Option.some.injEq] at posj
  omega

/-! ### Declaring -/

/-- One more name at the end. -/
def push (inputs : Inputs) (x : Name) (h : inputs.contains x.text = false) : Inputs where
  names := inputs.names ++ [x]
  index := inputs.index.insert x.text inputs.size
  index_spec := by
    intro text i
    have hfresh : inputs.index[x.text]? = none := by
      rw [contains, position?] at h
      exact Option.not_isSome_iff_eq_none.1 (by simp [h])
    rw [Std.ExtTreeMap.getElem?_insert, List.getElem?_append]
    by_cases htext : x.text = text
    · subst htext
      have hne : ¬ inputs.names[i]?.map Name.text = some x.text := by
        rw [← inputs.index_spec, hfresh]
        simp
      by_cases hi : i < inputs.names.length
      · have : inputs.size ≠ i := fun h ↦ by rw [size] at h; omega
        simpa [hi, this] using hne
      · by_cases hi' : i = inputs.size
        · simp [hi', size]
        · have : i - inputs.names.length ≠ 0 := by rw [size] at hi'; omega
          simp [hi, Ne.symm hi', this]
    · rw [if_neg (by simpa using htext), inputs.index_spec]
      by_cases hi : i < inputs.names.length
      · rw [if_pos hi]
      · rw [if_neg hi, List.getElem?_eq_none (by omega)]
        cases h : i - inputs.names.length <;> simp [htext]

/-- Adds the name with the given text at the end; returns its position too. -/
def declare (inputs : Inputs) (text : String) : Except Fault (Nat × Inputs) := do
  let x ← Name.ofString text
  if h : inputs.contains x.text = false then return (inputs.size, inputs.push x h)
  else throw (.repeatedName x.text)

/-- Adds the names with the given texts one after the other, up to the first fault. -/
def declareAll (inputs : Inputs) : List String → Except Fault Inputs
  | [] => .ok inputs
  | text :: texts => do
    let (_, more) ← inputs.declare text
    more.declareAll texts

/-- The inputs with the given names. -/
def ofNames (texts : List String) : Except Fault Inputs :=
  empty.declareAll texts

/-- The inputs listed in a text, with commas between them. -/
def ofText (text : String) : Except Fault Inputs :=
  ofNames (Text.CommaList.items text)

/-! ### Text and rows -/

/-- The names, with a comma and a space between them. -/
def text (inputs : Inputs) : String :=
  String.intercalate ", " (inputs.names.map Name.text)

/-- The number of rows of a table with these inputs: it doubles with every input. -/
def rowCount (inputs : Inputs) : Nat :=
  Nat.pow 2 inputs.size

/-- The number of rows, if it is itself a 64-bit word. -/
def rowCount? (inputs : Inputs) : Option Nat :=
  if inputs.size < 64 then some inputs.rowCount else none

end Inputs

end TruthTable
