import TruthTable.Fault
import TruthTable.Text.Letter

/-!
# Names of variables

A name opens with a letter or with one of the markup signs `\ _ ^ { }`, so that `p_{1}` and `\alpha`
are names, and goes on with these or with the ten digits of ASCII. Names are case-sensitive, and no
character of a name is ever dropped or folded.

The shape is a property of the text, `Name.IsValid`, and `Name` is a text with that property. The
reader of expressions builds names from characters that it has tested one by one, the constructor
`ofString?` tests a whole text; either way a value of type `Name` carries the evidence, so nothing
downstream has to test again.
-/

namespace TruthTable

namespace Name

/-- The signs, other than letters, that a name may open with. -/
def markup : List Char := ['\\', '_', '^', '{', '}']

/-- A character that may open a name. -/
def isStart (c : Char) : Bool :=
  Text.isLetter c || markup.contains c

/-- A character that may stand in a name after the first place. -/
def isContinue (c : Char) : Bool :=
  isStart c || c.isDigit

/-- A class of characters that no markup sign is in. -/
private theorem markup_contains_of_all {p : Char → Bool}
    (hall : markup.all (fun c ↦ !p c) = true) {c : Char} (h : p c = true) :
    markup.contains c = false := by
  rw [← Bool.not_eq_true, List.contains_iff_mem]
  intro hmem
  simpa [h] using List.all_eq_true.1 hall c hmem

/-- No digit opens a name. -/
theorem isStart_of_isDigit {c : Char} (h : c.isDigit = true) : isStart c = false := by
  rw [isStart, Text.isLetter_of_isDigit h, markup_contains_of_all (by decide) h]
  rfl

/-- No blank character stands in a name. -/
theorem isContinue_of_isBlank {c : Char} (h : Text.isBlank c = true) : isContinue c = false := by
  have hdigit : c.isDigit = false := by
    rw [← Bool.not_eq_true]
    intro hdigit
    rw [Text.isBlank_of_isDigit hdigit] at h
    cases h
  rw [isContinue, isStart, Text.isLetter_of_isBlank h, markup_contains_of_all (by decide) h, hdigit]
  rfl

/-- The signs of the expression language do not stand in names, and neither does the comma. -/
theorem isContinue_of_mem_signs {c : Char} (h : c ∈ "!()&|.*+,".toList) : isContinue c = false := by
  have hall : "!()&|.*+,".toList.all (fun c ↦ !isContinue c) = true := by decide +kernel
  simpa using List.all_eq_true.1 hall c h

/-- The shape of a name, on its list of characters. -/
def isValidChars : List Char → Bool
  | [] => false
  | c :: cs => isStart c && cs.all isContinue

/-- A text with the shape of a name. -/
def IsValid (text : String) : Prop :=
  isValidChars text.toList = true

instance (text : String) : Decidable (IsValid text) :=
  inferInstanceAs (Decidable (_ = _))

end Name

/-- The name of a variable. -/
structure Name where
  /-- The characters of the name. -/
  text : String
  /-- They have the shape of a name. -/
  valid : Name.IsValid text
  deriving DecidableEq

namespace Name

@[ext] theorem ext {x y : Name} (h : x.text = y.text) : x = y := by
  cases x; cases y; cases h; rfl

instance : ToString Name := ⟨Name.text⟩

/-- The name with the given text, if the text has the shape of a name. -/
def ofString? (text : String) : Option Name :=
  if h : IsValid text then some ⟨text, h⟩ else none

/-- The name with the given text, or the fault that the text is not a name. -/
def ofString (text : String) : Except Fault Name :=
  match ofString? text with
  | some x => .ok x
  | none => .error (.invalidName text)

theorem ofString?_eq_some_iff {text : String} {x : Name} :
    ofString? text = some x ↔ x.text = text := by
  constructor
  · intro h
    unfold ofString? at h
    split at h
    · cases h; rfl
    · cases h
  · rintro rfl
    simp [ofString?, x.valid]

/-- A name has a first character, which opens it, and the others go on with it. -/
theorem exists_toList_eq_cons (x : Name) :
    ∃ c cs, x.text.toList = c :: cs ∧ isStart c = true ∧ ∀ d ∈ cs, isContinue d = true := by
  have hvalid : isValidChars x.text.toList = true := x.valid
  rcases hcs : x.text.toList with - | ⟨c, cs⟩
  · rw [hcs] at hvalid
    cases hvalid
  · rw [hcs, isValidChars, Bool.and_eq_true, List.all_eq_true] at hvalid
    exact ⟨c, cs, rfl, hvalid⟩

/-- No other characters stand in a name. -/
theorem isContinue_of_mem {x : Name} {c : Char} (h : c ∈ x.text.toList) : isContinue c = true := by
  obtain ⟨d, ds, hx, hstart, hall⟩ := x.exists_toList_eq_cons
  rw [hx] at h
  rcases List.mem_cons.1 h with rfl | h
  · rw [isContinue, hstart, Bool.true_or]
  · exact hall c h

/-- What can not stand in names does not stand in any. -/
theorem notMem_of_isContinue {x : Name} {c : Char} (h : isContinue c = false) :
    c ∉ x.text.toList := by
  intro hmem
  rw [isContinue_of_mem hmem] at h
  cases h

/-- The name that opens with `c` and goes on with the characters of `cs` that may follow. -/
def takeFrom (c : Char) (cs : List Char) (h : isStart c = true) : Name where
  text := String.ofList (c :: cs.takeWhile isContinue)
  valid := by
    simp [IsValid, isValidChars, h]

theorem text_takeFrom {c : Char} {cs : List Char} (h : isStart c = true) :
    (takeFrom c cs h).text = String.ofList (c :: cs.takeWhile isContinue) :=
  rfl

end Name

end TruthTable
