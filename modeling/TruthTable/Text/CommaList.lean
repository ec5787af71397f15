import TruthTable.Text.Blank

/-!
# Comma-separated lists

A list is written as one line of text with a comma between its items. Blanks around an item do not
belong to it, and an item that is empty once they are cut is no item: a doubled, leading or trailing
comma adds nothing. There is no way to write a comma inside an item.

The cut at the commas is kept apart from the cleaning of the pieces. `fields` only cuts, and for
every text it returns at least one piece; `items` then trims and drops.
-/

namespace TruthTable.Text.CommaList

/-- The pieces of a text between its commas, empty pieces included. -/
def fields : List Char → List (List Char)
  | [] => [[]]
  | c :: cs =>
    if c = ',' then [] :: fields cs
    else match fields cs with
      | [] => [[c]]
      | f :: fs => (c :: f) :: fs

theorem fields_ne_nil (cs : List Char) : fields cs ≠ [] := by
  cases cs with
  | nil => simp [fields]
  | cons c cs =>
    rw [fields]
    split
    · simp
    · split <;> simp

/-- A comma ends one piece and begins the next, whatever stands around it. -/
theorem fields_append_comma (cs ds : List Char) :
    fields (cs ++ ',' :: ds) = fields cs ++ fields ds := by
  induction cs with
  | nil => simp [fields]
  | cons c cs ih =>
    rw [List.cons_append, fields, fields, ih]
    split
    · rfl
    · obtain ⟨f, fs, hf⟩ := List.exists_cons_of_ne_nil (fields_ne_nil cs)
      rw [hf]
      rfl

/-- The trimmed pieces that are not empty, as lists of characters. -/
def itemChars (cs : List Char) : List (List Char) :=
  ((fields cs).map trim).filter (!·.isEmpty)

/-- The items of a comma-separated list. -/
def items (text : String) : List String :=
  (itemChars text.toList).map String.ofList

end TruthTable.Text.CommaList
