import TruthTable.Fault
import TruthTable.Text.Blank

/-!
# Styles

A style is the pair of glyphs that stand for the truth values in a written table. There are seven of
them, and each is chosen by its label: the glyph for true, a slash, the glyph for false. Blanks
around a label do not matter when a style is looked up, but upper and lower case do; if there is no
such style, the fault shows the label as it was given.
-/

namespace TruthTable

/-- A pair of glyphs for the truth values. -/
inductive Style where
  /-- The binary digits. -/
  | digits
  /-- The initials of *true* and *false*. -/
  | initials
  /-- The words *true* and *false* in lower case. -/
  | lowercase
  /-- The words *True* and *False* with a capital. -/
  | capitalized
  /-- The initials of *yes* and *no*. -/
  | yesNoInitials
  /-- The words *yes* and *no* in lower case. -/
  | yesNoLowercase
  /-- The words *Yes* and *No* with a capital. -/
  | yesNoCapitalized
  deriving DecidableEq, Repr

namespace Style

/-- The style that is used unless another one is asked for. -/
def standard : Style := initials

instance : Inhabited Style := ⟨standard⟩

/-- All styles, in the order in which they are looked up. -/
def all : List Style :=
  [digits, initials, lowercase, capitalized, yesNoInitials, yesNoLowercase, yesNoCapitalized]

/-- The glyph of a truth value. -/
def glyph : Style → Bool → String
  | digits, b => if b then "1" else "0"
  | initials, b => if b then "T" else "F"
  | lowercase, b => if b then "true" else "false"
  | capitalized, b => if b then "True" else "False"
  | yesNoInitials, b => if b then "Y" else "N"
  | yesNoLowercase, b => if b then "yes" else "no"
  | yesNoCapitalized, b => if b then "Yes" else "No"

/-- The label of a style. -/
def label (style : Style) : String :=
  style.glyph true ++ "/" ++ style.glyph false

/-- The style with the given label. -/
def ofLabel (text : String) : Except Fault Style :=
  match all.find? fun style ↦ style.label.toList = Text.trim text.toList with
  | some style => .ok style
  | none => .error (.unknownStyle text)

end Style

end TruthTable
