import TruthTable.Text.Ranges

/-!
# Blank characters and trimming

A character is blank if it has the white space property of the character set: the controls from tab
to carriage return, the space, the next-line control, the no-break space, and the spaces and
separators further up. The zero-width characters are not blank.

Trimming cuts the blanks at both ends of a text and leaves those inside. It is defined on lists of
characters, where both cuts are the same cut: the back is trimmed by trimming the front of the
reversed list.
-/

namespace TruthTable.Text

/-- The intervals of code points that hold the blank characters. -/
def blankRanges : Ranges := [
  (0x0009, 0x000D), (0x0020, 0x0020), (0x0085, 0x0085), (0x00A0, 0x00A0), (0x1680, 0x1680),
  (0x2000, 0x200A), (0x2028, 0x2029), (0x202F, 0x202F), (0x205F, 0x205F), (0x3000, 0x3000)]

example : blankRanges.isAscending = true := by decide

/-- A blank character is one whose code point lies in one of the intervals. -/
def isBlank (c : Char) : Bool :=
  blankRanges.contains c

/-- The white space of ASCII is blank. -/
theorem isBlank_of_isWhitespace {c : Char} (h : c.isWhitespace = true) : isBlank c = true := by
  simp only [Char.isWhitespace, Bool.or_eq_true, decide_eq_true_eq] at h
  rcases h with ((rfl | rfl) | rfl) | rfl <;> decide

/-- No digit of ASCII is blank. -/
theorem isBlank_of_isDigit {c : Char} (h : c.isDigit = true) : isBlank c = false := by
  simp only [Char.isDigit, Bool.and_eq_true, decide_eq_true_eq] at h
  exact Ranges.contains_eq_false_of_gap (show _ = true by decide) h.1 h.2

/-! ### Trimming -/

/-- The characters from the first that is not blank on. -/
def trimFront (cs : List Char) : List Char :=
  cs.dropWhile isBlank

/-- The characters up to the last that is not blank. -/
def trimBack (cs : List Char) : List Char :=
  (trimFront cs.reverse).reverse

/-- The characters from the first to the last that is not blank. -/
def trim (cs : List Char) : List Char :=
  trimBack (trimFront cs)

end TruthTable.Text
