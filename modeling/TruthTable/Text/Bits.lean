/-!
# Rows of digits

A list of truth values is shown compactly as a row of binary digits, the first value first.
-/

namespace TruthTable.Text

/-- The digit of a truth value. -/
def bit (b : Bool) : Char :=
  if b then '1' else '0'

/-- The digits of a list of truth values. -/
def bits (values : List Bool) : String :=
  String.ofList (values.map bit)

theorem bit_injective {a b : Bool} (h : bit a = bit b) : a = b := by
  revert h
  cases a <;> cases b <;> decide

end TruthTable.Text
