/-!
# Sets of characters given by intervals of code points

Two properties of characters matter to this library, being a letter and being blank, and both are
data of the character set and not rules. Either one is a list of closed intervals of code points;
this module holds the one question asked of such a list.
-/

namespace TruthTable.Text

/-- A list of closed intervals of code points, both ends included. -/
abbrev Ranges := List (Nat × Nat)

namespace Ranges

/-- A character belongs to the set if one of the intervals holds its code point. -/
def contains (ranges : Ranges) (c : Char) : Bool :=
  ranges.any fun r ↦ r.1 ≤ c.toNat && c.toNat ≤ r.2

theorem contains_iff {ranges : Ranges} {c : Char} :
    ranges.contains c = true ↔ ∃ r ∈ ranges, r.1 ≤ c.toNat ∧ c.toNat ≤ r.2 := by
  simp [contains]

/-- No character of a gap belongs to the set: an interval that ends before the gap or begins after it
holds none of them. -/
theorem contains_eq_false_of_gap {ranges : Ranges} {lo hi : Nat}
    (h : ranges.all (fun r ↦ r.2 < lo || hi < r.1) = true) {c : Char} (hlo : lo ≤ c.toNat)
    (hhi : c.toNat ≤ hi) : ranges.contains c = false := by
  rw [← Bool.not_eq_true, contains_iff]
  rintro ⟨r, hr, hfirst, hlast⟩
  have hgap := List.all_eq_true.1 h r hr
  simp only [Bool.or_eq_true, decide_eq_true_eq] at hgap
  omega

/-- The intervals are proper, and each one begins after the one before it has ended. -/
def isAscending : Ranges → Bool
  | [] => true
  | [r] => r.1 ≤ r.2
  | r :: s :: rest => r.1 ≤ r.2 && r.2 < s.1 && isAscending (s :: rest)

end Ranges

end TruthTable.Text
