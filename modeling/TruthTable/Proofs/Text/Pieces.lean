import Mathlib.Algebra.BigOperators.Group.List.Basic
import Mathlib.Algebra.GroupWithZero.Nat
import TruthTable.Text.Blank

/-!
# Pieces that end with a separator

A text is often a list of pieces with a separator behind each of them: lines that end with newlines,
or cells that end with bars. `Text.ended` writes such a text and `Text.pieces?` reads it, by a split
at the separator whose last part has to be empty. Reading accepts exactly what is written from pieces
without separators of their own (`Text.pieces?_eq_some_iff`). So the lines of a text can be counted
(`Text.HasLineCount`).

A line of a markdown table is a bar with padded cells behind it that end with bars (`Text.barred`).
It is split into its cells by `Text.cells?`, and `Text.contents?` takes the padding off as well, which
gives back what was written if there is no bar in it (`Text.contents?_barred`).
-/

namespace TruthTable.Text

variable {sep : Char} {cs ds : List Char} {pieces contents : List (List Char)}

/-! ### Pieces -/

/-- The text of some pieces: each of them is followed by the separator. -/
def ended (sep : Char) (pieces : List (List Char)) : List Char :=
  pieces.flatMap (· ++ [sep])

/-- The pieces of a text that is empty or ends with the separator. -/
def pieces? (sep : Char) (cs : List Char) : Option (List (List Char)) :=
  if (cs.splitOn sep).getLast? = some [] then some (cs.splitOn sep).dropLast else none

theorem ended_cons (piece : List Char) (pieces : List (List Char)) :
    ended sep (piece :: pieces) = piece ++ sep :: ended sep pieces := by
  rw [ended, List.flatMap_cons, List.append_assoc]
  rfl

theorem splitOn_ended (h : ∀ piece ∈ pieces, sep ∉ piece) :
    (ended sep pieces).splitOn sep = pieces ++ [[]] := by
  induction pieces with
  | nil => exact List.splitOn_nil sep
  | cons piece pieces ih =>
    obtain ⟨hpiece, hpieces⟩ := List.forall_mem_cons.1 h
    rw [ended_cons, List.splitOn_append_cons_self_of_not_mem hpiece, ih hpieces]
    rfl

/-- A split has one part more than there are separators. -/
theorem length_splitOn (sep : Char) (cs : List Char) :
    (cs.splitOn sep).length = cs.count sep + 1 := by
  induction cs with
  | nil => rfl
  | cons c cs ih =>
    rw [List.splitOn_cons_eq_if_modifyHead, List.count_cons]
    split
    · rw [List.length_cons, ih]
    · rw [List.length_modifyHead, ih, Nat.add_zero]

/-- No separator is left in the parts. -/
theorem notMem_of_mem_splitOn {part : List Char} (h : part ∈ cs.splitOn sep) : sep ∉ part := by
  induction cs generalizing part with
  | nil =>
    rw [List.splitOn_nil, List.mem_singleton] at h
    rw [h]
    exact List.not_mem_nil
  | cons c cs ih =>
    rw [List.splitOn_cons_eq_if_modifyHead] at h
    split at h
    · rcases List.mem_cons.1 h with rfl | h
      · exact List.not_mem_nil
      · exact ih h
    · next hne =>
      obtain ⟨first, rest, hsplit⟩ := List.exists_cons_of_ne_nil (List.splitOn_ne_nil sep cs)
      rw [hsplit] at h ih
      rcases List.mem_cons.1 h with rfl | h
      · rw [beq_iff_eq] at hne
        exact List.not_mem_cons_of_ne_of_not_mem (Ne.symm hne) (ih List.mem_cons_self)
      · exact ih (List.mem_cons_of_mem _ h)

/-- What stands in front of a separator does not matter for the pieces behind it. -/
theorem pieces?_append (sep : Char) (cs ds : List Char) :
    pieces? sep (cs ++ sep :: ds) = (pieces? sep ds).map (cs.splitOn sep ++ ·) := by
  have hne := List.splitOn_ne_nil sep ds
  rw [pieces?, pieces?, List.splitOn_append_cons_self, List.getLast?_append,
    List.getLast?_eq_some_getLast hne, Option.some_or, List.dropLast_append_of_ne_nil hne]
  split <;> rfl

theorem pieces?_ended (h : ∀ piece ∈ pieces, sep ∉ piece) :
    pieces? sep (ended sep pieces) = some pieces := by
  rw [pieces?, splitOn_ended h, if_pos List.getLast?_concat, List.dropLast_concat]

/-- With an empty part at the end, the parts of a split are joined to pieces that end with the
separator. -/
theorem intercalate_concat_nil (sep : Char) (pieces : List (List Char)) :
    [sep].intercalate (pieces ++ [[]]) = ended sep pieces := by
  induction pieces with
  | nil => exact List.intercalate_singleton
  | cons piece pieces ih =>
    have hne : pieces ++ [[]] ≠ [] := by simp
    rw [List.cons_append, List.intercalate_cons_of_ne_nil hne, ih, ended_cons, List.append_assoc]
    rfl

/-- Reading accepts exactly what is written from pieces without separators. -/
theorem pieces?_eq_some_iff :
    pieces? sep cs = some pieces ↔ cs = ended sep pieces ∧ ∀ piece ∈ pieces, sep ∉ piece := by
  constructor
  · intro h
    rw [pieces?] at h
    split at h
    · next hlast =>
      obtain ⟨parts, hparts⟩ := List.getLast?_eq_some_iff.1 hlast
      rw [hparts, List.dropLast_concat, Option.some.injEq] at h
      subst h
      refine ⟨?_, fun piece hpiece ↦ ?_⟩
      · rw [← intercalate_concat_nil, ← hparts, List.intercalate_splitOn]
      · exact notMem_of_mem_splitOn (hparts ▸ List.mem_append_left _ hpiece)
    · cases h
  · intro ⟨hcs, hpieces⟩
    rw [hcs, pieces?_ended hpieces]

/-- The text consists of the given number of lines, and each of them ends with a newline. -/
def HasLineCount (text : String) (k : Nat) : Prop :=
  ∃ lines, text.toList = ended '\n' lines ∧ (∀ line ∈ lines, '\n' ∉ line) ∧ lines.length = k

theorem hasLineCount_iff {text : String} {k : Nat} :
    HasLineCount text k ↔ (pieces? '\n' text.toList).map List.length = some k := by
  simp only [HasLineCount, Option.map_eq_some_iff, pieces?_eq_some_iff, and_assoc]

instance (text : String) (k : Nat) : Decidable (HasLineCount text k) :=
  decidable_of_iff _ hasLineCount_iff.symm

/-! ### Cells -/

/-- A text with a space on each side. -/
def padded (cs : List Char) : List Char :=
  ' ' :: (cs ++ [' '])

/-- A text without one space on each side, if there is one on each side. -/
def unpadded? : List Char → Option (List Char)
  | ' ' :: cs => if cs.getLast? = some ' ' then some cs.dropLast else none
  | _ => none

/-- The line with the given contents of its cells. -/
def barred (contents : List (List Char)) : List Char :=
  '|' :: ended '|' (contents.map padded)

/-- The cells of a line. -/
def cells? : List Char → Option (List (List Char))
  | '|' :: cs => pieces? '|' cs
  | _ => none

/-- The contents of the cells of a line, if all cells are padded. -/
def contents? (line : List Char) : Option (List (List Char)) :=
  (cells? line).bind (·.mapM unpadded?)

theorem unpadded?_padded (cs : List Char) : unpadded? (padded cs) = some cs := by
  rw [padded, unpadded?, if_pos List.getLast?_concat, List.dropLast_concat]

/-- A line is split into its cells if there is no bar in any of them. -/
theorem cells?_barred (h : ∀ cs ∈ contents, '|' ∉ cs) :
    cells? (barred contents) = some (contents.map padded) := by
  refine pieces?_ended fun piece hpiece ↦ ?_
  obtain ⟨cs, hcs, rfl⟩ := List.mem_map.1 hpiece
  have hbar := h cs hcs
  simp [padded, hbar]

/-- If a reader succeeds on all texts of some kind, it succeeds on every list of them. -/
theorem mapM_map_eq_some {α β γ : Type} {write : α → β} {read : β → Option γ} {value : α → γ}
    (h : ∀ a, read (write a) = some (value a)) (as : List α) :
    (as.map write).mapM read = some (as.map value) := by
  have hread : read ∘ write = (pure <| value ·) := funext h
  rw [List.mapM_map, hread, List.mapM_pure]
  rfl

theorem contents?_barred (h : ∀ cs ∈ contents, '|' ∉ cs) :
    contents? (barred contents) = some contents := by
  rw [contents?, cells?_barred h, Option.bind_some, mapM_map_eq_some unpadded?_padded,
    List.map_id']

/-- The newlines of a line are those of its contents. -/
theorem count_newline_barred (contents : List (List Char)) :
    (barred contents).count '\n' = (contents.map (List.count '\n')).sum := by
  induction contents with
  | nil => rfl
  | cons cs contents ih =>
    have hbar : (barred contents).count '\n' = (ended '|' (contents.map padded)).count '\n' :=
      List.count_cons_of_ne (by decide)
    rw [List.map_cons, List.sum_cons, ← ih, hbar, barred, List.map_cons, ended_cons, padded]
    simp

theorem newline_notMem_barred (h : ∀ cs ∈ contents, '\n' ∉ cs) : '\n' ∉ barred contents := by
  rw [← List.count_eq_zero, count_newline_barred, List.sum_eq_zero_iff_forall_eq_nat,
    List.forall_mem_map]
  exact fun cs hcs ↦ List.count_eq_zero.2 (h cs hcs)

end TruthTable.Text
