import Mathlib.Data.List.DropRight
import TruthTable.Text.CommaList

/-!
# The items of a comma-separated list

What the items of a text are is settled by three equations, one for each thing that may be met on
the way through the text. At a comma the text falls into two, and the items of the parts follow one
another (`itemChars_append_comma`). Blanks in front of a text do not matter
(`itemChars_append_of_allBlank`). A text without commas is one item, trimmed, unless nothing is left
of it (`itemChars_of_comma_notMem`).

So a list that is put together from texts, with a comma and any blanks between two of them, has
the items of these texts (`items_intercalate`).

What an item can be is a property of its text alone (`IsItem`), and a text that has it is its own
only item (`IsItem.items_eq`). So the items of a text, written as a list again, are found again
(`items_intercalate_and_isItem`): once cut, a list can be joined and cut any number of times.
-/

namespace TruthTable.Text

variable {before cs after : List Char}

/-! ### Trimming -/

/-- There is nothing but blanks. -/
def AllBlank (cs : List Char) : Prop :=
  ∀ c ∈ cs, isBlank c = true

/-- Blanks in front are cut off. -/
theorem trim_append_left (h : AllBlank before) : trim (before ++ cs) = trim cs := by
  rw [trim, trim, trimFront, List.dropWhile_append_of_pos h]
  rfl

/-- Blanks behind are cut off. -/
theorem trim_append_right (h : AllBlank after) : trim (cs ++ after) = trim cs := by
  have hback (ds : List Char) : trimBack (ds ++ after) = trimBack ds := by
    have hreverse : ∀ c ∈ after.reverse, isBlank c = true := fun c hc ↦ h c (List.mem_reverse.1 hc)
    rw [trimBack, trimBack, trimFront, List.reverse_append, List.dropWhile_append_of_pos hreverse]
    rfl
  rw [trim, trim, trimFront, trimFront, List.dropWhile_append]
  split
  -- if nothing is left of the text, nothing is left of the blanks either
  · next hempty => rw [List.dropWhile_eq_nil_iff.2 h, List.isEmpty_iff.1 hempty]
  · exact hback _

/-- There is no blank at either end. -/
structure IsTrimmed (cs : List Char) : Prop where
  /-- The first character is not blank. -/
  head : ∀ c ∈ cs.head?, isBlank c = false
  /-- The last character is not blank. -/
  last : ∀ c ∈ cs.getLast?, isBlank c = false

theorem isBlank_of_mem_head?_trimFront {c : Char} (h : c ∈ (trimFront cs).head?) :
    isBlank c = false := by
  have hnot := List.head?_dropWhile_not isBlank cs
  have hhead : (cs.dropWhile isBlank).head? = some c := h
  rwa [hhead] at hnot

/-- What is left has no blank at either end. -/
theorem isTrimmed_trim (cs : List Char) : IsTrimmed (trim cs) where
  head := by
    intro c hc
    obtain ⟨rest, hrest⟩ : trim cs <+: trimFront cs := List.rdropWhile_prefix isBlank (trimFront cs)
    have hfront : (trimFront cs).head? = some c := by
      rw [← hrest, List.head?_append, hc]
      rfl
    exact isBlank_of_mem_head?_trimFront hfront
  last := by
    intro c hc
    rw [trim, trimBack, List.getLast?_reverse] at hc
    exact isBlank_of_mem_head?_trimFront hc

/-- Where there is no blank at either end, nothing is cut off. -/
theorem IsTrimmed.trim_eq (h : IsTrimmed cs) : trim cs = cs := by
  have hself {ds : List Char} (hds : ∀ c ∈ ds.head?, isBlank c = false) : trimFront ds = ds := by
    refine List.dropWhile_eq_self_iff.2 fun hpos ↦ ?_
    simp [hds ds[0] (List.head?_eq_getElem? ▸ List.getElem?_eq_getElem hpos)]
  have hback : trimFront cs.reverse = cs.reverse :=
    hself fun c hc ↦ h.last c (List.head?_reverse ▸ hc)
  rw [trim, hself h.head, trimBack, hback, List.reverse_reverse]

/-- Where there are no blanks at all, there is none at the ends. -/
theorem IsTrimmed.of_forall (h : ∀ c ∈ cs, isBlank c = false) : IsTrimmed cs where
  head c hc := h c (List.mem_of_mem_head? hc)
  last c hc := h c (List.mem_of_getLast? hc)

/-- Nothing but blanks is cut off. -/
theorem exists_eq_append_trim (cs : List Char) :
    ∃ before after, AllBlank before ∧ AllBlank after ∧ cs = before ++ (trim cs ++ after) := by
  refine ⟨cs.takeWhile isBlank, (trimFront cs).rtakeWhile isBlank,
    fun _ ↦ List.mem_takeWhile_imp, fun _ ↦ List.mem_rtakeWhile_imp, ?_⟩
  have hback : trim cs ++ (trimFront cs).rtakeWhile isBlank = trimFront cs :=
    List.rdropWhile_append_rtakeWhile
  rw [hback]
  exact List.takeWhile_append_dropWhile.symm

/-- A text without the blanks around it. -/
def trimmed (text : String) : String :=
  String.ofList (trim text.toList)

namespace CommaList

/-! ### Items -/

theorem comma_notMem_of_allBlank (h : AllBlank cs) : ',' ∉ cs := by
  intro hmem
  cases h ',' hmem

/-- A text without commas is in one piece. -/
theorem fields_of_comma_notMem (h : ',' ∉ cs) : fields cs = [cs] := by
  induction cs with
  | nil => rfl
  | cons c cs ih =>
    rw [fields, if_neg (List.ne_of_not_mem_cons h).symm, ih (List.not_mem_of_not_mem_cons h)]

/-- There is no comma in a piece. -/
theorem comma_notMem_of_mem_fields {field : List Char} (h : field ∈ fields cs) : ',' ∉ field := by
  induction cs generalizing field with
  | nil =>
    obtain rfl := List.mem_singleton.1 h
    exact List.not_mem_nil
  | cons c cs ih =>
    obtain ⟨first, others, hfields⟩ := List.exists_cons_of_ne_nil (fields_ne_nil cs)
    rw [hfields] at ih
    rw [fields, hfields] at h
    split at h
    · rcases List.mem_cons.1 h with rfl | h
      · exact List.not_mem_nil
      · exact ih h
    · next hc =>
      rcases List.mem_cons.1 h with rfl | h
      -- the character is put in front of the first piece
      · exact List.not_mem_cons_of_ne_of_not_mem (Ne.symm hc) (ih List.mem_cons_self)
      · exact ih (List.mem_cons_of_mem first h)

/-- The items in front of a comma and those behind it are found independently. -/
theorem itemChars_append_comma (cs ds : List Char) :
    itemChars (cs ++ ',' :: ds) = itemChars cs ++ itemChars ds := by
  rw [itemChars, fields_append_comma, List.map_append, List.filter_append]
  rfl

/-- Blanks in front of a text do not matter. -/
theorem itemChars_append_of_allBlank (h : AllBlank before) :
    itemChars (before ++ cs) = itemChars cs := by
  induction before with
  | nil => rfl
  | cons b before ih =>
    obtain ⟨hb, hbefore⟩ := List.forall_mem_cons.1 h
    have hcomma : b ≠ ',' := by
      rintro rfl
      cases hb
    rw [← ih hbefore, itemChars, itemChars, List.cons_append, fields, if_neg hcomma]
    obtain ⟨f, fs, hf⟩ := List.exists_cons_of_ne_nil (fields_ne_nil (before ++ cs))
    have hblank : AllBlank [b] := List.forall_mem_singleton.2 hb
    have htrim : trim (b :: f) = trim f := trim_append_left hblank
    rw [hf, List.map_cons, List.map_cons, htrim]

/-- A text without commas is an item, unless nothing is left of it. -/
theorem itemChars_of_comma_notMem (h : ',' ∉ cs) :
    itemChars cs = if trim cs = [] then [] else [trim cs] := by
  rw [itemChars, fields_of_comma_notMem h, List.map_singleton]
  split
  · next hnil => rw [hnil, List.filter_cons_of_neg (by simp), List.filter_nil]
  · next hne => rw [List.filter_cons_of_pos (by simpa using hne), List.filter_nil]

/-- The items of some texts, put one behind the other, are the items of their list. -/
theorem itemChars_intercalate (h : AllBlank after) (pieces : List (List Char)) :
    itemChars ((',' :: after).intercalate pieces) = pieces.flatMap itemChars := by
  induction pieces with
  | nil => rfl
  | cons piece pieces ih =>
    by_cases hne : pieces = []
    · rw [hne, List.intercalate_singleton, List.flatMap_singleton]
    · rw [List.intercalate_cons_of_ne_nil hne, List.append_assoc, List.cons_append,
        itemChars_append_comma, itemChars_append_of_allBlank h, ih, List.flatMap_cons]

/-- A text without commas that is not blank is the only item, up to the blanks around it. -/
theorem items_eq_singleton {text : String} (h : ',' ∉ text.toList) (hne : trim text.toList ≠ []) :
    items text = [trimmed text] := by
  rw [items, itemChars_of_comma_notMem h, if_neg hne]
  rfl

theorem items_intercalate {sep : String} (hsep : sep.toList = ',' :: after) (h : AllBlank after)
    (texts : List String) : items (sep.intercalate texts) = texts.flatMap items := by
  rw [items, String.toList_intercalate, hsep, itemChars_intercalate h, List.map_flatMap,
    List.flatMap_map]
  rfl

/-! ### The form of an item -/

/-- A text that can be an item. -/
structure IsItem (text : String) : Prop where
  /-- There is something in it. -/
  ne_empty : text ≠ ""
  /-- There is no comma in it. -/
  comma_notMem : ',' ∉ text.toList
  /-- There is no blank at either end of it. -/
  isTrimmed : IsTrimmed text.toList

/-- The items of any text have the form of an item. -/
theorem isItem_of_mem_items {text item : String} (h : item ∈ items text) : IsItem item := by
  obtain ⟨chars, hchars, rfl⟩ := List.mem_map.1 h
  obtain ⟨hmem, hne⟩ := List.mem_filter.1 hchars
  obtain ⟨field, hfield, rfl⟩ := List.mem_map.1 hmem
  obtain ⟨before, after, -, -, hcut⟩ := exists_eq_append_trim field
  have hcomma : ',' ∉ trim field := by
    intro hmem
    refine comma_notMem_of_mem_fields hfield ?_
    rw [hcut]
    exact List.mem_append_right before (List.mem_append_left after hmem)
  refine ⟨?_, ?_, ?_⟩
  · intro hempty
    rw [String.ofList_eq_empty_iff.1 hempty] at hne
    cases hne
  · rwa [String.toList_ofList]
  · rw [String.toList_ofList]
    exact isTrimmed_trim field

/-- A text with the form of an item is its own only item. -/
theorem IsItem.items_eq {text : String} (h : IsItem text) : items text = [text] := by
  have htrim : trim text.toList = text.toList := h.isTrimmed.trim_eq
  have hne : trim text.toList ≠ [] := by
    rw [htrim]
    exact mt String.toList_eq_nil_iff.1 h.ne_empty
  rw [items_eq_singleton h.comma_notMem hne, trimmed, htrim, String.ofList_toList]

/-- The items of some texts that are joined by commas are the items of the first text, then those of
the second and so on. The items of any text are not empty, have no comma in them and no blank at
either end; and joined by commas they are found again, the same and in the same order. -/
theorem items_intercalate_and_isItem (texts : List String) :
    items (String.intercalate "," texts) = texts.flatMap items ∧
      ∀ text, (∀ item ∈ items text, IsItem item) ∧
        items (String.intercalate "," (items text)) = items text := by
  have hsep : ",".toList = ',' :: [] := rfl
  have hjoin (parts : List String) :
      items (String.intercalate "," parts) = parts.flatMap items :=
    items_intercalate hsep (List.forall_mem_nil _) parts
  refine ⟨hjoin texts, fun text ↦ ⟨fun item hitem ↦ isItem_of_mem_items hitem, ?_⟩⟩
  have hsingle : ∀ item ∈ items text, items item = [item] :=
    fun item hitem ↦ (isItem_of_mem_items hitem).items_eq
  calc items (String.intercalate "," (items text))
      = (items text).flatMap items := hjoin (items text)
    _ = (items text).flatMap fun item ↦ [item] := List.flatMap_congr hsingle
    _ = items text := List.flatMap_pure_eq_map id (items text) |>.trans (List.map_id _)

/-- Blanks between two words stay, and nothing is left of a piece that is blank. -/
example : items " a b ,,\u3000, c\n," = ["a b", "c"] := by
  decide +kernel

end CommaList

end TruthTable.Text
