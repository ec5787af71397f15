import TruthTable.Proofs.Inputs.History
import TruthTable.Proofs.Text.CommaList

/-!
# Inputs given by a list

Inputs are given as a list of texts, or as one text with commas in it.

Of a list of texts it can be asked at each place whether the text there offends those in front of it,
whatever else is wrong with the list (`Inputs.OffendsAt`). The least place where it does decides the
answer, and if there is none the list gives the inputs with these names, each in its place
(`Inputs.Answers`). That the list is gone through from the front, with a collection of inputs that
grows on the way, can not be seen in the answer (`Inputs.ofNames_eq_iff_answers`).

Inputs are written as one text and read from one. A written name is a single item, since there are
neither commas nor blanks in it (`Name.isItem_text`), so what is read from the text of some inputs are
these inputs again, whatever text they have been read from (`Inputs.ofText_text`).
-/

namespace TruthTable

open Text.CommaList (items IsItem)

namespace Inputs

variable {inputs : Inputs} {texts : List String} {fault : Fault} {i : Nat}

/-! ### Lists of texts, place by place -/

/-- Something is wrong with the text at a place of the list, if those in front of it are declared. -/
def OffendsAt (texts : List String) (i : Nat) (fault : Fault) : Prop :=
  ∃ text, texts[i]? = some text ∧ Offence (texts.take i) text fault

/-- The first part of a list offends where the whole list does. -/
theorem OffendsAt.of_take {j : Nat} (h : OffendsAt (texts.take i) j fault) :
    j < i ∧ OffendsAt texts j fault := by
  obtain ⟨text, htext, hoffence⟩ := h
  have hj : j < i := by
    by_contra hge
    rw [List.getElem?_take_eq_none (Nat.le_of_not_lt hge)] at htext
    cases htext
  rw [List.getElem?_take_of_lt hj] at htext
  rw [List.take_take, Nat.min_eq_left (Nat.le_of_lt hj)] at hoffence
  exact ⟨hj, text, htext, hoffence⟩

/-- A place splits the list. -/
theorem eq_take_append_cons {text : String} (h : texts[i]? = some text) :
    texts = texts.take i ++ text :: texts.drop (i + 1) := by
  obtain ⟨hi, rfl⟩ := List.getElem?_eq_some_iff.1 h
  rw [← List.drop_eq_getElem_cons hi, List.take_append_drop]

/-- Among texts that can be declared together, no place offends. -/
theorem Declarable.not_offendsAt (h : Declarable texts) : ¬ OffendsAt texts i fault := by
  rintro ⟨text, htext, hoffence⟩
  rw [eq_take_append_cons htext] at h
  exact h.not_offence hoffence

/-- The first offence of a list is the one at the least place. -/
theorem FirstOffence.exists_offendsAt (h : FirstOffence texts fault) :
    ∃ i, OffendsAt texts i fault ∧ ∀ j < i, ∀ other, ¬ OffendsAt texts j other := by
  obtain @⟨earlier, later, text, fault, hearlier, hoffence⟩ := h
  refine ⟨earlier.length, ⟨text, ?_, ?_⟩, ?_⟩
  · rw [List.getElem?_append_right (Nat.le_refl _), Nat.sub_self]
    rfl
  · rwa [List.take_left]
  · intro j hj other ⟨text', htext', hoffence'⟩
    rw [List.getElem?_append_left hj] at htext'
    rw [List.take_append_of_le_length (Nat.le_of_lt hj)] at hoffence'
    exact hearlier.not_offendsAt ⟨text', htext', hoffence'⟩

/-- Texts can be declared together if no place offends. -/
theorem declarable_of_forall (h : ∀ i fault, ¬ OffendsAt texts i fault) : Declarable texts := by
  rcases hlist : ofNames texts with fault | inputs
  · obtain ⟨i, hoffends, -⟩ := (ofNames_eq_error_iff.1 hlist).exists_offendsAt
    exact absurd hoffends (h i fault)
  · exact ofNames_eq_ok_iff.1 hlist ▸ inputs.declarable_map_text

theorem firstOffence_iff :
    FirstOffence texts fault ↔
      ∃ i, OffendsAt texts i fault ∧ ∀ j < i, ∀ other, ¬ OffendsAt texts j other := by
  constructor
  · exact FirstOffence.exists_offendsAt
  · rintro ⟨i, ⟨text, htext, hoffence⟩, hleast⟩
    have hearlier : Declarable (texts.take i) := declarable_of_forall fun j other hother ↦
      hleast j hother.of_take.1 other hother.of_take.2
    rw [eq_take_append_cons htext]
    exact .intro hearlier hoffence

/-- What a list of texts is to be answered with. -/
inductive Answers (texts : List String) : Except Fault Inputs → Prop where
  /-- The inputs with these names, each in its place, if all texts are names and no two of them are
  equal. -/
  | declared {inputs : Inputs} (declarable : Declarable texts)
    (names_eq : inputs.names.map Name.text = texts)
    (position?_iff : ∀ name i, inputs.position? name = some i ↔ texts[i]? = some name) :
    Answers texts (.ok inputs)
  /-- What is wrong at the least place where something is wrong. -/
  | refused {i : Nat} {fault : Fault} (offends : OffendsAt texts i fault)
    (least : ∀ j < i, ∀ other, ¬ OffendsAt texts j other) : Answers texts (.error fault)

theorem answers_ok_iff : Answers texts (.ok inputs) ↔ inputs.names.map Name.text = texts := by
  constructor
  · rintro ⟨-, hnames, -⟩
    exact hnames
  · rintro rfl
    exact .declared inputs.declarable_map_text rfl inputs.hasInverseIndex.position?_iff

/-- A list of texts is answered in the way in which it is to be answered, and in no other. It gives
inputs exactly if all texts are names and no two of them are equal. -/
theorem ofNames_eq_iff_answers (texts : List String) :
    (∀ answer, ofNames texts = answer ↔ Answers texts answer) ∧
      ((∃ inputs, ofNames texts = .ok inputs) ↔
        (∀ text ∈ texts, Name.IsValid text) ∧ texts.Nodup) := by
  refine ⟨?_, ?_, ?_⟩
  · rintro (fault | inputs)
    · rw [ofNames_eq_error_iff, firstOffence_iff]
      constructor
      · rintro ⟨i, hoffends, hleast⟩
        exact .refused hoffends hleast
      · rintro (_ | ⟨hoffends, hleast⟩)
        exact ⟨_, hoffends, hleast⟩
    · rw [ofNames_eq_ok_iff, answers_ok_iff]
  · rintro ⟨inputs, hinputs⟩
    obtain rfl := ofNames_eq_ok_iff.1 hinputs
    exact ⟨inputs.declarable_map_text.valid, inputs.declarable_map_text.nodup⟩
  · rintro ⟨hvalid, hnodup⟩
    rcases hlist : ofNames texts with fault | inputs
    · exact absurd ⟨hvalid, hnodup⟩ (ofNames_eq_error_iff.1 hlist).not_declarable
    · exact ⟨inputs, rfl⟩

/-- A text that is no name stands in front of its repetition and of that of a name. -/
example : ofNames ["p", "p q", "p q", "p"] = .error (.invalidName "p q") := by
  decide +kernel

end Inputs

/-! ### Texts with commas -/

/-- The text of a name is an item, with nothing to cut off. -/
theorem Name.isItem_text (x : Name) : IsItem x.text where
  ne_empty := by
    obtain ⟨c, cs, hx, -⟩ := x.exists_toList_eq_cons
    intro hempty
    rw [hempty] at hx
    cases hx
  comma_notMem := notMem_of_isContinue (isContinue_of_mem_signs (by decide))
  isTrimmed := by
    refine .of_forall fun c hc ↦ ?_
    rw [← Bool.not_eq_true]
    intro hblank
    exact notMem_of_isContinue (isContinue_of_isBlank hblank) hc

namespace Inputs

/-- The items of the text of inputs are their names. -/
theorem items_text (inputs : Inputs) : items inputs.text = inputs.names.map Name.text := by
  have hsep : ", ".toList = ',' :: [' '] := rfl
  have hblank : Text.AllBlank [' '] := List.forall_mem_singleton.2 (by decide)
  rw [text, Text.CommaList.items_intercalate hsep hblank, List.flatMap_map]
  simp only [(Name.isItem_text _).items_eq]
  exact List.flatMap_pure_eq_map _ _

/-- The text of any inputs is read as these inputs: the same names, in the same order and at the same
positions. Inputs are read from another text exactly if its items are their names. -/
theorem ofText_text (inputs : Inputs) :
    ofText inputs.text = .ok inputs ∧
      ∀ text, ofText text = .ok inputs ↔ items text = inputs.names.map Name.text := by
  have hread (text : String) :
      ofText text = .ok inputs ↔ items text = inputs.names.map Name.text :=
    ofNames_eq_ok_iff.trans eq_comm
  exact ⟨(hread inputs.text).2 inputs.items_text, hread⟩

/-- Blanks of any kind around the names, and commas without a name, are not written again. -/
example : (ofText " p_{1},,\u3000q\n, ").map text = .ok "p_{1}, q" := by
  decide +kernel

end Inputs

end TruthTable
