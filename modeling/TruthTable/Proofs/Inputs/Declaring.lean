import Mathlib.Data.List.Nodup
import TruthTable.Inputs

/-!
# Declaring inputs from a list of texts

A list of texts is declared one text after the other, up to the first that is refused. What has been
declared is known from the texts alone, since a collection of inputs is determined by the texts of
its names (`Inputs.eq_of_map_text`), and so is what a refusal says: a text is no name, or it stands
in the list for the second time (`Inputs.Offence`).

`Inputs.ofNames` succeeds on the lists that could be the texts of a collection of inputs, and on any
other list it reports the first offence (`Inputs.ofNames_eq_error_iff`).
-/

namespace TruthTable.Inputs

variable {inputs more : Inputs} {texts : List String} {text : String} {fault : Fault}

/-! ### Texts and offences -/

/-- The names are determined by their texts. -/
theorem eq_of_map_text (h : inputs.names.map Name.text = more.names.map Name.text) :
    inputs = more :=
  ext_names (List.map_injective_iff.2 (fun _ _ ↦ Name.ext) h)

/-- Texts that can be declared together: they are names, and no two of them are equal. -/
structure Declarable (texts : List String) : Prop where
  /-- Each text is a name. -/
  valid : ∀ text ∈ texts, Name.IsValid text
  /-- No text is repeated. -/
  nodup : texts.Nodup

/-- What is wrong with a text, if the texts `earlier` are declared already. -/
inductive Offence (earlier : List String) (text : String) : Fault → Prop where
  /-- It is no name. -/
  | invalid (h : ¬ Name.IsValid text) : Offence earlier text (.invalidName text)
  /-- It is a name that is declared already. -/
  | repeated (hvalid : Name.IsValid text) (h : text ∈ earlier) :
    Offence earlier text (.repeatedName text)

/-- The first text of a list that can not be declared with those before it, and what is wrong with
it. -/
inductive FirstOffence : List String → Fault → Prop where
  /-- All texts in front of it can be declared, and behind it may stand anything. -/
  | intro {earlier later : List String} {text : String} {fault : Fault}
    (hearlier : Declarable earlier) (h : Offence earlier text fault) :
    FirstOffence (earlier ++ text :: later) fault

/-- The texts of inputs can be declared together. -/
theorem declarable_map_text (inputs : Inputs) : Declarable (inputs.names.map Name.text) where
  valid := by
    intro text htext
    obtain ⟨x, -, rfl⟩ := List.mem_map.1 htext
    exact x.valid
  nodup := List.Nodup.map (fun _ _ ↦ Name.ext) inputs.nodup_names

/-- Among texts that can be declared together, none offends. -/
theorem Declarable.not_offence {earlier later : List String}
    (h : Declarable (earlier ++ text :: later)) : ¬ Offence earlier text fault := by
  intro hoffence
  have hmem : text ∈ earlier ++ text :: later := by simp
  cases hoffence with
  | invalid hinvalid => exact hinvalid (h.valid text hmem)
  | repeated _ hrepeated => exact List.disjoint_of_nodup_append h.nodup hrepeated List.mem_cons_self

/-- One offence at most is found in a text. -/
theorem Offence.unique {earlier : List String} {other : Fault} (h : Offence earlier text fault)
    (h' : Offence earlier text other) : fault = other := by
  cases h with
  | invalid hinvalid =>
    cases h' with
    | invalid _ => rfl
    | repeated hvalid _ => exact absurd hvalid hinvalid
  | repeated hvalid _ =>
    cases h' with
    | invalid hinvalid => exact absurd hvalid hinvalid
    | repeated _ _ => rfl

theorem FirstOffence.not_declarable (h : FirstOffence texts fault) : ¬ Declarable texts := by
  obtain ⟨-, hoffence⟩ := h
  exact fun hdeclarable ↦ hdeclarable.not_offence hoffence

/-- A list has one first offence at most. -/
theorem FirstOffence.unique {other : Fault} (h : FirstOffence texts fault)
    (h' : FirstOffence texts other) : fault = other := by
  obtain @⟨earlier, later, text, _, hearlier, hoffence⟩ := h
  generalize hsplit : earlier ++ text :: later = texts at h'
  obtain @⟨earlier', later', text', _, hearlier', hoffence'⟩ := h'
  -- a text that offends is not among those in front of the other one, which can be declared
  rcases List.append_eq_append_iff.1 hsplit with ⟨between, rfl, hrest⟩ | ⟨between, rfl, hrest⟩
  · rcases between with - | ⟨c, between⟩
    · obtain ⟨rfl, -⟩ := List.cons.inj hrest
      rw [List.append_nil] at hoffence'
      exact hoffence.unique hoffence'
    · obtain ⟨rfl, -⟩ := List.cons.inj hrest
      exact absurd hoffence hearlier'.not_offence
  · rcases between with - | ⟨c, between⟩
    · obtain ⟨rfl, -⟩ := List.cons.inj hrest
      rw [List.append_nil] at hoffence
      exact hoffence.unique hoffence'
    · obtain ⟨rfl, -⟩ := List.cons.inj hrest
      exact absurd hoffence' hearlier.not_offence

/-! ### One text -/

theorem mem_map_text_iff : text ∈ inputs.names.map Name.text ↔ inputs.contains text = true := by
  rw [List.mem_map, contains_iff]

/-- One more text is declared, or it offends. -/
theorem declare_cases (inputs : Inputs) (text : String) :
    (∃ more, inputs.declare text = .ok (inputs.size, more) ∧
      more.names.map Name.text = inputs.names.map Name.text ++ [text]) ∨
      ∃ fault, inputs.declare text = .error fault ∧
        Offence (inputs.names.map Name.text) text fault := by
  by_cases hvalid : Name.IsValid text
  · have hname : Name.ofString text = .ok ⟨text, hvalid⟩ := by
      rw [Name.ofString, Name.ofString?, dif_pos hvalid]
    rw [declare, hname]
    by_cases hfresh : inputs.contains text = false
    · exact .inl ⟨inputs.push ⟨text, hvalid⟩ hfresh, dif_pos hfresh, by simp [push]⟩
    · refine .inr ⟨.repeatedName text, dif_neg hfresh, .repeated hvalid ?_⟩
      rwa [mem_map_text_iff, ← Bool.not_eq_false]
  · have hname : Name.ofString text = .error (.invalidName text) := by
      rw [Name.ofString, Name.ofString?, dif_neg hvalid]
    exact .inr ⟨.invalidName text, by rw [declare, hname]; rfl, .invalid hvalid⟩

/-! ### A list of texts -/

theorem declareAll_cons_of_ok {i : Nat} (h : inputs.declare text = .ok (i, more)) :
    inputs.declareAll (text :: texts) = more.declareAll texts := by
  rw [declareAll, h]
  rfl

theorem declareAll_cons_of_error (h : inputs.declare text = .error fault) :
    inputs.declareAll (text :: texts) = .error fault := by
  rw [declareAll, h]
  rfl

/-- What has been declared are the texts of the list, behind those that were there before. -/
theorem map_text_of_declareAll (h : inputs.declareAll texts = .ok more) :
    more.names.map Name.text = inputs.names.map Name.text ++ texts := by
  induction texts generalizing inputs with
  | nil =>
    obtain rfl : inputs = more := Except.ok.inj h
    rw [List.append_nil]
  | cons text texts ih =>
    rcases inputs.declare_cases text with ⟨next, hdeclare, hnext⟩ | ⟨fault, hdeclare, -⟩
    · rw [declareAll_cons_of_ok hdeclare] at h
      rw [ih h, hnext, List.append_assoc]
      rfl
    · rw [declareAll_cons_of_error hdeclare] at h
      cases h

/-- What is reported is the first offence of the list, behind what was there before. -/
theorem firstOffence_of_declareAll (h : inputs.declareAll texts = .error fault) :
    FirstOffence (inputs.names.map Name.text ++ texts) fault := by
  induction texts generalizing inputs with
  | nil => cases h
  | cons text texts ih =>
    rcases inputs.declare_cases text with ⟨next, hdeclare, hnext⟩ | ⟨fault', hdeclare, hoffence⟩
    · rw [declareAll_cons_of_ok hdeclare] at h
      have hfirst := ih h
      rw [hnext, List.append_assoc] at hfirst
      exact hfirst
    · rw [declareAll_cons_of_error hdeclare] at h
      obtain rfl := Except.error.inj h
      exact .intro inputs.declarable_map_text hoffence

/-- A list of texts gives inputs exactly if they are the texts of these inputs. -/
theorem ofNames_eq_ok_iff : ofNames texts = .ok inputs ↔ inputs.names.map Name.text = texts := by
  constructor
  · exact fun h ↦ map_text_of_declareAll h
  · rintro rfl
    rcases h : ofNames (inputs.names.map Name.text) with fault | more
    · exact absurd inputs.declarable_map_text (firstOffence_of_declareAll h).not_declarable
    · rw [eq_of_map_text (map_text_of_declareAll h)]

/-- A list of texts is refused exactly for its first offence. -/
theorem ofNames_eq_error_iff : ofNames texts = .error fault ↔ FirstOffence texts fault := by
  constructor
  · exact fun h ↦ firstOffence_of_declareAll h
  · intro hfirst
    rcases h : ofNames texts with other | inputs
    · rw [hfirst.unique (firstOffence_of_declareAll h)]
    · rw [ofNames_eq_ok_iff] at h
      exact absurd (h ▸ inputs.declarable_map_text) hfirst.not_declarable

end TruthTable.Inputs
