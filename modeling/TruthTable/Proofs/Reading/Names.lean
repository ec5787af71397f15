import TruthTable.Proofs.Inputs.Declaring
import TruthTable.Proofs.Inputs.Undeclared
import TruthTable.Proofs.Reading.Grammar
import TruthTable.Proofs.Token.Boundary

/-!
# Names and the sources that are variables

Whether a text is a name is asked in two places that share no code. `Name.ofString` tests a whole
text, character by character, and takes it or leaves it. The reader of expressions takes the longest
run of characters from the middle of a source, behind blanks and signs, and makes a name of it
without another test.

The two agree. A text is a name exactly if reading it as a source gives the variable with that very
text (`Name.ofString_agrees_with_parse`), and then nothing of the source is left over: no blanks
around it, no parentheses. Inside a longer source, every variable is a stretch of the source
(`Expr.leaves_infix_of_parse`) that by itself is a name and reads as this variable.
-/

namespace TruthTable

variable {source : String} {e : Expr} {x : Name}

/-! ### The text of a name as a source -/

/-- The text of a name reads as the variable. -/
theorem Name.parse_self (x : Name) : Expr.parse x.text = .ok (.var x) :=
  parse_eq_ok_iff.2 ⟨[.name x], .singleton (.name x), .single (.plain (.var x))⟩

/-- A text makes a name exactly if it is the text of the name. -/
theorem Name.ofString_eq_ok_iff : Name.ofString source = .ok x ↔ x.text = source := by
  rw [← ofString?_eq_some_iff, ofString]
  split
  · next y h => simp [h]
  · next h => simp [h]

/-! ### The variables of a source -/

/-- The variables of a phrase are its tokens of this kind. -/
theorem Derives.name_mem {k : Phrase} {ts : List Token} (h : Derives k ts e) (hx : x ∈ e.leaves) :
    .name x ∈ ts := by
  induction h with
  | literal b => cases hx
  | var y =>
    obtain rfl := List.mem_singleton.1 hx
    exact List.mem_cons_self
  | group _ ih => exact List.mem_cons_of_mem _ (List.mem_append_left _ (ih hx))
  | plain _ ih => exact ih hx
  | negated _ ih => exact List.mem_cons_of_mem _ (ih hx)
  | single _ ih => exact ih hx
  | chain c _ _ ihleft ihright =>
    rcases List.mem_append.1 hx with hx | hx
    · exact List.mem_append_left _ (ihleft hx)
    · exact List.mem_append_right _ (List.mem_cons_of_mem _ (ihright hx))

/-- The text of a name that is among the tokens stands in the source. -/
theorem Cut.infix_of_name_mem {cs : List Char} {ts : List Token} (h : Cut cs ts)
    (hx : .name x ∈ ts) : x.text.toList <:+: cs := by
  induction h with
  | nil => cases hx
  | blank _ _ ih => exact (ih hx).trans (List.suffix_cons ..).isInfix
  | token written _ _ ih =>
    rcases List.mem_cons.1 hx with rfl | hx
    · cases written
      exact (List.prefix_append ..).isInfix
    · exact (ih hx).trans (List.suffix_append ..).isInfix

theorem Expr.leaves_infix_of_parse (h : Expr.parse source = .ok e) (hx : x ∈ e.leaves) :
    x.text.toList <:+: source.toList := by
  obtain ⟨ts, hcut, hderives⟩ := parse_eq_ok_iff.1 h
  exact hcut.infix_of_name_mem (hderives.name_mem hx)

/-- A name that is not declared yet can be declared. -/
theorem Inputs.declare_text_of_notMem {inputs : Inputs} (hx : x ∉ inputs.names) :
    ∃ more, inputs.declare x.text = .ok (inputs.size, more) ∧ more.names = inputs.names ++ [x] := by
  rcases inputs.declare_cases x.text with ⟨more, hdeclare, hmore⟩ | ⟨fault, -, hoffence⟩
  · refine ⟨more, hdeclare, List.map_injective_iff.2 (fun _ _ ↦ Name.ext) ?_⟩
    rw [hmore, List.map_append, List.map_singleton]
  · cases hoffence with
    | invalid hinvalid => exact absurd x.valid hinvalid
    | repeated _ hmem =>
      exact absurd ((List.mem_map_of_injective fun _ _ ↦ Name.ext).1 hmem) hx

/-! ### The agreement -/

/-- A text is accepted as a name exactly if, as a source, it is read as the variable with that text.
And every variable in a source that can be read is a stretch of the source which is accepted as a
name, reads as this variable by itself, and can be declared unless it is declared already. -/
theorem Name.ofString_agrees_with_parse (source : String) :
    ((∃ x, Name.ofString source = .ok x) ↔
      ∃ x, Expr.parse source = .ok (.var x) ∧ x.text = source) ∧
      ∀ e, Expr.parse source = .ok e → ∀ x ∈ e.leaves,
        x.text.toList <:+: source.toList ∧ Name.ofString x.text = .ok x ∧
          Expr.parse x.text = .ok (.var x) ∧
            ∀ inputs : Inputs, x ∉ inputs.names → ∃ more,
              inputs.declare x.text = .ok (inputs.size, more) ∧
                more.names = inputs.names ++ [x] := by
  refine ⟨⟨?_, ?_⟩, fun e he x hx ↦ ⟨e.leaves_infix_of_parse he hx, ?_, x.parse_self, ?_⟩⟩
  · rintro ⟨x, hx⟩
    obtain rfl := ofString_eq_ok_iff.1 hx
    exact ⟨x, x.parse_self, rfl⟩
  · rintro ⟨x, -, hx⟩
    exact ⟨x, ofString_eq_ok_iff.2 hx⟩
  · exact ofString_eq_ok_iff.2 rfl
  · exact fun inputs hinputs ↦ Inputs.declare_text_of_notMem hinputs

/-- A name with markup, behind a sign and next to another sign: it is read, and taken out of the
source it can be declared. -/
theorem Name.ofString_agrees_with_parse_markup :
    let x : Name := ⟨"p_{1}", by decide +kernel⟩
    let e : Expr := .join .or (.literal true) (.not (.var x))
    (Expr.parse "1+!p_{1} " = .ok e ∧ x ∈ e.leaves ∧ x ∉ Inputs.empty.names) ∧
      "p_{1}".toList <:+: "1+!p_{1} ".toList ∧ Name.ofString "p_{1}" = .ok x ∧
        ∃ more, Inputs.empty.declare "p_{1}" = .ok (0, more) ∧ more.names = [x] := by
  intro x e
  have hparse : Expr.parse "1+!p_{1} " = .ok e := by decide +kernel
  have hleaf : x ∈ e.leaves := List.mem_cons_self
  have hfresh : x ∉ Inputs.empty.names := List.not_mem_nil
  obtain ⟨hstretch, hname, -, hdeclare⟩ :=
    (ofString_agrees_with_parse "1+!p_{1} ").2 e hparse x hleaf
  exact ⟨⟨hparse, hleaf, hfresh⟩, hstretch, hname, hdeclare .empty hfresh⟩

end TruthTable
