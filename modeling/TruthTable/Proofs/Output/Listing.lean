import TruthTable.Proofs.Output.Batch
import TruthTable.Proofs.Reading.Grammar
import TruthTable.Proofs.Text.CommaList

/-!
# Sources in a comma-separated list

The sources of outputs are handed over in one text, with commas between them. It is taken apart
without any knowledge of expressions, before a single one is read, and still no source is damaged.

Each character of an accepted source is white space or stands in the word of a token
(`Cut.mem_cases`). From this follow the two facts that are needed. There is no comma in the source.
And all blanks in it are white space: of the many characters that are cut off at the ends of an item,
only those four can be there that are passed over anyway. So a source without the blanks around it is
cut into the same tokens (`Cut.trim`) and read as the same tree (`Expr.parse_trimmed`).
-/

namespace TruthTable

variable {before cs after word : List Char} {ts : List Token} {c : Char} {source wide : String}
  {e : Expr}

/-! ### The characters of a source -/

/-- A word consists of signs, or of characters of names. -/
theorem Token.Written.mem_cases {t : Token} (h : t.Written word) (hc : c ∈ word) :
    c ∈ "!()&|.*+".toList ∨ Name.isContinue c = true := by
  cases h with
  | not | opening | closing =>
    obtain rfl := List.mem_singleton.1 hc
    exact .inl (by decide)
  | literal b =>
    obtain rfl := List.mem_singleton.1 hc
    have hdigit : (Text.bit b).isDigit = true := by cases b <;> rfl
    exact .inr (by rw [Name.isContinue, hdigit, Bool.or_true])
  | @connective connective _ hword =>
    have hall : connective.words.all (fun w ↦ w.all fun d ↦ d ∈ "!()&|.*+".toList) = true := by
      cases connective <;> decide
    exact .inl (of_decide_eq_true (List.all_eq_true.1 (List.all_eq_true.1 hall word hword) c hc))
  | name x => exact .inr (Name.isContinue_of_mem hc)

namespace Cut

/-- Between words there is nothing but white space. -/
theorem mem_cases (h : Cut cs ts) (hc : c ∈ cs) :
    c.isWhitespace = true ∨ c ∈ "!()&|.*+".toList ∨ Name.isContinue c = true := by
  induction h with
  | nil => cases hc
  | blank hblank _ ih =>
    rcases List.mem_cons.1 hc with rfl | hc
    · exact .inl (isWhitespace_iff.2 hblank)
    · exact ih hc
  | token written _ _ ih =>
    rcases List.mem_append.1 hc with hc | hc
    · exact .inr (written.mem_cases hc)
    · exact ih hc

/-- There is no comma in a text that is cut into tokens. -/
theorem comma_notMem (h : Cut cs ts) : ',' ∉ cs := by
  intro hc
  rcases h.mem_cases hc with hspace | hsign | hname
  · cases hspace
  · revert hsign
    decide
  · rw [Name.isContinue_of_mem_signs (by decide)] at hname
    cases hname

/-- All blanks in a text that is cut into tokens are white space. -/
theorem isWhitespace_of_isBlank (h : Cut cs ts) (hc : c ∈ cs) (hblank : Text.isBlank c = true) :
    c.isWhitespace = true := by
  rcases h.mem_cases hc with hspace | hsign | hname
  · exact hspace
  · have hall : "!()&|.*+".toList.all (fun d ↦ !Text.isBlank d) = true := by decide
    have hc := List.all_eq_true.1 hall c hsign
    rw [hblank] at hc
    cases hc
  · rw [Name.isContinue_of_isBlank hblank] at hname
    cases hname

/-! ### White space around a source -/

/-- White space in front of a text is no part of its tokens. -/
theorem of_append_left (h : Cut (before ++ cs) ts)
    (hbefore : ∀ c ∈ before, c.isWhitespace = true) : Cut cs ts := by
  induction before with
  | nil => exact h
  | cons b before ih =>
    obtain ⟨hb, hbefore⟩ := List.forall_mem_cons.1 hbefore
    refine ih ?_ hbefore
    generalize hall : b :: before ++ cs = all at h
    cases h with
    | nil => cases hall
    | blank _ hrest =>
      cases hall
      exact hrest
    | token written _ _ =>
      obtain ⟨d, w, rfl⟩ := List.exists_cons_of_ne_nil written.ne_nil
      obtain ⟨rfl, -⟩ := List.cons.inj hall
      rw [written.isWhitespace_of_mem List.mem_cons_self] at hb
      cases hb

/-- A white space behind a text is no part of its tokens. -/
theorem of_concat (h : Cut (cs ++ [c]) ts) (hc : c.isWhitespace = true) : Cut cs ts := by
  generalize hall : cs ++ [c] = all at h
  induction h generalizing cs with
  | nil => cases (List.append_eq_nil_iff.1 hall).2
  | blank hd hrest ih =>
    rcases cs with - | ⟨d, cs⟩
    · obtain ⟨-, rfl⟩ := List.cons.inj hall
      exact hrest
    · obtain ⟨rfl, hinner⟩ := List.cons.inj hall
      exact .blank hd (ih hinner)
  | @token word rest t ts written longest _ ih =>
    rcases List.eq_nil_or_concat' rest with rfl | ⟨rest, d, rfl⟩
    -- the white space is not in the word
    · have hmem : c ∈ word := by
        rw [← List.append_nil word, ← hall]
        exact List.mem_append_right cs List.mem_cons_self
      rw [written.isWhitespace_of_mem hmem] at hc
      cases hc
    · rw [← List.append_assoc] at hall
      obtain ⟨rfl, hd⟩ := List.append_inj' hall rfl
      obtain rfl := List.singleton_inj.1 hd
      have hlongest : IsLongest word rest := fun t longer hw hfront ↦
        longest t longer hw (hfront.trans ((List.prefix_append_right_inj word).2
          (List.prefix_append rest [c])))
      exact .token written hlongest (ih rfl)

/-- White space behind a text is no part of its tokens. -/
theorem of_append_right (h : Cut (cs ++ after) ts)
    (hafter : ∀ c ∈ after, c.isWhitespace = true) : Cut cs ts := by
  induction after using List.reverseRecOn with
  | nil => rwa [List.append_nil] at h
  | append_singleton after c ih =>
    obtain ⟨hafter, hc⟩ := List.forall_mem_append.1 hafter
    rw [← List.append_assoc] at h
    exact ih (h.of_concat (hc c List.mem_cons_self)) hafter

/-- The blanks around a text are no part of its tokens, whatever blanks they are. -/
theorem trim (h : Cut cs ts) : Cut (Text.trim cs) ts := by
  obtain ⟨before, after, hbefore, hafter, hcs⟩ := Text.exists_eq_append_trim cs
  have hspace {c : Char} (hc : c ∈ before ++ (Text.trim cs ++ after))
      (hblank : Text.isBlank c = true) : c.isWhitespace = true :=
    h.isWhitespace_of_isBlank (hcs ▸ hc) hblank
  have hinner : Cut (Text.trim cs ++ after) ts :=
    of_append_left (hcs ▸ h) fun c hc ↦ hspace (List.mem_append_left _ hc) (hbefore c hc)
  exact hinner.of_append_right fun c hc ↦ hspace (by simp [hc]) (hafter c hc)

end Cut

/-- A phrase has tokens. -/
theorem Derives.ne_nil {k : Phrase} (h : Derives k ts e) : ts ≠ [] := by
  induction h with
  | plain _ ih => exact ih
  | single _ ih => exact ih
  | chain => exact List.append_ne_nil_of_right_ne_nil _ (List.cons_ne_nil _ _)
  | literal | var | group | negated => exact List.cons_ne_nil _ _

/-! ### Sources without the blanks around them -/

namespace Expr

/-- An accepted source is not changed in its meaning when the blanks around it are cut off. -/
theorem parse_trimmed (h : parse source = .ok e) : parse (Text.trimmed source) = .ok e := by
  obtain ⟨ts, hcut, hderives⟩ := parse_eq_ok_iff.1 h
  refine parse_eq_ok_iff.2 ⟨ts, ?_, hderives⟩
  rw [Text.trimmed, String.toList_ofList]
  exact hcut.trim

theorem Accepted.comma_notMem (h : Accepted source) : ',' ∉ source.toList := by
  obtain ⟨e, he⟩ := h
  obtain ⟨ts, hcut, -⟩ := parse_eq_ok_iff.1 he
  exact hcut.comma_notMem

/-- Something is left of an accepted source when the blanks around it are cut off. -/
theorem Accepted.trim_ne_nil (h : Accepted source) : Text.trim source.toList ≠ [] := by
  obtain ⟨e, he⟩ := h
  obtain ⟨ts, hcut, hderives⟩ := parse_eq_ok_iff.1 he
  intro hnil
  have hempty := hcut.trim
  rw [hnil] at hempty
  exact hderives.ne_nil hempty.tokensOf_eq.symm

end Expr

/-! ### Lists of sources -/

/-- The text `wide` is the text `text` with any number of blanks on both sides of it. -/
def Text.Widens (text wide : String) : Prop :=
  ∃ before after, AllBlank before ∧ AllBlank after ∧ wide.toList = before ++ (text.toList ++ after)

/-- An accepted source with blanks around it is one item. -/
theorem Expr.Accepted.items_eq (h : Accepted source) (hwide : Text.Widens source wide) :
    Text.CommaList.items wide = [Text.trimmed source] := by
  obtain ⟨before, after, hbefore, hafter, hwide⟩ := hwide
  have htrim : Text.trim wide.toList = Text.trim source.toList := by
    rw [hwide, Text.trim_append_left hbefore, Text.trim_append_right hafter]
  have hcomma : ',' ∉ wide.toList := by
    rw [hwide, List.mem_append, List.mem_append, not_or, not_or]
    exact ⟨Text.CommaList.comma_notMem_of_allBlank hbefore, h.comma_notMem,
      Text.CommaList.comma_notMem_of_allBlank hafter⟩
  rw [Text.CommaList.items_eq_singleton hcomma (htrim ▸ h.trim_ne_nil), Text.trimmed, htrim]
  rfl

namespace Output

variable {sources wides : List String} {output : Output}

/-- The items of a list of accepted sources are the sources without the blanks around them. -/
theorem items_intercalate_wides (haccepted : ∀ source ∈ sources, Expr.Accepted source)
    (hwides : List.Forall₂ Text.Widens sources wides) :
    Text.CommaList.items (String.intercalate "," wides) = sources.map Text.trimmed := by
  have hsep : ",".toList = ',' :: [] := rfl
  rw [Text.CommaList.items_intercalate hsep (List.forall_mem_nil _)]
  induction hwides with
  | nil => rfl
  | cons hwide _ ih =>
    obtain ⟨hsource, hsources⟩ := List.forall_mem_cons.1 haccepted
    rw [List.flatMap_cons, hsource.items_eq hwide, ih hsources]
    rfl

/-- The output with the blanks around its label cut off. -/
def trimLabel (output : Output) : Output :=
  { output with label := Text.trimmed output.label }

/-- The output of a source without the blanks around it holds the same tree. -/
theorem Reads.trimmed (h : output.Reads source) : output.trimLabel.Reads (Text.trimmed source) where
  label_eq := congrArg Text.trimmed h.label_eq
  parse_eq := Expr.parse_trimmed h.parse_eq

/-- In a list of sources, all of which are accepted, there is no comma inside a source. Put into one
text, with a comma between two of them and any blanks around them, they are found again as the items
of this text, as many and in the same order, without the blanks around them. Each item is read as the
same tree as its source, and all of them together are read to the same outputs as the sources, with
the blanks around the labels cut off. -/
theorem items_read_as_sources (haccepted : ∀ source ∈ sources, Expr.Accepted source)
    (hwides : List.Forall₂ Text.Widens sources wides) (messages : Array Message) :
    (∀ source ∈ sources, ',' ∉ source.toList) ∧
      Text.CommaList.items (String.intercalate "," wides) = sources.map Text.trimmed ∧
      (∀ source ∈ sources, ∃ e, Expr.parse source = .ok e ∧
        Expr.parse (Text.trimmed source) = .ok e) ∧
      ∃ outputs, ((parseAll sources).run.run messages).1 = .ok outputs ∧
        outputs.map label = sources ∧
        ((parseAll (Text.CommaList.items (String.intercalate "," wides))).run.run messages).1 =
          .ok (outputs.map trimLabel) := by
  have hitems := items_intercalate_wides haccepted hwides
  have hreads : List.Forall₂ Reads (sources.filterMap ofSource?) sources :=
    forall₂_reads_iff.2 ⟨refusals_eq_nil_iff.2 haccepted, rfl⟩
  refine ⟨fun source hsource ↦ (haccepted source hsource).comma_notMem, hitems, ?_,
    sources.filterMap ofSource?, run_parseAll_of_reads hreads messages,
    map_label_of_reads hreads, ?_⟩
  · intro source hsource
    obtain ⟨e, he⟩ := haccepted source hsource
    exact ⟨e, he, Expr.parse_trimmed he⟩
  · rw [hitems]
    refine run_parseAll_of_reads ?_ messages
    rw [List.forall₂_map_left_iff, List.forall₂_map_right_iff]
    exact hreads.imp fun _ _ h ↦ h.trimmed

/-- Two sources with white space at an end and inside, the first of them between blanks that can not
be read over in a source. -/
theorem items_read_as_sources_between_blanks :
    let p : Expr := .var ⟨"p", by decide +kernel⟩
    let q : Expr := .var ⟨"q_1", by decide +kernel⟩
    let sources := ["\tp &&\n!q_1", "0 "]
    let wides := ["\u3000\tp &&\n!q_1\u00A0", "0 "]
    ((∀ source ∈ sources, Expr.Accepted source) ∧ List.Forall₂ Text.Widens sources wides) ∧
      Text.CommaList.items "\u3000\tp &&\n!q_1\u00A0,0 " = ["p &&\n!q_1", "0"] ∧
      ((parseAll ["p &&\n!q_1", "0"]).run.run #[]).1 =
        .ok [⟨"p &&\n!q_1", .join .and p (.not q)⟩, ⟨"0", .literal false⟩] := by
  intro p q sources wides
  have hfirst : Expr.parse "\tp &&\n!q_1" = .ok (.join .and p (.not q)) := by decide +kernel
  have hsecond : Expr.parse "0 " = .ok (.literal false) := by decide +kernel
  have haccepted : ∀ source ∈ sources, Expr.Accepted source :=
    List.forall_mem_cons.2 ⟨⟨_, hfirst⟩, List.forall_mem_singleton.2 ⟨_, hsecond⟩⟩
  have hwides : List.Forall₂ Text.Widens sources wides :=
    .cons ⟨['\u3000'], ['\u00A0'], List.forall_mem_singleton.2 (by decide),
        List.forall_mem_singleton.2 (by decide), rfl⟩
      (.cons ⟨[], [], List.forall_mem_nil _, List.forall_mem_nil _, rfl⟩ .nil)
  obtain ⟨-, hitems, -, outputs, hread, -, htrimmed⟩ :=
    items_read_as_sources haccepted hwides #[]
  have hlist : String.intercalate "," wides = "\u3000\tp &&\n!q_1\u00A0,0 " := by decide +kernel
  have hsources : sources.map Text.trimmed = ["p &&\n!q_1", "0"] := by decide +kernel
  have houtputs : outputs =
      [⟨"\tp &&\n!q_1", .join .and p (.not q)⟩, ⟨"0 ", .literal false⟩] :=
    Except.ok.inj (hread.symm.trans (by decide +kernel))
  rw [hlist, hsources] at hitems
  rw [hlist, hitems, houtputs] at htrimmed
  exact ⟨⟨haccepted, hwides⟩, hitems, htrimmed.trans (by decide +kernel)⟩

end Output

end TruthTable
