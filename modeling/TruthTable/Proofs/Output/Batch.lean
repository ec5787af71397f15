import TruthTable.Output
import TruthTable.Proofs.FirstOccurrences
import TruthTable.Proofs.Reading.Run

/-!
# What a batch of sources comes to

A batch keeps what it has read and looks a text up before it reads it. None of this can be seen in
its result: the outputs are those of the sources one by one, and the errors are those of the
distinct sources one by one, in the order in which they first occur. What can be seen is the log, in
which each source that can be read is mentioned once.

`Batch.of` says what a batch is after the sources it has been given, without saying how it got
there, and adding a source is the step from one such batch to the next (`Batch.run_add`). The whole
run follows by induction (`Batch.run_foldlM_add`), and so does the outcome (`Output.run_parseAll`).
-/

namespace TruthTable

namespace Output

/-! ### Sources one by one -/

/-- The output of a source, if it can be read. -/
def ofSource? (source : String) : Option Output :=
  match Expr.parse source with
  | .ok e => some ⟨source, e⟩
  | .error _ => none

/-- The error of a source, if it can not be read. -/
def refusal? (source : String) : Option ParseError :=
  match Expr.parse source with
  | .ok _ => none
  | .error error => some error

/-- The message about a source, if it can be read. -/
def reading? (source : String) : Option Message :=
  match Expr.parse source with
  | .ok e => some (.parsed source e)
  | .error _ => none

/-- The errors of the distinct sources that can not be read, in the order of their first
occurrence. -/
def refusals (sources : List String) : List ParseError :=
  sources.eraseDups.filterMap refusal?

/-- The messages about the distinct sources that can be read, in the order of their first
occurrence. -/
def readings (sources : List String) : List Message :=
  sources.eraseDups.filterMap reading?

end Output

open Output

namespace Batch

/-! ### One source -/

section Add

variable {batch : Batch} {source : String} (messages : Array Message)

/-- A source that has been read already is not read again. -/
theorem run_add_of_find? {known : Output}
    (h : batch.outputs.find? (·.label = source) = some known) :
    (batch.add source).run messages =
      ({ batch with outputs := batch.outputs ++ [known] }, messages) := by
  rw [add, h]
  rfl

/-- A new source that can be read gives an output and is logged. -/
theorem run_add_of_ok {e : Expr} (hnew : batch.outputs.find? (·.label = source) = none)
    (h : Expr.parse source = .ok e) :
    (batch.add source).run messages =
      ({ batch with outputs := batch.outputs ++ [⟨source, e⟩] },
        messages.push (.parsed source e)) := by
  rw [add, hnew, Expr.parseLogged, h]
  rfl

/-- A source that can not be read gives an error, but not twice. -/
theorem run_add_of_error {error : ParseError}
    (hnew : batch.outputs.find? (·.label = source) = none)
    (h : Expr.parse source = .error error) :
    (batch.add source).run messages =
      (if batch.errors.any (·.source = source) then batch
        else { batch with errors := batch.errors ++ [error] }, messages) := by
  rw [add, hnew, Expr.parseLogged, h]
  show StateT.run (if _ then _ else _) messages = _
  split <;> rfl

end Add

/-! ### Any number of sources -/

/-- What a batch has come to after the given sources. -/
def of (sources : List String) : Batch where
  outputs := sources.filterMap ofSource?
  errors := refusals sources

variable {seen : List String} {source : String}

/-- A source is found among the outputs if it was there before and can be read. -/
theorem find?_outputs_of (seen : List String) (source : String) :
    (of seen).outputs.find? (·.label = source) =
      if source ∈ seen then ofSource? source else none := by
  show (seen.filterMap ofSource?).find? _ = _
  induction seen with
  | nil => rfl
  | cons s seen ih =>
    rcases h : Expr.parse s with error | e
    · have hnone : ofSource? s = none := by rw [ofSource?, h]
      rw [List.filterMap_cons_none hnone, ih]
      by_cases hs : source = s
      · simp [hs, hnone]
      · simp [hs]
    · have hsome : ofSource? s = some ⟨s, e⟩ := by rw [ofSource?, h]
      rw [List.filterMap_cons_some hsome, List.find?_cons]
      by_cases hs : s = source
      · subst hs
        simp [hsome]
      · simp [hs, Ne.symm hs, ih]

/-- A source that can not be read is found among the errors if it was there before. -/
theorem any_errors_of {error : ParseError} (h : Expr.parse source = .error error) :
    (of seen).errors.any (·.source = source) = decide (source ∈ seen) := by
  show (refusals seen).any _ = _
  rw [Bool.eq_iff_iff, List.any_eq_true, decide_eq_true_iff]
  constructor
  · rintro ⟨other, hother, hsource⟩
    obtain ⟨s, hs, hrefusal⟩ := List.mem_filterMap.1 hother
    rw [refusal?] at hrefusal
    split at hrefusal
    · cases hrefusal
    · next hparse =>
      obtain rfl := Option.some.inj hrefusal
      rw [decide_eq_true_iff, Expr.source_of_parse_eq_error hparse] at hsource
      exact hsource ▸ List.mem_eraseDups.1 hs
  · intro hmem
    refine ⟨error, List.mem_filterMap.2 ⟨source, List.mem_eraseDups.2 hmem, ?_⟩, ?_⟩
    · rw [refusal?, h]
    · exact decide_eq_true (Expr.source_of_parse_eq_error h)

/-- One more source is one step further, also in the log. -/
theorem run_add (seen : List String) (source : String) (messages : Array Message) :
    ((of seen).add source).run (messages ++ (readings seen).toArray) =
      (of (seen ++ [source]), messages ++ (readings (seen ++ [source])).toArray) := by
  have hfind := find?_outputs_of seen source
  rcases h : Expr.parse source with error | e
  · have houtput : ofSource? source = none := by rw [ofSource?, h]
    have hrefusal : refusal? source = some error := by rw [refusal?, h]
    have hreading : reading? source = none := by rw [reading?, h]
    rw [houtput, ite_self] at hfind
    rw [run_add_of_error _ hfind h, any_errors_of h]
    by_cases hmem : source ∈ seen
    · simp [of, refusals, readings, eraseDups_concat_of_mem hmem, houtput, hmem]
    · simp [of, refusals, readings, eraseDups_concat_of_not_mem hmem, houtput, hrefusal, hreading,
        hmem]
  · have houtput : ofSource? source = some ⟨source, e⟩ := by rw [ofSource?, h]
    have hrefusal : refusal? source = none := by rw [refusal?, h]
    have hreading : reading? source = some (.parsed source e) := by rw [reading?, h]
    by_cases hmem : source ∈ seen
    · rw [if_pos hmem, houtput] at hfind
      rw [run_add_of_find? _ hfind]
      simp [of, refusals, readings, eraseDups_concat_of_mem hmem, houtput]
    · rw [if_neg hmem] at hfind
      rw [run_add_of_ok _ hfind h]
      simp [of, refusals, readings, eraseDups_concat_of_not_mem hmem, houtput, hrefusal, hreading]

/-- Any number of sources is as many steps. -/
theorem run_foldlM_add (seen sources : List String) (messages : Array Message) :
    (sources.foldlM add (of seen) : LogM Batch).run (messages ++ (readings seen).toArray) =
      (of (seen ++ sources), messages ++ (readings (seen ++ sources)).toArray) := by
  induction sources generalizing seen with
  | nil =>
    rw [List.append_nil]
    rfl
  | cons source sources ih =>
    have hrest := ih (seen ++ [source])
    rw [List.append_assoc] at hrest
    rw [List.foldlM_cons]
    show ((sources.foldlM add (StateT.run ((of seen).add source) _).1 : LogM Batch)).run
      (StateT.run ((of seen).add source) _).2 = _
    rw [run_add]
    exact hrest

end Batch

namespace Output

/-- Reading a list of sources comes to the outputs of all of them, or to the errors of those that
can not be read. -/
theorem run_parseAll (sources : List String) (messages : Array Message) :
    (parseAll sources).run.run messages =
      if refusals sources = [] then
        (.ok (sources.filterMap ofSource?), messages ++ (readings sources).toArray)
      else
        (.error (.unreadable (refusals sources)), (messages ++ (readings sources).toArray).push
          (.unreadable (refusals sources).length)) := by
  have hbatch : (sources.foldlM Batch.add {} : LogM Batch).run messages =
      (Batch.of sources, messages ++ (readings sources).toArray) :=
    Batch.run_foldlM_add [] sources messages
  have hlift := LogM.run_liftM (ε := Fault) (sources.foldlM Batch.add {} : LogM Batch) messages
  rw [hbatch] at hlift
  have hempty : (Batch.of sources).errors.isEmpty = true ↔ refusals sources = [] :=
    List.isEmpty_iff
  rw [parseAll, LogM.run_bind_of_ok hlift]
  show ((if (Batch.of sources).errors.isEmpty then _ else _ :
    ExceptT Fault LogM (List Output))).run.run _ = _
  by_cases h : refusals sources = []
  · rw [if_pos h, if_pos (hempty.2 h)]
    rfl
  · rw [if_neg h, if_neg (mt hempty.1 h)]
    rfl

/-! ### The sources of outputs -/

/-- The output is labelled with the source and holds its tree. -/
structure Reads (output : Output) (source : String) : Prop where
  /-- The label is the source, as it was given. -/
  label_eq : output.label = source
  /-- The expression is the tree of the source. -/
  parse_eq : Expr.parse source = .ok output.expr

theorem ofSource?_eq_some_iff {output : Output} {source : String} :
    ofSource? source = some output ↔ output.Reads source := by
  rw [ofSource?]
  constructor
  · intro h
    split at h
    · next e hparse =>
      obtain rfl := Option.some.inj h
      exact ⟨rfl, hparse⟩
    · cases h
  · rintro ⟨rfl, hparse⟩
    rw [hparse]

/-- Nothing is refused if all sources can be read. -/
theorem refusals_eq_nil_iff {sources : List String} :
    refusals sources = [] ↔ ∀ source ∈ sources, Expr.Accepted source := by
  rw [refusals, List.filterMap_eq_nil_iff]
  simp only [List.mem_eraseDups]
  refine forall₂_congr fun source _ ↦ ?_
  rw [refusal?, Expr.Accepted]
  split
  · next e h => simp [h]
  · next error h => simp [h]

/-- Sources that can all be read have one output each, and no other outputs are theirs. -/
theorem forall₂_reads_iff {sources : List String} {outputs : List Output} :
    List.Forall₂ Reads outputs sources ↔
      refusals sources = [] ∧ outputs = sources.filterMap ofSource? := by
  rw [refusals_eq_nil_iff]
  induction sources generalizing outputs with
  | nil => simp
  | cons source sources ih =>
    rw [List.forall₂_cons_right_iff, List.forall_mem_cons]
    constructor
    · rintro ⟨output, outputs, hreads, hrest, rfl⟩
      obtain ⟨haccepted, rfl⟩ := ih.1 hrest
      rw [List.filterMap_cons_some (ofSource?_eq_some_iff.2 hreads)]
      exact ⟨⟨⟨output.expr, hreads.parse_eq⟩, haccepted⟩, rfl⟩
    · rintro ⟨⟨⟨e, he⟩, haccepted⟩, rfl⟩
      have hreads : (⟨source, e⟩ : Output).Reads source := ⟨rfl, he⟩
      exact ⟨_, _, hreads, ih.2 ⟨haccepted, rfl⟩,
        List.filterMap_cons_some (ofSource?_eq_some_iff.2 hreads)⟩

/-- The outputs of a list of sources are labelled with them. -/
theorem map_label_of_reads {sources : List String} {outputs : List Output}
    (h : List.Forall₂ Reads outputs sources) : outputs.map label = sources := by
  rw [← List.forall₂_eq_eq_eq, List.forall₂_map_left_iff]
  exact h.imp fun _ _ hreads ↦ hreads.label_eq

/-- A list of sources is read to the outputs of its members. -/
theorem run_parseAll_of_reads {sources : List String} {outputs : List Output}
    (h : List.Forall₂ Reads outputs sources) (messages : Array Message) :
    ((parseAll sources).run.run messages).1 = .ok outputs := by
  obtain ⟨hnone, houtputs⟩ := forall₂_reads_iff.1 h
  rw [run_parseAll, if_pos hnone, houtputs]

end Output

end TruthTable
