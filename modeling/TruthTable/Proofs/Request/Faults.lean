import TruthTable.Proofs.Inputs.Declaring
import TruthTable.Proofs.Output.Batch
import TruthTable.Proofs.Table.Enumeration
import TruthTable.Request

/-!
# The first fault of a request

A request is put to five checks, and any number of them may find a fault. `Request.Finds` says of
each check, by itself, what it finds: it speaks of the items of the two texts, of the trees of
single items and of nothing that exists only if other checks have been passed. The checks have an
order, and the first that finds a fault decides; if none does, there is a table (`Request.Answers`).

`Request.build_eq_iff_answers` says that a request is answered in this way and in no other. The
proof goes through the two stages in which a request is worked off. As long as the texts can not be
turned into inputs and outputs, a fault of the first two checks is the answer. Once they can, the
three other checks speak of these inputs and outputs, and what they find is what the enumeration
refuses (`Request.answers_iff_enumerate`).
-/

namespace TruthTable

/-! ### Variables outside a list of texts -/

namespace Expr

/-- The texts of all variables of the expression are listed. -/
def UsesOnly (texts : List String) (e : Expr) : Prop :=
  ∀ x ∈ e.leaves, x.text ∈ texts

/-- The leftmost variable of the expression whose text is not listed. -/
def FirstOutside (texts : List String) (e : Expr) (x : Name) : Prop :=
  x.text ∉ texts ∧ ∃ before after, e.leaves = before ++ x :: after ∧ ∀ y ∈ before, y.text ∈ texts

end Expr

/-- The first source of a list that uses a variable whose text is not listed, and the leftmost such
variable in it. -/
inductive Output.FirstStray (texts : List String) : List String → String → Name → Prop where
  /-- The sources in front of it use listed variables only, and behind it may stand anything. -/
  | intro {earlier later : List String} {source : String} {e : Expr} {x : Name}
    (hearlier : ∀ other ∈ earlier, ∀ e', Expr.parse other = .ok e' → e'.UsesOnly texts)
    (hparse : Expr.parse source = .ok e) (h : e.FirstOutside texts x) :
    FirstStray texts (earlier ++ source :: later) source x

namespace Output.FirstStray

variable {texts sources : List String} {source other : String} {e : Expr} {x : Name}

/-- The first source of all strays. -/
theorem head (hparse : Expr.parse source = .ok e) (h : e.FirstOutside texts x) :
    FirstStray texts (source :: sources) source x :=
  @intro texts [] sources source e x (by simp) hparse h

/-- A source that uses listed variables only changes nothing. -/
theorem cons (h : FirstStray texts sources source x)
    (hother : ∀ e, Expr.parse other = .ok e → e.UsesOnly texts) :
    FirstStray texts (other :: sources) source x := by
  obtain @⟨earlier, later, _, e, _, hearlier, hparse, hfirst⟩ := h
  exact @intro texts (other :: earlier) later source e x (List.forall_mem_cons.2 ⟨hother, hearlier⟩)
    hparse hfirst

end Output.FirstStray

namespace Request

/-! ### What the checks find -/

/-- The items of the text with the inputs. -/
def inputItems (request : Request) : List String :=
  Text.CommaList.items request.inputs

/-- The items of the text with the outputs. -/
def outputItems (request : Request) : List String :=
  Text.CommaList.items request.outputs

/-- `request.Finds k fault`: check number `k` finds the given fault in the request, whatever the
other checks find. -/
inductive Finds (request : Request) : Nat → Fault → Prop where
  /-- Some outputs can not be read. All of them are listed, each once, as they occur. -/
  | unreadable (h : Output.refusals request.outputItems ≠ []) :
    Finds request 0 (.unreadable (Output.refusals request.outputItems))
  /-- An input is no name or is repeated. -/
  | offence {fault : Fault} (h : Inputs.FirstOffence request.inputItems fault) :
    Finds request 1 fault
  /-- There are no inputs. -/
  | noInputs (h : request.inputItems = []) : Finds request 2 .noInputs
  /-- There are more inputs than are admitted. -/
  | tooManyInputs (h : request.limit.value < request.inputItems.length) :
    Finds request 3 (.tooManyInputs request.inputItems.length request.limit.value)
  /-- An output uses a variable that is not among the inputs, and those in front of it use none. -/
  | undeclared {source : String} {x : Name}
    (h : Output.FirstStray request.inputItems request.outputItems source x) :
    Finds request 4 (.undeclared x.text source)

/-- None of the checks before number `k` finds a fault. -/
def Passes (request : Request) (k : Nat) : Prop :=
  ∀ j < k, ∀ fault, ¬ request.Finds j fault

/-- What a request is to be answered with. -/
inductive Answers (request : Request) : Except Fault Table → Prop where
  /-- The first fault that is found. -/
  | refused {k : Nat} {fault : Fault} (found : request.Finds k fault) (first : request.Passes k) :
    Answers request (.error fault)
  /-- The table of the items, if no fault is found: its inputs and outputs are the items in order,
  and its rows are what they should be. -/
  | built {table : Table} (sound : ∀ k fault, ¬ request.Finds k fault)
    (inputs_eq : table.inputs.names.map Name.text = request.inputItems)
    (outputs_eq : List.Forall₂ Output.Reads table.outputs request.outputItems)
    (length_rows : table.rows.length = Nat.pow 2 table.inputs.size)
    (rows_eq : ∀ r (hr : r < table.rows.length),
      table.rows[r].IsNumbered table.inputs table.outputs r) :
    Answers request (.ok table)

variable {request : Request} {k : Nat} {fault : Fault} {answer : Except Fault Table}

/-- There are five checks. -/
theorem Finds.lt_five (h : request.Finds k fault) : k < 5 := by
  cases h <;> decide

/-- Where there are no inputs, there are not too many. -/
theorem Finds.not_finds_tooMany {other : Fault} (h : request.Finds 2 fault) :
    ¬ request.Finds 3 other := by
  intro h'
  cases h with
  | noInputs hnil =>
    cases h' with
    | tooManyInputs hlarge =>
      rw [hnil] at hlarge
      exact Nat.not_lt_zero _ hlarge

theorem passes_five_iff : request.Passes 5 ↔ ∀ k fault, ¬ request.Finds k fault :=
  ⟨fun h k fault hfound ↦ h k hfound.lt_five fault hfound, fun h k _ ↦ h k⟩

theorem passes_zero : request.Passes 0 :=
  fun j hj ↦ absurd hj (Nat.not_lt_zero j)

theorem passes_succ_iff :
    request.Passes (k + 1) ↔ request.Passes k ∧ ∀ fault, ¬ request.Finds k fault :=
  Nat.forall_lt_succ_right

/-- A check that can find one fault only, and finds it first, decides. -/
theorem answers_iff_of_finds (found : request.Finds k fault) (first : request.Passes k)
    (unique : ∀ other, request.Finds k other → other = fault) :
    request.Answers answer ↔ answer = .error fault := by
  constructor
  · intro h
    cases h with
    | @refused j other found' first' =>
      rcases Nat.lt_trichotomy j k with hlt | rfl | hlt
      · exact absurd found' (first j hlt other)
      · rw [unique other found']
      · exact absurd found (first' k hlt fault)
    | built sound _ _ _ _ => exact absurd found (sound k fault)
  · rintro rfl
    exact .refused found first

/-! ### Requests whose inputs and outputs are known -/

section Known

variable {inputs : Inputs} {outputs : List Output}
  (hinputs : inputs.names.map Name.text = request.inputItems)
include hinputs

theorem mem_inputItems_iff {x : Name} : x.text ∈ request.inputItems ↔ x ∈ inputs.names := by
  rw [← hinputs]
  exact List.mem_map_of_injective fun _ _ ↦ Name.ext

theorem usesOnly_iff {e : Expr} : e.UsesOnly request.inputItems ↔ inputs.Declares e := by
  simp only [Expr.UsesOnly, Inputs.Declares, mem_inputItems_iff hinputs]

theorem firstOutside_iff {e : Expr} {x : Name} :
    e.FirstOutside request.inputItems x ↔ inputs.FirstUndeclared e x := by
  simp only [Expr.FirstOutside, Inputs.FirstUndeclared, mem_inputItems_iff hinputs]

theorem length_inputItems : request.inputItems.length = inputs.size := by
  rw [← hinputs, List.length_map, Inputs.size]

/-- The output that is blamed is that of the first source that strays. -/
theorem blames_iff_firstStray {sources : List String}
    (houtputs : List.Forall₂ Output.Reads outputs sources) {x : Name} {source : String} :
    inputs.Blames outputs x source ↔ Output.FirstStray request.inputItems sources source x := by
  constructor
  · intro h
    induction h generalizing sources with
    | here hfirst =>
      obtain ⟨_, _, hreads, -, rfl⟩ := List.forall₂_cons_left_iff.1 houtputs
      obtain rfl := hreads.label_eq
      exact .head hreads.parse_eq ((firstOutside_iff hinputs).2 hfirst)
    | behind hdeclares _ ih =>
      obtain ⟨_, _, hreads, hrest, rfl⟩ := List.forall₂_cons_left_iff.1 houtputs
      refine (ih hrest).cons fun e he ↦ ?_
      obtain rfl := Except.ok.inj (hreads.parse_eq.symm.trans he)
      exact (usesOnly_iff hinputs).2 hdeclares
  · rintro @⟨earlier, later, _, e, _, hearlier, hparse, hfirst⟩
    induction earlier generalizing outputs with
    | nil =>
      obtain ⟨output, _, hreads, -, rfl⟩ := List.forall₂_cons_right_iff.1 houtputs
      obtain rfl := hreads.label_eq
      obtain rfl := Except.ok.inj (hparse.symm.trans hreads.parse_eq)
      exact .here ((firstOutside_iff hinputs).1 hfirst)
    | cons other earlier ih =>
      obtain ⟨output, _, hreads, hrest, rfl⟩ := List.forall₂_cons_right_iff.1 houtputs
      obtain ⟨hother, hearlier⟩ := List.forall_mem_cons.1 hearlier
      exact .behind ((usesOnly_iff hinputs).1 (hother _ hreads.parse_eq)) (ih hearlier hrest)

/-- The checks of the two texts find nothing. -/
theorem passes_two (houtputs : List.Forall₂ Output.Reads outputs request.outputItems) :
    request.Passes 2 := by
  rw [passes_succ_iff, passes_succ_iff]
  refine ⟨⟨passes_zero, ?_⟩, ?_⟩
  · rintro fault ⟨h⟩
    exact h (Output.forall₂_reads_iff.1 houtputs).1
  · rintro fault (_ | h)
    exact h.not_declarable (hinputs ▸ inputs.declarable_map_text)

/-- The limit makes the checks for too few inputs and for too many, which never both find a fault.
-/
theorem check_eq_error_iff_finds (fault : Fault) :
    request.limit.check inputs = .error fault ↔ request.Finds 2 fault ∨ request.Finds 3 fault := by
  rw [InputLimit.check_eq_error_iff, ← length_inputItems hinputs]
  constructor
  · rintro (⟨hzero, rfl⟩ | ⟨⟨-, hlarge⟩, rfl⟩)
    · exact .inl (.noInputs (List.length_eq_zero_iff.1 hzero))
    · exact .inr (.tooManyInputs hlarge)
  · rintro (⟨_ | _ | h⟩ | ⟨_ | _ | _ | h⟩)
    · exact .inl ⟨List.length_eq_zero_iff.2 h, rfl⟩
    · exact .inr ⟨⟨Nat.zero_lt_of_lt h, h⟩, rfl⟩

/-- The outputs are checked last. -/
theorem checkOutputs_eq_error_iff_finds
    (houtputs : List.Forall₂ Output.Reads outputs request.outputItems) (fault : Fault) :
    inputs.checkOutputs outputs = .error fault ↔ request.Finds 4 fault := by
  rw [Inputs.checkOutputs_eq_error_iff]
  constructor
  · rintro ⟨x, source, hblames, rfl⟩
    exact .undeclared ((blames_iff_firstStray hinputs houtputs).1 hblames)
  · rintro (_ | _ | _ | _ | h)
    exact ⟨_, _, (blames_iff_firstStray hinputs houtputs).2 h, rfl⟩

/-- If no check finds a fault, the answer is the complete table. -/
theorem answers_iff_complete (houtputs : List.Forall₂ Output.Reads outputs request.outputItems)
    (hdeclares : ∀ o ∈ outputs, inputs.Declares o.expr) (hsize : inputs.size < 64)
    (sound : ∀ k fault, ¬ request.Finds k fault) :
    request.Answers answer ↔ answer = .ok (Table.complete inputs outputs) := by
  constructor
  · intro h
    cases h with
    | refused found _ => exact absurd found (sound _ _)
    | @built table _ hinputs' houtputs' hlength hrows =>
      have hsame : table.inputs = inputs := Inputs.eq_of_map_text (hinputs'.trans hinputs.symm)
      have hsame' : table.outputs = outputs :=
        (Output.forall₂_reads_iff.1 houtputs').2.trans (Output.forall₂_reads_iff.1 houtputs).2.symm
      rcases table with ⟨_, _, rows⟩
      dsimp only at hsame hsame' hlength hrows
      subst hsame hsame'
      obtain rfl := (Table.isNumbered_rows_iff hdeclares hsize).1 ⟨hlength, hrows⟩
      rfl
  · rintro rfl
    obtain ⟨hlength, hrows⟩ := (Table.isNumbered_rows_iff hdeclares hsize).2 rfl
    exact .built sound hinputs houtputs hlength hrows

/-- Once the inputs and outputs are known, what remains is their enumeration. -/
theorem answers_iff_enumerate (houtputs : List.Forall₂ Output.Reads outputs request.outputItems)
    (messages : Array Message) :
    request.Answers answer ↔
      ((Table.enumerate request.limit inputs outputs).run.run messages).1 = answer := by
  have hpasses := passes_two hinputs houtputs
  have hlimit := check_eq_error_iff_finds hinputs
  have hlast := checkOutputs_eq_error_iff_finds hinputs houtputs
  rcases hcheck : request.limit.check inputs with fault | ⟨⟩
  · rw [Table.run_enumerate_of_check_error hcheck, eq_comm (b := answer)]
    rw [hcheck] at hlimit
    rcases (hlimit fault).1 rfl with found | found
    · exact answers_iff_of_finds found hpasses fun other h ↦
        (Except.error.inj ((hlimit other).2 (.inl h))).symm
    · exact answers_iff_of_finds found
        (passes_succ_iff.2 ⟨hpasses, fun other h ↦ h.not_finds_tooMany found⟩)
        fun other h ↦ (Except.error.inj ((hlimit other).2 (.inr h))).symm
  · have hpasses : request.Passes 4 := by
      rw [hcheck] at hlimit
      rw [passes_succ_iff, passes_succ_iff]
      refine ⟨⟨hpasses, fun fault h ↦ ?_⟩, fun fault h ↦ ?_⟩
      · cases (hlimit fault).2 (.inl h)
      · cases (hlimit fault).2 (.inr h)
    rcases hoks : inputs.checkOutputs outputs with fault | ⟨⟩
    · rw [Table.run_enumerate_of_checkOutputs_error hcheck hoks, eq_comm (b := answer)]
      refine answers_iff_of_finds ((hlast fault).1 hoks) hpasses fun other h ↦ ?_
      exact Except.error.inj (((hlast other).2 h).symm.trans hoks)
    · rw [Table.run_enumerate_of_ok hcheck hoks, eq_comm (b := answer)]
      have hsound : request.Passes 5 := by
        refine passes_succ_iff.2 ⟨hpasses, fun fault h ↦ ?_⟩
        cases hoks.symm.trans ((hlast fault).2 h)
      exact answers_iff_complete hinputs houtputs (Inputs.checkOutputs_eq_ok_iff.1 hoks)
        (InputLimit.size_lt_of_check hcheck) (passes_five_iff.1 hsound)

end Known

/-! ### Working off a request -/

variable (messages : Array Message)

/-- That a refusal is logged does not change it. -/
theorem run_build_fst (request : Request) :
    (request.build.run.run messages).1 = (request.tryBuild.run.run messages).1 := by
  rw [build, LogM.run_tryCatch]
  rcases request.tryBuild.run.run messages with ⟨_ | _, _⟩ <;> rfl

/-- What is written is the table, or there is the same refusal. -/
theorem run_render_fst (request : Request) :
    (request.render.run.run messages).1 =
      (request.build.run.run messages).1.map (·.markdown request.style) := by
  rw [render, LogM.run_bind]
  rcases request.build.run.run messages with ⟨_ | _, _⟩ <;> rfl

/-- Outputs that can not be read are refused before anything else. -/
theorem run_tryBuild_of_refusals (h : Output.refusals request.outputItems ≠ []) :
    request.tryBuild.run.run messages =
      (.error (.unreadable (Output.refusals request.outputItems)),
        (messages ++ (Output.readings request.outputItems).toArray).push
          (.unreadable (Output.refusals request.outputItems).length)) := by
  have hread := Output.run_parseAll request.outputItems messages
  rw [if_neg h] at hread
  exact LogM.run_bind_of_error hread

/-- Once the outputs are read, the inputs are declared and the table is enumerated. -/
theorem run_tryBuild_of_read (h : Output.refusals request.outputItems = []) :
    request.tryBuild.run.run messages =
      ((liftM (Inputs.ofNames request.inputItems) : ExceptT Fault LogM Inputs) >>= fun inputs ↦
        Table.enumerate request.limit inputs
          (request.outputItems.filterMap Output.ofSource?)).run.run
        (messages ++ (Output.readings request.outputItems).toArray) := by
  have hread := Output.run_parseAll request.outputItems messages
  rw [if_pos h] at hread
  exact LogM.run_bind_of_ok hread

/-- A request is worked off to what it is to be answered with. -/
theorem answers_iff_tryBuild :
    request.Answers answer ↔ (request.tryBuild.run.run messages).1 = answer := by
  by_cases hread : Output.refusals request.outputItems = []
  · rw [run_tryBuild_of_read messages hread]
    rcases hinputs : Inputs.ofNames request.inputItems with fault | inputs
    · rw [LogM.run_lift_bind_of_error rfl, eq_comm (b := answer)]
      have hoffence := Inputs.ofNames_eq_error_iff.1 hinputs
      refine answers_iff_of_finds (.offence hoffence) (passes_succ_iff.2 ⟨passes_zero, ?_⟩) ?_
      · rintro other ⟨hrefusals⟩
        exact hrefusals hread
      · rintro other (_ | hother)
        exact hother.unique hoffence
    · rw [LogM.run_lift_bind_of_ok rfl]
      exact answers_iff_enumerate (Inputs.ofNames_eq_ok_iff.1 hinputs)
        (Output.forall₂_reads_iff.2 ⟨hread, rfl⟩) _
  · rw [run_tryBuild_of_refusals messages hread, eq_comm (b := answer)]
    refine answers_iff_of_finds (.unreadable hread) passes_zero ?_
    rintro other ⟨-⟩
    rfl

/-- Whatever is wrong with a request, and whatever is in the log already: the request is answered in
the way in which it is to be answered, and in no other; there is a table exactly if no check finds a
fault; and what is written is that table in the chosen style. -/
theorem build_eq_iff_answers (request : Request) (messages : Array Message)
    (answer : Except Fault Table) :
    ((request.build.run.run messages).1 = answer ↔ request.Answers answer) ∧
      ((∃ table, (request.build.run.run messages).1 = .ok table) ↔
        ∀ k fault, ¬ request.Finds k fault) ∧
      (request.render.run.run messages).1 =
        (request.build.run.run messages).1.map (·.markdown request.style) := by
  have hanswers (answer : Except Fault Table) :
      (request.build.run.run messages).1 = answer ↔ request.Answers answer := by
    rw [run_build_fst, answers_iff_tryBuild messages]
  refine ⟨hanswers answer, ⟨?_, fun hsound ↦ ?_⟩, run_render_fst messages request⟩
  · rintro ⟨table, htable⟩
    cases (hanswers _).1 htable with
    | built hsound => exact hsound
  · rcases hbuild : (request.build.run.run messages).1 with fault | table
    · obtain ⟨found, -⟩ := (hanswers _).1 hbuild
      exact absurd found (hsound _ _)
    · exact ⟨table, rfl⟩

/-- The output that can not be read counts, not the undeclared variable in front of it, and not the
two inputs that are refused when they are alone. -/
example :
    let request : Request := { inputs := "p, 1, p", outputs := "q, p &" }
    (request.build.run.run #[]).1 = .error (.unreadable [⟨"p &", 3, .expression⟩]) := by
  decide +kernel

end Request

end TruthTable
