import TruthTable.Proofs.Output.Batch

/-!
# The answer to a batch of sources

A batch of sources is answered with one output for each of them, in order, if all of them can be
read; and otherwise with the errors of the distinct sources that can not be read, each once, in the
order in which these sources first occur. `Output.Answers` says so of each source by itself: it
knows of `Expr.parse` and of no batch, no cache and no list of errors that is searched for
repetitions.

`Output.parseAll_eq_iff_answers` says that a batch has this answer and no other.
-/

namespace TruthTable

/-! ### Sources that can not be read -/

/-- The source can not be read, and this is its error. -/
def Expr.Refuses (source : String) (error : ParseError) : Prop :=
  Expr.parse source = .error error

namespace Output

variable {sources : List String} {source : String} {error : ParseError} {errors : List ParseError}

theorem refusal?_eq_some_iff : refusal? source = some error ↔ Expr.Refuses source error := by
  rw [refusal?, Expr.Refuses]
  split
  · next e h => simp [h]
  · next other h => simp [h]

/-- The errors of a batch are the errors of the distinct sources. -/
theorem onceEach_refuses_iff :
    OnceEach Expr.Refuses sources errors ↔ errors = refusals sources :=
  onceEach_iff fun _ _ ↦ refusal?_eq_some_iff

/-! ### The answer -/

/-- What a batch of sources is to be answered with. -/
inductive Answers (sources : List String) : Except Fault (List Output) → Prop where
  /-- One output for each source, if all sources can be read. -/
  | read {outputs : List Output} (h : List.Forall₂ Reads outputs sources) :
    Answers sources (.ok outputs)
  /-- One error for each distinct source that can not be read, if there is one. -/
  | refused {errors : List ParseError} (hne : errors ≠ [])
    (h : OnceEach Expr.Refuses sources errors) : Answers sources (.error (.unreadable errors))

/-- Whatever is in the log already: a batch of sources is answered in the way in which it is to be
answered, and in no other; and the outputs are given exactly if every source can be read by
itself. -/
theorem parseAll_eq_iff_answers (sources : List String) (messages : Array Message)
    (answer : Except Fault (List Output)) :
    (((parseAll sources).run.run messages).1 = answer ↔ Answers sources answer) ∧
      ((∃ outputs, ((parseAll sources).run.run messages).1 = .ok outputs) ↔
        ∀ source ∈ sources, Expr.Accepted source) := by
  rw [run_parseAll, ← refusals_eq_nil_iff]
  by_cases hread : refusals sources = []
  · rw [if_pos hread]
    refine ⟨⟨?_, ?_⟩, iff_of_true ⟨_, rfl⟩ hread⟩
    · rintro rfl
      exact .read (forall₂_reads_iff.2 ⟨hread, rfl⟩)
    · rintro (h | ⟨hne, h⟩)
      · rw [(forall₂_reads_iff.1 h).2]
      · exact absurd ((onceEach_refuses_iff.1 h).trans hread) hne
  · rw [if_neg hread]
    refine ⟨⟨?_, ?_⟩, iff_of_false (fun ⟨_, h⟩ ↦ nomatch h) hread⟩
    · rintro rfl
      exact .refused hread (onceEach_refuses_iff.2 rfl)
    · rintro (h | ⟨-, h⟩)
      · exact absurd (forall₂_reads_iff.1 h).1 hread
      · rw [onceEach_refuses_iff.1 h]

/-- A source that can be read does not count once there is one that can not, and of the latter each
counts once. -/
example : ((parseAll ["p&&", "p+q", "(q", "p&&"]).run.run #[]).1 =
    .error (.unreadable [⟨"p&&", 3, .expression⟩, ⟨"(q", 2, .connective⟩]) := by
  decide +kernel

end Output

end TruthTable
