import TruthTable.Proofs.Output.Answer
import TruthTable.Proofs.Request.Faults

/-!
# What a request leaves in the log

The log shows how a request was worked off. First it mentions the distinct outputs that could be
read, each once: no output is read again. Then it ends in one of three ways (`Request.Ends`), and
each of them rules out what would show a check that came too late. A request that is refused has no
row in its log, not even the announcement of rows, and the refusal is the last thing said. A request
that is not refused has the announcement and every row of its table, in order.

`Request.exists_run_build` gives the log together with the answer. Its last part says that the lines
alone show whether there was a refusal: exactly the requests that are refused leave a line which
says so.
-/

namespace TruthTable

/-! ### The line of a refusal -/

namespace Message

/-- The line of a message begins as that of a refusal does. -/
def SaysRejected (m : Message) : Prop :=
  "WARN Rejected".toList <+: m.text.toList

theorem text_rejected (fault : Fault) : (rejected fault).text =
    "WARN" ++ " " ++ ("Rejected truth table request: " ++ fault.message) :=
  rfl

theorem text_unreadable (count : Nat) : (unreadable count).text =
    "WARN" ++ " " ++ (toString count ++ " invalid output expression(s)") :=
  rfl

theorem saysRejected_rejected (fault : Fault) : (rejected fault).SaysRejected := by
  have hfront : "WARN Rejected".toList <+:
      "WARN".toList ++ " ".toList ++ "Rejected truth table request: ".toList := by decide +kernel
  rw [SaysRejected, text_rejected, String.toList_append, String.toList_append,
    String.toList_append, ← List.append_assoc]
  exact hfront.trans (List.prefix_append _ _)

/-- No other message has such a line. -/
theorem saysRejected_iff {m : Message} : m.SaysRejected ↔ ∃ fault, m = .rejected fault := by
  rcases m with - | count | - | - | fault
  case rejected => exact iff_of_true (saysRejected_rejected fault) ⟨fault, rfl⟩
  case unreadable =>
    -- the other warning goes on with the digits of a number
    obtain ⟨c, cs, hcount⟩ : ∃ c cs, Nat.toDigits 10 count = c :: cs :=
      List.exists_cons_of_ne_nil Nat.toDigits_ne_nil
    have hmem : c ∈ Nat.toDigits 10 count := by
      rw [hcount]
      exact List.mem_cons_self
    have hne : 'R' ≠ c := by
      rintro rfl
      exact absurd (Nat.isDigit_of_mem_toDigits (by decide) (Nat.le_refl 10) hmem) (by decide)
    simp [SaysRejected, text_unreadable, hcount, hne]
  all_goals simp [SaysRejected, text, level, Level.text]

end Message

/-! ### The sources that can be read -/

/-- The source can be read, and this is the message about it. -/
def Expr.Announces (source : String) (m : Message) : Prop :=
  ∃ e, Expr.parse source = .ok e ∧ m = .parsed source e

namespace Output

theorem reading?_eq_some_iff {source : String} {m : Message} :
    reading? source = some m ↔ Expr.Announces source m := by
  rw [reading?, Expr.Announces]
  split
  · next e h => simp [h, eq_comm]
  · next error h => simp [h]

/-- The messages of a batch are the messages about the distinct sources. -/
theorem onceEach_announces_iff {sources : List String} {ms : List Message} :
    OnceEach Expr.Announces sources ms ↔ ms = readings sources :=
  onceEach_iff fun _ _ ↦ reading?_eq_some_iff

/-- No refusal is among them. -/
theorem not_saysRejected_of_mem_readings {sources : List String} {m : Message}
    (h : m ∈ readings sources) : ¬ m.SaysRejected := by
  obtain ⟨source, -, hm⟩ := List.mem_filterMap.1 h
  obtain ⟨e, -, rfl⟩ := reading?_eq_some_iff.1 hm
  rw [Message.saysRejected_iff]
  rintro ⟨fault, ⟨⟩⟩

end Output

namespace Request

variable {request : Request} {answer : Except Fault Table} {log : List Message}

/-! ### The end of the log -/

/-- How the log of a request goes on when the outputs have been read, if the request is answered in
the given way. -/
inductive Ends (request : Request) : Except Fault Table → List Message → Prop where
  /-- Some outputs can not be read: how many they are, and the refusal. -/
  | unreadable {errors : List ParseError} (hne : errors ≠ [])
    (h : OnceEach Expr.Refuses request.outputItems errors) :
    Ends request (.error (.unreadable errors))
      [.unreadable errors.length, .rejected (.unreadable errors)]
  /-- All outputs can be read, and one of the later checks finds a fault: the refusal only. -/
  | refused {k : Nat} {fault : Fault} (hread : ∀ source ∈ request.outputItems, Expr.Accepted source)
    (hk : 0 < k) (found : request.Finds k fault) : Ends request (.error fault) [.rejected fault]
  /-- There is a table: how large it is, and its rows in order. -/
  | built {table : Table} (hread : ∀ source ∈ request.outputItems, Expr.Accepted source) :
    Ends request (.ok table)
      (.enumerating table.rows.length table.inputs.size table.outputs.length ::
        table.rows.map Row.message)

/-- The end of the log says whether there is a refusal. -/
theorem Ends.exists_saysRejected_iff (h : request.Ends answer log) :
    (∃ m ∈ log, m.SaysRejected) ↔ ∃ fault, answer = .error fault := by
  simp only [Message.saysRejected_iff]
  cases h with
  | unreadable _ _ => simp
  | refused _ _ _ => simp
  | built _ => simp [Row.message]

/-! ### Working off a request -/

variable {messages later : Array Message}

/-- A refusal is logged last. -/
theorem run_build_of_error {fault : Fault}
    (h : request.tryBuild.run.run messages = (.error fault, later)) :
    request.build.run.run messages = (.error fault, later.push (.rejected fault)) := by
  rw [build, LogM.run_tryCatch, h]
  rfl

/-- A table is returned as it is. -/
theorem run_build_of_ok {table : Table}
    (h : request.tryBuild.run.run messages = (.ok table, later)) :
    request.build.run.run messages = (.ok table, later) := by
  rw [build, LogM.run_tryCatch, h]

/-- Once the outputs are read, either nothing more is written, or the announcement of a table and
its rows in order. -/
theorem run_tryBuild_cases (hread : Output.refusals request.outputItems = [])
    (messages : Array Message) :
    (∃ fault, request.tryBuild.run.run messages =
      (.error fault, messages ++ (Output.readings request.outputItems).toArray)) ∨
      ∃ table : Table, request.tryBuild.run.run messages =
        (.ok table, messages ++ (Output.readings request.outputItems).toArray ++
          (.enumerating table.rows.length table.inputs.size table.outputs.length ::
            table.rows.map Row.message).toArray) := by
  rw [run_tryBuild_of_read messages hread]
  rcases Inputs.ofNames request.inputItems with fault | inputs
  · exact .inl ⟨fault, LogM.run_lift_bind_of_error rfl _⟩
  · rw [LogM.run_lift_bind_of_ok rfl]
    exact Table.run_enumerate_cases ..

/-- What is found when all outputs can be read is not found by the check that reads them. -/
theorem Finds.pos_of_read {k : Nat} {fault : Fault} (h : request.Finds k fault)
    (hread : Output.refusals request.outputItems = []) : 0 < k := by
  rcases h with hne | - | - | - | -
  · exact absurd hread hne
  all_goals exact Nat.succ_pos _

/-- The messages about the outputs come first, and the end of the log goes with the answer. -/
theorem exists_ends (request : Request) (messages : Array Message) :
    ∃ answer log, request.build.run.run messages =
        (answer, messages ++ (Output.readings request.outputItems ++ log).toArray) ∧
      request.Answers answer ∧ request.Ends answer log := by
  have hanswers : request.Answers (request.tryBuild.run.run messages).1 :=
    (answers_iff_tryBuild messages).2 rfl
  by_cases hread : Output.refusals request.outputItems = []
  · have haccepted := Output.refusals_eq_nil_iff.1 hread
    rcases run_tryBuild_cases hread messages with ⟨fault, htry⟩ | ⟨table, htry⟩
    · rw [htry] at hanswers
      -- reading the outputs was the first check, so it is a later one that found the fault
      have hends : request.Ends (.error fault) [.rejected fault] := by
        cases hanswers with
        | refused found _ => exact .refused haccepted (found.pos_of_read hread) found
      refine ⟨_, _, ?_, hanswers, hends⟩
      rw [run_build_of_error htry]
      simp
    · rw [htry] at hanswers
      refine ⟨_, _, ?_, hanswers, .built haccepted⟩
      rw [run_build_of_ok htry]
      simp
  · have htry := run_tryBuild_of_refusals messages hread
    rw [htry] at hanswers
    refine ⟨_, _, ?_, hanswers, .unreadable hread (Output.onceEach_refuses_iff.2 rfl)⟩
    rw [run_build_of_error htry]
    simp

/-- Whatever is in the log already: a request adds a message for each distinct output that can be
read, in the order of their first occurrences, and then what the answer calls for. The answer is the
one that the request is to be answered with, and it is a fault exactly if a line of the log says
that the request was rejected. -/
theorem exists_run_build (request : Request) (messages : Array Message) :
    ∃ answer readings log,
      request.build.run.run messages = (answer, messages ++ (readings ++ log).toArray) ∧
        request.Answers answer ∧ OnceEach Expr.Announces request.outputItems readings ∧
          request.Ends answer log ∧
            ((∃ m ∈ readings ++ log, m.SaysRejected) ↔ ∃ fault, answer = .error fault) := by
  obtain ⟨answer, log, hrun, hanswers, hends⟩ := request.exists_ends messages
  have hreadings := Output.onceEach_announces_iff.2 (Eq.refl (Output.readings request.outputItems))
  refine ⟨answer, _, log, hrun, hanswers, hreadings, hends, ?_⟩
  -- no message about an output says so, hence only the end of the log counts
  rw [← hends.exists_saysRejected_iff]
  refine exists_congr fun m ↦ and_congr_left fun hm ↦ ?_
  rw [List.mem_append, or_iff_right fun hmem ↦ Output.not_saysRejected_of_mem_readings hmem hm]

/-- Three outputs are asked for and two texts are read; the third is known already. -/
example :
    let request : Request := { inputs := "p", outputs := "!p, 1, !p" }
    (request.build.run.run #[]).2.toList.map Message.text =
      ["DEBUG parsed '!p' as !p", "DEBUG parsed '1' as 1",
        "INFO Enumerating 2 rows for 1 input(s) and 3 output(s)", "DEBUG row 0: [true, true, true]",
        "DEBUG row 1: [false, true, false]"] := by
  decide +kernel

end Request

end TruthTable
