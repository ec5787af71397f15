import TruthTable.Proofs.Reading.Run
import TruthTable.Proofs.Token.Boundary

/-!
# The place of a syntax error

A rejected source is stopped at the first place where it can not go on to an expression. The text in
front of that place can be completed, and no completion of it begins with the character that stands
there. What is reported as possible there can be tested from outside, by trying completions.

The argument has two halves. On tokens, any reading can be completed: an operand is supplied if one
is wanted, and the open groups are closed (`Reading.exists_completion`); and whether a token is
refused depends on its first character alone (`Reading.step_read_eq_none`). On characters, the text
in front of a lexeme has exactly the lexemes found before, whatever follows
(`exists_boundary_of_lexemesFrom_eq`), and parentheses or blanks behind a text never change its cut
(`Cut.append`).
-/

namespace TruthTable

namespace Reading

variable {r s : Reading}

/-! ### Completing a reading -/

/-- Closing parentheses lead out of all groups. -/
theorem exists_run_closings (e : Expr) (chain : Chain) (groups : List Group) :
    ∃ last before, (complete e chain groups).run (List.replicate groups.length .closing) =
      some (complete last before []) := by
  induction groups generalizing e chain with
  | nil => exact ⟨e, chain, rfl⟩
  | cons g groups ih =>
    obtain ⟨last, before, hrun⟩ := ih (Expr.negateIf g.negated (chain.close e)) g.chain
    refine ⟨last, before, ?_⟩
    rw [List.length_cons, List.replicate_succ, run_cons]
    exact hrun

/-- Every reading can be completed, if need be by an operand and by closing the open groups. -/
theorem exists_completion (r : Reading) :
    ∃ ts k e s, (ts = [] ∨ ts = [.literal false]) ∧
      r.run (ts ++ List.replicate k .closing) = some s ∧ s.result? = some e := by
  rcases r with ⟨negated, chain, groups⟩ | ⟨e, chain, groups⟩
  · obtain ⟨last, before, hrun⟩ :=
      exists_run_closings (Expr.negateIf negated (.literal false)) chain groups
    exact ⟨[.literal false], groups.length, _, _, .inr rfl, hrun, rfl⟩
  · obtain ⟨last, before, hrun⟩ := exists_run_closings e chain groups
    exact ⟨[], groups.length, _, _, .inl rfl, hrun, rfl⟩

/-- An expression is complete exactly where the end of the source is expected. -/
theorem isSome_result?_iff : r.result?.isSome = true ↔ r.expectation = .ending := by
  rcases r with ⟨_ | _, chain, groups⟩ | ⟨e, chain, _ | ⟨g, groups⟩⟩ <;> simp [result?, expectation]

/-- A group can be closed exactly where a connective is expected in it. -/
theorem exists_run_closings_iff :
    (∃ k s, r.run (List.replicate (k + 1) .closing) = some s ∧ s.result?.isSome = true) ↔
      r.expectation = .connective := by
  constructor
  · rintro ⟨k, s, hrun, -⟩
    rw [List.replicate_succ, run_cons, Option.bind_eq_some_iff] at hrun
    obtain ⟨q, hq, -⟩ := hrun
    obtain - | - | - | - | - | _ := step_eq_some_iff.1 hq
    rfl
  · intro h
    rcases r with ⟨_ | _, chain, groups⟩ | ⟨e, chain, _ | ⟨g, groups⟩⟩
    case complete.cons =>
      obtain ⟨last, before, hrun⟩ := exists_run_closings e chain (g :: groups)
      exact ⟨groups.length, _, hrun, rfl⟩
    all_goals cases h

/-- The sign of negation is the last token exactly where its operand is expected. -/
theorem expectation_eq_operand_iff {ts : List Token} (h : start.run ts = some r) :
    r.expectation = .operand ↔ ts.getLast? = some .not := by
  refine run_induction (P := fun r ts ↦ r.expectation = .operand ↔ ts.getLast? = some .not) h ?_ ?_
  · simp [start, expectation]
  · intro q s t ts hstep _
    rw [List.getLast?_concat, Option.some.injEq]
    rcases hstep with
      ⟨b, negated, chain, groups⟩ | ⟨x, negated, chain, groups⟩ | ⟨chain, groups⟩ |
      ⟨negated, chain, groups⟩ | ⟨c, e, chain, groups⟩ | ⟨e, chain, g, groups⟩
    case literal | name | closing => rcases groups with - | - <;> simp [expectation]
    all_goals simp [expectation]

/-- Whether a token is refused depends on its first character alone. -/
theorem step_read_eq_none {c : Char} {cs : List Char} (h : r.step (Token.read c cs).1 = none)
    (ds : List Char) : r.step (Token.read c ds).1 = none := by
  rcases Token.read_fst_eq_or_name c cs ds with heq | ⟨x, y, hx, hy⟩
  · rwa [← heq]
  · rw [hx] at h
    rw [hy]
    rcases r with _ | _
    · cases h
    · rfl

end Reading

/-! ### Cuts and their last characters -/

/-- The last character of a word tells whether it is the sign of negation. -/
theorem Token.Written.getLast?_eq_iff {t : Token} {word : List Char} (h : t.Written word) :
    word.getLast? = some '!' ↔ t = .not := by
  rcases h with - | - | - | b | @⟨connective, _, hword⟩ | x
  case literal => rcases b with - | - <;> simp [Text.bit]
  case connective =>
    have hall : connective.words.all (fun w ↦ w.getLast? != some '!') = true := by
      rcases connective with - | - <;> decide
    simpa using List.all_eq_true.1 hall word hword
  case name =>
    have hne : x.text.toList.getLast? ≠ some '!' := by
      intro hlast
      exact Name.notMem_of_isContinue (Name.isContinue_of_mem_signs (by decide))
        (List.mem_of_getLast? hlast)
    simp [hne]
  all_goals simp

/-- The characters of a text that are not blank. -/
def inked (cs : List Char) : List Char :=
  cs.filter fun c ↦ !c.isWhitespace

theorem Token.Written.inked_append {t : Token} {word : List Char} (h : t.Written word)
    (cs : List Char) : inked (word ++ cs) = word ++ inked cs := by
  have hword : inked word = word := by
    rw [inked, List.filter_eq_self]
    intro c hc
    rw [h.isWhitespace_of_mem hc, Bool.not_false]
  rw [inked, List.filter_append]
  exact congrArg (· ++ _) hword

namespace Cut

variable {cs : List Char} {ts : List Token}

theorem inked_eq_nil_iff (h : Cut cs ts) : inked cs = [] ↔ ts = [] := by
  induction h with
  | nil => exact iff_of_true rfl rfl
  | blank hc _ ih => rwa [inked, List.filter_cons_of_neg (by simp [isWhitespace_iff.2 hc])]
  | token written _ _ _ =>
    rw [written.inked_append]
    simp [written.ne_nil]

/-- The last token is the sign of negation if the last character that is not blank is. -/
theorem getLast?_inked_eq_iff (h : Cut cs ts) :
    (inked cs).getLast? = some '!' ↔ ts.getLast? = some .not := by
  induction h with
  | nil => simp [inked]
  | blank hc _ ih => rwa [inked, List.filter_cons_of_neg (by simp [isWhitespace_iff.2 hc])]
  | @token word cs t ts written _ rest ih =>
    rw [written.inked_append, List.getLast?_append]
    rcases List.eq_nil_or_concat' ts with rfl | ⟨us, u, rfl⟩
    · rw [rest.inked_eq_nil_iff.2 rfl, List.getLast?_nil, Option.none_or, List.getLast?_singleton,
        Option.some.injEq]
      exact written.getLast?_eq_iff
    · have hne : inked cs ≠ [] := rest.inked_eq_nil_iff.not.2 (by simp)
      rw [List.getLast?_eq_some_getLast hne, Option.some_or, ← List.getLast?_eq_some_getLast hne, ih,
        List.getLast?_concat, List.getLast?_cons, List.getLast?_concat, Option.getD_some]

/-- Closing parentheses behind a text are tokens of their own. -/
theorem append_closings (h : Cut cs ts) (k : Nat) :
    Cut (cs ++ List.replicate k ')') (ts ++ List.replicate k .closing) := by
  induction k generalizing cs ts with
  | zero => simpa using h
  | succ k ih =>
    have hone := ih (h.append separates_closing (.singleton .closing))
    simpa [List.replicate_succ] using hone

end Cut

/-! ### Where reading stops -/

namespace Expr

variable {source before : String} {r : Reading}

/-- The tokens in front of the place where reading stops are a cut. -/
theorem cut_tokens_of_run (h : Reading.start.run (tokens before) = some r) :
    Cut before.toList (tokens before) :=
  cut_iff.2 ⟨rfl, Reading.stray_notMem_of_run h⟩

/-- What is accepted can be told from a cut. -/
theorem accepted_iff_of_cut {ts : List Token} (h : Cut source.toList ts) :
    Accepted source ↔ ∃ r, Reading.start.run ts = some r ∧ r.result?.isSome = true := by
  rw [accepted_iff, (cut_iff.1 h).1]

/-- A text in front of a place where reading stops can be completed. -/
theorem exists_accepted_append (h : Reading.start.run (tokens before) = some r) :
    ∃ rest, Accepted (before ++ rest) := by
  obtain ⟨ts, k, e, s, hts, hrun, hresult⟩ := r.exists_completion
  have hcut := cut_tokens_of_run h
  have hoperand : ∃ cs, Cut (before.toList ++ cs) (tokens before ++ ts) := by
    rcases hts with rfl | rfl
    · exact ⟨[], by simpa using hcut⟩
    -- the blank keeps the operand from running into a name in front of it
    · exact ⟨[' ', '0'], hcut.append_blank rfl (.singleton (.literal false))⟩
  obtain ⟨cs, hcs⟩ := hoperand
  refine ⟨String.ofList (cs ++ List.replicate k ')'), ?_⟩
  have hall : Cut (before ++ String.ofList (cs ++ List.replicate k ')')).toList
      (tokens before ++ (ts ++ List.replicate k .closing)) := by
    simpa using hcs.append_closings k
  rw [accepted_iff_of_cut hall, Reading.run_append_of_eq_some h]
  exact ⟨s, hrun, hresult ▸ rfl⟩

/-- A rejected source has a place where reading stops. All of the text in front of it is taken, and
no text is accepted that goes on with the character behind it. -/
theorem exists_stop {error : ParseError} (h : parse source = .error error) :
    ∃ before after r, source = before ++ after ∧
      error = ⟨source, before.utf8ByteSize, r.expectation⟩ ∧
      Reading.start.run (tokens before) = some r ∧
      ∀ c, after.toList.head? = some c → ∀ rest,
        ¬ Accepted (before ++ String.singleton c ++ rest) := by
  rcases Reading.start.run_or_refused (lexemes source) with
    ⟨r, hrun⟩ | ⟨taken, l, ls, r, hlexemes, hrun, hrefused⟩
  · refine ⟨source, "", r, String.append_empty.symm, ?_, hrun, by simp⟩
    rw [parse_of_run hrun] at h
    split at h
    · cases h
    · exact (Except.error.inj h).symm
  · rw [parse_of_refused hlexemes hrun hrefused, Except.error.injEq] at h
    obtain ⟨before, c, after, hsource, -, hc, rfl, hbefore, hafter⟩ :=
      exists_boundary_of_lexemesFrom_eq hlexemes
    refine ⟨String.ofList before, String.ofList (c :: after), r, ?_, ?_, ?_, ?_⟩
    · rw [← String.ofList_append, ← hsource, String.ofList_toList]
    · rw [← h, Nat.zero_add]
    · rw [tokens, lexemes, String.toList_ofList, hbefore, hrun]
    · intro d hd rest
      rw [String.toList_ofList, List.head?_cons, Option.some.injEq] at hd
      subst hd
      have hlist : (String.ofList before ++ String.singleton c ++ rest).toList =
          before ++ c :: rest.toList := by simp
      -- another token may begin with this character, but it is refused as well
      have hlexemes' := hafter rest.toList
      rw [lexemesFrom_of_not_isWhitespace _ _ hc, ← hlist] at hlexemes'
      exact not_accepted_of_error
        (parse_of_refused hlexemes' hrun (Reading.step_read_eq_none hrefused rest.toList))

/-! ### What is reported -/

theorem accepted_iff_expectation (h : Reading.start.run (tokens before) = some r) :
    Accepted before ↔ r.expectation = .ending := by
  rw [accepted_iff, h, ← Reading.isSome_result?_iff]
  constructor
  · rintro ⟨s, hs, hresult⟩
    rwa [Option.some.inj hs]
  · exact fun hresult ↦ ⟨r, rfl, hresult⟩

theorem accepted_append_closings_iff_expectation (h : Reading.start.run (tokens before) = some r) :
    (∃ k, Accepted (before ++ String.ofList (List.replicate (k + 1) ')'))) ↔
      r.expectation = .connective := by
  rw [← Reading.exists_run_closings_iff]
  refine exists_congr fun k ↦ ?_
  have hcut : Cut (before ++ String.ofList (List.replicate (k + 1) ')')).toList
      (tokens before ++ List.replicate (k + 1) .closing) := by
    simpa using (cut_tokens_of_run h).append_closings (k + 1)
  rw [accepted_iff_of_cut hcut, Reading.run_append_of_eq_some h]

theorem getLast?_inked_iff_expectation (h : Reading.start.run (tokens before) = some r) :
    (inked before.toList).getLast? = some '!' ↔ r.expectation = .operand := by
  rw [(cut_tokens_of_run h).getLast?_inked_eq_iff, Reading.expectation_eq_operand_iff h]

end Expr

/-- `error.PointsAt before after`: the source of the error falls into the texts `before` and `after`,
the error names the place between them, and what it says about this place is right. -/
structure ParseError.PointsAt (error : ParseError) (before after : String) : Prop where
  /-- The two texts make up the source. -/
  source_eq : error.source = before ++ after
  /-- The place is given in bytes. -/
  position_eq : error.position = before.utf8ByteSize
  /-- The text in front of the place can be completed. -/
  completable : ∃ rest, Expr.Accepted (before ++ rest)
  /-- It can not be completed any more once the character behind the place is added. -/
  blocked : ∀ c, after.toList.head? = some c →
    ∀ rest, ¬ Expr.Accepted (before ++ String.singleton c ++ rest)
  /-- The source may end here if it is an expression up to here. -/
  ending_iff : error.expected.wording = "expected end of input or operator" ↔ Expr.Accepted before
  /-- A connective is expected in a group if closing parentheses complete the text. -/
  connective_iff : error.expected.wording = "expected operator" ↔
    ¬ Expr.Accepted before ∧
      ∃ k, Expr.Accepted (before ++ String.ofList (List.replicate (k + 1) ')'))
  /-- An operand is expected directly after the sign of negation. -/
  operand_iff : error.expected.wording = "expected group or literal or variable" ↔
    (inked before.toList).getLast? = some '!'
  /-- In all other cases an expression is expected. -/
  expression_iff : error.expected.wording = "expected expression" ↔
    ¬ Expr.Accepted before ∧
      (¬ ∃ k, Expr.Accepted (before ++ String.ofList (List.replicate (k + 1) ')'))) ∧
      (inked before.toList).getLast? ≠ some '!'

namespace Expr

variable {source : String} {error : ParseError}

/-- **Syntax errors point at the exact failure**, for every source that is rejected. -/
theorem pointsAt_of_parse_eq_error (h : parse source = .error error) :
    error.source = source ∧ ∃ before after, error.PointsAt before after := by
  obtain ⟨before, after, r, hsource, rfl, hrun, hblocked⟩ := exists_stop h
  have hending := accepted_iff_expectation hrun
  have hconnective := accepted_append_closings_iff_expectation hrun
  have hoperand := getLast?_inked_iff_expectation hrun
  refine ⟨rfl, before, after, hsource, rfl, exists_accepted_append hrun, hblocked, ?_, ?_, ?_, ?_⟩
  · rw [hending]
    exact Expectation.wording_eq_iff (b := .ending) (by decide +kernel)
  · rw [hending, hconnective]
    refine (Expectation.wording_eq_iff (b := .connective) (by decide +kernel)).trans ?_
    rcases r.expectation with - | - | - | - <;> simp
  · rw [hoperand]
    exact Expectation.wording_eq_iff (b := .operand) (by decide +kernel)
  · rw [hending, hconnective, ne_eq, hoperand]
    refine (Expectation.wording_eq_iff (b := .expression) (by decide +kernel)).trans ?_
    rcases r.expectation with - | - | - | - <;> simp

/-- A sign that is doubled behind a sign, with a letter of two bytes and a skipped tab before it. -/
theorem pointsAt_doubled_sign :
    parse "(é &&\t&& b" = .error ⟨"(é &&\t&& b", 7, .expression⟩ ∧
      ∃ before after,
        (⟨"(é &&\t&& b", 7, .expression⟩ : ParseError).PointsAt before after := by
  have h : parse "(é &&\t&& b" = .error ⟨"(é &&\t&& b", 7, .expression⟩ := by decide +kernel
  exact ⟨h, (pointsAt_of_parse_eq_error h).2⟩

end Expr

end TruthTable
