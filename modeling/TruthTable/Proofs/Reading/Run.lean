import Mathlib.Data.List.Induction
import TruthTable.Expr.Reading

/-!
# Readings as runs over tokens

`Reading.feed` goes over lexemes and stops at the first that can not stand where it does. Which
lexemes are taken depends on their tokens alone, so a reading is followed here by `Reading.run` over
a list of tokens, which either takes them all or fails.

What a single step can do is said once, by the rules of `Reading.Step`; every invariant of runs
(`Proofs/Reading/Grammar`, `Proofs/Reading/ViablePrefix`) is a case analysis over these six rules.

Two theorems tie runs to `Expr.parse`, one for each way in which reading may end: all tokens of the
source are taken (`Expr.parse_of_run`), or one is refused (`Expr.parse_of_refused`). One of the two
always applies (`run_or_refused`).
-/

namespace TruthTable

namespace Reading

/-! ### A single step -/

/-- `Step r t s`: after the reading `r`, the token `t` leads to the reading `s`. -/
inductive Step : Reading → Token → Reading → Prop where
  /-- A truth value completes an operand. -/
  | literal (b negated : Bool) (chain : Chain) (groups : List Group) :
    Step (wanting negated chain groups) (.literal b)
      (complete (Expr.negateIf negated (.literal b)) chain groups)
  /-- A name completes an operand. -/
  | name (x : Name) (negated : Bool) (chain : Chain) (groups : List Group) :
    Step (wanting negated chain groups) (.name x)
      (complete (Expr.negateIf negated (.var x)) chain groups)
  /-- A sign of negation may stand before an operand, but not twice. -/
  | not (chain : Chain) (groups : List Group) :
    Step (wanting false chain groups) .not (wanting true chain groups)
  /-- A group begins where an operand is wanted. -/
  | opening (negated : Bool) (chain : Chain) (groups : List Group) :
    Step (wanting negated chain groups) .opening (wanting false [] (⟨negated, chain⟩ :: groups))
  /-- An operand waits for what stands to its right. -/
  | connective (c : Connective) (e : Expr) (chain : Chain) (groups : List Group) :
    Step (complete e chain groups) (.connective c) (wanting false ((e, c) :: chain) groups)
  /-- The innermost group ends and is an operand. -/
  | closing (e : Expr) (chain : Chain) (g : Group) (groups : List Group) :
    Step (complete e chain (g :: groups)) .closing
      (complete (Expr.negateIf g.negated (chain.close e)) g.chain groups)

theorem step_eq_some_iff {r s : Reading} {t : Token} : r.step t = some s ↔ Step r t s := by
  constructor
  · intro h
    unfold step at h
    split at h
    case h_7 => cases h
    all_goals
      obtain rfl := Option.some.inj h
      constructor
  · rintro (_ | _ | _ | ⟨negated, _, _⟩ | _ | _)
    case opening => rcases negated with - | - <;> rfl
    all_goals rfl

/-! ### Runs -/

/-- Takes all tokens, if each of them can stand where it does. -/
def run (r : Reading) (ts : List Token) : Option Reading :=
  ts.foldlM step r

@[simp] theorem run_nil (r : Reading) : r.run [] = some r :=
  rfl

theorem run_cons (r : Reading) (t : Token) (ts : List Token) :
    r.run (t :: ts) = (r.step t).bind fun s ↦ s.run ts :=
  List.foldlM_cons

theorem run_append (r : Reading) (ts us : List Token) :
    r.run (ts ++ us) = (r.run ts).bind fun s ↦ s.run us :=
  List.foldlM_append

theorem run_append_of_eq_some {r s : Reading} {ts : List Token} (h : r.run ts = some s)
    (us : List Token) : r.run (ts ++ us) = s.run us := by
  rw [run_append, h, Option.bind_some]

/-- A run ends with a step. -/
theorem run_concat_eq_some_iff {r s : Reading} {ts : List Token} {t : Token} :
    r.run (ts ++ [t]) = some s ↔ ∃ q, r.run ts = some q ∧ Step q t s := by
  simp only [run_append, Option.bind_eq_some_iff, run_cons, run_nil, Option.some.injEq,
    exists_eq_right, ← step_eq_some_iff]

/-- What every step keeps, a run keeps: the rule by which invariants of runs are proved. -/
theorem run_induction {P : Reading → List Token → Prop} {r s : Reading} {ts : List Token}
    (hrun : r.run ts = some s) (hr : P r [])
    (hstep : ∀ {q s : Reading} {t : Token} {ts : List Token},
      Step q t s → P q ts → P s (ts ++ [t])) : P s ts := by
  induction ts using List.reverseRecOn generalizing s with
  | nil =>
    obtain rfl := Option.some.inj hrun
    exact hr
  | append_singleton ts t ih =>
    obtain ⟨q, hq, hs⟩ := run_concat_eq_some_iff.1 hrun
    exact hstep hs (ih hq)

/-- No stray character is ever taken. -/
theorem stray_notMem_of_run {r s : Reading} {ts : List Token} (h : r.run ts = some s) (c : Char) :
    .stray c ∉ ts := by
  refine run_induction (P := fun _ ts ↦ .stray c ∉ ts) h List.not_mem_nil ?_
  intro q s t ts hstep hts hmem
  rcases List.mem_append.1 hmem with hmem | hmem
  · exact hts hmem
  · obtain rfl := List.mem_singleton.1 hmem
    cases hstep

/-! ### Feeding lexemes -/

/-- Lexemes whose tokens can all be taken are taken. -/
theorem feed_eq_of_run {r s : Reading} {ls : List Lexeme}
    (h : r.run (ls.map Lexeme.token) = some s) : r.feed ls = (s, []) := by
  induction ls generalizing r with
  | nil =>
    obtain rfl := Option.some.inj h
    rfl
  | cons l ls ih =>
    rw [List.map_cons, run_cons, Option.bind_eq_some_iff] at h
    obtain ⟨q, hq, hrun⟩ := h
    rw [feed, hq]
    exact ih hrun

/-- A lexeme whose token can not be taken ends the feeding. -/
theorem feed_cons_of_refused {r : Reading} {l : Lexeme} (h : r.step l.token = none)
    (ls : List Lexeme) : r.feed (l :: ls) = (r, l :: ls) := by
  rw [feed, h]

/-- Either all tokens can be taken, or there is a first that can not. -/
theorem run_or_refused (r : Reading) (ls : List Lexeme) :
    (∃ s, r.run (ls.map Lexeme.token) = some s) ∨
      ∃ taken l rest s, ls = taken ++ l :: rest ∧
        r.run (taken.map Lexeme.token) = some s ∧ s.step l.token = none := by
  induction ls generalizing r with
  | nil => exact .inl ⟨r, rfl⟩
  | cons l ls ih =>
    rcases hstep : r.step l.token with - | q
    · exact .inr ⟨[], l, ls, r, rfl, rfl, hstep⟩
    · have hrun : ∀ ts, r.run (l.token :: ts) = q.run ts := by
        intro ts
        rw [run_cons, hstep, Option.bind_some]
      rcases ih q with ⟨s, hs⟩ | ⟨taken, m, rest, s, rfl, hs, hm⟩
      · exact .inl ⟨s, by rw [List.map_cons, hrun, hs]⟩
      · exact .inr ⟨l :: taken, m, rest, s, rfl, by rw [List.map_cons, hrun, hs], hm⟩

end Reading

namespace Expr

variable {source : String} {r : Reading}

/-- A source all of whose tokens are taken is an expression, or it ends too early. -/
theorem parse_of_run (h : Reading.start.run (tokens source) = some r) :
    parse source = match r.result? with
      | some e => .ok e
      | none => .error ⟨source, source.utf8ByteSize, r.expectation⟩ := by
  have hfeed : Reading.start.feed (lexemes source) = (r, []) := Reading.feed_eq_of_run h
  rw [parse]
  generalize Reading.start.feed (lexemes source) = stopped at hfeed ⊢
  subst hfeed
  rfl

/-- A source with a token that can not be taken is no expression. -/
theorem parse_of_refused {taken rest : List Lexeme} {l : Lexeme}
    (hlexemes : lexemes source = taken ++ l :: rest)
    (hrun : Reading.start.run (taken.map Lexeme.token) = some r) (hrefused : r.step l.token = none) :
    parse source = .error ⟨source, l.start, r.expectation⟩ := by
  rw [parse, hlexemes, Reading.feed_append (Reading.feed_eq_of_run hrun),
    Reading.feed_cons_of_refused hrefused]

/-- A source is accepted if it is an expression. -/
def Accepted (source : String) : Prop :=
  ∃ e, parse source = .ok e

/-- A source is an expression exactly if its tokens lead to a reading with a result. -/
theorem parse_eq_ok_iff_run {e : Expr} :
    parse source = .ok e ↔ ∃ r, Reading.start.run (tokens source) = some r ∧ r.result? = some e := by
  constructor
  · intro h
    rcases Reading.start.run_or_refused (lexemes source) with
      ⟨r, hr⟩ | ⟨taken, l, rest, r, hlexemes, hrun, hrefused⟩
    · refine ⟨r, hr, ?_⟩
      rw [parse_of_run hr] at h
      split at h
      · rwa [← Except.ok.inj h]
      · cases h
    · rw [parse_of_refused hlexemes hrun hrefused] at h
      cases h
  · rintro ⟨r, hr, he⟩
    rw [parse_of_run hr, he]

theorem accepted_iff :
    Accepted source ↔ ∃ r, Reading.start.run (tokens source) = some r ∧ r.result?.isSome = true := by
  simp only [Accepted, parse_eq_ok_iff_run, Option.isSome_iff_exists]
  constructor
  · rintro ⟨e, r, hr, he⟩
    exact ⟨r, hr, e, he⟩
  · rintro ⟨r, hr, e, he⟩
    exact ⟨e, r, hr, he⟩

/-- An error carries the source that it is about. -/
theorem source_of_parse_eq_error {error : ParseError} (h : parse source = .error error) :
    error.source = source := by
  rcases Reading.start.run_or_refused (lexemes source) with
    ⟨r, hrun⟩ | ⟨taken, l, rest, r, hlexemes, hrun, hrefused⟩
  · rw [parse_of_run hrun] at h
    split at h
    · cases h
    · rw [← Except.error.inj h]
  · rw [parse_of_refused hlexemes hrun hrefused] at h
    rw [← Except.error.inj h]

theorem not_accepted_of_error {error : ParseError} (h : parse source = .error error) :
    ¬ Accepted source := by
  rintro ⟨e, he⟩
  rw [h] at he
  cases he

end Expr

end TruthTable
