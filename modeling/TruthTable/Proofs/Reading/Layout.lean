import Mathlib.Data.List.Chain
import TruthTable.Proofs.Reading.Grammar
import TruthTable.Proofs.Token.Boundary

/-!
# Layout and spelling do not matter

A source may be laid out anew: blanks are deleted and inserted wherever a token begins or ends, and
a connective is written with another of its words. `Relaid` is this change of a text, and the main
statement is that it keeps the tree (`Expr.parse_relaid`).

What could go wrong is that two tokens run into each other once the blanks between them are gone: a
name goes on with letters and digits, and a sign `&` or `|` can be doubled. In an accepted source
neither happens, because of one fact about neighbours (`Token.Adjoins`): behind a token that ends an
operand stands a connective or a closing parenthesis, and behind any other token an operand begins.
The reader enforces this (`Reading.isChain_of_run`), and it keeps all words apart, whatever words
were chosen (`Token.Written.isLongest_append`).
-/

namespace TruthTable

/-- `Relaid cs ds`: the text `ds` is the text `cs` with another layout. The two are gone through
side by side, in `cs` from one boundary of a token to the next. -/
inductive Relaid : List Char → List Char → Prop where
  /-- Both texts are at their ends. -/
  | nil : Relaid [] []
  /-- A blank between two tokens is deleted. -/
  | delete {c : Char} {cs ds : List Char} (h : c ∈ [' ', '\t', '\r', '\n'])
    (rest : Relaid cs ds) : Relaid (c :: cs) ds
  /-- A blank is inserted between two tokens. -/
  | insert {c : Char} {cs ds : List Char} (h : c ∈ [' ', '\t', '\r', '\n'])
    (rest : Relaid cs ds) : Relaid cs (c :: ds)
  /-- A token stays as it is written. -/
  | keep {t : Token} {word cs ds : List Char} (written : t.Written word)
    (longest : IsLongest word cs) (rest : Relaid cs ds) : Relaid (word ++ cs) (word ++ ds)
  /-- A connective is written with another word. -/
  | respell {c : Connective} {word other cs ds : List Char} (written : word ∈ c.words)
    (longest : IsLongest word cs) (respelt : other ∈ c.words) (rest : Relaid cs ds) :
    Relaid (word ++ cs) (other ++ ds)

/-! ### Neighbours -/

namespace Token

/-- An operand may begin with this token. -/
def beginsOperand : Token → Bool
  | .literal _ | .name _ | .opening | .not => true
  | .closing | .connective _ | .stray _ => false

/-- An operand may end with this token. -/
def endsOperand : Token → Bool
  | .literal _ | .name _ | .closing => true
  | .opening | .not | .connective _ | .stray _ => false

/-- The token `u` may stand behind `t`: an operand begins behind those tokens that do not end one.
-/
def Adjoins (t u : Token) : Prop :=
  u.beginsOperand = !t.endsOperand

end Token

namespace Reading

/-- An operand is wanted, and none has just been completed. -/
def wantsOperand : Reading → Bool
  | wanting .. => true
  | complete .. => false

theorem Step.wantsOperand_eq {r s : Reading} {t : Token} (h : Step r t s) :
    r.wantsOperand = t.beginsOperand ∧ s.wantsOperand = !t.endsOperand := by
  cases h <;> exact ⟨rfl, rfl⟩

/-- The neighbours among the tokens that have been read adjoin each other, and so does the next. -/
theorem isChain_of_run {r s : Reading} {ts : List Token} (h : r.run ts = some s) :
    ts.IsChain Token.Adjoins ∧ ∀ t ∈ ts.getLast?, s.wantsOperand = !t.endsOperand := by
  refine run_induction
    (P := fun s ts ↦ ts.IsChain Token.Adjoins ∧ ∀ t ∈ ts.getLast?, s.wantsOperand = !t.endsOperand)
    h ?_ ?_
  · exact ⟨.nil, by simp⟩
  · intro q s t ts hstep ⟨hchain, hlast⟩
    obtain ⟨hbegins, hends⟩ := hstep.wantsOperand_eq
    refine ⟨hchain.append (.singleton t) fun u hu v hv ↦ ?_, fun u hu ↦ ?_⟩
    · obtain rfl : t = v := by simpa using hv
      exact hbegins.symm.trans (hlast u hu)
    · obtain rfl : t = u := by simpa using hu
      exact hends

end Reading

/-! ### Neighbours do not run into each other -/

namespace Token.Written

variable {t u : Token} {word other : List Char}

/-- A word goes on only with a character of a name, if its token ends an operand, and only by
doubling its sign otherwise. -/
theorem isLongest_cons {d : Char} (h : t.Written word)
    (hends : t.endsOperand = true → Name.isContinue d = false)
    (hother : t.endsOperand = false → d ≠ '&' ∧ d ≠ '|') (rest : List Char) :
    IsLongest word (d :: rest) := by
  cases h with
  | not => exact isLongest_of_read_le (Nat.le_refl _)
  | opening => exact isLongest_of_read_le (Nat.le_refl _)
  | closing => exact isLongest_of_read_le (Nat.le_refl _)
  | literal b => cases b <;> exact isLongest_of_read_le (Nat.le_refl _)
  | @connective c _ hword =>
    obtain ⟨hand, hor⟩ := hother rfl
    cases c <;> simp only [Connective.words, List.mem_cons, List.not_mem_nil, or_false] at hword
    · rcases hword with rfl | rfl | rfl | rfl <;>
        exact isLongest_of_read_le (by simp [read, hand])
    · rcases hword with rfl | rfl | rfl <;>
        exact isLongest_of_read_le (by simp [read, hor])
  | name x =>
    obtain ⟨c, cs, hx, hstart, hall⟩ := x.exists_toList_eq_cons
    rw [hx]
    apply isLongest_of_read_le
    rw [read_of_isStart hstart, List.takeWhile_append_of_pos hall,
      List.takeWhile_cons_of_neg (by simp [hends rfl]), List.append_nil]

/-- The word of a token that begins no operand does not go on with a name in front of it. -/
theorem isContinue_head_of_beginsOperand {d : Char} (h : u.Written (d :: other))
    (hbegins : u.beginsOperand = false) : Name.isContinue d = false := by
  generalize hword : d :: other = word at h
  cases h with
  | closing => cases hword; exact Name.isContinue_of_mem_signs (by decide)
  | @connective c _ hmem =>
    have hall : c.words.all (fun w ↦ w.head?.all fun d ↦ d ∈ "!()&|.*+,".toList) = true := by
      cases c <;> decide
    have hd := List.all_eq_true.1 hall word hmem
    rw [← hword] at hd
    exact Name.isContinue_of_mem_signs (of_decide_eq_true hd)
  | not | opening | literal b | name x => cases hbegins

/-- The word of a token that begins an operand does not double a sign in front of it. -/
theorem head_ne_of_beginsOperand {d : Char} (h : u.Written (d :: other))
    (hbegins : u.beginsOperand = true) : d ≠ '&' ∧ d ≠ '|' := by
  generalize hword : d :: other = word at h
  cases h with
  | closing | connective hmem => cases hbegins
  | not | opening => cases hword; decide
  | literal b => cases hword; cases b <;> decide
  | name x =>
    have hmem : d ∈ x.text.toList := hword ▸ List.mem_cons_self
    constructor
    · rintro rfl
      exact Name.notMem_of_isContinue (Name.isContinue_of_mem_signs (by decide)) hmem
    · rintro rfl
      exact Name.notMem_of_isContinue (Name.isContinue_of_mem_signs (by decide)) hmem

/-- Tokens that adjoin each other do not run into each other, whatever words they are written with.
-/
theorem isLongest_append (h : t.Written word) (hu : u.Written other) (hadjoins : t.Adjoins u)
    (rest : List Char) : IsLongest word (other ++ rest) := by
  obtain ⟨d, ds, rfl⟩ := List.exists_cons_of_ne_nil hu.ne_nil
  refine h.isLongest_cons (fun hends ↦ ?_) (fun hends ↦ ?_) (ds ++ rest)
  · exact hu.isContinue_head_of_beginsOperand (by rw [hadjoins, hends]; rfl)
  · exact hu.head_ne_of_beginsOperand (by rw [hadjoins, hends]; rfl)

end Token.Written

/-- In front of a text that is cut, a word is a token if it adjoins the first one. -/
theorem Cut.isLongest {t : Token} {word cs : List Char} {ts : List Token} (h : Cut cs ts)
    (hword : t.Written word) (hadjoins : ∀ u ∈ ts.head?, t.Adjoins u) : IsLongest word cs := by
  cases h with
  | nil => exact isLongest_nil word
  | blank hc _ =>
    exact (isLongest_nil word).append hword.ne_nil
      (separates_of_isWhitespace (isWhitespace_iff.2 hc))
  | @token other cs u ts written _ _ => exact hword.isLongest_append written (hadjoins u rfl) cs

/-! ### Sources with another layout -/

/-- A text with another layout is cut into the same tokens, if the neighbours among them adjoin each
other. -/
theorem Relaid.exists_cut {cs ds : List Char} (h : Relaid cs ds) :
    ∃ ts, Cut cs ts ∧ (ts.IsChain Token.Adjoins → Cut ds ts) := by
  -- a token that is written anew must not run into what comes next in the new text
  have htoken : ∀ {t word ds ts}, t.Written word → (ts.IsChain Token.Adjoins → Cut ds ts) →
      (t :: ts).IsChain Token.Adjoins → Cut (word ++ ds) (t :: ts) := by
    intro t word ds ts hword hcut hchain
    obtain ⟨hadjoins, hchain⟩ := List.isChain_cons.1 hchain
    exact .token hword ((hcut hchain).isLongest hword hadjoins) (hcut hchain)
  induction h with
  | nil => exact ⟨[], .nil, fun _ ↦ .nil⟩
  | delete h _ ih =>
    obtain ⟨ts, hcs, hds⟩ := ih
    exact ⟨ts, .blank h hcs, hds⟩
  | insert h _ ih =>
    obtain ⟨ts, hcs, hds⟩ := ih
    exact ⟨ts, hcs, fun hchain ↦ .blank h (hds hchain)⟩
  | @keep t word cs ds written longest _ ih =>
    obtain ⟨ts, hcs, hds⟩ := ih
    exact ⟨t :: ts, .token written longest hcs, htoken written hds⟩
  | @respell c word other cs ds written longest respelt _ ih =>
    obtain ⟨ts, hcs, hds⟩ := ih
    exact ⟨.connective c :: ts, .token (.connective written) longest hcs,
      htoken (.connective respelt) hds⟩

namespace Expr

variable {source source' : String} {e : Expr}

/-- An accepted source keeps its tree when blanks between its tokens are deleted and inserted and
its connectives are written with other words. -/
theorem parse_relaid (h : parse source = .ok e)
    (hrelaid : Relaid source.toList source'.toList) : parse source' = .ok e := by
  obtain ⟨ts, hcut, hderives⟩ := parse_eq_ok_iff.1 h
  obtain ⟨us, hcut', hrelaid⟩ := hrelaid.exists_cut
  obtain rfl : ts = us := (cut_iff.1 hcut).1.symm.trans (cut_iff.1 hcut').1
  obtain ⟨r, hrun, -⟩ := derives_iff_run.1 hderives
  exact parse_eq_ok_iff.2 ⟨ts, hrelaid (Reading.isChain_of_run hrun).1, hderives⟩

/-- Nothing but signs stands between the names once the blanks are gone. -/
theorem parse_relaid_touching :
    let p : Name := ⟨"p_1", by decide +kernel⟩
    let q : Name := ⟨"q", by decide +kernel⟩
    let e : Expr := .join .and (.var p) (.not (.var q))
    parse "p_1\t&& !q" = .ok e ∧ Relaid "p_1\t&& !q".toList "p_1*!q ".toList ∧
      parse "p_1*!q " = .ok e := by
  intro p q e
  have h : parse "p_1\t&& !q" = .ok e := by decide +kernel
  have hq : Token.Written (.name q) ['q'] := by simpa [q] using Token.Written.name q
  have hp : Token.Written (.name p) ['p', '_', '1'] := by simpa [p] using Token.Written.name p
  have hnegated : Relaid ['!', 'q'] ['!', 'q', ' '] :=
    .keep .not (Token.isLongest_of_read_le (Nat.le_refl _))
      (.keep hq (isLongest_nil ['q']) (.insert (by decide) .nil))
  have hsign : Relaid (['&', '&'] ++ [' ', '!', 'q']) (['*'] ++ ['!', 'q', ' ']) :=
    .respell (c := .and) (by decide) (Token.isLongest_of_read_le (Nat.le_refl _)) (by decide)
      (.delete (by decide) hnegated)
  have hrelaid : Relaid "p_1\t&& !q".toList "p_1*!q ".toList := by
    simpa using .keep hp (Token.isLongest_of_read_le (by decide +kernel))
      (.delete (by decide) hsign)
  exact ⟨h, hrelaid, parse_relaid h hrelaid⟩

end Expr

end TruthTable
