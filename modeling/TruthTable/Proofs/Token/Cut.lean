import Mathlib.Data.List.TakeWhile
import TruthTable.Text.Bits
import TruthTable.Token

/-!
# Cutting a text by longest match

What the tokens of a text are, said without a walk over the text. `Token.Written` lists the words
that a token may be written with, `IsLongest` says that no longer word stands at the same place, and
`Cut` puts the two together: a text is cut into tokens if blanks can be dropped and longest words
taken off its front until nothing is left.

The main statement is `cut_iff`: the walk finds the cut of a text if there is one, and otherwise it
finds a stray character. It rests on three facts about `Token.read`, the one step of the walk, and
on nothing else about it:

* what is read is written with the characters that are taken (`Token.written_read`);
* a word at the front is never longer than what is taken (`Token.length_le_of_written`);
* what is read depends on the first character alone, up to the text of a name
  (`Token.read_fst_eq_or_name`).
-/

namespace TruthTable

/-- The words that a connective may be written with. -/
def Connective.words : Connective → List (List Char)
  | .and => [['&', '&'], ['&'], ['.'], ['*']]
  | .or => [['|', '|'], ['|'], ['+']]

/-- `t.Written word`: the token `t` may be written as `word`. -/
inductive Token.Written : Token → List Char → Prop where
  /-- The sign of negation. -/
  | not : Written .not ['!']
  /-- An opening parenthesis. -/
  | opening : Written .opening ['(']
  /-- A closing parenthesis. -/
  | closing : Written .closing [')']
  /-- The digit of a truth value. -/
  | literal (b : Bool) : Written (.literal b) [Text.bit b]
  /-- Any word of a connective. -/
  | connective {c : Connective} {word : List Char} (h : word ∈ c.words) :
    Written (.connective c) word
  /-- The text of a name. -/
  | name (x : Name) : Written (.name x) x.text.toList

/-- No token is written with a longer word than `word` at the front of `word ++ rest`. -/
def IsLongest (word rest : List Char) : Prop :=
  ∀ t longer, Token.Written t longer → longer <+: word ++ rest → longer.length ≤ word.length

/-- `Cut cs ts`: the characters `cs` are cut into the tokens `ts`. -/
inductive Cut : List Char → List Token → Prop where
  /-- Nothing is left. -/
  | nil : Cut [] []
  /-- A space, tab, carriage return or newline belongs to no token. -/
  | blank {c : Char} {cs : List Char} {ts : List Token} (h : c ∈ [' ', '\t', '\r', '\n'])
    (rest : Cut cs ts) : Cut (c :: cs) ts
  /-- A longest word is a token. -/
  | token {word cs : List Char} {t : Token} {ts : List Token} (written : t.Written word)
    (longest : IsLongest word cs) (rest : Cut cs ts) : Cut (word ++ cs) (t :: ts)

/-! ### One step of the walk -/

namespace Token

/-- What is read is settled by the first character, up to the text of a name. -/
theorem read_fst_eq_or_name (c : Char) (cs ds : List Char) :
    (read c cs).1 = (read c ds).1 ∨
      ∃ x y, (read c cs).1 = .name x ∧ (read c ds).1 = .name y := by
  by_cases h : Name.isStart c = true
  · refine .inr ⟨Name.takeFrom c cs h, Name.takeFrom c ds h, ?_⟩
    rw [read_of_isStart h, read_of_isStart h]
    exact ⟨rfl, rfl⟩
  · left
    unfold read
    split <;> simp [h]

/-- What is read is written with the characters that are taken. -/
theorem written_read {c : Char} {cs : List Char} (h : ∀ d, (read c cs).1 ≠ .stray d) :
    (read c cs).1.Written (c :: cs.take (read c cs).2) := by
  by_cases hc : Name.isStart c = true
  · have hread := read_of_isStart hc cs
    have htake : cs.take (cs.takeWhile Name.isContinue).length = cs.takeWhile Name.isContinue :=
      (List.prefix_iff_eq_take.1 (List.takeWhile_prefix _)).symm
    rw [hread, htake]
    simpa [Name.text_takeFrom] using Written.name (Name.takeFrom c cs hc)
  · revert h
    unfold read
    split
    case h_1 => exact fun _ ↦ .not
    case h_2 => exact fun _ ↦ .opening
    case h_3 => exact fun _ ↦ .closing
    case h_4 => exact fun _ ↦ .literal false
    case h_5 => exact fun _ ↦ .literal true
    -- the two signs that may be doubled
    case h_6 | h_7 =>
      intro _
      split
      case isTrue hnext =>
        obtain ⟨ds, rfl⟩ := List.head?_eq_some_iff.1 hnext
        exact .connective (by simp [Connective.words])
      case isFalse => exact .connective (by simp [Connective.words])
    case h_8 | h_9 | h_10 => exact fun _ ↦ .connective (by simp [Connective.words])
    case h_11 => simp [hc]

/-- A word at the front is no longer than what is taken. -/
theorem length_le_of_written {t : Token} {c : Char} {w cs : List Char} (hw : t.Written (c :: w))
    (hfront : w <+: cs) : w.length ≤ (read c cs).2 := by
  generalize hword : c :: w = word at hw
  rcases hw with - | - | - | b | @⟨connective, _, h⟩ | x
  case connective =>
    subst hword
    rcases connective with - | -
    all_goals
      simp only [Connective.words, List.mem_cons, List.cons.injEq, List.not_mem_nil, or_false] at h
      rcases h with ⟨rfl, rfl⟩ | h
      · obtain ⟨ds, rfl⟩ := hfront
        exact Nat.le_refl 1
      · obtain rfl : w = [] := by grind
        exact Nat.zero_le _
  case name =>
    obtain ⟨d, ds, hx, hstart, hall⟩ := x.exists_toList_eq_cons
    rw [hx, List.cons.injEq] at hword
    obtain ⟨rfl, rfl⟩ := hword
    obtain ⟨es, rfl⟩ := hfront
    rw [read_of_isStart hstart, List.takeWhile_append_of_pos hall]
    simp
  all_goals cases hword; exact Nat.zero_le _

/-- A word alone is read as its token. -/
theorem read_fst_of_written {t : Token} {c : Char} {w : List Char} (hw : t.Written (c :: w)) :
    (read c w).1 = t := by
  generalize hword : c :: w = word at hw
  rcases hw with - | - | - | b | @⟨connective, _, h⟩ | x
  case literal => cases hword; cases b <;> rfl
  case connective =>
    subst hword
    rcases connective with - | - <;>
      simp only [Connective.words, List.mem_cons, List.cons.injEq, List.not_mem_nil, or_false] at h
    · rcases h with ⟨rfl, rfl⟩ | ⟨rfl, rfl⟩ | ⟨rfl, rfl⟩ | ⟨rfl, rfl⟩ <;> rfl
    · rcases h with ⟨rfl, rfl⟩ | ⟨rfl, rfl⟩ | ⟨rfl, rfl⟩ <;> rfl
  case name =>
    obtain ⟨d, ds, hx, hstart, hall⟩ := x.exists_toList_eq_cons
    rw [hx, List.cons.injEq] at hword
    obtain ⟨rfl, rfl⟩ := hword
    rw [read_of_isStart hstart, Token.name.injEq]
    apply Name.ext
    rw [Name.text_takeFrom, List.takeWhile_eq_self_iff.2 hall, ← hx, String.ofList_toList]
  all_goals cases hword; rfl

/-- No more is taken than stands in the text. -/
theorem read_snd_le (c : Char) (cs : List Char) : (read c cs).2 ≤ cs.length := by
  by_cases hc : Name.isStart c = true
  · rw [read_of_isStart hc]
    exact (List.takeWhile_prefix _).length_le
  · unfold read
    split
    case h_6 | h_7 => split <;> grind
    case h_11 => simp [hc]
    all_goals exact Nat.zero_le _

/-- A longest word is read as its token, and all of it is taken. -/
theorem read_eq_of_written {t : Token} {c : Char} {w rest : List Char} (hw : t.Written (c :: w))
    (hlongest : IsLongest (c :: w) rest) : read c (w ++ rest) = (t, w.length) := by
  have hstray : ∀ d, (read c (w ++ rest)).1 ≠ .stray d := by
    intro d
    rcases read_fst_eq_or_name c (w ++ rest) w with h | ⟨x, y, h, -⟩
    · rw [h, read_fst_of_written hw]
      rintro rfl
      cases hw
    · simp [h]
  -- no more than the word is taken, since it is longest, and no less, since it stands in front
  have hwritten := written_read hstray
  have hle := hlongest _ _ hwritten (List.prefix_cons_inj c |>.2 (List.take_prefix _ _))
  have hge := length_le_of_written hw (List.prefix_append w rest)
  have hbound := read_snd_le c (w ++ rest)
  have hlength : (read c (w ++ rest)).2 = w.length := by
    rw [List.length_cons, List.length_cons, List.length_take] at hle
    omega
  rw [hlength, List.take_left] at hwritten
  have htoken : (read c (w ++ rest)).1 = t := by
    rw [← read_fst_of_written hwritten, read_fst_of_written hw]
  exact Prod.ext htoken hlength

end Token

/-! ### The walk without places -/

/-- The tokens that the walk over a list of characters finds. -/
def tokensOf (cs : List Char) : List Token :=
  (lexemesFrom 0 0 cs).map Lexeme.token

/-- A blank where no token goes on is passed over. -/
theorem lexemesFrom_of_isWhitespace (start : Nat) {c : Char} (cs : List Char)
    (h : c.isWhitespace = true) :
    lexemesFrom start 0 (c :: cs) = lexemesFrom (start + c.utf8Size) 0 cs := by
  rw [lexemesFrom, if_pos h]

/-- Any other character begins a token. -/
theorem lexemesFrom_of_not_isWhitespace (start : Nat) {c : Char} (cs : List Char)
    (h : c.isWhitespace = false) :
    lexemesFrom start 0 (c :: cs) = ⟨(Token.read c cs).1, start⟩ ::
      lexemesFrom (start + c.utf8Size) (Token.read c cs).2 cs := by
  rw [lexemesFrom, if_neg (Bool.not_eq_true _ ▸ h)]

/-- Neither the place where a text begins nor the characters that are passed over matter. -/
theorem map_token_lexemesFrom (start taken : Nat) (cs : List Char) :
    (lexemesFrom start taken cs).map Lexeme.token = tokensOf (cs.drop taken) := by
  rw [tokensOf]
  induction cs generalizing start taken with
  | nil => rw [List.drop_nil]; rfl
  | cons c cs ih =>
    rcases taken with - | k
    · rw [List.drop_zero]
      rcases hc : c.isWhitespace with - | -
      · rw [lexemesFrom_of_not_isWhitespace _ _ hc, lexemesFrom_of_not_isWhitespace _ _ hc,
          List.map_cons, List.map_cons, ih, ih (0 + c.utf8Size)]
      · rw [lexemesFrom_of_isWhitespace _ _ hc, lexemesFrom_of_isWhitespace _ _ hc, ih,
          ih (0 + c.utf8Size)]
    · rw [lexemesFrom, ih, List.drop_succ_cons]

theorem tokensOf_cons_of_isWhitespace {c : Char} {cs : List Char} (h : c.isWhitespace = true) :
    tokensOf (c :: cs) = tokensOf cs := by
  rw [tokensOf, lexemesFrom_of_isWhitespace _ _ h, map_token_lexemesFrom, List.drop_zero]

theorem tokensOf_cons {c : Char} {cs : List Char} (h : c.isWhitespace = false) :
    tokensOf (c :: cs) = (Token.read c cs).1 :: tokensOf (cs.drop (Token.read c cs).2) := by
  rw [tokensOf, lexemesFrom_of_not_isWhitespace _ _ h, List.map_cons, map_token_lexemesFrom]

/-! ### The walk finds the cut -/

theorem isWhitespace_iff {c : Char} : c.isWhitespace = true ↔ c ∈ [' ', '\t', '\r', '\n'] := by
  simp [Char.isWhitespace, or_assoc]

namespace Token.Written

variable {t : Token} {word : List Char}

theorem ne_nil (h : t.Written word) : word ≠ [] := by
  rcases h with - | - | - | b | @⟨connective, _, h⟩ | x
  case connective =>
    rintro rfl
    rcases connective with - | - <;> simp [Connective.words] at h
  case name =>
    obtain ⟨c, cs, hx, -⟩ := x.exists_toList_eq_cons
    simp [hx]
  all_goals exact List.cons_ne_nil _ _

/-- No blank stands in a word. -/
theorem isWhitespace_of_mem (h : t.Written word) {c : Char} (hc : c ∈ word) :
    c.isWhitespace = false := by
  rcases h with - | - | - | b | @⟨connective, _, h⟩ | x
  case connective =>
    have hall : connective.words.all (fun w ↦ w.all fun d ↦ !d.isWhitespace) = true := by
      rcases connective with - | - <;> decide
    simpa using List.all_eq_true.1 (List.all_eq_true.1 hall word h) c hc
  case name =>
    rw [← Bool.not_eq_true]
    intro hblank
    exact Name.notMem_of_isContinue
      (Name.isContinue_of_isBlank (Text.isBlank_of_isWhitespace hblank)) hc
  all_goals obtain rfl := List.mem_singleton.1 hc
  case literal => rcases b with - | - <;> rfl
  all_goals rfl

end Token.Written

/-- A cut is what the walk finds. -/
theorem Cut.tokensOf_eq {cs : List Char} {ts : List Token} (h : Cut cs ts) : tokensOf cs = ts := by
  induction h with
  | nil => rfl
  | blank hc _ ih => rw [tokensOf_cons_of_isWhitespace (isWhitespace_iff.2 hc), ih]
  | @token word cs t ts written longest _ ih =>
    obtain ⟨c, w, rfl⟩ := List.exists_cons_of_ne_nil written.ne_nil
    have hc := written.isWhitespace_of_mem List.mem_cons_self
    rw [List.cons_append, tokensOf_cons hc, Token.read_eq_of_written written longest,
      List.drop_left, ih]

/-- No stray character is in a cut. -/
theorem Cut.stray_notMem {cs : List Char} {ts : List Token} (h : Cut cs ts) (c : Char) :
    .stray c ∉ ts := by
  induction h with
  | nil => exact List.not_mem_nil
  | blank _ _ ih => exact ih
  | token written _ _ ih =>
    rintro (_ | ⟨_, hmem⟩)
    · cases written
    · exact ih hmem

/-- A word is longest if no more than its characters are taken. -/
theorem Token.isLongest_of_read_le {c : Char} {w rest : List Char}
    (h : (read c (w ++ rest)).2 ≤ w.length) : IsLongest (c :: w) rest := by
  intro t longer hw hfront
  obtain ⟨d, ds, rfl⟩ := List.exists_cons_of_ne_nil hw.ne_nil
  obtain ⟨rfl, htail⟩ := List.cons_prefix_cons.1 hfront
  exact Nat.succ_le_succ ((length_le_of_written hw htail).trans h)

/-- What is taken by a step of the walk is a longest word. -/
theorem Token.isLongest_read (c : Char) (cs : List Char) :
    IsLongest (c :: cs.take (read c cs).2) (cs.drop (read c cs).2) := by
  apply isLongest_of_read_le
  rw [List.take_append_drop, List.length_take]
  exact Nat.le_min.2 ⟨Nat.le_refl _, read_snd_le c cs⟩

/-- What the walk finds is a cut, unless a stray character is among it. -/
theorem cut_tokensOf : ∀ cs : List Char, (∀ c, .stray c ∉ tokensOf cs) → Cut cs (tokensOf cs)
  | [], _ => .nil
  | c :: cs, h => by
    by_cases hc : c.isWhitespace = true
    · rw [tokensOf_cons_of_isWhitespace hc] at h ⊢
      exact .blank (isWhitespace_iff.1 hc) (cut_tokensOf cs h)
    · rw [tokensOf_cons (Bool.not_eq_true _ ▸ hc)] at h ⊢
      have hread : ∀ d, (Token.read c cs).1 ≠ .stray d :=
        fun d hd ↦ h d (List.mem_cons.2 (.inl hd.symm))
      have hrest := cut_tokensOf (cs.drop (Token.read c cs).2)
        fun d hd ↦ h d (List.mem_cons_of_mem _ hd)
      have hcut := Cut.token (Token.written_read hread) (Token.isLongest_read c cs) hrest
      rwa [List.cons_append, List.take_append_drop] at hcut
termination_by cs => cs.length

/-- The walk over a text finds its cut, if it has one. -/
theorem cut_iff {source : String} {ts : List Token} :
    Cut source.toList ts ↔ tokens source = ts ∧ ∀ c, .stray c ∉ ts := by
  constructor
  · intro h
    exact ⟨h.tokensOf_eq, h.stray_notMem⟩
  · rintro ⟨rfl, h⟩
    exact cut_tokensOf source.toList h

end TruthTable
