import Mathlib.Data.String.Basic
import TruthTable.Proofs.Token.Cut

/-!
# Where one token can not run into the next

Cuts of two texts that are put one behind the other need not be a cut of the whole: `a` and `b`
give the single name `ab`. They are one if the second text begins with a character that no word goes
on with. Such a character *separates*; the blanks and the parentheses do.

Put together from the left, the walk has the same property without any condition: at a place where
it has once found the beginning of a token, it finds one whatever follows
(`exists_boundary_of_lexemesFrom_eq`).
-/

namespace TruthTable

/-! ### Separating characters -/

/-- No word goes on with the character `c`, although one may begin with it. -/
def Separates (c : Char) : Prop :=
  ∀ t word, Token.Written t word → c ∉ word.tail

/-- Only names and the doubled signs have more than one character. -/
theorem separates_of_isContinue {c : Char} (h : Name.isContinue c = false) (hand : c ≠ '&')
    (hor : c ≠ '|') : Separates c := by
  intro t word hw hmem
  rcases hw with - | - | - | b | @⟨connective, _, hword⟩ | x
  case connective =>
    have hall : connective.words.all (fun w ↦ w.tail.all fun d ↦ d = '&' ∨ d = '|') = true := by
      rcases connective with - | - <;> decide
    have hc := List.all_eq_true.1 (List.all_eq_true.1 hall word hword) c hmem
    simp [hand, hor] at hc
  case name => exact Name.notMem_of_isContinue h (List.mem_of_mem_tail hmem)
  all_goals cases hmem

theorem separates_of_isWhitespace {c : Char} (h : c.isWhitespace = true) : Separates c := by
  have hcontinue := Name.isContinue_of_isBlank (Text.isBlank_of_isWhitespace h)
  refine separates_of_isContinue hcontinue ?_ ?_ <;> rintro rfl <;> cases h

theorem separates_closing : Separates ')' :=
  separates_of_isContinue (Name.isContinue_of_mem_signs (by decide)) (by decide) (by decide)

theorem isLongest_nil (word : List Char) : IsLongest word [] := by
  intro t longer _ hfront
  rw [List.append_nil] at hfront
  exact hfront.length_le

/-- A longest word stays longest when a text that begins with a separating character follows. -/
theorem IsLongest.append {word cs rest : List Char} {d : Char} (h : IsLongest word cs)
    (hne : word ≠ []) (hd : Separates d) : IsLongest word (cs ++ d :: rest) := by
  intro t longer hw hfront
  rw [← List.append_assoc] at hfront
  rcases List.prefix_or_prefix_of_prefix hfront (List.prefix_append (word ++ cs) (d :: rest)) with
    hshort | ⟨_ | ⟨c, more⟩, rfl⟩
  · exact h t longer hw hshort
  · exact h t _ hw (List.append_nil _ ▸ List.prefix_rfl)
  -- the longer word would go on with the separating character
  · rw [List.prefix_append_right_inj, List.cons_prefix_cons] at hfront
    obtain ⟨rfl, -⟩ := hfront
    obtain ⟨b, w, rfl⟩ := List.exists_cons_of_ne_nil hne
    exact absurd (List.mem_append_right (w ++ cs) List.mem_cons_self) (hd t _ hw)

/-- Two cuts are one if the second text begins with a separating character. -/
theorem Cut.append {cs ds : List Char} {d : Char} {ts us : List Token} (h : Cut cs ts)
    (hd : Separates d) (hrest : Cut (d :: ds) us) : Cut (cs ++ d :: ds) (ts ++ us) := by
  induction h with
  | nil => exact hrest
  | blank hc _ ih => exact .blank hc ih
  | token written longest _ ih =>
    rw [List.append_assoc]
    exact .token written (longest.append written.ne_nil hd) ih

/-- Two cuts are one if a blank stands between the texts. -/
theorem Cut.append_blank {cs ds : List Char} {d : Char} {ts us : List Token} (h : Cut cs ts)
    (hd : d.isWhitespace = true) (hrest : Cut ds us) : Cut (cs ++ d :: ds) (ts ++ us) :=
  h.append (separates_of_isWhitespace hd) (.blank (isWhitespace_iff.1 hd) hrest)

/-- A single word is a token. -/
theorem Cut.singleton {t : Token} {word : List Char} (h : t.Written word) : Cut word [t] := by
  simpa using Cut.token h (isLongest_nil word) .nil

/-! ### Places where a token begins -/

/-- What is read is settled by the characters up to the one behind the token. -/
theorem Token.read_append_cons {c d : Char} {cs rest : List Char}
    (h : (read c (cs ++ d :: rest)).2 ≤ cs.length) (rest' : List Char) :
    read c (cs ++ d :: rest') = read c cs := by
  by_cases hc : Name.isStart c = true
  · rw [read_of_isStart hc] at h
    have htake : (cs ++ d :: rest').takeWhile Name.isContinue = cs.takeWhile Name.isContinue := by
      rw [List.takeWhile_append] at h ⊢
      split_ifs at h ⊢ with hall
      · have hcs : cs.takeWhile Name.isContinue = cs :=
          (List.takeWhile_prefix _).eq_of_length hall
        have hd : Name.isContinue d = false := by
          rw [← Bool.not_eq_true]
          intro hd
          rw [List.takeWhile_cons_of_pos hd, List.length_append, List.length_cons] at h
          omega
        rw [hcs, List.takeWhile_cons_of_neg (by simp [hd]), List.append_nil]
      · rfl
    rw [read_of_isStart hc, read_of_isStart hc, htake, Prod.mk.injEq, name.injEq]
    exact ⟨Name.ext (by rw [Name.text_takeFrom, Name.text_takeFrom, htake]), rfl⟩
  · revert h
    unfold read
    split
    case h_6 | h_7 =>
      rcases cs with - | ⟨b, bs⟩
      · rw [List.nil_append, List.nil_append, List.head?_cons, List.head?_cons]
        intro h
        split at h
        · cases h
        · simp [*]
      · exact fun _ ↦ rfl
    case h_11 => simp [hc]
    all_goals exact fun _ ↦ rfl

theorem add_utf8Size_add (start : Nat) (d : Char) (ds : List Char) :
    start + d.utf8Size + (String.ofList ds).utf8ByteSize =
      start + (String.ofList (d :: ds)).utf8ByteSize := by
  rw [String.utf8ByteSize_ofList, String.utf8ByteSize_ofList, String.utf8Len_cons]
  omega

/-- A lexeme that the walk has found stands where a token begins whatever follows: what is in front
of it has the lexemes found before, and the walk starts anew with its first character. -/
theorem exists_boundary_of_lexemesFrom_eq {start taken : Nat} {cs : List Char} {ls ms : List Lexeme}
    {l : Lexeme} (h : lexemesFrom start taken cs = ls ++ l :: ms) :
    ∃ before c after, cs = before ++ c :: after ∧ taken ≤ before.length ∧
      c.isWhitespace = false ∧
      l = ⟨(Token.read c after).1, start + (String.ofList before).utf8ByteSize⟩ ∧
      lexemesFrom start taken before = ls ∧
      ∀ after', lexemesFrom start taken (before ++ c :: after') =
        ls ++ lexemesFrom (start + (String.ofList before).utf8ByteSize) 0 (c :: after') := by
  induction cs generalizing start taken ls with
  | nil => simp [lexemesFrom] at h
  | cons d cs ih =>
    rcases taken with - | k
    · rcases hd : d.isWhitespace with - | -
      -- a token begins here: the one that is looked for, or one that ends in front of it
      · rw [lexemesFrom_of_not_isWhitespace _ _ hd] at h
        rcases ls with - | ⟨m, ls⟩
        · obtain ⟨rfl, -⟩ := List.cons.inj h
          exact ⟨[], d, cs, rfl, Nat.le_refl _, hd, rfl, rfl, fun _ ↦ rfl⟩
        · obtain ⟨rfl, hrest⟩ := List.cons.inj h
          obtain ⟨before, c, after, rfl, hle, hc, hl, hbefore, hafter⟩ := ih hrest
          have hread := Token.read_append_cons hle
          rw [hread] at hbefore hafter
          refine ⟨d :: before, c, after, rfl, Nat.zero_le _, hc, ?_, ?_, fun after' ↦ ?_⟩
          · rw [hl, add_utf8Size_add]
          · rw [lexemesFrom_of_not_isWhitespace _ _ hd, hbefore, hread]
          · rw [List.cons_append, lexemesFrom_of_not_isWhitespace _ _ hd, hread, hread, hafter,
              add_utf8Size_add, List.cons_append]
      · rw [lexemesFrom_of_isWhitespace _ _ hd] at h
        obtain ⟨before, c, after, rfl, -, hc, hl, hbefore, hafter⟩ := ih h
        refine ⟨d :: before, c, after, rfl, Nat.zero_le _, hc, ?_, ?_, fun after' ↦ ?_⟩
        · rw [hl, add_utf8Size_add]
        · rw [lexemesFrom_of_isWhitespace _ _ hd, hbefore]
        · rw [List.cons_append, lexemesFrom_of_isWhitespace _ _ hd, hafter, add_utf8Size_add]
    · rw [lexemesFrom] at h
      obtain ⟨before, c, after, rfl, hle, hc, hl, hbefore, hafter⟩ := ih h
      refine ⟨d :: before, c, after, rfl, Nat.succ_le_succ hle, hc, ?_, hbefore, fun after' ↦ ?_⟩
      · rw [hl, add_utf8Size_add]
      · rw [List.cons_append, lexemesFrom, hafter, add_utf8Size_add]

end TruthTable
