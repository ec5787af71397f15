import TruthTable.Proofs.Expr.RoundTrip

/-!
# What a source has besides its tree

Many sources have one tree. They differ in blanks, in the words of their connectives and in groups,
and in nothing else: what is left of a source without these, its *skeleton*, is the tree read from
left to right (`Derives.skeleton_eq`). So reading loses no token, adds none and moves none.

Groups can be many but not too few. The grammar does not admit every expression at every place: an
operand is no join, and a base is neither a join nor a negation, unless it stands in a group
(`Phrase.enclosing`). The groups that are forced in this way are counted by `Expr.groups`. Every
source of the tree has that many (`Derives.groups_le`), by induction on the derivation, and the
infix form has no others (`Expr.count_tokensAt`), by induction on the tree.
-/

namespace TruthTable

/-! ### Skeletons -/

/-- A text without its blanks and parentheses, in which each word of a connective is replaced by the
sign of logic. -/
def Text.skeleton : List Char → List Char
  | [] => []
  | '&' :: '&' :: cs => '&' :: skeleton cs
  | '|' :: '|' :: cs => '|' :: skeleton cs
  | c :: cs =>
    if c.isWhitespace || c = '(' || c = ')' then skeleton cs
    else if c = '.' || c = '*' then '&' :: skeleton cs
    else if c = '+' then '|' :: skeleton cs
    else c :: skeleton cs

/-- What a token leaves in a skeleton. -/
def Token.skeleton : Token → List Char
  | .not => ['!']
  | .opening | .closing => []
  | .literal b => [Text.bit b]
  | .connective c => (Spelling.logical.sign c).toList
  | .name x => x.text.toList
  | .stray c => [c]

/-- An expression read from left to right, without groups. -/
def Expr.skeleton : Expr → List Char
  | literal b => [Text.bit b]
  | var x => x.text.toList
  | not e => '!' :: e.skeleton
  | join c a b => a.skeleton ++ (Spelling.logical.sign c).toList ++ b.skeleton

theorem Text.skeleton_cons_of_isWhitespace {c : Char} (h : c.isWhitespace = true) (cs : List Char) :
    Text.skeleton (c :: cs) = Text.skeleton cs := by
  obtain rfl | rfl | rfl | rfl : c = ' ' ∨ c = '\t' ∨ c = '\r' ∨ c = '\n' := by
    simpa using isWhitespace_iff.1 h
  all_goals rfl

/-- The characters of names stay. -/
theorem Text.skeleton_cons_of_isContinue {c : Char} (h : Name.isContinue c = true)
    (cs : List Char) :
    Text.skeleton (c :: cs) = c :: Text.skeleton cs := by
  have hsign : ∀ d ∈ "!()&|.*+,".toList, c ≠ d := by
    rintro d hd rfl
    rw [Name.isContinue_of_mem_signs hd] at h
    cases h
  have hblank : c.isWhitespace = false := by
    rw [← Bool.not_eq_true]
    intro hblank
    rw [Name.isContinue_of_isBlank (Text.isBlank_of_isWhitespace hblank)] at h
    cases h
  simp only [String.reduceToList, List.forall_mem_cons] at hsign
  rw [Text.skeleton] <;> simp_all

theorem Text.skeleton_append_of_isContinue {word : List Char}
    (h : ∀ c ∈ word, Name.isContinue c = true) (cs : List Char) :
    Text.skeleton (word ++ cs) = word ++ Text.skeleton cs := by
  induction word with
  | nil => rfl
  | cons c word ih =>
    obtain ⟨hc, hword⟩ := List.forall_mem_cons.1 h
    rw [List.cons_append, Text.skeleton_cons_of_isContinue hc, ih hword, List.cons_append]

/-- A single sign stands where no second one follows it. -/
theorem Text.skeleton_cons_of_isLongest {c : Connective} {d : Char} {cs : List Char}
    (hdouble : [d, d] ∈ c.words) (hlongest : IsLongest [d] cs) :
    Text.skeleton (d :: cs) = (Spelling.logical.sign c).toList ++ Text.skeleton cs := by
  have hne : ∀ ds, cs ≠ d :: ds := by
    rintro ds rfl
    have hle := hlongest _ _ (.connective hdouble) (List.prefix_append [d, d] ds)
    simp at hle
  cases c with
  | and =>
    obtain rfl : d = '&' := by simpa [Connective.words] using hdouble
    rw [Text.skeleton]
    · rfl
    · exact fun ds _ ↦ hne ds
    · rintro ds ⟨⟩
  | or =>
    obtain rfl : d = '|' := by simpa [Connective.words] using hdouble
    rw [Text.skeleton]
    · rfl
    · rintro ds ⟨⟩
    · exact fun ds _ ↦ hne ds

/-- A token that is cut off leaves its part of the skeleton. -/
theorem Token.Written.skeleton_append {t : Token} {word cs : List Char} (h : t.Written word)
    (hlongest : IsLongest word cs) :
    Text.skeleton (word ++ cs) = t.skeleton ++ Text.skeleton cs := by
  cases h with
  | not | opening | closing => rfl
  | literal b => cases b <;> rfl
  | @connective c _ hword =>
    cases c <;> simp only [Connective.words, List.mem_cons, List.not_mem_nil, or_false] at hword
    · obtain rfl | rfl | rfl | rfl := hword
      · rfl
      · exact Text.skeleton_cons_of_isLongest (by decide) hlongest
      · rfl
      · rfl
    · obtain rfl | rfl | rfl := hword
      · rfl
      · exact Text.skeleton_cons_of_isLongest (by decide) hlongest
      · rfl
  | name x => exact Text.skeleton_append_of_isContinue (fun c hc ↦ Name.isContinue_of_mem hc) cs

/-- The skeleton of a text is that of its tokens. -/
theorem Cut.skeleton_eq {cs : List Char} {ts : List Token} (h : Cut cs ts) :
    Text.skeleton cs = ts.flatMap Token.skeleton := by
  induction h with
  | nil => rfl
  | blank hc _ ih => rw [Text.skeleton_cons_of_isWhitespace (isWhitespace_iff.2 hc), ih]
  | token written longest _ ih => rw [written.skeleton_append longest, ih, List.flatMap_cons]

/-- The skeleton of a derivation is that of its tree. -/
theorem Derives.skeleton_eq {k : Phrase} {ts : List Token} {e : Expr} (h : Derives k ts e) :
    ts.flatMap Token.skeleton = e.skeleton := by
  induction h with
  | literal b => exact List.append_nil _
  | var x => exact List.append_nil _
  | group _ ih => simpa [Token.skeleton] using ih
  | plain _ ih => exact ih
  | negated _ ih => rw [List.flatMap_cons, ih]; rfl
  | single _ ih => exact ih
  | chain c _ _ ihleft ihright =>
    rw [List.flatMap_append, List.flatMap_cons, ihleft, ihright, Expr.skeleton, List.append_assoc]
    rfl

/-- The characters that are left out of the infix form. -/
def Text.layout : List Char :=
  [' ', '(', ')']

/-- They do not stand in names. -/
theorem Text.isContinue_of_mem_layout {c : Char} (h : c ∈ Text.layout) :
    Name.isContinue c = false := by
  rw [Text.layout, List.mem_cons] at h
  rcases h with rfl | h
  · exact Name.isContinue_of_isBlank (isBlank_of_isWhitespace rfl)
  · have hsigns : ['(', ')'] ⊆ "!()&|.*+,".toList := by decide
    exact Name.isContinue_of_mem_signs (hsigns h)

theorem filter_enclosedIf (grouped : Bool) (cs : List Char) :
    (enclosedIf grouped cs).filter (· ∉ Text.layout) = cs.filter (· ∉ Text.layout) := by
  rcases grouped with - | -
  · rfl
  · simp [enclosedIf, Text.layout]

/-- Only blanks and parentheses have to be left out of the infix form to have the skeleton. -/
theorem Expr.filter_writeAt (place : Place) (e : Expr) :
    (e.writeAt .logical place).filter (· ∉ Text.layout) = e.skeleton := by
  induction e generalizing place with
  | literal b => cases b <;> simp [skeleton, Text.bit, Text.layout]
  | var x =>
    rw [writeAt_var, skeleton, List.filter_eq_self]
    intro c hc
    refine decide_eq_true fun hmem ↦ ?_
    exact Name.notMem_of_isContinue (Text.isContinue_of_mem_layout hmem) hc
  | not e ih =>
    rw [writeAt_not, List.filter_append, filter_enclosedIf, ih]
    rfl
  | join c a b iha ihb =>
    rw [writeAt_join, filter_enclosedIf, List.filter_append, iha,
      List.filter_cons_of_neg (by decide), List.filter_append, List.filter_cons_of_neg (by decide),
      ihb, skeleton, List.append_assoc]
    cases c <;> rfl

/-! ### Groups -/

/-- A join of two expressions. -/
def Expr.isJoin : Expr → Bool
  | join .. => true
  | literal _ | var _ | not _ => false

/-- The number of groups round an expression without which it is no phrase of the given kind. -/
def Phrase.enclosing : Phrase → Expr → Nat
  | .term, _ => 0
  | .operand, e => if e.isJoin then 1 else 0
  | .base, e => if e.isLeaf then 0 else 1

/-- The number of groups inside an expression that the grammar forces. -/
def Expr.groups : Expr → Nat
  | literal _ | var _ => 0
  | not e => e.groups + Phrase.base.enclosing e
  | join _ a b => a.groups + Phrase.operand.enclosing a + b.groups

/-- Every derivation has the groups that are forced. -/
theorem Derives.groups_le {k : Phrase} {ts : List Token} {e : Expr} (h : Derives k ts e) :
    e.groups + k.enclosing e ≤ ts.count .opening := by
  induction h with
  | literal b => exact Nat.zero_le _
  | var x => exact Nat.zero_le _
  | @group ts e _ ih =>
    have hcount : (Token.opening :: (ts ++ [.closing])).count .opening = ts.count .opening + 1 := by
      simp
    have hle : Phrase.base.enclosing e ≤ 1 := by
      rw [Phrase.enclosing]
      split <;> omega
    rw [Phrase.enclosing] at ih
    omega
  | @plain ts e _ ih =>
    have hle : Phrase.operand.enclosing e ≤ Phrase.base.enclosing e := by
      cases e <;> simp [Phrase.enclosing, Expr.isJoin, Expr.isLeaf]
    omega
  | negated _ ih => simpa [Expr.groups, Phrase.enclosing, Expr.isJoin] using ih
  | single _ ih => exact (Nat.le_add_right _ _).trans ih
  | chain c _ _ ihleft ihright =>
    rw [List.count_append, List.count_cons_of_ne (by simp)]
    show _ + _ + _ + 0 ≤ _
    omega

theorem count_groupIf (grouped : Bool) (ts : List Token) :
    (groupIf grouped ts).count .opening = ts.count .opening + if grouped then 1 else 0 := by
  cases grouped <;> simp [groupIf]

/-- The infix form has the groups that are forced, and a group round a join on the left. -/
theorem Expr.count_tokensAt (place : Place) (e : Expr) :
    (e.tokensAt place).count .opening =
      e.groups + if place = .left then Phrase.operand.enclosing e else 0 := by
  induction e generalizing place with
  | literal b => simp [groups, Phrase.enclosing, isJoin]
  | var x => simp [groups, Phrase.enclosing, isJoin]
  | not e ih =>
    rw [tokensAt_not, List.count_cons_of_ne (by simp), count_groupIf, ih]
    cases hleaf : e.isLeaf <;> simp [groups, Phrase.enclosing, isJoin, hleaf]
  | join c a b iha ihb =>
    rw [tokensAt_join, count_groupIf, List.count_append, List.count_cons_of_ne (by simp), iha, ihb]
    by_cases hplace : place = .left <;> simp [groups, Phrase.enclosing, isJoin, hplace]

/-- Only the opening parenthesis is written with one. -/
theorem Token.Written.count_opening {t : Token} {word : List Char} (h : t.Written word) :
    word.count '(' = [t].count .opening := by
  cases h with
  | not | opening | closing => rfl
  | literal b => cases b <;> rfl
  | @connective c _ hword =>
    have hall : c.words.all (fun w ↦ w.count '(' == 0) = true := by cases c <;> decide
    simpa using List.all_eq_true.1 hall word hword
  | name x =>
    have hnot : '(' ∉ x.text.toList :=
      Name.notMem_of_isContinue (Name.isContinue_of_mem_signs (by decide))
    simp [List.count_eq_zero.2 hnot]

/-- The opening parentheses of a text are tokens. -/
theorem Cut.count_opening {cs : List Char} {ts : List Token} (h : Cut cs ts) :
    cs.count '(' = ts.count .opening := by
  induction h with
  | nil => rfl
  | blank hc _ ih =>
    rw [List.count_cons_of_ne (by rintro rfl; simp at hc), ih]
  | token written _ _ ih =>
    rw [List.count_append, written.count_opening, ih, ← List.count_append]
    rfl

namespace Expr

variable {source : String} {e : Expr}

/-- A source and the infix form of its tree are the same up to layout, groups and the words of
connectives; and among all sources of the tree, of which it is one, the infix form has the fewest
groups. -/
theorem skeleton_eq_and_groups_le (h : parse source = .ok e) :
    Text.skeleton source.toList = e.text.toList.filter (· ∉ Text.layout) ∧
      e.text.toList.count '(' ≤ source.toList.count '(' ∧ parse e.text = .ok e := by
  obtain ⟨ts, hcut, hderives⟩ := parse_eq_ok_iff.1 h
  have htext : e.text.toList = e.writeAt .logical .root := toList_textWith .logical e
  have hgroups : e.text.toList.count '(' = e.groups := by
    rw [htext, (cut_writeAt Spelling.readable_logical .root e).count_opening, count_tokensAt]
    rfl
  refine ⟨?_, ?_, parse_textWith Spelling.readable_logical e⟩
  · rw [hcut.skeleton_eq, hderives.skeleton_eq, htext, filter_writeAt]
  · rw [hgroups, hcut.count_opening]
    exact hderives.groups_le

/-- Of five groups, the infix form keeps the one round the join on the left and the one between the
signs of negation. -/
theorem skeleton_eq_and_groups_le_nested :
    let source := "((a) && !(!(b)))\t+ (c)"
    let e : Expr := .join .or
      (.join .and (.var ⟨"a", by decide +kernel⟩) (.not (.not (.var ⟨"b", by decide +kernel⟩))))
      (.var ⟨"c", by decide +kernel⟩)
    parse source = .ok e ∧ e.text = "(a & !(!b)) | c" ∧
      Text.skeleton source.toList = e.text.toList.filter (· ∉ Text.layout) ∧
        e.text.toList.count '(' ≤ source.toList.count '(' ∧ parse e.text = .ok e := by
  intro source e
  have h : parse source = .ok e := by decide +kernel
  exact ⟨h, by decide +kernel, skeleton_eq_and_groups_le h⟩

end Expr

end TruthTable
