import TruthTable.Expr.Basic

/-!
# Tokens

A source text is cut into tokens from left to right, and each cut takes as much as it can: `&&` and
`||` are taken whole where they stand, and a name goes on as long as its characters do. White space
may stand between tokens and belongs to none. A character that opens no token is a token of its own,
`stray`, which no expression contains; so every text has a cut, and whether it is an expression is
left to the grammar.

Two facts keep the cut simple. What kind of token stands at a place is settled by its first
character, and how far the token reaches by the characters right behind it. Hence `Token.read` only
tells how many further characters a token takes, and `lexemesFrom` walks over the text one character
at a time, passing over those that the last token has taken.
-/

namespace TruthTable

/-- A token of a source text. The spelling of a connective is not kept. -/
inductive Token where
  /-- The sign of negation. -/
  | not
  /-- An opening parenthesis. -/
  | opening
  /-- A closing parenthesis. -/
  | closing
  /-- The digit of a truth value. -/
  | literal (b : Bool)
  /-- Any spelling of a connective. -/
  | connective (c : Connective)
  /-- The name of a variable. -/
  | name (x : Name)
  /-- A character that opens no other token. -/
  | stray (c : Char)
  deriving DecidableEq

/-- The token that opens with the character `c`, when `cs` follows, and the number of characters of
`cs` that it takes. -/
def Token.read (c : Char) (cs : List Char) : Token × Nat :=
  match c with
  | '!' => (.not, 0)
  | '(' => (.opening, 0)
  | ')' => (.closing, 0)
  | '0' => (.literal false, 0)
  | '1' => (.literal true, 0)
  | '&' => (.connective .and, if cs.head? = some '&' then 1 else 0)
  | '|' => (.connective .or, if cs.head? = some '|' then 1 else 0)
  | '.' | '*' => (.connective .and, 0)
  | '+' => (.connective .or, 0)
  | c =>
    if h : Name.isStart c = true then
      (.name (Name.takeFrom c cs h), (cs.takeWhile Name.isContinue).length)
    else (.stray c, 0)

/-- A character that may open a name does so. -/
theorem Token.read_of_isStart {c : Char} (h : Name.isStart c = true) (cs : List Char) :
    Token.read c cs = (.name (Name.takeFrom c cs h), (cs.takeWhile Name.isContinue).length) := by
  have hne : ∀ d, Name.isStart d = false → c ≠ d := by
    rintro d hd rfl
    rw [h] at hd
    cases hd
  unfold Token.read
  split
  case h_11 => rw [dif_pos h]
  all_goals exact absurd rfl (hne _ (by decide +kernel))

/-- A token and the place where it stands. -/
structure Lexeme where
  /-- The token. -/
  token : Token
  /-- The number of bytes, in the UTF-8 form of the source, before the token. -/
  start : Nat
  deriving DecidableEq

/-- The lexemes of a text that begins at byte `start` of its source and whose first `taken`
characters belong to the token before. -/
def lexemesFrom (start taken : Nat) : List Char → List Lexeme
  | [] => []
  | c :: cs =>
    match taken with
    | k + 1 => lexemesFrom (start + c.utf8Size) k cs
    | 0 =>
      if c.isWhitespace then lexemesFrom (start + c.utf8Size) 0 cs
      else
        let (token, k) := Token.read c cs
        ⟨token, start⟩ :: lexemesFrom (start + c.utf8Size) k cs

/-- The lexemes of a source text, in order. -/
def lexemes (source : String) : List Lexeme :=
  lexemesFrom 0 0 source.toList

/-- The tokens of a source text, in order. -/
def tokens (source : String) : List Token :=
  (lexemes source).map Lexeme.token

example : tokens "a &&& b_{1}" =
    [.name ⟨"a", by decide +kernel⟩, .connective .and, .connective .and,
      .name ⟨"b_{1}", by decide +kernel⟩] := by
  decide +kernel

example : tokens "10x?" =
    [.literal true, .literal false, .name ⟨"x", by decide +kernel⟩, .stray '?'] := by
  decide +kernel

end TruthTable
