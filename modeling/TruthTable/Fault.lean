/-!
# What can go wrong

Two kinds of failure are told apart. A `ParseError` says that one source text is no expression: it
carries the text, the place where reading stopped and what could have stood there. A `Fault` says
why a whole piece of work is refused; unreadable sources are one of its causes, and then all of them
are listed together.

Both are causes and not texts. The wording is given once, by `ParseError.message` and
`Fault.message`, and nothing in the library looks inside a message. What could have stood at a place
is worded form by form: there is one word for each form, and some forms share theirs.
-/

namespace TruthTable

/-- What could have stood at the place where reading a source stopped. -/
inductive Expectation where
  /-- An expression: at the start, after a connective, after an opening parenthesis. -/
  | expression
  /-- The operand of a negation, directly after its sign. -/
  | operand
  /-- A connective, after a complete operand inside a group. -/
  | connective
  /-- A connective or the end of the source, after a complete operand outside all groups. -/
  | ending
  deriving DecidableEq, Repr

/-- The forms that are named when they are missing, in the order in which they are named. -/
inductive Form where
  /-- The end of the source. -/
  | ending
  /-- A whole expression, however it is formed. -/
  | term
  /-- An operand with the sign of negation. -/
  | negation
  /-- An expression in parentheses. -/
  | group
  /-- A sign for *and*. -/
  | and
  /-- A sign for *or*. -/
  | or
  /-- The literal for false. -/
  | falsity
  /-- The literal for true. -/
  | truth
  /-- A variable. -/
  | var
  deriving DecidableEq, Repr

/-- The word for a form. -/
def Form.word : Form → String
  | .and | .or => "operator"
  | .falsity | .truth => "literal"
  | .var => "variable"
  | .group => "group"
  | .negation => "complement"
  | .ending => "end of input"
  | .term => "expression"

/-- The wording for the forms that could have stood at a place: each of their words once, in order.
Every expectation has a form, so that a place is never just unexpected. -/
def Form.alternatives (forms : List Form) : String :=
  if forms.isEmpty then "unexpected input"
  else "expected " ++ String.intercalate " or " (forms.map word).eraseDups

/-- The forms that are expected. A whole expression stands for all the forms that it may begin with.
A closing parenthesis is possible too where a connective is expected inside a group, but it is no
form and is not named. -/
def Expectation.forms : Expectation → List Form
  | .expression => [.term]
  | .operand => [.group, .falsity, .truth, .var]
  | .connective => [.and, .or]
  | .ending => [.ending, .and, .or]

/-- The wording of an expectation. -/
def Expectation.wording (expected : Expectation) : String :=
  Form.alternatives expected.forms

/-- The wording tells what is expected, although two forms may have one word. -/
theorem Expectation.wording_inj {a b : Expectation} : a.wording = b.wording ↔ a = b := by
  cases a <;> cases b <;> decide +kernel

example : Expectation.operand.wording = "expected group or literal or variable" := by
  decide +kernel

/-- A text that is the wording of one expectation is the wording of no other. -/
theorem Expectation.wording_eq_iff {a b : Expectation} {text : String} (h : b.wording = text) :
    a.wording = text ↔ a = b := by
  rw [← h, wording_inj]

/-- The reason why a source text is not an expression. -/
structure ParseError where
  /-- The text as it was given. -/
  source : String
  /-- The number of bytes, in the UTF-8 form of the source, before the place of the failure. -/
  position : Nat
  /-- What could have stood there. -/
  expected : Expectation
  deriving DecidableEq, Repr

/-- The source in quotes, the place and the expectation. -/
def ParseError.message (e : ParseError) : String :=
  "'" ++ e.source ++ "' at offset " ++ toString e.position ++ ": " ++ e.expected.wording

/-- The reason why a piece of work is refused. -/
inductive Fault where
  /-- Some output expressions can not be read. -/
  | unreadable (errors : List ParseError)
  /-- A table has no input. -/
  | noInputs
  /-- A table has more inputs than its limit. -/
  | tooManyInputs (count limit : Nat)
  /-- A rule uses a name that is not declared; `rule` is the text that stands for the rule. -/
  | undeclared (name rule : String)
  /-- A value was meant for a name that is not declared. -/
  | noSuchInput (name : String)
  /-- A text is not the name of a variable. -/
  | invalidName (name : String)
  /-- A name is declared for the second time. -/
  | repeatedName (name : String)
  /-- A text is not the label of a style. -/
  | unknownStyle (label : String)
  deriving DecidableEq, Repr

/-- The wording of a fault. -/
def Fault.message : Fault → String
  | .unreadable errors =>
    "Syntax error in outputs: " ++ String.intercalate "; " (errors.map ParseError.message)
  | .noInputs => "Must have at least one input"
  | .tooManyInputs count limit =>
    "Too many inputs: " ++ toString count ++ " declared, at most " ++ toString limit ++ " supported"
  | .undeclared name rule =>
    "The variable '" ++ name ++ "' used in '" ++ rule ++ "' is not a declared input"
  | .noSuchInput name => "There is no input named '" ++ name ++ "'"
  | .invalidName name => "The name '" ++ name ++ "' is invalid"
  | .repeatedName name => "The name '" ++ name ++ "' conflicts with an other input"
  | .unknownStyle label => "Unknown value style '" ++ label ++ "'"

end TruthTable
