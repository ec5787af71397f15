import TruthTable.Expr.Spelling
import TruthTable.Text.Bits

/-!
# Messages

Work that takes several steps says what it does: what was read, what was refused, which rows were
computed. A `Message` is one such event. It holds what happened and not how it is put: the level and
the wording are functions of it.
-/

namespace TruthTable

/-- How much a message matters. -/
inductive Level where
  /-- Of interest when looking for a mistake. -/
  | debug
  /-- The course of events. -/
  | info
  /-- A refusal. -/
  | warn
  deriving DecidableEq, Repr

/-- The word for a level. -/
def Level.text : Level → String
  | .debug => "DEBUG"
  | .info => "INFO"
  | .warn => "WARN"

/-- Something that happened. -/
inductive Message where
  /-- A source was read as an expression. -/
  | parsed (source : String) (e : Expr)
  /-- A batch was refused because of a number of sources that can not be read. -/
  | unreadable (count : Nat)
  /-- All checks of a table are passed and its rows come next. -/
  | enumerating (rows inputs outputs : Nat)
  /-- A row was computed. -/
  | row (inputs outputs : List Bool)
  /-- A request was refused. -/
  | rejected (fault : Fault)
  deriving DecidableEq

namespace Message

/-- The level of a message. -/
def level : Message → Level
  | .parsed .. | .row .. => .debug
  | .enumerating .. => .info
  | .unreadable _ | .rejected _ => .warn

/-- The wording of a message. -/
def wording : Message → String
  | .parsed source e => "parsed '" ++ source ++ "' as " ++ e.text
  | .unreadable count => toString count ++ " invalid output expression(s)"
  | .enumerating rows inputs outputs =>
    "Enumerating " ++ toString rows ++ " rows for " ++ toString inputs ++ " input(s) and " ++
      toString outputs ++ " output(s)"
  | .row inputs outputs =>
    "row " ++ Text.bits inputs ++ ": [" ++
      String.intercalate ", " (outputs.map fun b ↦ if b then "true" else "false") ++ "]"
  | .rejected fault => "Rejected truth table request: " ++ fault.message

/-- The line of a message in a log. -/
def text (m : Message) : String :=
  m.level.text ++ " " ++ m.wording

end Message

end TruthTable
