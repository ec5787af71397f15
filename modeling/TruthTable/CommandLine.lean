import TruthTable.Request

/-!
# The command line

The program takes up to three arguments: the inputs, the outputs and the label of a style. Each of
them may be left out together with those after it, and what is given beyond the third is ignored. It
writes the table to the standard output, or the reason of a refusal to the standard error.

What a run does is computed as a value, an `Outcome`, and only `main` acts on it. The log is kept
but not shown.
-/

namespace TruthTable.CommandLine

/-- What a run of the program does. -/
structure Outcome where
  /-- The status that the program exits with. -/
  exitCode : UInt32
  /-- The text written to the standard output. -/
  stdout : String
  /-- The text written to the standard error. -/
  stderr : String
  deriving DecidableEq

/-- A run that writes a table. -/
def Outcome.success (text : String) : Outcome :=
  ⟨0, text, ""⟩

/-- A run that writes the reason of a refusal. Outputs that can not be read are listed one a line. -/
def Outcome.failure : Fault → Outcome
  | .unreadable errors =>
    ⟨1, "", "Syntax error in outputs!\n" ++
      String.join (errors.map fun error ↦ "  " ++ error.message ++ "\n")⟩
  | fault => ⟨1, "", fault.message ++ "\n"⟩

/-- The inputs if none are given. -/
def defaultInputs : String := "p, q"

/-- The outputs if none are given. -/
def defaultOutputs : String := "!p+q, !(p.q), p || q & !p"

/-- The style with the label in the third argument, if there is one. -/
def styleOf (args : List String) : Except Fault Style :=
  match args[2]? with
  | some label => Style.ofLabel label
  | none => .ok default

/-- The run with the given arguments. -/
def run (args : List String) : Outcome :=
  match styleOf args with
  | .error fault => .failure fault
  | .ok style =>
    let request : Request :=
      { inputs := args.getD 0 defaultInputs, outputs := args.getD 1 defaultOutputs, style }
    match (request.render.run.run #[]).1 with
    | .ok text => .success text
    | .error fault => .failure fault

end TruthTable.CommandLine
