import TruthTable.CommandLine

/-!
# The program

Writes what the run of the command line has computed and exits with its status.
-/

open TruthTable in
/-- Runs the command line. -/
def main (args : List String) : IO UInt32 := do
  let outcome := CommandLine.run args
  (← IO.getStdout).putStr outcome.stdout
  (← IO.getStderr).putStr outcome.stderr
  return outcome.exitCode
