import GrammarMachine.CommandLine.Report

/-!
# The command line

Reads the standard input if it is needed, prints what the run printed, writes the error message to
the standard error and ends with the exit code.
-/

open GrammarMachine.CommandLine in
def main (args : List String) : IO UInt32 := do
  let stdin ←
    if (Request.ofArguments args).readsInput then (← IO.getStdin).readToEnd else pure ""
  let report := run args stdin
  IO.print report.stdout
  if let some message := report.error then IO.eprintln ("Error: " ++ message)
  return report.code.toUInt32
