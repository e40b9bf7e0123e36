import PixelCalc.CommandLine.Execution

/-!
# The program

Reads the standard input if the command needs it, runs the command, and writes what the run leaves
behind. A request does not wait for input from a terminal.
-/

namespace PixelCalc

/-- The standard input up to its end, if the command reads it. -/
def readInput (command : Command) : IO ByteArray := do
  let stdin ← IO.getStdin
  let interactive ← stdin.isTty
  if command.readsInput && (command.isSession || !interactive) then
    stdin.readBinToEnd
  else
    return ByteArray.empty

/-- Runs a command and returns its status. -/
def perform (command : Command) : IO UInt32 := do
  let run := command.run (← readInput command)
  (← IO.getStdout).putStr run.output
  (← IO.getStderr).putStr run.errors
  return run.status.toUInt32

end PixelCalc

/-- The command-line program. -/
def main (args : List String) : IO UInt32 :=
  match PixelCalc.Command.ofArguments? args with
  | some command => PixelCalc.perform command
  | none => do
    (← IO.getStderr).putStrLn "usage: ptms eval EXPRESSION | repl | docs | doc CATEGORY"
    return 2
