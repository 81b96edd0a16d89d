import ExprSampler.Command.Program

/-!
# The command line

Runs the program once on the words it is called with: the configuration is read from this machine,
lines are printed as they are, and a failure is reported apart from them.
-/

namespace ExprSampler.Command

/-- What the name of a configuration leads to on this machine. -/
def openConfig (name : String) : IO Found := do
  if Directory.isBadPath name then return .badName
  try
    return .bytes (← IO.FS.readBinFile (if name.isEmpty then "." else name))
  catch
    | .noFileOrDirectory .. => return .missing
    | _ => return .unreadable

/-- One run of the program, and its exit code. -/
def runHere (words : List String) : IO UInt32 := do
  let stdout ← IO.getStdout
  let found ← openConfig (Config.nameAmong words)
  let (printout, _) :=
    run (fun _ ↦ found) Config.usualNesting (← stdout.isTty) words .quiet
  stdout.putStr printout.text
  match printout.result with
  | .ok () => return 0
  | .error failure =>
    IO.eprintln ("Error: " ++ failure.message)
    return failure.exitCode.toUInt32

end ExprSampler.Command

def main (words : List String) : IO UInt32 :=
  ExprSampler.Command.runHere words
