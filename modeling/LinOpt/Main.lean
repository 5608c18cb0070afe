import LinOpt.Arguments

/-!
# The command line program
-/

namespace LinOpt

def usage : String :=
  "Usage: linopt <solve|parse|check|normalize> <file> [--format pretty|json] [--all]\n"
    ++ "         [--pricing dantzig|bland] [--max-iterations <count>] [--tolerance <number>]\n"

/-- Reads a file, and says why if it cannot be read. -/
def readContents (path : String) : IO (Except Lp.ReadFailure ByteArray) := do
  try
    return .ok (← IO.FS.readBinFile path)
  catch
    | .noFileOrDirectory _ _ _ => return .error .notFound
    | error => return .error (.other (toString error))

/-- Runs the command that a command line names, and returns its exit code. -/
def runArguments (arguments : List String) : IO UInt32 := do
  match Invocation.ofArguments? arguments with
  | none =>
    (← IO.getStderr).putStr usage
    return 2
  | some invocation =>
    let report := invocation.command.run invocation.path (← readContents invocation.path)
    (← IO.getStdout).putStr report.output
    (← IO.getStderr).putStr report.errors
    return report.exitCode

end LinOpt

def main (arguments : List String) : IO UInt32 :=
  LinOpt.runArguments arguments
