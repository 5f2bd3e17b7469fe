import JavaHighlight.CommandLine

/-!
# The program

Reads the files that the arguments name and leaves all else to `CommandLine.run`.
-/

namespace JavaHighlight.CommandLine

def readFile (path : String) : IO (Except ReadFailure String) := do
  try
    return decodeFile (← IO.FS.readBinFile path)
  catch
    | .noFileOrDirectory .. => return .error .notFound
    | error => return .error (.other (toString error))

/-- Answer to the arguments by what the files hold now. -/
def answer (args : List String) : IO Outcome := do
  let paths := (parse args).toOption.elim [] Options.paths
  let texts ← paths.mapM fun path => return (path, ← readFile path)
  return run (fun path => (texts.lookup path).getD (.error .notFound)) args

end JavaHighlight.CommandLine

def main (args : List String) : IO UInt32 := do
  let outcome ← JavaHighlight.CommandLine.answer args
  (← IO.getStdout).putStr outcome.output
  (← IO.getStderr).putStr outcome.errors
  return outcome.exitCode.toUInt32
