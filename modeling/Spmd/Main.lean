import Spmd.CommandLine

/-!
# The command

Reads the files that the arguments name, runs the command line on them, and prints what it says.
-/

namespace Spmd.CommandLine

/-- What a failure says of a file. A folder is told from a file when it is read, and that failure names no
file. -/
def Unreadable.ofError : IO.Error → Unreadable
  | .inappropriateType (some _) _ _ => .underFile
  | .inappropriateType none _ _ => .folder
  | _ => .missing

/-- The contents of a file, or why it has none. -/
def contentsOf (file : String) : IO (String × Except Unreadable String) := do
  try return (file, .ok (← IO.FS.readFile file))
  catch e => return (file, .error (.ofError e))

end Spmd.CommandLine

open Spmd

def main (args : List String) : IO UInt32 := do
  let files := ((CommandLine.Options.ofArguments args).map CommandLine.Options.files).getD []
  let contents ← files.mapM CommandLine.contentsOf
  let output := CommandLine.run (fun file => (contents.lookup file).getD (.error .missing)) args
  (← IO.getStdout).putStr output.stdout
  (← IO.getStderr).putStr output.stderr
  return output.exitCode.toUInt32
