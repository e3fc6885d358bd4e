import StyleCascade.CommandLine.Run

/-!
# The program

Runs the command line on the files of the system: the one file that the arguments ask for is
read first, the command is run on what was found, and what it gives is written.
-/

namespace StyleCascade

/-- What the system says about a file that it cannot read. -/
def problemOfError : IO.Error → FileProblem
  | .noFileOrDirectory _ _ _ => .notFound
  | .inappropriateType _ code reason =>
    if code == 20 then .notADirectory
    else if code == 21 then .isDirectory
    else .other code.toNat reason
  | .invalidArgument _ code reason =>
    if code == 36 then .nameTooLong else .other code.toNat reason
  | .permissionDenied _ code reason => .other code.toNat reason
  | e => .other 5 e.toString

/-- What can be asked of files, where only one was looked at. -/
def filesOf (found : Except FileProblem (List UInt8)) : Files :=
  { present := fun _ =>
      match found with
      | .error .notFound => false
      | .error .notADirectory => false
      | .error .nameTooLong => false
      | _ => true
    read := fun _ => found }

/-- Read a file. -/
def readFile (path : String) : IO (Except FileProblem (List UInt8)) := do
  try
    let bytes ← IO.FS.readBinFile path
    return .ok bytes.toList
  catch e => return .error (problemOfError e)

end StyleCascade

open StyleCascade StyleCascade.CommandLine in
/-- The program. -/
def main (arguments : List String) : IO UInt32 := do
  let found ←
    match pathOf? arguments with
    | some path => readFile path
    | none => pure (.error .notFound)
  let outcome := run (filesOf found) arguments
  IO.print (linesText outcome.output)
  IO.eprint (linesText outcome.errors)
  match outcome.ending with
  | .crash reason => IO.eprintln reason.message
  | .exit _ => pure ()
  return UInt32.ofNat outcome.exitCode
