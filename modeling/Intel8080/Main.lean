import Intel8080.CommandLine.Outcome

/-! The program: runs a CP/M program file named on the command line. -/

namespace Intel8080.CommandLine

/-- The cause behind an error of the operating system. -/
def FileError.ofSystem : IO.Error → FileError
  | .noFileOrDirectory .. => .notFound
  | .inappropriateType _ 21 _ => .isDirectory
  | .inappropriateType .. => .notDirectory
  | .permissionDenied .. => .permissionDenied
  | .invalidArgument .. => .nameTooLong
  | error => .other (toString error)

/-- Reads a whole file. -/
def readProgram (path : String) : IO (Except FileError (List UInt8)) := do
  if path.toList.contains '\x00' then return .error .invalidName
  try return .ok (← IO.FS.readBinFile path).toList
  catch error => return .error (.ofSystem error)

end Intel8080.CommandLine

/--
Prints what the invocation leaves behind and exits with its code.

No logger is installed here, so the messages of a run are not written.
-/
def main (words : List String) : IO UInt32 := do
  let outcome ← Intel8080.CommandLine.invoke Intel8080.CommandLine.readProgram words
  IO.print outcome.stdout
  IO.eprint outcome.stderr
  return outcome.exitCode
