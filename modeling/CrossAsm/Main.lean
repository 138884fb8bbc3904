import CrossAsm.CommandLine.Run

/-!
The command line program.
-/

namespace CrossAsm.CommandLine

def failureOf (e : IO.Error) : FileFailure :=
  match e with
  | .noFileOrDirectory .. => .notFound
  | .inappropriateType _ 20 _ => .notDirectory
  | .inappropriateType .. => .isDirectory
  | .invalidArgument _ 36 _ => .nameTooLong
  | other => .other (toString other)

/-- Files and streams of the machine. -/
def machine (color : Bool) : Host IO where
  read path := do
    try
      return .ok (← IO.FS.readBinFile path).data.toList
    catch e => return .error (failureOf e)
  write path bytes := do
    try
      IO.FS.writeBinFile path ⟨bytes.toArray⟩
      return .ok ()
    catch e => return .error (failureOf e)
  out text := IO.print text
  err text := IO.eprint text
  color := color

end CrossAsm.CommandLine

open CrossAsm.CommandLine in
def main (arguments : List String) : IO UInt32 := do
  match parse arguments with
  | .ok request => run (machine (← (← IO.getStderr).isTty)) request
  | .error e =>
    IO.eprintln e.message
    return badUsage
