import CrossAsm.CommandLine.Run

/-!
The program run on a directory in memory, with both streams kept.
-/

namespace CrossAsm.CommandLine

structure Session where
  files : FileSystem
  out : String
  err : String

namespace Session

def host : Host (StateM Session) where
  read path := return (← get).files.read path
  write path bytes := do
    match (← get).files.write path bytes with
    | .ok files =>
      modify fun s => { s with files := files }
      return .ok ()
    | .error failure => return .error failure
  out text := modify fun s => { s with out := s.out ++ text }
  err text := modify fun s => { s with err := s.err ++ text }
  color := false

/-- The exit code of a request, and what it leaves. -/
def perform (files : FileSystem) (request : Request) : UInt32 × Session :=
  (run host request).run ⟨files, "", ""⟩

end Session

end CrossAsm.CommandLine
