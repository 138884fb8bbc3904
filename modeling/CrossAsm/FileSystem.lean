import CrossAsm.Path

/-!
A directory tree that is held in memory, and the failures of reading and writing files.
-/

namespace CrossAsm

inductive FileFailure where
  | notFound | notDirectory | isDirectory | nameTooLong | nulInPath | notText
  | other (text : String)

namespace FileFailure

def message : FileFailure → String
  | notFound => "No such file or directory (os error 2)"
  | notDirectory => "Not a directory (os error 20)"
  | isDirectory => "Is a directory (os error 21)"
  | nameTooLong => "File name too long (os error 36)"
  | nulInPath => "file name contained an unexpected NUL byte"
  | notText => "stream did not contain valid UTF-8"
  | other text => text

end FileFailure

/-- A file or a directory under a path of names. -/
structure FileEntry where
  path : List String
  /-- The bytes of a file; a directory has none. -/
  contents : Option (List UInt8)

/-- The entries of a working directory. -/
structure FileSystem where
  entries : List FileEntry

namespace FileSystem

def find? (fs : FileSystem) (path : List String) : Option FileEntry :=
  fs.entries.find? (·.path = path)

/-- The longest name there may be, in bytes. -/
def maxNameLength : Nat := 255

/-- The longest path there may be, in bytes. -/
def maxPathLength : Nat := 4095

/-- The directory at the top. -/
def root : List String := ["/"]

/-- The directory that a path starts from. -/
def origin (path : String) : List String := if Path.isAbsolute path then root else []

/-- The directory above another. There is none above the top. -/
def parent (directory : List String) : List String :=
  if directory = root then root
  else if directory.all (· = "..") then directory ++ [".."]
  else directory.dropLast

/-- What a path has to be before anything is looked for. -/
def checkPath (path : String) : Except FileFailure Unit :=
  if path.toList.contains '\x00' then .error .nulInPath
  else if path = "" then .error .notFound
  else if maxPathLength < path.utf8ByteSize then .error .nameTooLong
  else .ok ()

/-- What a directory has under a name. -/
def lookup (fs : FileSystem) (directory : List String) (name : String) :
    Except FileFailure (Option FileEntry) :=
  if maxNameLength < name.utf8ByteSize then .error .nameTooLong
  else .ok (fs.find? (directory ++ [name]))

/-- Follows names from a directory on; all of them have to lead to directories. -/
def follow (fs : FileSystem) : List String → List String → Except FileFailure (List String)
  | here, [] => .ok here
  | here, name :: rest =>
    if name = "" || name = "." then fs.follow here rest
    else if name = ".." then fs.follow (parent here) rest
    else
      match fs.lookup here name with
      | .error failure => .error failure
      | .ok none => .error .notFound
      | .ok (some entry) =>
        if entry.contents.isNone then fs.follow (here ++ [name]) rest else .error .notDirectory

def isDots (name : String) : Bool := name = "" || name = "." || name = ".."

def read (fs : FileSystem) (path : String) : Except FileFailure (List UInt8) := do
  checkPath path
  let parts := Path.parts path
  let name := parts.getLastD ""
  let directory ← fs.follow (origin path) parts.dropLast
  if isDots name then .error .isDirectory
  else
    match ← fs.lookup directory name with
    | none => .error .notFound
    | some entry => entry.contents.elim (.error .isDirectory) .ok

def store (fs : FileSystem) (path : List String) (contents : Option (List UInt8)) : FileSystem :=
  ⟨fs.entries.filter (·.path ≠ path) ++ [⟨path, contents⟩]⟩

/-- Writes a file. A path that ends with a slash names a directory, even if there is none. -/
def write (fs : FileSystem) (path : String) (contents : List UInt8) :
    Except FileFailure FileSystem := do
  checkPath path
  let parts := Path.parts path
  let named := (parts.reverse.dropWhile (· = "")).reverse
  let name := named.getLastD ""
  let directory ← fs.follow (origin path) named.dropLast
  if named.length < parts.length || isDots name then .error .isDirectory
  else if (← fs.lookup directory name).any (·.contents.isNone) then .error .isDirectory
  else .ok (fs.store (directory ++ [name]) (some contents))

end FileSystem

end CrossAsm
