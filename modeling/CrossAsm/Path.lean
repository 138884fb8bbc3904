/-!
File paths: components separated by slashes, and what the last of them says.
-/

namespace CrossAsm.Path

/-- Cuts a text at every character that satisfies `p`. -/
def splitAt (p : Char → Bool) : List Char → List (List Char)
  | [] => [[]]
  | c :: rest =>
    match splitAt p rest with
    | [] => [[c]]
    | first :: more => if p c then [] :: first :: more else (c :: first) :: more

def parts (path : String) : List String := (splitAt (· = '/') path.toList).map String.ofList

/-- The parts that lead somewhere: neither empty nor a dot. -/
def steps (path : String) : List String := (parts path).filter fun s => s ≠ "" && s ≠ "."

def isAbsolute (path : String) : Bool := path.toList.head? = some '/'

/-- A path as seen from a directory, which does not matter to an absolute one. -/
def join (directory path : String) : String :=
  if isAbsolute path then path else directory ++ "/" ++ path

/-- The last component, unless it leads up. -/
def fileName? (path : String) : Option String :=
  match (steps path).getLast? with
  | some ".." => none
  | last => last

/-- A file name cut at its last dot, unless that is its first character. -/
def splitName (name : String) : String × Option String :=
  let (tail, head) := name.toList.reverse.span (· ≠ '.')
  match head with
  | '.' :: c :: stem =>
    (String.ofList (c :: stem).reverse, some (String.ofList tail.reverse))
  | _ => (name, none)

def stem? (path : String) : Option String := (fileName? path).map fun name => (splitName name).1

def extension? (path : String) : Option String :=
  (fileName? path).bind fun name => (splitName name).2

/-- Whether the path stands for standard output. -/
def isStandard (path : String) : Bool :=
  !isAbsolute path && (parts path).head? = some "-" && steps path = ["-"]

end CrossAsm.Path
