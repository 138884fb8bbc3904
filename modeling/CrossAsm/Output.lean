import CrossAsm.Disk.Image
import CrossAsm.Path

/-!
Output files: a program file as it is, or a disk image with the program on it.
-/

namespace CrossAsm

inductive OutputFormat where
  | prg | d64
deriving DecidableEq

namespace OutputFormat

def name : OutputFormat → String
  | prg => "Prg" | d64 => "D64"

/-- The format that a path's extension asks for, in any letter case. -/
def ofPath? (path : String) : Option OutputFormat :=
  match (Path.extension? path).map String.toLower with
  | some "prg" => some prg
  | some "d64" => some d64
  | _ => none

end OutputFormat

namespace Output

/-- The contents of an output file, and what is logged while it is made. -/
def contents (image : List UInt8) (format : OutputFormat) (name : String) :
    Except Disk.Failure (List UInt8 × List Event) :=
  match format with
  | .prg => .ok (image, [])
  | .d64 =>
    match (Disk.format name).add name image with
    | .ok sectors disk => .ok (disk.image, [.fileAdded name sectors])
    | .fail failure _ => .error failure

/-- What may be wrong with a program file. -/
inductive Failure where
  | tooShort
deriving DecidableEq

def Failure.message : Failure → String
  | tooShort => "PRG file too short"

/-- The address and the bytes of a program file, unless it is too short to have an address. -/
def split : List UInt8 → Except Failure (UInt16 × List UInt8)
  | lo :: hi :: body => .ok (lo.toUInt16 + 256 * hi.toUInt16, body)
  | _ => .error .tooShort

end Output

end CrossAsm
