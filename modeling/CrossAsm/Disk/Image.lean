import CrossAsm.Chunks
import CrossAsm.Disk.Geometry
import CrossAsm.Log

/-!
A disk image with files on it. Track 18 holds the allocation map (sector 0) and the directory
(sector 1); a file is a chain of sectors, each starting with a link to the next.
-/

namespace CrossAsm

structure Sector where
  bytes : Vector UInt8 256
deriving DecidableEq

namespace Sector

/-- Bytes followed by zeros. -/
def ofList (bytes : List UInt8) : Sector :=
  let all := bytes.toArray
  ⟨Vector.ofFn fun i => all.getD i 0⟩

def get (s : Sector) (i : Nat) : UInt8 := s.bytes.toArray.getD i 0

def set (s : Sector) (i : Nat) (byte : UInt8) : Sector := ⟨s.bytes.setIfInBounds i byte⟩

/-- Replaces the bytes from an index on. -/
def write (s : Sector) : Nat → List UInt8 → Sector
  | _, [] => s
  | i, byte :: rest => (s.set i byte).write (i + 1) rest

def toList (s : Sector) : List UInt8 := s.bytes.toList

end Sector

structure Disk where
  sectors : Vector Sector 683
  /-- The sectors that were not yet tried for a file. -/
  untried : List Disk.Position

namespace Disk

inductive Failure where
  | directoryFull
  | diskFull
  | noSuchSector
deriving DecidableEq

def Failure.message : Failure → String
  | directoryFull => "directory full"
  | diskFull => "disk full"
  | noSuchSector => "sector outside of the disk"

/-- What an operation gives, and the disk after it: also one that fails may have changed it. -/
inductive Change (α : Type) where
  | ok (value : α) (disk : Disk)
  | fail (failure : Failure) (disk : Disk)

namespace Change

variable {α β : Type}

def disk : Change α → Disk
  | ok _ d | fail _ d => d

def isOk : Change α → Bool
  | ok .. => true
  | fail .. => false

def bind : Change α → (α → Disk → Change β) → Change β
  | ok a d, f => f a d
  | fail e d, _ => fail e d

end Change

/-- The byte that fills up names: a shifted space. -/
def padding : UInt8 := 0xA0

/-- A name cut or filled to 16 bytes, in upper case. -/
def nameBytes (name : String) : List UInt8 :=
  let bytes := name.toUpper.toUTF8.data.toList.take 16
  bytes ++ List.replicate (16 - bytes.length) padding

def allocationMap : Position := ⟨directoryTrack, 0⟩

def directory : Position := ⟨directoryTrack, 1⟩

def sector (d : Disk) (p : Position) : Sector := d.sectors[p.index]?.getD (Sector.ofList [])

def setSector (d : Disk) (p : Position) (s : Sector) : Disk :=
  { d with sectors := d.sectors.setIfInBounds p.index s }

/-- Where the map says how many sectors of a track are free. A bit for each sector follows, set if
the sector is free. -/
def mapEntry (track : Nat) : Nat := 4 * track

def mapByte (p : Position) : Nat := mapEntry p.track + 1 + p.sector / 8

def isFree (d : Disk) (p : Position) : Bool :=
  ((d.sector allocationMap).get (mapByte p)).toNat.testBit (p.sector % 8)

def markUsed (d : Disk) (p : Position) : Disk :=
  if d.isFree p then
    let map := d.sector allocationMap
    let count := map.get (mapEntry p.track) - 1
    let bits := map.get (mapByte p) &&& ~~~((1 : UInt8) <<< UInt8.ofNat (p.sector % 8))
    d.setSector allocationMap ((map.set (mapEntry p.track) count).set (mapByte p) bits)
  else d

/-- The map's entry for a track with all sectors free. -/
def freshEntry (track : Nat) : List UInt8 :=
  let bits := (1 <<< sectorsOn track) - 1
  [UInt8.ofNat (sectorsOn track), UInt8.ofNat bits, UInt8.ofNat (bits / 256),
    UInt8.ofNat (bits / 65536)]

/-- The allocation map of an empty disk, with name, identification and version. -/
def freshMap (name : String) : List UInt8 :=
  [UInt8.ofNat directoryTrack, 1, 0x41, 0] ++ tracks.flatMap freshEntry ++ nameBytes name
    ++ [padding, padding, 0x30, 0x31, padding, 0x32, 0x41, padding, padding, padding, padding]

/-- A formatted disk without files. -/
def format (name : String) : Disk :=
  let blank : Disk := ⟨Vector.replicate 683 (Sector.ofList []), fileSectors⟩
  let disk := (blank.setSector allocationMap (Sector.ofList (freshMap name))).setSector directory
    (Sector.ofList [0, 0xFF])
  (disk.markUsed allocationMap).markUsed directory

/-- The free sectors outside of the directory track. -/
def freeSectors (d : Disk) : Nat :=
  fileTracks.foldl (fun n track => n + ((d.sector allocationMap).get (mapEntry track)).toNat) 0

/-- The first free sector of some, and those behind it. -/
def nextFree? (d : Disk) : List Position → Option (Position × List Position)
  | [] => none
  | p :: rest => if d.isFree p then some (p, rest) else d.nextFree? rest

/-- Takes the next free sector. -/
def allocate? (d : Disk) : Option (Position × Disk) :=
  (d.nextFree? d.untried).map fun (p, rest) => (p, { d.markUsed p with untried := rest })

/-- Takes a number of free sectors, one after the other. -/
def allocateMany (d : Disk) : Nat → Change (List Position)
  | 0 => .ok [] d
  | count + 1 =>
    match d.allocate? with
    | none => .fail .diskFull d
    | some (p, d) => (d.allocateMany count).bind fun rest d => .ok (p :: rest) d

/-- The link of a piece: where the next one is, or track 0 and which byte is the last. -/
def link (piece : List UInt8) : Option Position → List UInt8
  | some next => [UInt8.ofNat next.track, UInt8.ofNat next.sector]
  | none => [0, UInt8.ofNat (piece.length + 1)]

/-- Writes the pieces of a file to the sectors of its chain. -/
def writeChain (d : Disk) : List (Position × List UInt8) → Change Unit
  | [] => .ok () d
  | (p, piece) :: rest =>
    if p.isValid then
      let bytes := link piece (rest.head?.map (·.1)) ++ piece
      (d.setSector p ((d.sector p).write 0 bytes)).writeChain rest
    else .fail .noSuchSector d

def entryCount : Nat := 8

def entrySize : Nat := 32

/-- The type of a closed program file. -/
def programType : UInt8 := 0x82

/-- Where in the directory the first free entry is. -/
def freeEntry? (d : Disk) : Option Nat :=
  ((List.range entryCount).map (· * entrySize)).find? fun i => (d.sector directory).get (i + 2) = 0

def writeEntry (d : Disk) (offset : Nat) (name : String) (chain : List Position) : Disk :=
  let first := chain.headD ⟨0, 0⟩
  let head := [programType, UInt8.ofNat first.track, UInt8.ofNat first.sector] ++ nameBytes name
  let size := wordBytes (UInt32.ofNat chain.length)
  d.setSector directory
    (((d.sector directory).write (offset + 2) head).write (offset + 30) size)

/-- Puts a program file on the disk, and gives the number of its sectors. -/
def add (d : Disk) (name : String) (file : List UInt8) : Change Nat :=
  match d.freeEntry? with
  | none => .fail .directoryFull d
  | some entry =>
    let pieces := chunks payloadSize file
    if pieces.length > d.freeSectors then .fail .diskFull d
    else (d.allocateMany pieces.length).bind fun chain d =>
      (d.writeChain (chain.zip pieces)).bind fun _ d =>
        .ok chain.length (d.writeEntry entry name chain)

/-- All bytes of the disk, in the order of tracks and sectors. -/
def image (d : Disk) : List UInt8 := d.sectors.toList.flatMap (·.toList)

end Disk

end CrossAsm
