/-!
The layout of a 1541 disk: 35 tracks, the outer ones with more sectors, 256 bytes in each.
-/

namespace CrossAsm.Disk

def trackCount : Nat := 35

def sectorSize : Nat := 256

/-- The bytes of a file that go into one sector; the other two link to the next one. -/
def payloadSize : Nat := 254

/-- The track of the allocation map and the directory. -/
def directoryTrack : Nat := 18

/-- The sectors on a track; none on a track that does not exist. -/
def sectorsOn (track : Nat) : Nat :=
  if track = 0 then 0
  else if track ≤ 17 then 21
  else if track ≤ 24 then 19
  else if track ≤ 30 then 18
  else if track ≤ 35 then 17
  else 0

/-- The sectors on all tracks before one. -/
def sectorsBefore : Nat → Nat
  | 0 => 0
  | track + 1 => sectorsBefore track + sectorsOn track

structure Position where
  track : Nat
  sector : Nat
deriving DecidableEq

namespace Position

/-- The place of a sector among all sectors. -/
def index (p : Position) : Nat := sectorsBefore p.track + p.sector

def isValid (p : Position) : Bool := p.sector < sectorsOn p.track

/-- Where a sector starts in an image, if it exists. -/
def offset? (p : Position) : Option Nat := if p.isValid then some (p.index * sectorSize) else none

end Position

def tracks : List Nat := (List.range trackCount).map (· + 1)

def fileTracks : List Nat := tracks.filter (· ≠ directoryTrack)

/-- The sectors that files may take, in the order they are handed out. -/
def fileSectors : List Position :=
  fileTracks.flatMap fun track => (List.range (sectorsOn track)).map fun s => ⟨track, s⟩

end CrossAsm.Disk
