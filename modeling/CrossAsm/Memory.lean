import CrossAsm.Chunks
import CrossAsm.Log
import CrossAsm.Sort
import Std.Data.TreeMap

/-!
The address space: the bytes written while assembling, the lines that wrote them, and the
contiguous blocks that the lines make up.
-/

namespace CrossAsm

/-- What an address reads as that nothing was written to. -/
def unmappedByte : UInt8 := 0xFF

/-- The highest address there is. -/
def maxAddress : UInt32 := 0xFFFF

/-- Bytes by address. A later byte replaces an earlier one. -/
structure Payload where
  bytes : Std.TreeMap UInt32 UInt8

namespace Payload

def empty : Payload := ⟨∅⟩

def get? (p : Payload) (address : UInt32) : Option UInt8 := p.bytes[address]?

def insert (p : Payload) (address : UInt32) (byte : UInt8) : Payload :=
  ⟨p.bytes.insert address byte⟩

def size (p : Payload) : Nat := p.bytes.size

/-- Stores bytes at consecutive addresses. -/
def fill (p : Payload) : UInt32 → List UInt8 → Payload
  | _, [] => p
  | address, byte :: rest => (p.insert address byte).fill (address + 1) rest

end Payload

/-- The record of a line that was assembled. -/
structure CodeLine where
  /-- The address of the first byte, or the program counter if there is none. -/
  start : UInt32
  length : UInt32
  label : Option String
  text : String
  line : Nat
deriving DecidableEq

namespace CodeLine

def stop (l : CodeLine) : UInt32 := l.start + l.length

def addresses (l : CodeLine) : List UInt32 :=
  (List.range l.length.toNat).map fun i => l.start + UInt32.ofNat i

end CodeLine

/-- A contiguous run of bytes. -/
structure Block where
  start : UInt32
  bytes : Array UInt8
deriving DecidableEq

namespace Block

def size (b : Block) : Nat := b.bytes.size

def stop (b : Block) : UInt32 := b.start + UInt32.ofNat b.size

def contains (b : Block) (address : UInt32) : Bool := b.start ≤ address && address < b.stop

end Block

namespace Memory

/-- Blocks in the making. -/
structure Draft where
  /-- The blocks that are complete. -/
  blocks : Array Block
  /-- The bytes of the block in progress. -/
  current : Array UInt8
  /-- Where the block in progress starts. -/
  start : UInt32
  /-- The line that was added last. -/
  previous : Option CodeLine

namespace Draft

def empty : Draft := ⟨#[], #[], 0, none⟩

/-- Completes the block in progress, unless it has no bytes. -/
def close (d : Draft) : Array Block :=
  if d.current.isEmpty then d.blocks else d.blocks.push ⟨d.start, d.current⟩

/-- A line goes on with the block in progress if it starts where the one before it stops. If not, it
opens a block. -/
def add (payload : Payload) (d : Draft) (l : CodeLine) : Draft :=
  let d := if d.previous.any (·.stop = l.start) then d
    else { d with blocks := d.close, current := #[], start := l.start }
  { d with
    current := d.current ++ l.addresses.map fun a => (payload.get? a).getD unmappedByte
    previous := some l }

end Draft

/-- The blocks that lines make up, in the order of their addresses. -/
def build (lines : List CodeLine) (payload : Payload) : List Block :=
  stableSort (fun a b => a.start ≤ b.start) (lines.foldl (Draft.add payload) .empty).close.toList

/-- The byte at an address, from the first block that has one. -/
def byteAt (blocks : List Block) (address : UInt32) : UInt8 :=
  match blocks.find? (·.contains address) with
  | some b => b.bytes.getD (address - b.start).toNat unmappedByte
  | none => unmappedByte

/-- The bytes of blocks, with the gaps between them filled. A block that starts before the one
ahead of it stops is put right behind that. -/
def body : List Block → List UInt8
  | [] => []
  | [b] => b.bytes.toList
  | b :: next :: rest =>
    let gap := if b.stop ≤ next.start then (next.start - b.stop).toNat else 0
    b.bytes.toList ++ List.replicate gap unmappedByte ++ body (next :: rest)

/-- The program file of blocks: the low word of the first address with its low byte first, the
body, and a zero. Without blocks only the zero is left. -/
def image (blocks : List Block) : List UInt8 :=
  match blocks with
  | [] => [0]
  | first :: _ => wordBytes first.start ++ body blocks ++ [0]

/-- What is logged when the image is made. -/
def imageEvents : List Block → List Event
  | [] => []
  | [_] => []
  | b :: next :: rest =>
    let events := imageEvents (next :: rest)
    if b.stop ≤ next.start then events else .blocksOverlap b.start next.start :: events

end Memory

end CrossAsm
