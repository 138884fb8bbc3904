import CrossAsm.Memory

/-!
A loader in BASIC: a short program that reads numbers and pokes them, and the numbers. These are
the count of blocks, and for each block its address, its size and its bytes.
-/

namespace CrossAsm.Loader

def program : List String :=
  ["100 read nb", "110 for bi = 1 to nb", "120 read addr", "130 read nby",
    "140 for byi = 1 to nby", "150 read byvl", "160 poke addr+byi-1, byvl", "170 next byi",
    "180 next bi", "190 end"]

def firstDataLine : Nat := 200

def lineStep : Nat := 10

def bytesPerLine : Nat := 4

/-- A listing in the making. -/
structure Draft where
  text : String
  /-- The number of the next line. It is not bounded here; the first 429496720 lines of a listing
  have numbers of 32 bits. -/
  number : Nat

namespace Draft

def put (d : Draft) (text : String) : Draft := { d with text := d.text ++ text }

/-- Puts the number of a new line. -/
def newLine (d : Draft) : Draft :=
  ⟨d.text ++ (Numeral.decimal d.number ++ " "), d.number + lineStep⟩

/-- Puts one of `count` bytes, and a comma unless it is the last one of them or of its line. -/
def putByte (count : Nat) (d : Draft) (i : Nat) (byte : UInt8) : Draft :=
  let d := d.put (Numeral.decimalRight 3 byte.toNat)
  if i % bytesPerLine ≠ bytesPerLine - 1 ∧ i + 1 < count then d.put "," else d

/-- Puts the bytes from index `i` on, and starts a line with every fourth byte. -/
def putBytes (count : Nat) : Draft → Nat → List UInt8 → Draft
  | d, _, [] => d
  | d, i, byte :: rest =>
    let d := if i % bytesPerLine = 0 then (d.put "\n").newLine.put "data " else d
    putBytes count (d.putByte count i byte) (i + 1) rest

def putBlock (d : Draft) (b : Block) : Draft :=
  let d := d.newLine.put "rem block start number bytes\n"
  let d := d.newLine.put
    ("data " ++ Numeral.decimal b.start.toNat ++ ", " ++ Numeral.decimal b.size)
  (putBytes b.size d 0 b.bytes.toList).put "\n"

end Draft

def text (blocks : List Block) : String :=
  let d : Draft := ⟨String.join (program.map (· ++ "\n")), firstDataLine⟩
  let d := d.newLine.put "rem number of mem blocks\n"
  let d := d.newLine.put ("data " ++ Numeral.decimal blocks.length ++ "\n")
  (blocks.foldl Draft.putBlock d).text

end CrossAsm.Loader
