/-!
Cutting a list into pieces of one size, of which only the last may be shorter, and a word into its
bytes.
-/

namespace CrossAsm

/-- The low and the high byte of a word, in this order. -/
def wordBytes (value : UInt32) : List UInt8 := [value.toUInt8, (value >>> 8).toUInt8]

variable {α : Type}

/-- The first `count` pieces. -/
def chunksUpTo (size : Nat) : Nat → List α → List (List α)
  | 0, _ => []
  | count + 1, l => l.take size :: chunksUpTo size count (l.drop size)

def chunks (size : Nat) (l : List α) : List (List α) :=
  chunksUpTo size ((l.length + size - 1) / size) l

end CrossAsm
