import CrossAsm.Source.Location

/-!
Line starts of a source text, and the location of a span. Offsets and columns count the bytes of
the UTF-8 form.
-/

namespace CrossAsm

def byteLength : List Char → Nat
  | [] => 0
  | c :: rest => c.utf8Size + byteLength rest

structure LineMap where
  /-- Where each line starts, in order. -/
  starts : Array Nat
  /-- The length of the text. -/
  length : Nat
deriving DecidableEq

namespace LineMap

/-- The offsets right after the line ends of a text that stands at `offset`. -/
def startsAfter : Nat → List Char → List Nat
  | _, [] => []
  | offset, c :: rest =>
    let next := offset + c.utf8Size
    if c = '\n' then next :: startsAfter next rest else startsAfter next rest

def ofChars (text : List Char) : LineMap := ⟨(0 :: startsAfter 0 text).toArray, byteLength text⟩

def ofString (source : String) : LineMap := ofChars source.toList

/-- What a search among line starts gives: the index of the start that was looked for, or that of
the next one behind it. -/
inductive Found where
  | exact (index : Nat)
  | next (index : Nat)

/-- The index of the line that holds what was looked for. -/
def Found.line : Found → Nat
  | exact index => index
  | next index => index - 1

/-- A binary search for `offset` among the starts from index `lo` on and before `hi`. -/
def search (starts : Array Nat) (offset lo hi : Nat) : Found :=
  if lo < hi then
    let mid := (lo + hi) / 2
    match compare (starts.getD mid 0) offset with
    | .eq => .exact mid
    | .lt => search starts offset (mid + 1) hi
    | .gt => search starts offset lo mid
  else .next lo
termination_by hi - lo

/-- The location of a span's first byte; an offset past the end counts as the end. -/
def locate (m : LineMap) (span : Span) : Location :=
  let offset := min span.start m.length
  let line := (search m.starts offset 0 m.starts.size).line
  ⟨line + 1, offset - m.starts.getD line 0 + 1, span⟩

end LineMap

end CrossAsm
