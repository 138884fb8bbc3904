/-!
Places in a source text: spans of bytes, and locations by line and column.
-/

namespace CrossAsm

/-- A range of bytes, `stop` excluded. -/
structure Span where
  start : Nat
  stop : Nat
deriving DecidableEq, Inhabited

namespace Span

def length (s : Span) : Nat := s.stop - s.start

def isEmpty (s : Span) : Bool := s.start = s.stop

/-- The least span that covers both. -/
def merge (s t : Span) : Span := ⟨min s.start t.start, max s.stop t.stop⟩

end Span

/-- Where a construct starts, by line and column from 1 on, and the bytes it takes. -/
structure Location where
  line : Nat
  column : Nat
  span : Span
deriving DecidableEq, Inhabited

namespace Location

/-- The location stretched to cover another one. -/
def through (l m : Location) : Location := { l with span := l.span.merge m.span }

end Location

end CrossAsm
