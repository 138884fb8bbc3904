import CrossAsm.Fault
import CrossAsm.Source.LineMap

/-!
A place between the lexemes of a source, and the steps that look ahead and move on from it.
-/

namespace CrossAsm

structure Cursor where
  lines : LineMap
  /-- How many lexemes are behind. -/
  position : Nat
  /-- The lexeme right behind. -/
  previous : Option Lexeme
  /-- The lexemes ahead. -/
  ahead : List Lexeme
deriving DecidableEq

/-- What a step of reading gives, and where it stops: also a step that fails may have moved. -/
inductive Outcome (α : Type) where
  | ok (value : α) (next : Cursor)
  | fail (fault : Diagnostic) (next : Cursor)
deriving DecidableEq

namespace Outcome

variable {α β : Type}

def bind : Outcome α → (α → Cursor → Outcome β) → Outcome β
  | ok a c, f => f a c
  | fail d c, _ => fail d c

def map (f : α → β) : Outcome α → Outcome β
  | ok a c => ok (f a) c
  | fail d c => fail d c

end Outcome

namespace Cursor

def start (lines : LineMap) (lexemes : List Lexeme) : Cursor := ⟨lines, 0, none, lexemes⟩

def atEnd (c : Cursor) : Bool := c.ahead.isEmpty

def peekAhead (c : Cursor) (n : Nat) : Option Token := c.ahead[n]?.map (·.token)

def peek (c : Cursor) : Option Token := c.peekAhead 0

def peekSpan (c : Cursor) : Option Span := c.ahead.head?.map (·.span)

/-- The span right behind; at the very start, that of the first lexeme. -/
def previousSpan (c : Cursor) : Span :=
  match c.previous, c.ahead with
  | some l, _ => l.span
  | none, l :: _ => l.span
  | none, [] => ⟨0, 0⟩

def advance (c : Cursor) : Cursor :=
  match c.ahead with
  | [] => c
  | l :: rest => { c with position := c.position + 1, previous := some l, ahead := rest }

def check (c : Cursor) (k : Token.Kind) : Bool := c.peek.any (·.kind = k)

def atLineEnd (c : Cursor) : Bool := c.atEnd || c.check (.mark .newline)

/-- Whether an identifier is ahead and a token of kind `k` right after it. -/
def identifierThen (c : Cursor) (k : Token.Kind) : Bool :=
  c.check .identifier && (c.peekAhead 1).any (·.kind = k)

/-- Moves past a token of kind `k`, if there is one. -/
def accept? (c : Cursor) (k : Token.Kind) : Option Cursor :=
  if c.check k then some c.advance else none

/-- Moves past the tokens that satisfy `p`. -/
def skipFrom (lines : LineMap) (p : Token → Bool) : Nat → Option Lexeme → List Lexeme → Cursor
  | position, previous, [] => ⟨lines, position, previous, []⟩
  | position, previous, l :: rest =>
    if p l.token then skipFrom lines p (position + 1) (some l) rest
    else ⟨lines, position, previous, l :: rest⟩

def skipWhile (c : Cursor) (p : Token → Bool) : Cursor :=
  skipFrom c.lines p c.position c.previous c.ahead

def skipNewlines (c : Cursor) : Cursor := c.skipWhile (· = .mark .newline)

def skipLine (c : Cursor) : Cursor := c.skipWhile (· ≠ .mark .newline)

/-- How many lexemes come before the end of their line. -/
def lineLength : List Lexeme → Nat
  | [] => 0
  | l :: rest => if l.token = .mark .newline then 0 else lineLength rest + 1

/-- How many lexemes are ahead on the line. -/
def room (c : Cursor) : Nat := lineLength c.ahead

/-- Where the next lexeme is, or the end of the last one. -/
def location (c : Cursor) : Location :=
  match c.peekSpan with
  | some span => c.lines.locate span
  | none => c.lines.locate ⟨c.previousSpan.stop, c.previousSpan.stop⟩

/-- Fails at the next lexeme. -/
def fail {α : Type} (c : Cursor) (f : Fault) : Outcome α := .fail (f.diagnose c.location) c

/-- Moves past a token of kind `k`, or fails saying `what` was expected. -/
def expect (c : Cursor) (k : Token.Kind) (what : String) : Outcome Lexeme :=
  match c.ahead with
  | l :: _ => if l.token.kind = k then .ok l c.advance else c.fail (.expected what (some l.token))
  | [] => c.fail (.expected what none)

/-- The lexemes between two places. -/
def upTo (c later : Cursor) : List Lexeme := c.ahead.take (later.position - c.position)

end Cursor

end CrossAsm
