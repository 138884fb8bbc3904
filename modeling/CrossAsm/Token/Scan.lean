import CrossAsm.Fault
import CrossAsm.Source.LineMap

/-!
Scanning: a source text is cut into pieces from left to right, each the longest that fits where the
one before it ends. A piece is skipped, is a token, or is at fault.
-/

namespace CrossAsm

inductive Piece where
  | skip (text : List Char)
  | token (t : Token) (text : List Char)
  | fault (f : Fault) (text : List Char)

namespace Piece

def text : Piece → List Char
  | skip text | token _ text | fault _ text => text

end Piece

namespace Scan

def isBlank (c : Char) : Bool := c = ' ' || c = '\t' || c = '\r' || c = '\x0c'

def isNameStart (c : Char) : Bool := c.isAlpha || c = '_'

def isNameChar (c : Char) : Bool := isNameStart c || c.isDigit

/-- A number literal, at fault if it needs more than 32 bits. -/
def number (base : Nat) (digits text : List Char) : Piece :=
  let n := Numeral.read base digits
  if n < 0x100000000 then .token (.number (UInt32.ofNat n)) text
  else .fault (.badNumber (String.ofList text)) text

/-- What follows a dollar sign. -/
def hexNumber (rest : List Char) : Piece :=
  match rest.takeWhile Numeral.isHexDigit with
  | [] => .fault (.badNumber "$") ['$']
  | digits => number 16 digits ('$' :: digits)

/-- What follows a percent sign: a number if binary digits do, else the sign is an operator. -/
def binaryNumber (rest : List Char) : Piece :=
  match rest.takeWhile Numeral.isBinaryDigit with
  | [] => .token (.mark .percent) ['%']
  | digits => number 2 digits ('%' :: digits)

/-- What follows an apostrophe. -/
def character : List Char → Piece
  | c :: '\'' :: _ =>
    if c = '\'' || c = '\n' then .fault .badCharacter ['\'']
    else .token (.char c.val) ['\'', c, '\'']
  | _ => .fault .badCharacter ['\'']

/-- What follows a quotation mark. A string that its line does not close takes the whole line. -/
def string (rest : List Char) : Piece :=
  let body := rest.takeWhile fun c => c != '"' && c != '\n'
  match rest.drop body.length with
  | '"' :: _ => .token (.string (String.ofList body)) ('"' :: body ++ ['"'])
  | _ => .fault .openString ('"' :: body)

/-- The piece that starts with `c`. -/
def next (c : Char) (rest : List Char) : Piece :=
  if isBlank c then .skip (c :: rest.takeWhile isBlank)
  else if c = ';' then .skip (c :: rest.takeWhile (· != '\n'))
  else if c.isDigit then
    let digits := c :: rest.takeWhile Char.isDigit
    number 10 digits digits
  else if isNameStart c then
    let name := c :: rest.takeWhile isNameChar
    .token (.identifier (String.ofList name)) name
  else if c = '$' then hexNumber rest
  else if c = '%' then binaryNumber rest
  else if c = '\'' then character rest
  else if c = '"' then string rest
  else match Mark.ofChar? c with
    | some m => .token (.mark m) [c]
    | none => .fault (.strayCharacter c) [c]

/-- At most `count` pieces of a text. -/
def piecesUpTo : Nat → List Char → List Piece
  | 0, _ => []
  | _, [] => []
  | count + 1, c :: rest =>
    let piece := next c rest
    piece :: piecesUpTo count ((c :: rest).drop piece.text.length)

/-- The pieces of a text. None is empty, so there are no more of them than characters. -/
def pieces (text : List Char) : List Piece := piecesUpTo text.length text

/-- The tokens among pieces that stand at `offset`. -/
def lexemes : Nat → List Piece → List Lexeme
  | _, [] => []
  | offset, piece :: rest =>
    let stop := offset + byteLength piece.text
    match piece with
    | .token t text => ⟨t, String.ofList text, ⟨offset, stop⟩⟩ :: lexemes stop rest
    | _ => lexemes stop rest

/-- The faults among pieces that stand at `offset`. -/
def faults (lines : LineMap) : Nat → List Piece → List Diagnostic
  | _, [] => []
  | offset, piece :: rest =>
    let stop := offset + byteLength piece.text
    match piece with
    | .fault f _ => f.diagnose (lines.locate ⟨offset, stop⟩) :: faults lines stop rest
    | _ => faults lines stop rest

end Scan

/-- The lexemes of a source, or all its lexical faults. -/
def tokenize (source : String) : Except (List Diagnostic) (List Lexeme) :=
  let pieces := Scan.pieces source.toList
  match Scan.faults (LineMap.ofString source) 0 pieces with
  | [] => .ok (Scan.lexemes 0 pieces)
  | faults => .error faults

end CrossAsm
