import CrossAsm.Diagnostic

/-!
A diagnostic as a report of several lines, with the source line it points at and a pointer below.
Sources are taken to be ASCII, and spans to stay on one line.
-/

namespace CrossAsm.Report

/-- The colours of a report, as terminals number them. -/
inductive Ink where
  | label | frame | margin | plain | help

def Ink.code : Ink → String
  | label => "31"
  | frame => "38;5;246"
  | margin => "38;5;240"
  | plain => "38;5;249"
  | help => "38;5;115"

/-- Text in a colour, if colours are wanted. -/
def paint (color : Bool) (ink : Ink) (text : String) : String :=
  if color then "\x1b[" ++ ink.code ++ "m" ++ text ++ "\x1b[0m" else text

/-- Every character in a colour of its own. -/
def paintEach (color : Bool) (ink : Ink) (text : List Char) : String :=
  String.join (text.map fun c => paint color ink (String.singleton c))

def isLineEnd (c : Char) : Bool := c = '\r' || c = '\n' || c = '\x0b' || c = '\x0c'

/-- The lines of a text, each with its end; a carriage return and a line feed are one end. The
line in progress is held in reverse. -/
def splitFrom : List Char → List Char → List (List Char)
  | [], [] => []
  | line, [] => [line.reverse]
  | line, '\r' :: '\n' :: rest => ('\n' :: '\r' :: line).reverse :: splitFrom [] rest
  | line, c :: rest =>
    if isLineEnd c then (c :: line).reverse :: splitFrom [] rest else splitFrom (c :: line) rest

/-- The last line that begins at or before an offset: its number, where it begins, and its text. -/
def lineAt (offset : Nat) : Nat → Nat → List (List Char) → Nat × Nat × List Char
  | number, start, [] => (number, start, [])
  | number, start, [line] => (number, start, line)
  | number, start, line :: rest =>
    if start + line.length ≤ offset then lineAt offset (number + 1) (start + line.length) rest
    else (number, start, line)

def isSpace (c : Char) : Bool := c = ' ' || c = '\t' || isLineEnd c

def trimEnd (line : List Char) : List Char := (line.reverse.dropWhile isSpace).reverse

/-- What a report shows: a line, its number, and on it the marked columns from `first` to before
`stop` with the pointer at `middle`. -/
structure Excerpt where
  number : Nat
  text : List Char
  first : Nat
  stop : Nat
  middle : Nat

def Excerpt.ofSpan (source : List Char) (span : Span) : Excerpt :=
  let start := min span.start source.length
  let stop := min (max span.stop start) source.length
  let (number, begin, line) := lineAt start 1 0 (splitFrom [] source)
  ⟨number, trimEnd line, start - begin, stop - begin, (start + stop) / 2 - begin⟩

namespace Excerpt

def marks (e : Excerpt) (column : Nat) : Bool := e.first ≤ column && column < e.stop

/-- How many columns the character at an index takes. A tab goes to the next multiple of four. -/
def width (e : Excerpt) (index : Nat) : Nat :=
  if e.text[index]? = some '\t' then 4 - index % 4 else 1

/-- The character at an index as it is printed. -/
def cell (e : Excerpt) (color : Bool) (c : Char) (index : Nat) : String :=
  let ink := if e.marks index then .label else .plain
  paintEach color ink (if isSpace c then List.replicate (e.width index) ' ' else [c])

def sourceText (e : Excerpt) (color : Bool) : String :=
  String.join (e.text.zipIdx.map fun (c, index) => e.cell color c index)

/-- A row below the source line, made of one cell for each column and two more. -/
def cells (e : Excerpt) (cell : Nat → String) : String :=
  String.join ((List.range (e.stop + 2)).map cell)

/-- A painted cell that is as wide as the character above it. -/
def wide (e : Excerpt) (color : Bool) (index : Nat) (head tail : Char) : String :=
  paintEach color .label (head :: List.replicate (e.width index - 1) tail)

def blank (e : Excerpt) (index : Nat) : String :=
  String.ofList (List.replicate (e.width index) ' ')

def underline (e : Excerpt) (color : Bool) : String :=
  e.cells fun i =>
    if i = e.middle then
      if e.marks i then e.wide color i '┬' '─' else e.wide color i '│' ' '
    else if e.marks i then e.wide color i '─' '─'
    else e.blank i

def arrow (e : Excerpt) (color : Bool) : String :=
  e.cells fun i =>
    if i = e.middle then e.wide color i '╰' '─'
    else if i > e.middle then e.wide color i '─' '─'
    else e.blank i

end Excerpt

def spaces (n : Nat) : String := String.ofList (List.replicate n ' ')

/-- The lines of a report below its header. -/
def excerptLines (d : Diagnostic) (e : Excerpt) (color : Bool) : List String :=
  let number := Numeral.decimal e.number
  let w := number.length
  let frame := paint color .frame
  let margin := " " ++ paint color .margin (spaces (w + 1) ++ "│") ++ " "
  [spaces (w + 2) ++ frame "╭" ++ frame "─" ++ frame "["
      ++ d.file ++ ":" ++ number ++ ":" ++ Numeral.decimal (e.first + 1) ++ frame "]",
    spaces (w + 2) ++ frame "│",
    " " ++ frame (number ++ " │") ++ " " ++ e.sourceText color,
    margin ++ e.underline color,
    margin ++ e.arrow color ++ " " ++ d.message]
  ++ (match d.hint with
    | some hint => [margin, margin ++ paint color .help "Help" ++ ": " ++ hint]
    | none => [])
  ++ [frame (String.ofList (List.replicate (w + 2) '─') ++ "╯")]

def header (d : Diagnostic) (color : Bool) : String :=
  paint color .label ("[" ++ d.code.text ++ "] Error:") ++ " " ++ d.message

/-- The report of a diagnostic about a source. An empty source has no line to show. -/
def render (d : Diagnostic) (source : String) (color : Bool) : String :=
  let below := match source.toList with
    | [] => []
    | text => excerptLines d (Excerpt.ofSpan text d.span) color
  String.join ((header d color :: below).map (· ++ "\n"))

end CrossAsm.Report
