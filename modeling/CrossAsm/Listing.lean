import CrossAsm.Memory
import CrossAsm.Symbols

/-!
Listings: one row for each line, with its bytes, its label and its text, and a table of symbols.
-/

namespace CrossAsm.Listing

/-- Whether no space goes between two terminals. -/
def glued (previous text : String) : Bool :=
  previous = "." || previous = "#" || text.toList.head? = some ','

/-- Terminals with the spaces before them, after `previous`. -/
def spaced (previous : String) : List String → List String
  | [] => []
  | text :: rest => (if glued previous text then text else " " ++ text) :: spaced text rest

/-- The terminals of a line as one text. -/
def join : List String → String
  | [] => ""
  | text :: rest => String.join (text :: spaced text rest)

def byteText (byte : UInt8) : String := "0x" ++ Numeral.hex 2 byte.toNat

/-- The address and the bytes of a line, without anything after them. -/
def dumpText (l : CodeLine) (blocks : List Block) : String :=
  "0x" ++ Numeral.hex 4 l.start.toNat ++ ":"
    ++ ",".intercalate (l.addresses.map fun a => byteText (Memory.byteAt blocks a))

/-- The dump of a line, which is empty if the line has no bytes. -/
def dump (l : CodeLine) (blocks : List Block) : String :=
  if l.length = 0 then "" else dumpText l blocks ++ " "

/-- Fills a row with spaces up to a column, counted in bytes. -/
def padTo (column : Nat) (row : String) : String :=
  row ++ String.ofList (List.replicate (column - row.utf8ByteSize) ' ')

def labelColumn : Nat := 24

def textColumn : Nat := 36

def row (l : CodeLine) (blocks : List Block) : String :=
  padTo textColumn (padTo labelColumn (dump l blocks) ++ l.label.getD "") ++ l.text

/-- Every line with its bytes and its text. -/
def full (lines : List CodeLine) (blocks : List Block) : String :=
  String.join (lines.map fun l => row l blocks ++ "\n")

/-- The bytes of the lines that have any. -/
def machine (lines : List CodeLine) (blocks : List Block) : String :=
  String.join ((lines.filter (·.length ≠ 0)).map fun l => dumpText l blocks ++ "\n")

def symbolRow (s : Symbol) : String :=
  s.name ++ " = $" ++ Numeral.hex 4 s.value.toNat ++ " (" ++ Numeral.decimal s.line ++ ":"
    ++ Numeral.decimal s.column ++ ")\n"

def symbols (t : SymbolTable) : String := String.join (t.toList.map symbolRow)

end CrossAsm.Listing
