import CrossAsm.Assembly.Resolve
import CrossAsm.Assembly.Step
import CrossAsm.Token.Scan
import CrossAsm.Tree.Parser

/-!
Assembling: a source is scanned, read, and gone through once; then what had to wait is filled in.
The result is a memory image, or the list of all faults.
-/

namespace CrossAsm

/-- What a source that has no fault assembles to. -/
structure Assembly where
  blocks : List Block
  codeLines : List CodeLine
  symbols : SymbolTable

/-- A result together with what happened on the way to it. -/
structure Logged (α : Type) where
  value : α
  events : List Event

namespace Assembly

/-- The order of the places where faults are. -/
def isBefore (d e : Diagnostic) : Bool :=
  d.line < e.line || (d.line = e.line && d.column ≤ e.column)

/-- Goes through the lines of a program from a given state on, and fills in what had to wait. -/
def walk (s : State) (lines : List Line) (faults : List Diagnostic) : State :=
  let s := { s with faults := s.faults ++ faults }.log (.walking lines.length)
  (s.run (lines.flatMap Line.visits)).resolveDeferred.resolveBranches

/-- The result of a state that all lines have gone through. -/
def finish (s : State) : Logged (Except (List Diagnostic) Assembly) :=
  if s.faults.isEmpty then
    let lines := s.codeLines.toList
    let blocks := Memory.build lines s.payload
    ⟨.ok ⟨blocks, lines, s.symbols⟩,
      s.events.toList ++ [.buildingBlocks lines.length, .blocksBuilt blocks.length]⟩
  else
    ⟨.error ((stableSort isBefore s.faults.toList).map (·.inFile s.file)), s.events.toList⟩

/-- Assembles a source under a file name. Lexical faults end the run before reading starts. -/
def ofNamedSource (source file : String) : Logged (Except (List Diagnostic) Assembly) :=
  match tokenize source with
  | .error faults => ⟨.error (faults.map (·.inFile file)), []⟩
  | .ok lexemes =>
    let program := Parser.parse (LineMap.ofString source) lexemes
    let result := finish (walk (.init file) program.lines program.faults)
    ⟨result.value, .tokenized lexemes.length :: program.events ++ result.events⟩

def ofSource (source : String) : Except (List Diagnostic) Assembly :=
  (ofNamedSource source unnamedFile).value

end Assembly

end CrossAsm
