import CrossAsm.Log
import Std.Data.TreeMap

/-!
The symbol table. Labels and assignments share it; a name is defined once and keeps its value.
-/

namespace CrossAsm

structure Symbol where
  name : String
  value : UInt32
  line : Nat
  column : Nat
deriving DecidableEq

/-- How a second definition is reported, given the first. -/
def Symbol.redefinedText (s : Symbol) : String :=
  "symbol '" ++ s.name ++ "' is already defined at " ++ Numeral.decimal s.line ++ ":"
    ++ Numeral.decimal s.column

structure SymbolTable where
  entries : Std.TreeMap String Symbol

namespace SymbolTable

def empty : SymbolTable := ⟨∅⟩

def resolve (t : SymbolTable) (name : String) : Option Symbol := t.entries[name]?

def value? (t : SymbolTable) (name : String) : Option UInt32 := (t.resolve name).map (·.value)

/-- Adds a symbol, or gives the one that has its name already. -/
def define (t : SymbolTable) (s : Symbol) : Except Symbol SymbolTable :=
  match t.resolve s.name with
  | some previous => .error previous
  | none => .ok ⟨t.entries.insert s.name s⟩

/-- The symbols in the order of their names. -/
def toList (t : SymbolTable) : List Symbol := t.entries.values

def size (t : SymbolTable) : Nat := t.entries.size

end SymbolTable

/-- The event of a definition. -/
def Symbol.defined (s : Symbol) : Event := .symbolDefined s.name s.value s.line

end CrossAsm
