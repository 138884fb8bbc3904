import CrossAsm.Memory
import CrossAsm.Operand

/-!
What the assembler knows while it goes through a program, and how it stores bytes.
-/

namespace CrossAsm

/-- An instruction whose operand had no value when it was met. -/
structure DeferredPatch where
  opcode : UInt8
  /-- The reserved bytes, with the opcode: 2 or 3. -/
  width : Nat
  operand : Operand
  /-- The address of the opcode. -/
  address : UInt32
  loc : Location
deriving DecidableEq

/-- A branch that waits for its offset. -/
structure BranchPatch where
  /-- The address of the offset. -/
  address : UInt32
  target : Operand
deriving DecidableEq

namespace Assembly

structure State where
  file : String
  symbols : SymbolTable
  payload : Payload
  codeLines : Array CodeLine
  /-- The operands of the line in progress, the latest first. -/
  operands : List Operand
  /-- The program counter. -/
  counter : UInt32
  /-- Where the line in progress starts. -/
  lineStart : Option UInt32
  /-- Whether the line in progress wrote where something had been written. -/
  overwrites : Bool
  deferred : Array DeferredPatch
  branches : Array BranchPatch
  faults : Array Diagnostic
  events : Array Event

namespace State

def init (file : String) : State where
  file := file
  symbols := .empty
  payload := .empty
  codeLines := #[]
  operands := []
  counter := 0
  lineStart := none
  overwrites := false
  deferred := #[]
  branches := #[]
  faults := #[]
  events := #[]

def report (s : State) (f : Fault) (loc : Location) : State :=
  { s with faults := s.faults.push (f.diagnose loc) }

def log (s : State) (e : Event) : State := { s with events := s.events.push e }

def push (s : State) (e : Operand) : State := { s with operands := e :: s.operands }

def reportZero (s : State) (z : ZeroDivision) : State := s.report z.fault z.loc

/-- Stores a byte at the program counter. The first byte of a line fixes where the line starts. -/
def emitByte (s : State) (byte : UInt8) : State :=
  { s with
    lineStart := some (s.lineStart.getD s.counter)
    overwrites := s.overwrites || (s.payload.get? s.counter).isSome
    payload := s.payload.insert s.counter byte
    counter := s.counter + 1 }

def emit (s : State) (bytes : List UInt8) : State := bytes.foldl emitByte s

/-- Leaves room for bytes that come later. -/
def reserve (s : State) (width : Nat) : State := s.emit (List.replicate width unmappedByte)

/-- Replaces a byte and leaves the program counter alone. -/
def patch (s : State) (address : UInt32) (byte : UInt8) : State :=
  { s with payload := s.payload.insert address byte }

/-- Defines a symbol, or reports that it is defined already. -/
def define (s : State) (name : String) (value : UInt32) (loc : Location) : State :=
  let symbol : Symbol := ⟨name, value, loc.line, loc.column⟩
  match s.symbols.define symbol with
  | .ok symbols => { s with symbols := symbols }.log symbol.defined
  | .error previous =>
    s.report (.redefinition name s.file previous.line previous.column) loc

end State

end Assembly

end CrossAsm
