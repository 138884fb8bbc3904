import CrossAsm.Instruction
import CrossAsm.Numeral

/-!
Log events. Stages hand on what happened as values; only the outer layer prints them.
-/

namespace CrossAsm

inductive Level where
  | error | warn | info | debug | trace
deriving DecidableEq

namespace Level

def all : List Level := [error, warn, info, debug, trace]

def name : Level → String
  | error => "ERROR" | warn => "WARN" | info => "INFO" | debug => "DEBUG" | trace => "TRACE"

/-- From 1, the most severe, to 5. -/
def rank : Level → Nat
  | error => 1 | warn => 2 | info => 3 | debug => 4 | trace => 5

end Level

/-- The value of an event's field: a number, a string, or the text form of something else. -/
inductive FieldValue where
  | number (n : Nat)
  | string (s : String)
  | display (s : String)

inductive Event where
  | tokenized (tokens : Nat)
  | lineSkipped (line : Nat)
  | walking (lines : Nat)
  | symbolDefined (name : String) (value : UInt32) (line : Nat)
  | branchRegistered (mnemonic target : String) (address : UInt32)
  | operandDeferred (operand : String) (width : Nat) (address : UInt32)
  | originSet (address : UInt32)
  | originIgnored (line : Nat) (origin : String)
  | itemSkipped (line : Nat) (item : String)
  | lineOverwrites (line : Nat) (address : UInt32)
  | resolvingOperands (count : Nat)
  | resolvingBranches (count : Nat)
  | buildingBlocks (codeLines : Nat)
  | blocksBuilt (blocks : Nat)
  | blocksOverlap (block next : UInt32)
  | fileAdded (name : String) (sectors : Nat)
deriving DecidableEq

namespace Event

/-- An address as events show it. -/
def addressText (address : UInt32) : String := "$" ++ Numeral.hex 4 address.toNat

def level : Event → Level
  | originIgnored .. | itemSkipped .. | lineOverwrites .. | blocksOverlap .. => .warn
  | lineSkipped _ | symbolDefined .. | branchRegistered .. | operandDeferred ..
  | blocksBuilt _ | fileAdded .. => .debug
  | tokenized _ | walking _ | originSet _ | resolvingOperands _ | resolvingBranches _
  | buildingBlocks _ => .trace

def message : Event → String
  | tokenized _ => "tokenized"
  | lineSkipped _ => "syntax error, skipping to next line"
  | walking _ => "walking parse tree"
  | symbolDefined .. => "defined symbol"
  | branchRegistered .. => "registered branch"
  | operandDeferred .. => "deferred operand"
  | originSet _ => "origin"
  | originIgnored .. => "ignoring .ORG with unresolved address"
  | itemSkipped .. => "skipping unresolved data item"
  | lineOverwrites .. => "line overwrites bytes written before"
  | resolvingOperands _ => "resolving deferred operands"
  | resolvingBranches _ => "resolving branch targets"
  | buildingBlocks _ => "building memory blocks"
  | blocksBuilt _ => "built memory blocks"
  | blocksOverlap .. => "memory blocks overlap, writing them back to back"
  | fileAdded .. => "added file to disk image"

def fields : Event → List (String × FieldValue)
  | tokenized n => [("tokens", .number n)]
  | lineSkipped line => [("line", .number line)]
  | walking n => [("lines", .number n)]
  | symbolDefined name value line =>
    [("symbol", .string name), ("value", .number value.toNat), ("line", .number line)]
  | branchRegistered mnemonic target address =>
    [("mnemonic", .display mnemonic), ("target", .display target),
      ("address", .string (addressText address))]
  | operandDeferred operand width address =>
    [("operand", .display operand), ("width", .number width),
      ("address", .string (addressText address))]
  | originSet address => [("address", .string (addressText address))]
  | originIgnored line origin => [("line", .number line), ("origin", .display origin)]
  | itemSkipped line item => [("line", .number line), ("item", .display item)]
  | lineOverwrites line address =>
    [("line", .number line), ("address", .string (addressText address))]
  | resolvingOperands n | resolvingBranches n => [("count", .number n)]
  | buildingBlocks n => [("code_lines", .number n)]
  | blocksBuilt n => [("blocks", .number n)]
  | blocksOverlap block next =>
    [("block", .string (addressText block)), ("next", .string (addressText next))]
  | fileAdded name sectors => [("name", .string name), ("sectors", .number sectors)]

end Event

end CrossAsm
