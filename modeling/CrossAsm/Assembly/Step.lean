import CrossAsm.Assembly.Encode
import CrossAsm.Listing
import CrossAsm.Visit

/-!
The assembler as a machine that follows the visits of a tree. Operands gather on a stack; what ends
a line takes them from there.
-/

namespace CrossAsm

namespace DataKind

def maxValue : DataKind → Nat
  | byte => 0xFF
  | word | dbyte => 0xFFFF

/-- The bytes of a value, in the order of the directive. -/
def bytes : DataKind → UInt32 → List UInt8
  | byte, value => [value.toUInt8]
  | word, value => wordBytes value
  | dbyte, value => (wordBytes value).reverse

end DataKind

namespace Assembly.State

/-- Takes two operands off the stack and puts their operation there. -/
def combine (s : State) (op : BinaryOp) (loc : Location) : State :=
  match s.operands with
  | right :: left :: rest => { s with operands := .binary op left right loc :: rest }
  | _ => { s with operands := [] }.report (.missingOperands op) loc

/-- One number for each character. -/
def pushString (s : State) (text : String) (loc : Location) : State :=
  text.toList.foldl (fun s c => s.push (.number c.val loc)) s

/-- Moves the program counter, unless the address is unknown. -/
def setOrigin (s : State) (loc : Location) : State :=
  match s.operands with
  | [] => s.report .noAddress loc
  | origin :: rest =>
    let s := { s with operands := rest }
    match origin.eval s.symbols with
    | .ok (some address) =>
      if address > maxAddress then s.report (.originOutOfRange address) origin.loc
      else { s.log (.originSet address) with counter := address, lineStart := some address }
    | .ok none => s.log (.originIgnored loc.line origin.text)
    | .error z => s.reportZero z

/-- Stores one value of a data directive, unless it is unknown. -/
def emitItem (kind : DataKind) (s : State) (item : Operand) : State :=
  match item.eval s.symbols with
  | .ok (some value) =>
    if value.toNat > kind.maxValue then
      s.report (.valueOutOfRange value kind.maxValue) item.loc
    else s.emit (kind.bytes value)
  | .ok none => s.log (.itemSkipped item.loc.line item.text)
  | .error z => s.reportZero z

/-- Stores all operands of the line, in the order they came. -/
def emitData (s : State) (kind : DataKind) : State :=
  s.operands.reverse.foldl (emitItem kind) { s with operands := [] }

/-- Defines a symbol as the latest operand, which has to be known. -/
def assign (s : State) (name : String) (loc : Location) : State :=
  match s.operands with
  | [] => s.report (.noValue name) loc
  | operand :: rest =>
    let s := { s with operands := rest }
    match operand.eval s.symbols with
    | .ok (some value) => s.define name value loc
    | .ok none => s.report (.unresolvedAssignment operand.text) loc
    | .error z => s.reportZero z

/-- The record of the line in progress. -/
def codeLine (s : State) (label : Option String) (terminals : List String) (loc : Location) :
    CodeLine :=
  let start := s.lineStart.getD s.counter
  ⟨start, s.counter - start, label, Listing.join terminals, loc.line⟩

/-- Ends a line. A line with bytes has to stop within the address space. -/
def endLine (s : State) (label : Option String) (terminals : List String) (loc : Location) :
    State :=
  let record := s.codeLine label terminals loc
  let s := if record.length > 0 && s.counter > maxAddress + 1 then
    s.report (.lineOutOfRange record.start) loc else s
  let s := if s.overwrites then s.log (.lineOverwrites loc.line record.start) else s
  { s with
    codeLines := s.codeLines.push record
    operands := []
    lineStart := none
    overwrites := false }

def step (s : State) : Visit → State
  | .number value loc => s.push (.number value loc)
  | .symbol name loc => s.push (.symbol name loc)
  | .binary op loc => s.combine op loc
  | .string text loc => s.pushString text loc
  | .label name loc => s.define name s.counter loc
  | .origin loc => s.setOrigin loc
  | .data kind _ => s.emitData kind
  | .assign name loc => s.assign name loc
  | .statement mnemonic mode loc => s.encode mnemonic mode loc
  | .line label terminals loc => s.endLine label terminals loc

def run (s : State) (visits : List Visit) : State := visits.foldl step s

end Assembly.State

end CrossAsm
