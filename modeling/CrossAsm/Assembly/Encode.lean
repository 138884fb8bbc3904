import CrossAsm.Assembly.State

/-!
Encoding of instructions. A known operand is stored at once, in the zero-page form if there is one
and the value fits. An unknown one gets the widest form, and its bytes come later.
-/

namespace CrossAsm.Assembly.State

def defer (s : State) (opcode : UInt8) (width : Nat) (operand : Operand) (loc : Location) :
    State :=
  let t := (s.reserve width).log (.operandDeferred operand.text width s.counter)
  { t with deferred := t.deferred.push ⟨opcode, width, operand, s.counter, loc⟩ }

/-- A branch; its offset always comes later. -/
def encodeBranch (s : State) (opcode : UInt8) (mnemonic : String) (target : Operand) : State :=
  let address := s.counter + 1
  let t := ((s.emit [opcode]).reserve 1).log (.branchRegistered mnemonic target.text address)
  { t with branches := t.branches.push ⟨address, target⟩ }

/-- An instruction whose operand is always one byte. -/
def encodeByte (s : State) (opcode : UInt8) (operand : Operand) (loc : Location) : State :=
  match operand.eval s.symbols with
  | .ok (some value) =>
    let s := if value > 0xFF then s.report (.operandTooLarge operand.text value 0xFF) loc else s
    s.emit [opcode, value.toUInt8]
  | .ok none => s.defer opcode 2 operand loc
  | .error z => (s.reportZero z).reserve 2

/-- The form with a two-byte address. -/
def encodeWide (s : State) (opcode : UInt8) (operand : Operand) (value : UInt32)
    (loc : Location) : State :=
  if value > 0xFFFF then (s.report (.operandTooLarge operand.text value 0xFFFF) loc).reserve 3
  else s.emit (opcode :: wordBytes value)

/-- The form with a zero-page address, for a mnemonic that has no other. -/
def encodeNarrow (s : State) (opcode : UInt8) (operand : Operand) (value : UInt32)
    (loc : Location) : State :=
  if value > 0xFF then (s.report (.operandTooLarge operand.text value 0xFF) loc).reserve 2
  else s.emit [opcode, value.toUInt8]

/-- The shortest form that an address fits. -/
def encodeKnown (s : State) (codes : Instruction.Opcodes) (mnemonic : String)
    (operand : Operand) (value : UInt32) (loc : Location) : State :=
  match codes.full, codes.zeroPage with
  | some full, some zeroPage =>
    if value ≤ 0xFF then s.emit [zeroPage, value.toUInt8] else s.encodeWide full operand value loc
  | some full, none => s.encodeWide full operand value loc
  | none, some zeroPage => s.encodeNarrow zeroPage operand value loc
  | none, none => s.report (.noForm mnemonic) loc

/-- An instruction with an address of one byte or two. -/
def encodeAddress (s : State) (codes : Instruction.Opcodes) (mnemonic : String)
    (operand : Operand) (loc : Location) : State :=
  match operand.eval s.symbols with
  | .ok (some value) => s.encodeKnown codes mnemonic operand value loc
  | .ok none =>
    match codes.full, codes.zeroPage with
    | some full, _ => s.defer full 3 operand loc
    | none, some zeroPage => s.defer zeroPage 2 operand loc
    | none, none => s.report (.noForm mnemonic) loc
  | .error z => (s.reportZero z).reserve (if codes.full.isSome then 3 else 2)

/-- Takes the operand of an instruction off the stack. -/
def withOperand (s : State) (mnemonic : String) (loc : Location) (f : State → Operand → State) :
    State :=
  match s.operands with
  | [] => s.report (.noOperand mnemonic) loc
  | operand :: rest => f { s with operands := rest } operand

def encode (s : State) (mnemonic : String) (mode : Mode) (loc : Location) : State :=
  let codes := Instruction.opcodes mnemonic mode
  if Instruction.supports mnemonic mode then
    match mode.shape, codes.full with
    | .empty, some opcode => s.emit [opcode]
    | .offset, some opcode =>
      s.withOperand mnemonic loc fun s target => s.encodeBranch opcode mnemonic target
    | .byte, some opcode =>
      s.withOperand mnemonic loc fun s operand => s.encodeByte opcode operand loc
    | .address, _ =>
      s.withOperand mnemonic loc fun s operand => s.encodeAddress codes mnemonic operand loc
    | _, none => s
  else s.report (.noOpcode mnemonic mode) loc

end CrossAsm.Assembly.State
