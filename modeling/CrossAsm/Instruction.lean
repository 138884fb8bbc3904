/-!
The instruction set: which mnemonics exist, in which forms, and with which opcodes.

A mode is what the operand's spelling decides. A form is what gets encoded: a mode that addresses
memory may have a form with a two-byte address, one with a zero-page address, or both.
-/

namespace CrossAsm

inductive Mode where
  | implied | immediate | relative | indexedX | indexedY | absolute
  | indirect | indexedIndirect | indirectIndexed
deriving DecidableEq

/-- What follows the opcode: nothing, a branch offset, a byte, or an address of one byte or two. -/
inductive OperandShape where
  | empty | offset | byte | address
deriving DecidableEq

inductive Form where
  | implied | immediate | relative
  | zeroPage | zeroPageX | zeroPageY
  | absolute | absoluteX | absoluteY
  | indirect | indexedIndirect | indirectIndexed
deriving DecidableEq

namespace Mode

def all : List Mode :=
  [implied, immediate, relative, indexedX, indexedY, absolute,
    indirect, indexedIndirect, indirectIndexed]

def hasOperand : Mode → Bool
  | implied => false
  | _ => true

def description : Mode → String
  | implied => "implied"
  | immediate => "immediate"
  | relative => "relative"
  | indexedX => "X-indexed"
  | indexedY => "Y-indexed"
  | absolute => "absolute"
  | indirect => "indirect"
  | indexedIndirect => "indexed-indirect"
  | indirectIndexed => "indirect-indexed"

def shape : Mode → OperandShape
  | implied => .empty
  | relative => .offset
  | immediate | indexedIndirect | indirectIndexed => .byte
  | indexedX | indexedY | absolute | indirect => .address

/-- The form with a full-width operand. -/
def fullForm : Mode → Form
  | implied => .implied
  | immediate => .immediate
  | relative => .relative
  | indexedX => .absoluteX
  | indexedY => .absoluteY
  | absolute => .absolute
  | indirect => .indirect
  | indexedIndirect => .indexedIndirect
  | indirectIndexed => .indirectIndexed

/-- The form that shortens the address to one byte, where the mode has one. -/
def zeroPageForm? : Mode → Option Form
  | indexedX => some .zeroPageX
  | indexedY => some .zeroPageY
  | absolute => some .zeroPage
  | _ => none

end Mode

namespace Form

def mode : Form → Mode
  | implied => .implied
  | immediate => .immediate
  | relative => .relative
  | zeroPage | absolute => .absolute
  | zeroPageX | absoluteX => .indexedX
  | zeroPageY | absoluteY => .indexedY
  | indirect => .indirect
  | indexedIndirect => .indexedIndirect
  | indirectIndexed => .indirectIndexed

/-- How many bytes follow the opcode. -/
def operandSize : Form → Nat
  | implied => 0
  | absolute | absoluteX | absoluteY | indirect => 2
  | _ => 1

end Form

namespace Instruction

/-- Every mnemonic, in upper case, with its forms and their opcodes. -/
def table : List (String × List (Form × UInt8)) := [
  ("ADC", [(.immediate, 0x69), (.zeroPage, 0x65), (.zeroPageX, 0x75), (.absolute, 0x6D),
    (.absoluteX, 0x7D), (.absoluteY, 0x79), (.indexedIndirect, 0x61), (.indirectIndexed, 0x71)]),
  ("AND", [(.immediate, 0x29), (.zeroPage, 0x25), (.zeroPageX, 0x35), (.absolute, 0x2D),
    (.absoluteX, 0x3D), (.absoluteY, 0x39), (.indexedIndirect, 0x21), (.indirectIndexed, 0x31)]),
  ("ASL", [(.implied, 0x0A), (.zeroPage, 0x06), (.zeroPageX, 0x16), (.absolute, 0x0E),
    (.absoluteX, 0x1E)]),
  ("BCC", [(.relative, 0x90)]),
  ("BCS", [(.relative, 0xB0)]),
  ("BEQ", [(.relative, 0xF0)]),
  ("BIT", [(.zeroPage, 0x24), (.absolute, 0x2C)]),
  ("BMI", [(.relative, 0x30)]),
  ("BNE", [(.relative, 0xD0)]),
  ("BPL", [(.relative, 0x10)]),
  ("BRK", [(.implied, 0x00)]),
  ("BVC", [(.relative, 0x50)]),
  ("BVS", [(.relative, 0x70)]),
  ("CLC", [(.implied, 0x18)]),
  ("CLD", [(.implied, 0xD8)]),
  ("CLI", [(.implied, 0x58)]),
  ("CLV", [(.implied, 0xB8)]),
  ("CMP", [(.immediate, 0xC9), (.zeroPage, 0xC5), (.zeroPageX, 0xD5), (.absolute, 0xCD),
    (.absoluteX, 0xDD), (.absoluteY, 0xD9), (.indexedIndirect, 0xC1), (.indirectIndexed, 0xD1)]),
  ("CPX", [(.immediate, 0xE0), (.zeroPage, 0xE4), (.absolute, 0xEC)]),
  ("CPY", [(.immediate, 0xC0), (.zeroPage, 0xC4), (.absolute, 0xCC)]),
  ("DEC", [(.zeroPage, 0xC6), (.zeroPageX, 0xD6), (.absolute, 0xCE), (.absoluteX, 0xDE)]),
  ("DEX", [(.implied, 0xCA)]),
  ("DEY", [(.implied, 0x88)]),
  ("EOR", [(.immediate, 0x49), (.zeroPage, 0x45), (.zeroPageX, 0x55), (.absolute, 0x4D),
    (.absoluteX, 0x5D), (.absoluteY, 0x59), (.indexedIndirect, 0x41), (.indirectIndexed, 0x51)]),
  ("INC", [(.zeroPage, 0xE6), (.zeroPageX, 0xF6), (.absolute, 0xEE), (.absoluteX, 0xFE)]),
  ("INX", [(.implied, 0xE8)]),
  ("INY", [(.implied, 0xC8)]),
  ("JMP", [(.absolute, 0x4C), (.indirect, 0x6C)]),
  ("JSR", [(.absolute, 0x20)]),
  ("LDA", [(.immediate, 0xA9), (.zeroPage, 0xA5), (.zeroPageX, 0xB5), (.absolute, 0xAD),
    (.absoluteX, 0xBD), (.absoluteY, 0xB9), (.indexedIndirect, 0xA1), (.indirectIndexed, 0xB1)]),
  ("LDX", [(.immediate, 0xA2), (.zeroPage, 0xA6), (.zeroPageY, 0xB6), (.absolute, 0xAE),
    (.absoluteY, 0xBE)]),
  ("LDY", [(.immediate, 0xA0), (.zeroPage, 0xA4), (.zeroPageX, 0xB4), (.absolute, 0xAC),
    (.absoluteX, 0xBC)]),
  ("LSR", [(.implied, 0x4A), (.zeroPage, 0x46), (.zeroPageX, 0x56), (.absolute, 0x4E),
    (.absoluteX, 0x5E)]),
  ("NOP", [(.implied, 0xEA)]),
  ("ORA", [(.immediate, 0x09), (.zeroPage, 0x05), (.zeroPageX, 0x15), (.absolute, 0x0D),
    (.absoluteX, 0x1D), (.absoluteY, 0x19), (.indexedIndirect, 0x01), (.indirectIndexed, 0x11)]),
  ("PHA", [(.implied, 0x48)]),
  ("PHP", [(.implied, 0x08)]),
  ("PLA", [(.implied, 0x68)]),
  ("PLP", [(.implied, 0x28)]),
  ("ROL", [(.implied, 0x2A), (.zeroPage, 0x26), (.zeroPageX, 0x36), (.absolute, 0x2E),
    (.absoluteX, 0x3E)]),
  ("ROR", [(.implied, 0x6A), (.zeroPage, 0x66), (.zeroPageX, 0x76), (.absolute, 0x6E),
    (.absoluteX, 0x7E)]),
  ("RTI", [(.implied, 0x40)]),
  ("RTS", [(.implied, 0x60)]),
  ("SBC", [(.immediate, 0xE9), (.zeroPage, 0xE5), (.zeroPageX, 0xF5), (.absolute, 0xED),
    (.absoluteX, 0xFD), (.absoluteY, 0xF9), (.indexedIndirect, 0xE1), (.indirectIndexed, 0xF1)]),
  ("SEC", [(.implied, 0x38)]),
  ("SED", [(.implied, 0xF8)]),
  ("SEI", [(.implied, 0x78)]),
  ("STA", [(.zeroPage, 0x85), (.zeroPageX, 0x95), (.absolute, 0x8D), (.absoluteX, 0x9D),
    (.absoluteY, 0x99), (.indexedIndirect, 0x81), (.indirectIndexed, 0x91)]),
  ("STX", [(.zeroPage, 0x86), (.zeroPageY, 0x96), (.absolute, 0x8E)]),
  ("STY", [(.zeroPage, 0x84), (.zeroPageX, 0x94), (.absolute, 0x8C)]),
  ("TAX", [(.implied, 0xAA)]),
  ("TAY", [(.implied, 0xA8)]),
  ("TSX", [(.implied, 0xBA)]),
  ("TXA", [(.implied, 0x8A)]),
  ("TXS", [(.implied, 0x9A)]),
  ("TYA", [(.implied, 0x98)])]

def forms (mnemonic : String) : List (Form × UInt8) := (table.lookup mnemonic).getD []

def opcode? (mnemonic : String) (form : Form) : Option UInt8 := (forms mnemonic).lookup form

/-- Whether a word is a mnemonic in any letter case. -/
def isMnemonic (word : String) : Bool := (table.lookup word.toUpper).isSome

def isBranch (mnemonic : String) : Bool := (opcode? mnemonic .relative).isSome

def isImpliedOnly (mnemonic : String) : Bool :=
  (forms mnemonic).map Prod.fst = [Form.implied]

/-- The opcodes of a mnemonic in one mode. -/
structure Opcodes where
  full : Option UInt8
  zeroPage : Option UInt8
deriving DecidableEq

def opcodes (mnemonic : String) (mode : Mode) : Opcodes where
  full := opcode? mnemonic mode.fullForm
  zeroPage := mode.zeroPageForm?.bind (opcode? mnemonic)

def supports (mnemonic : String) (mode : Mode) : Bool :=
  (opcodes mnemonic mode).full.isSome || (opcodes mnemonic mode).zeroPage.isSome

/-- The instruction that an opcode stands for. -/
def ofOpcode? (opcode : UInt8) : Option (String × Form) :=
  table.findSome? fun (mnemonic, row) =>
    (row.find? (·.2 = opcode)).map fun (form, _) => (mnemonic, form)

end Instruction

end CrossAsm
