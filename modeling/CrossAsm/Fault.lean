import CrossAsm.Diagnostic
import CrossAsm.Instruction
import CrossAsm.Token
import CrossAsm.Tree.Expr

/-!
The causes of diagnostics, with their class, wording and hint.
-/

namespace CrossAsm

inductive Fault where
  | strayCharacter (c : Char)
  | badNumber (text : String)
  | openString
  | badCharacter
  /-- Something else stands where `what` asks for a token. -/
  | expected (what : String) (found : Option Token)
  | noExpression (found : Option Token)
  | noDirectiveName
  | unknownDirective (name : String)
  | noSymbolName
  | noInstruction
  | unknownMnemonic (word : String)
  | registerNotX
  | registerNotY
  | unsupportedMode (mnemonic : String) (mode : Mode)
  | redefinition (name file : String) (line column : Nat)
  | unresolved (text : String)
  | unresolvedAssignment (text : String)
  | unresolvedTarget (text : String)
  | targetTooFar (origin : UInt32) (text : String) (target : UInt32) (offset : Int)
  | valueOutOfRange (value : UInt32) (max : Nat)
  | originOutOfRange (value : UInt32)
  | lineOutOfRange (start : UInt32)
  | operandTooLarge (text : String) (value : UInt32) (max : Nat)
  | zeroDivisor (op : BinaryOp) (text : String)
  | missingOperands (op : BinaryOp)
  | noOpcode (mnemonic : String) (mode : Mode)
  | noForm (mnemonic : String)
  | noOperand (mnemonic : String)
  | noValue (name : String)
  | noAddress

namespace Fault

open Numeral (decimal hex signed)

def code : Fault → Code
  | strayCharacter _ => .invalidCharacter
  | badNumber _ => .invalidNumber
  | openString => .unterminatedString
  | badCharacter => .invalidCharLiteral
  | expected _ (some _) | noSymbolName | noInstruction => .unexpectedToken
  | expected _ none | noExpression none => .unexpectedEndOfFile
  | noExpression (some _) => .expectedExpression
  | noDirectiveName | unknownDirective _ => .unknownDirective
  | unknownMnemonic _ => .unknownMnemonic
  | registerNotX | registerNotY | unsupportedMode .. => .invalidAddressingMode
  | redefinition .. => .duplicateSymbol
  | unresolved _ | unresolvedAssignment _ => .missingSymbol
  | unresolvedTarget _ => .unresolvedBranchTarget
  | targetTooFar .. => .branchTargetTooFar
  | valueOutOfRange .. | originOutOfRange _ | lineOutOfRange _ => .valueOutOfRange
  | operandTooLarge .. => .operandTooLarge
  | zeroDivisor .. => .arithmeticError
  | missingOperands _ | noOpcode .. | noForm _ | noOperand _ | noValue _ | noAddress =>
    .internalError

def foundText : Option Token → String
  | some t => t.text
  | none => "end of file"

def rangeText (value : UInt32) (max : Nat) : String :=
  "Value \"" ++ decimal value.toNat ++ "\" is out of its supported value range: [0,"
    ++ decimal max ++ "]."

def unresolvedText (text : String) : String :=
  "Symbol or expression \"" ++ text ++ "\" could not be resolved"

def message : Fault → String
  | strayCharacter c => "Unexpected character '" ++ String.singleton c ++ "'"
  | badNumber text =>
    "Invalid number literal '" ++ text ++ "' (values are limited to 32 bits)"
  | openString => "Unterminated string literal"
  | badCharacter => "Invalid character literal, expected a single character in quotes"
  | expected what found => what ++ ", found " ++ foundText found
  | noExpression found => "Expected expression, found " ++ foundText found
  | noDirectiveName => "Expected directive name after '.'"
  | unknownDirective name => "Unknown directive '." ++ name ++ "'"
  | noSymbolName => "Expected symbol name"
  | noInstruction => "Expected instruction"
  | unknownMnemonic word => "Unknown mnemonic '" ++ word ++ "'"
  | registerNotX => "Indexed indirect addressing requires the X register"
  | registerNotY => "Indirect indexed addressing requires the Y register"
  | unsupportedMode mnemonic mode =>
    mnemonic ++ " does not support " ++ mode.description ++ " addressing"
  | redefinition name file line column =>
    "Redefinition of Symbol \"" ++ name ++ "\" detected. See previous definition at "
      ++ file ++ ":" ++ decimal line ++ ":" ++ decimal column
  | unresolved text | unresolvedAssignment text => unresolvedText text ++ "."
  | unresolvedTarget text => unresolvedText text
  | targetTooFar origin text target _ =>
    "Branch at address 0x" ++ hex 1 origin.toNat
      ++ " is too far away from the branch target \"" ++ text ++ "\" at address 0x"
      ++ hex 1 target.toNat ++ "."
  | valueOutOfRange value max => rangeText value max
  | originOutOfRange value => rangeText value 0xFFFF
  | lineOutOfRange start =>
    "Line at address 0x" ++ hex 4 start.toNat
      ++ " extends past the end of the address space at 0x" ++ hex 4 0xFFFF ++ "."
  | operandTooLarge text value max =>
    "Operand \"" ++ text ++ "\" with value \"" ++ decimal value.toNat
      ++ "\" is out of its supported value range: [0," ++ decimal max ++ "]."
  | zeroDivisor op text =>
    (if op = .div then "Division" else "Modulo") ++ " by zero in expression \"" ++ text ++ "\""
  | missingOperands op => "Missing operand for '" ++ op.sign ++ "'"
  | noOpcode mnemonic mode =>
    "No opcode for " ++ mnemonic ++ " in " ++ mode.description ++ " addressing"
  | noForm mnemonic => "No opcode for " ++ mnemonic
  | noOperand mnemonic => mnemonic ++ " has no operand expression"
  | noValue name => "No value for symbol \"" ++ name ++ "\""
  | noAddress => "No address for .ORG"

def hint : Fault → Option String
  | unresolvedAssignment _ => some "assignments may only use symbols defined above them"
  | targetTooFar _ _ _ offset =>
    some ("the offset is " ++ signed offset ++ ", branches reach -128 to 127")
  | originOutOfRange _ => some ".ORG takes a 16-bit address"
  | lineOutOfRange _ => some "move the code with .ORG to a lower address"
  | operandTooLarge _ _ max =>
    some (if max = 0xFF then "this addressing mode takes a single byte operand"
      else "operands are at most 16 bits wide")
  | _ => none

/-- The diagnostic that reports the fault at a location. -/
def diagnose (f : Fault) (loc : Location) : Diagnostic where
  code := f.code
  message := f.message
  file := unnamedFile
  line := loc.line
  column := loc.column
  span := loc.span
  hint := f.hint

end Fault

end CrossAsm
