import CrossAsm.Numeral
import CrossAsm.Source.Location

/-!
Diagnostics: what is wrong, where, and how it is said on one line.
-/

namespace CrossAsm

/-- The classes of faults, by the stage that finds them: scanning, reading, assembling. -/
inductive Code where
  | invalidCharacter | invalidNumber | unterminatedString | invalidCharLiteral
  | unexpectedToken | unexpectedEndOfFile | expectedExpression
  | unknownMnemonic | unknownDirective | invalidAddressingMode
  | duplicateSymbol | missingSymbol | unresolvedBranchTarget | branchTargetTooFar
  | valueOutOfRange | operandTooLarge | arithmeticError | internalError
deriving DecidableEq

namespace Code

def all : List Code :=
  [invalidCharacter, invalidNumber, unterminatedString, invalidCharLiteral,
    unexpectedToken, unexpectedEndOfFile, expectedExpression,
    unknownMnemonic, unknownDirective, invalidAddressingMode,
    duplicateSymbol, missingSymbol, unresolvedBranchTarget, branchTargetTooFar,
    valueOutOfRange, operandTooLarge, arithmeticError, internalError]

def number : Code → Nat
  | invalidCharacter => 1
  | invalidNumber => 2
  | unterminatedString => 3
  | invalidCharLiteral => 4
  | unexpectedToken => 100
  | unexpectedEndOfFile => 101
  | expectedExpression => 102
  | unknownMnemonic => 103
  | unknownDirective => 104
  | invalidAddressingMode => 105
  | duplicateSymbol => 200
  | missingSymbol => 201
  | unresolvedBranchTarget => 202
  | branchTargetTooFar => 203
  | valueOutOfRange => 204
  | operandTooLarge => 205
  | arithmeticError => 206
  | internalError => 299

def text (c : Code) : String :=
  "E" ++ String.ofList (Numeral.padLeft '0' 3 (Numeral.write 10 c.number))

/-- Whether the fault is found before anything is assembled. -/
def isSyntactic (c : Code) : Bool := c.number < 200

end Code

/-- The file name of a source that has none. -/
def unnamedFile : String := "<input>"

structure Diagnostic where
  code : Code
  message : String
  file : String
  line : Nat
  column : Nat
  span : Span
  hint : Option String
deriving DecidableEq

namespace Diagnostic

def inFile (d : Diagnostic) (file : String) : Diagnostic := { d with file := file }

def text (d : Diagnostic) : String :=
  d.file ++ ":" ++ Numeral.decimal d.line ++ ":" ++ Numeral.decimal d.column
    ++ ": error: " ++ d.message

/-- The text with code and hint. -/
def summary (d : Diagnostic) : String :=
  d.text ++ " [" ++ d.code.text ++ "]" ++
    match d.hint with
    | some hint => " (hint: " ++ hint ++ ")"
    | none => ""

end Diagnostic

end CrossAsm
