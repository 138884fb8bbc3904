import CrossAsm.Numeral
import CrossAsm.Source.Location

/-!
The words of assembly source. Mnemonics, directive names and index registers are identifiers; what
they mean is a matter of where they stand.
-/

namespace CrossAsm

/-- Tokens of one fixed character. -/
inductive Mark where
  | plus | minus | star | slash | percent
  | dot | hash | comma | colon | equal
  | leftParen | rightParen | leftBracket | rightBracket
  | newline
deriving DecidableEq

namespace Mark

def char : Mark → Char
  | plus => '+' | minus => '-' | star => '*' | slash => '/' | percent => '%'
  | dot => '.' | hash => '#' | comma => ',' | colon => ':' | equal => '='
  | leftParen => '(' | rightParen => ')' | leftBracket => '[' | rightBracket => ']'
  | newline => '\n'

def ofChar? : Char → Option Mark
  | '+' => some plus | '-' => some minus | '*' => some star | '/' => some slash
  | '%' => some percent
  | '.' => some dot | '#' => some hash | ',' => some comma | ':' => some colon
  | '=' => some equal
  | '(' => some leftParen | ')' => some rightParen
  | '[' => some leftBracket | ']' => some rightBracket
  | '\n' => some newline
  | _ => none

def isOperator : Mark → Bool
  | plus | minus | star | slash | percent => true
  | _ => false

/-- How a message names the mark. -/
def text : Mark → String
  | newline => "newline"
  | m => String.singleton m.char

end Mark

inductive Token where
  | number (value : UInt32)
  /-- A character by its code, which may be any number here. -/
  | char (code : UInt32)
  | string (text : String)
  | identifier (name : String)
  | mark (m : Mark)
deriving DecidableEq

namespace Token

inductive Kind where
  | number | char | string | identifier
  | mark (m : Mark)
deriving DecidableEq

def kind : Token → Kind
  | number _ => .number
  | char _ => .char
  | string _ => .string
  | identifier _ => .identifier
  | mark m => .mark m

/-- How a message names the token. A code that no character has is named as a number. -/
def text : Token → String
  | number v => Numeral.decimal v.toNat
  | char code =>
    if h : code.isValidChar then "'" ++ String.singleton ⟨code, h⟩ ++ "'"
    else "character " ++ Numeral.decimal code.toNat
  | string s => "\"" ++ s ++ "\""
  | identifier name => name
  | mark m => m.text

def startsExpression : Token → Bool
  | number _ | char _ | identifier _ | mark .leftParen => true
  | _ => false

def isOperator : Token → Bool
  | mark m => m.isOperator
  | _ => false

end Token

/-- A token with the source text that spells it and the bytes it stands at. -/
structure Lexeme where
  token : Token
  text : String
  span : Span
deriving DecidableEq

end CrossAsm
