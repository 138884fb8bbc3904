import CrossAsm.Instruction
import CrossAsm.Tree.Expr

/-!
Logical lines: a label, a directive or a statement. Several of them may share one physical line.
-/

namespace CrossAsm

/-- One entry of a data directive. -/
inductive DataItem where
  | expr (e : Expr)
  /-- One value for each character. -/
  | string (text : String) (loc : Location)
deriving DecidableEq

/-- How a data directive stores its values: single bytes, words with the low byte first, or words
with the high byte first. -/
inductive DataKind where
  | byte | word | dbyte
deriving DecidableEq

namespace DataKind

def name : DataKind → String
  | byte => "BYTE" | word => "WORD" | dbyte => "DBYTE"

def ofName? (name : String) : Option DataKind :=
  [byte, word, dbyte].find? (·.name = name)

end DataKind

inductive Directive where
  | origin (address : Expr) (loc : Location)
  | data (kind : DataKind) (items : List DataItem) (loc : Location)
  | assign (name : String) (value : Expr) (loc : Location)
deriving DecidableEq

structure Statement where
  /-- The mnemonic in upper case. -/
  mnemonic : String
  mode : Mode
  operand : Option Expr
  loc : Location
deriving DecidableEq

inductive Body where
  | directive (d : Directive)
  | statement (s : Statement)
deriving DecidableEq

def Body.isStatement : Body → Bool
  | directive _ => false
  | statement _ => true

structure Label where
  name : String
  loc : Location
deriving DecidableEq

structure Line where
  label : Option Label
  body : Option Body
  /-- The source texts of the body's words, for listings. -/
  terminals : List String
  loc : Location
deriving DecidableEq

end CrossAsm
