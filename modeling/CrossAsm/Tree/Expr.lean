import CrossAsm.Numeral
import CrossAsm.Source.Location

/-!
Expressions as they are written, parentheses included.
-/

namespace CrossAsm

inductive BinaryOp where
  | add | sub | mul | div | mod
deriving DecidableEq

namespace BinaryOp

def sign : BinaryOp → String
  | add => "+" | sub => "-" | mul => "*" | div => "/" | mod => "%"

/-- The higher level binds tighter. -/
def precedence : BinaryOp → Nat
  | add | sub => 1
  | mul | div | mod => 2

end BinaryOp

inductive Expr where
  | number (value : UInt32) (loc : Location)
  | symbol (name : String) (loc : Location)
  | binary (op : BinaryOp) (left right : Expr) (loc : Location)
  | group (inner : Expr) (loc : Location)
deriving DecidableEq

namespace Expr

def loc : Expr → Location
  | number _ l | symbol _ l | binary _ _ _ l | group _ l => l

/-- The expression as text; only groups bring parentheses. -/
def text : Expr → String
  | number v _ => Numeral.decimal v.toNat
  | symbol name _ => name
  | binary op l r _ => l.text ++ " " ++ op.sign ++ " " ++ r.text
  | group e _ => "(" ++ e.text ++ ")"

end Expr

end CrossAsm
