import CrossAsm.Fault
import CrossAsm.Symbols

/-!
Expressions as they are evaluated: numbers, symbols and operations on 32-bit words.
-/

namespace CrossAsm

inductive Operand where
  | number (value : UInt32) (loc : Location)
  | symbol (name : String) (loc : Location)
  | binary (op : BinaryOp) (left right : Operand) (loc : Location)
deriving DecidableEq

/-- A division or remainder by zero: the operator, the operation's text and its place. -/
structure ZeroDivision where
  op : BinaryOp
  text : String
  loc : Location
deriving DecidableEq

namespace ZeroDivision

def fault (z : ZeroDivision) : Fault := .zeroDivisor z.op z.text

end ZeroDivision

/-- The value of an operation, unless it divides by zero. Arithmetic is modulo 2^32. -/
def BinaryOp.apply? : BinaryOp → UInt32 → UInt32 → Option UInt32
  | add, a, b => some (a + b)
  | sub, a, b => some (a - b)
  | mul, a, b => some (a * b)
  | div, a, b => if b = 0 then none else some (a / b)
  | mod, a, b => if b = 0 then none else some (a % b)

namespace Operand

def loc : Operand → Location
  | number _ l | symbol _ l | binary _ _ _ l => l

/-- The text of an operand, nested operations in parentheses. -/
def text : Operand → String
  | number v _ => Numeral.decimal v.toNat
  | symbol name _ => name
  | binary op l r _ => nested l ++ " " ++ op.sign ++ " " ++ nested r
where
  nested : Operand → String
  | number v _ => Numeral.decimal v.toNat
  | symbol name _ => name
  | binary op l r _ => "(" ++ nested l ++ " " ++ op.sign ++ " " ++ nested r ++ ")"

/-- The value under a table, or none while a symbol is missing. Both sides of an operation are
evaluated, the left one first, before their values count. -/
def eval (t : SymbolTable) : Operand → Except ZeroDivision (Option UInt32)
  | number v _ => .ok (some v)
  | symbol name _ => .ok (t.value? name)
  | binary op l r loc =>
    match l.eval t with
    | .error z => .error z
    | .ok a =>
      match r.eval t with
      | .error z => .error z
      | .ok b =>
        match a, b with
        | some a, some b =>
          match op.apply? a b with
          | some v => .ok (some v)
          | none => .error ⟨op, (binary op l r loc).text, loc⟩
        | _, _ => .ok none

end Operand

/-- An expression without its parentheses. -/
def Expr.toOperand : Expr → Operand
  | .number v l => .number v l
  | .symbol name l => .symbol name l
  | .binary op l r loc => .binary op l.toOperand r.toOperand loc
  | .group e _ => e.toOperand

end CrossAsm
