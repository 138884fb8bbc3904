import CrossAsm.Tree.Line

/-!
The order in which a tree is visited: what a node is made of comes before the node itself, so that
a stack machine can follow. Parentheses leave no trace.
-/

namespace CrossAsm

inductive Visit where
  | number (value : UInt32) (loc : Location)
  | symbol (name : String) (loc : Location)
  | binary (op : BinaryOp) (loc : Location)
  | string (text : String) (loc : Location)
  | label (name : String) (loc : Location)
  | origin (loc : Location)
  | data (kind : DataKind) (loc : Location)
  | assign (name : String) (loc : Location)
  | statement (mnemonic : String) (mode : Mode) (loc : Location)
  | line (label : Option String) (terminals : List String) (loc : Location)
deriving DecidableEq

def Expr.visits : Expr → List Visit
  | .number v l => [.number v l]
  | .symbol name l => [.symbol name l]
  | .binary op l r loc => l.visits ++ r.visits ++ [.binary op loc]
  | .group e _ => e.visits

def DataItem.visits : DataItem → List Visit
  | .expr e => e.visits
  | .string text l => [.string text l]

def Directive.visits : Directive → List Visit
  | .origin e l => e.visits ++ [.origin l]
  | .data kind items l => items.flatMap DataItem.visits ++ [.data kind l]
  | .assign name e l => e.visits ++ [.assign name l]

def Statement.visits (s : Statement) : List Visit :=
  s.operand.elim [] Expr.visits ++ [.statement s.mnemonic s.mode s.loc]

def Body.visits : Body → List Visit
  | .directive d => d.visits
  | .statement s => s.visits

def Label.visit (l : Label) : Visit := .label l.name l.loc

def Line.visits (l : Line) : List Visit :=
  (l.label.map Label.visit).toList ++ l.body.elim [] Body.visits
    ++ [.line (l.label.map (·.name)) l.terminals l.loc]

end CrossAsm
