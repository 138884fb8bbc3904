import CrossAsm.Tree.Parser

/-!
The grammar of lines: which tokens spell an expression, an operand, a directive or a statement.
It says nothing of places, and nothing of how the tokens are read.
-/

namespace CrossAsm

/-- The mark that writes an operator. -/
def BinaryOp.mark : BinaryOp → Mark
  | add => .plus | sub => .minus | mul => .star | div => .slash | mod => .percent

/-! ### Expressions -/

/-- The tokens spell the expression, whose operators outside of parentheses bind at least as tight
as the level says. Operators of one level group to the left. -/
inductive Expr.Spelled : Nat → Expr → List Token → Prop
  | number (v : UInt32) (loc : Location) : Spelled 3 (.number v loc) [.number v]
  | char (code : UInt32) (loc : Location) : Spelled 3 (.number code loc) [.char code]
  | symbol (name : String) (loc : Location) : Spelled 3 (.symbol name loc) [.identifier name]
  | group {e : Expr} {ts : List Token} (loc : Location) (he : Spelled 1 e ts) :
      Spelled 3 (.group e loc) (.mark .leftParen :: (ts ++ [.mark .rightParen]))
  | tighter {level : Nat} {e : Expr} {ts : List Token} (he : Spelled (level + 1) e ts) :
      Spelled level e ts
  | binary {level : Nat} {op : BinaryOp} {l r : Expr} {ts us : List Token} (loc : Location)
      (hop : op.precedence = level) (hl : Spelled level l ts) (hr : Spelled (level + 1) r us) :
      Spelled level (.binary op l r loc) (ts ++ .mark op.mark :: us)

/-- The tokens spell the entry of a data directive. -/
inductive DataItem.Spelled : DataItem → List Token → Prop
  | expr {e : Expr} {ts : List Token} (he : e.Spelled 1 ts) : Spelled (.expr e) ts
  | string (text : String) (loc : Location) : Spelled (.string text loc) [.string text]

/-- The tokens spell further entries, a comma before each. -/
inductive DataItem.SpelledAfter : List DataItem → List Token → Prop
  | nil : SpelledAfter [] []
  | cons {i : DataItem} {items : List DataItem} {ts us : List Token} (hi : i.Spelled ts)
      (hrest : SpelledAfter items us) : SpelledAfter (i :: items) (.mark .comma :: (ts ++ us))

/-! ### Operands -/

namespace Instruction

/-- The mnemonic has forms with an operand, and does not branch. -/
def TakesOperand (mnemonic : String) : Prop :=
  isBranch mnemonic = false ∧ isImpliedOnly mnemonic = false

/-- Tokens that an address may start with: no mnemonic, and no accumulator where it is a form of
its own. -/
def OpensAddress (mnemonic : String) (ts : List Token) : Prop :=
  ∀ name rest, ts = .identifier name :: rest →
    isMnemonic name = false ∧ ¬(name.toUpper = "A" ∧ supports mnemonic .implied = true)

/-- The tokens spell the operand of a mnemonic, in the mode that its spelling stands for. -/
inductive OperandSpelled (mnemonic : String) : Mode → Option Expr → List Token → Prop
  | implied (hm : isBranch mnemonic = false) : OperandSpelled mnemonic .implied none []
  | accumulator {name : String} (hm : TakesOperand mnemonic)
      (hs : supports mnemonic .implied = true) (hname : name.toUpper = "A") :
      OperandSpelled mnemonic .implied none [.identifier name]
  | relative {e : Expr} {ts : List Token} (hm : isBranch mnemonic = true) (he : e.Spelled 1 ts) :
      OperandSpelled mnemonic .relative (some e) ts
  | immediate {e : Expr} {ts : List Token} (hm : TakesOperand mnemonic) (he : e.Spelled 1 ts) :
      OperandSpelled mnemonic .immediate (some e) (.mark .hash :: ts)
  | indirect {e : Expr} {ts : List Token} (hm : TakesOperand mnemonic) (he : e.Spelled 1 ts) :
      OperandSpelled mnemonic .indirect (some e)
        (.mark .leftBracket :: (ts ++ [.mark .rightBracket]))
  | indexedIndirect {e : Expr} {ts : List Token} {x : String} (hm : TakesOperand mnemonic)
      (he : e.Spelled 1 ts) (hx : x.toUpper = "X") :
      OperandSpelled mnemonic .indexedIndirect (some e)
        (.mark .leftBracket :: (ts ++ [.mark .comma, .identifier x, .mark .rightBracket]))
  | indirectIndexed {e : Expr} {ts : List Token} {y : String} (hm : TakesOperand mnemonic)
      (he : e.Spelled 1 ts) (hy : y.toUpper = "Y") :
      OperandSpelled mnemonic .indirectIndexed (some e)
        (.mark .leftBracket :: (ts ++ [.mark .rightBracket, .mark .comma, .identifier y]))
  | absolute {e : Expr} {ts : List Token} (hm : TakesOperand mnemonic) (he : e.Spelled 1 ts)
      (ho : OpensAddress mnemonic ts) : OperandSpelled mnemonic .absolute (some e) ts
  | indexedX {e : Expr} {ts : List Token} {x : String} (hm : TakesOperand mnemonic)
      (he : e.Spelled 1 ts) (ho : OpensAddress mnemonic ts) (hx : x.toUpper = "X") :
      OperandSpelled mnemonic .indexedX (some e) (ts ++ [.mark .comma, .identifier x])
  | indexedY {e : Expr} {ts : List Token} {y : String} (hm : TakesOperand mnemonic)
      (he : e.Spelled 1 ts) (ho : OpensAddress mnemonic ts) (hy : y.toUpper = "Y") :
      OperandSpelled mnemonic .indexedY (some e) (ts ++ [.mark .comma, .identifier y])

end Instruction

/-! ### Lines -/

/-- The tokens spell the body of a line. -/
inductive Body.Spelled : Body → List Token → Prop
  | origin {name : String} {e : Expr} {ts : List Token} (loc : Location)
      (hname : name.toUpper = "ORG") (he : e.Spelled 1 ts) :
      Spelled (.directive (.origin e loc)) (.mark .dot :: .identifier name :: ts)
  | data {name : String} {kind : DataKind} {i : DataItem} {items : List DataItem}
      {ts us : List Token} (loc : Location) (hname : name.toUpper = kind.name) (hi : i.Spelled ts)
      (hrest : DataItem.SpelledAfter items us) :
      Spelled (.directive (.data kind (i :: items) loc))
        (.mark .dot :: .identifier name :: (ts ++ us))
  | assign {name : String} {e : Expr} {ts : List Token} (loc : Location) (he : e.Spelled 1 ts) :
      Spelled (.directive (.assign name e loc)) (.identifier name :: .mark .equal :: ts)
  | statement {word : String} {mode : Mode} {e : Option Expr} {ts : List Token} (loc : Location)
      (hword : Instruction.isMnemonic word = true)
      (he : Instruction.OperandSpelled word.toUpper mode e ts)
      (hmode : Instruction.supports word.toUpper mode = true) :
      Spelled (.statement ⟨word.toUpper, mode, e, loc⟩) (.identifier word :: ts)

/-- The tokens of a label: its name and a colon. -/
def Label.tokens (l : Label) : List Token := [.identifier l.name, .mark .colon]

/-- The tokens spell what a line has behind its label. -/
def Line.BodySpelled (l : Line) (ts : List Token) : Prop :=
  (l.body = none ∧ ts = []) ∨ ∃ b, l.body = some b ∧ b.Spelled ts

end CrossAsm
