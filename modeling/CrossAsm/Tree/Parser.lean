import CrossAsm.Log
import CrossAsm.Tree.Cursor
import CrossAsm.Tree.Line

/-!
Reading lexemes into lines by recursive descent. A fault ends the physical line it stands in, and
reading goes on with the next one.
-/

namespace CrossAsm.Parser

def additive? : Token → Option BinaryOp
  | .mark .plus => some .add
  | .mark .minus => some .sub
  | _ => none

def multiplicative? : Token → Option BinaryOp
  | .mark .star => some .mul
  | .mark .slash => some .div
  | .mark .percent => some .mod
  | _ => none

/-- An operation stands where its left operand starts and covers both operands. -/
def join (left : Expr) (op : BinaryOp) (right : Expr) : Expr :=
  .binary op left right (left.loc.through right.loc)

/-- Operators and operands that follow `left`, at most `count` of each, grouped to the left. -/
def chainFrom (op? : Token → Option BinaryOp) (operand : Cursor → Outcome Expr) :
    Nat → Expr → Cursor → Outcome Expr
  | 0, left, c => .ok left c
  | count + 1, left, c =>
    match c.peek.bind op? with
    | none => .ok left c
    | some op => (operand c.advance).bind fun right c =>
      chainFrom op? operand count (join left op right) c

/-- Operands with at most `count` operators of one level between them. -/
def chain (op? : Token → Option BinaryOp) (operand : Cursor → Outcome Expr) (count : Nat)
    (c : Cursor) : Outcome Expr :=
  (operand c).bind fun left c => chainFrom op? operand count left c

/-- A number, a character, a symbol, or an expression in parentheses, which `inner` reads. -/
def factorWith (inner : Cursor → Outcome Expr) (c : Cursor) : Outcome Expr :=
  match c.peek with
  | some (.number v) => .ok (.number v c.location) c.advance
  | some (.char code) => .ok (.number code c.location) c.advance
  | some (.identifier name) => .ok (.symbol name c.location) c.advance
  | some (.mark .leftParen) => (inner c.advance).bind fun e d =>
    (d.expect (.mark .rightParen) "Expected ')' after expression").bind fun close d =>
      .ok (.group e (c.location.through (c.lines.locate close.span))) d
  | found => c.fail (.noExpression found)

def termWith (inner : Cursor → Outcome Expr) (count : Nat) : Cursor → Outcome Expr :=
  chain multiplicative? (factorWith inner) count

def sumWith (inner : Cursor → Outcome Expr) (count : Nat) : Cursor → Outcome Expr :=
  chain additive? (termWith inner count) count

/-- An expression on a line with no more than the given number of lexemes left. An operand takes
one of them, so the rest bounds the operators that follow and the depth of parentheses. -/
def expressionUpTo : Nat → Cursor → Outcome Expr
  | 0, c => c.fail (.noExpression c.peek)
  | count + 1, c => sumWith (expressionUpTo count) count c

/-- An expression. It never goes past the end of the line. -/
def expression (c : Cursor) : Outcome Expr := expressionUpTo c.room c

def term (c : Cursor) : Outcome Expr := termWith (expressionUpTo c.room) c.room c

def factor (c : Cursor) : Outcome Expr := factorWith (expressionUpTo c.room) c

inductive Register where
  | x | y
deriving DecidableEq

def Register.ofToken? : Token → Option Register
  | .identifier name =>
    if name.toUpper = "X" then some .x else if name.toUpper = "Y" then some .y else none
  | _ => none

def indexRegister (c : Cursor) : Outcome Register :=
  match c.peek.bind Register.ofToken? with
  | some r => .ok r c.advance
  | none => c.fail (.expected "Expected index register X or Y" c.peek)

/-- Whether what is ahead belongs to the mnemonic right behind. -/
def operandFollows (c : Cursor) : Bool :=
  match c.peek with
  | none | some (.mark .newline) | some (.mark .dot) => false
  | some (.identifier name) =>
    !c.identifierThen (.mark .colon) && !c.identifierThen (.mark .equal)
      && !Instruction.isMnemonic name
  | some _ => true

/-- The rest of an operand that started with a bracket. -/
def indirectOperand (c : Cursor) : Outcome (Mode × Option Expr) :=
  (expression c).bind fun e c =>
    match c.accept? (.mark .comma) with
    | some c => (indexRegister c).bind fun r c =>
      if r = .x then
        (c.expect (.mark .rightBracket) "Expected ']' after index register").bind fun _ c =>
          .ok (.indexedIndirect, some e) c
      else c.fail .registerNotX
    | none =>
      (c.expect (.mark .rightBracket) "Expected ']' after indirect address").bind fun _ c =>
        match c.accept? (.mark .comma) with
        | some c => (indexRegister c).bind fun r c =>
          if r = .y then .ok (.indirectIndexed, some e) c else c.fail .registerNotY
        | none => .ok (.indirect, some e) c

/-- An address, with an index register or without. -/
def addressOperand (c : Cursor) : Outcome (Mode × Option Expr) :=
  (expression c).bind fun e c =>
    match c.accept? (.mark .comma) with
    | some c => (indexRegister c).map fun r =>
      (if r = .x then .indexedX else .indexedY, some e)
    | none => .ok (.absolute, some e) c

/-- Whether the accumulator is ahead. -/
def atAccumulator (c : Cursor) : Bool :=
  match c.peek with
  | some (.identifier name) => name.toUpper = "A"
  | _ => false

/-- The operand of a mnemonic. Its spelling decides on the mode; only branches are relative. -/
def operand (mnemonic : String) (c : Cursor) : Outcome (Mode × Option Expr) :=
  if Instruction.isBranch mnemonic then
    (expression c).map fun e => (.relative, some e)
  else if Instruction.isImpliedOnly mnemonic || !operandFollows c then
    .ok (.implied, none) c
  else if atAccumulator c && Instruction.supports mnemonic .implied then
    .ok (.implied, none) c.advance
  else
    match c.accept? (.mark .hash) with
    | some c => (expression c).map fun e => (.immediate, some e)
    | none =>
      match c.accept? (.mark .leftBracket) with
      | some c => indirectOperand c
      | none => addressOperand c

def statement (c : Cursor) : Outcome Statement :=
  match c.peek with
  | some (.identifier word) =>
    if Instruction.isMnemonic word then
      (operand word.toUpper c.advance).bind fun (mode, operand) d =>
        if Instruction.supports word.toUpper mode then
          .ok ⟨word.toUpper, mode, operand, c.location⟩ d
        else .fail ((Fault.unsupportedMode word.toUpper mode).diagnose c.location) d
    else c.fail (.unknownMnemonic word)
  | _ => c.fail .noInstruction

def dataItem (c : Cursor) : Outcome DataItem :=
  match c.peek with
  | some (.string text) => .ok (.string text c.location) c.advance
  | _ => (expression c).map .expr

/-- The items that follow one, each after a comma, at most `count` of them. -/
def dataItemsFrom : Nat → Cursor → Outcome (List DataItem)
  | 0, c => .ok [] c
  | count + 1, c =>
    match c.accept? (.mark .comma) with
    | none => .ok [] c
    | some c => (dataItem c).bind fun item c =>
      (dataItemsFrom count c).map (item :: ·)

def dataItems (c : Cursor) : Outcome (List DataItem) :=
  (dataItem c).bind fun item c => (dataItemsFrom c.room c).map (item :: ·)

def directive (c : Cursor) : Outcome Directive :=
  (c.expect (.mark .dot) "Expected '.'").bind fun _ d =>
    match d.peek with
    | some (.identifier name) =>
      if name.toUpper = "ORG" then (expression d.advance).map (.origin · c.location)
      else match DataKind.ofName? name.toUpper with
        | some kind => (dataItems d.advance).map (.data kind · c.location)
        | none => d.fail (.unknownDirective name)
    | _ => d.fail .noDirectiveName

def assignment (c : Cursor) : Outcome Directive :=
  match c.peek with
  | some (.identifier name) =>
    (c.advance.expect (.mark .equal) "Expected '=' after symbol name").bind fun _ d =>
      (expression d).map (.assign name · c.location)
  | _ => c.advance.fail .noSymbolName

def body (c : Cursor) : Outcome (Option Body) :=
  if c.atLineEnd || c.identifierThen (.mark .colon) then .ok none c
  else if c.check (.mark .dot) then (directive c).map fun d => some (.directive d)
  else if c.identifierThen (.mark .equal) then (assignment c).map fun d => some (.directive d)
  else if c.check .identifier then (statement c).map fun s => some (.statement s)
  else c.fail (.expected "Expected label, directive or instruction" c.peek)

/-- The label ahead, with its colon. -/
def label? (c : Cursor) : Option (Label × Cursor) :=
  match c.peek with
  | some (.identifier name) =>
    if c.identifierThen (.mark .colon) then some (⟨name, c.location⟩, c.advance.advance) else none
  | _ => none

/-- The texts of lexemes. If `merge` is set, a comma and the index register after it are one. -/
def terminals (merge : Bool) : List Lexeme → List String
  | [] => []
  | [l] => [l.text]
  | l :: r :: rest =>
    if merge && l.token = .mark .comma && (Register.ofToken? r.token).isSome then
      (l.text ++ r.text) :: terminals merge rest
    else l.text :: terminals merge (r :: rest)

/-- A logical line. If its body is at fault its label still counts, and the fault comes with it. -/
def line (c : Cursor) : Outcome (Line × Option Diagnostic) :=
  match label? c with
  | none =>
    (body c).bind fun b d =>
      .ok (⟨none, b, terminals (b.any Body.isStatement) (c.upTo d), c.location⟩, none) d
  | some (label, start) =>
    match body start with
    | .ok b d =>
      .ok (⟨some label, b, terminals (b.any Body.isStatement) (start.upTo d), c.location⟩, none) d
    | .fail fault d =>
      let d := d.skipLine
      .ok (⟨some label, none, terminals false (start.upTo d), c.location⟩, some fault) d

end Parser

/-- What reading a source gives: its lines, its faults, and what is to be logged. -/
structure Program where
  lines : List Line
  faults : List Diagnostic
  events : List Event
deriving DecidableEq

namespace Parser

/-- The lines ahead, at most `count` of them, and where they end. -/
def programUpTo : Nat → Cursor → Program × Cursor
  | 0, c => (⟨[], [], []⟩, c)
  | count + 1, c =>
    let c := c.skipNewlines
    if c.atEnd then (⟨[], [], []⟩, c)
    else
      match line c with
      | .ok (l, fault) d =>
        let (rest, last) := programUpTo count d
        ({ rest with lines := l :: rest.lines, faults := fault.toList ++ rest.faults }, last)
      | .fail fault d =>
        let (rest, last) := programUpTo count d.skipLine
        ({ rest with
            faults := fault :: rest.faults
            events := .lineSkipped fault.line :: rest.events }, last)

/-- All lines ahead. Every line takes a lexeme at least. -/
def program (c : Cursor) : Program × Cursor := programUpTo c.ahead.length c

/-- Reads the lexemes of a source. -/
def parse (lines : LineMap) (lexemes : List Lexeme) : Program :=
  (program (.start lines lexemes)).1

end Parser

end CrossAsm
