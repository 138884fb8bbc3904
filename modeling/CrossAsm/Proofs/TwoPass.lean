import Mathlib.Tactic.Common
import CrossAsm.Assembly
import CrossAsm.Proofs.Meaning

/-!
An assembler in two passes, to compare with. The first pass goes over the lines with a program
counter and the names known so far; it gives every line its place and every name its value. The
second pass encodes each line by itself, with all names known. What the first pass could not know
stays in force in the second: an operand that was unknown then keeps its wide form, and an entry of
a data directive that was unknown then is left out.
-/

namespace CrossAsm

/-- The low byte of a number, negative ones in two's complement. -/
def lowByte (n : Int) : UInt8 := UInt8.ofNat (n % 256).toNat

/-- The byte above the low byte. -/
def highByte (n : Nat) : UInt8 := lowByte (n / 256 : Nat)

/-- The way of a branch at an address, from the byte after its two to the target. -/
def distance (address target : Nat) : Int := (target : Int) - (address + 2 : Nat)

namespace Meaning

def isKnown : Meaning → Bool
  | value _ => true
  | _ => false

/-- A value, and no larger than `max`. -/
def fits (max : Nat) : Meaning → Bool
  | value v => v.toNat ≤ max
  | _ => false

/-- No division by zero, and no larger than `max` if it is a value. -/
def mayFit (max : Nat) : Meaning → Bool
  | value v => v.toNat ≤ max
  | unknown => true
  | undefined => false

/-- A value that a branch at an address can reach. -/
def isReachedFrom (address : Nat) : Meaning → Bool
  | value v => -128 ≤ distance address v.toNat && distance address v.toNat ≤ 127
  | _ => false

end Meaning

/-! ### Statements and data -/

namespace Statement

/-- What the operand means; a statement without one waits for nothing. -/
def meaning (names : Names) (s : Statement) : Meaning :=
  s.operand.elim (.value 0) (·.meaning names)

def codes (s : Statement) : Instruction.Opcodes := Instruction.opcodes s.mnemonic s.mode

/-- Whether an address takes one byte only: there is such a form, and either no other or a value
known to fit. -/
def isShort (known : Names) (s : Statement) : Bool :=
  s.codes.zeroPage.isSome && (s.codes.full.isNone || (s.meaning known).fits 0xFF)

/-- How many bytes a statement takes, given the names known when it is met. -/
def size (known : Names) (s : Statement) : Nat :=
  match s.mode with
  | .implied => 1
  | .immediate | .indexedIndirect | .indirectIndexed | .relative => 2
  | .indexedX | .indexedY | .absolute | .indirect => if s.isShort known then 2 else 3

/-- The largest operand: two bytes where an address has a form with two, else one. -/
def limit (s : Statement) : Nat :=
  match s.mode with
  | .indexedX | .indexedY | .absolute | .indirect => if s.codes.full.isSome then 0xFFFF else 0xFF
  | _ => 0xFF

def fullCode (s : Statement) : UInt8 := s.codes.full.getD 0

def zeroPageCode (s : Statement) : UInt8 := s.codes.zeroPage.getD 0

/-- The bytes of a statement at an address. The names known when it is met decide on the form, and
all names on the operand. -/
def bytes (known all : Names) (address : Nat) (s : Statement) : List UInt8 :=
  let value := (s.meaning all).word.toNat
  match s.mode with
  | .implied => [s.fullCode]
  | .relative => [s.fullCode, lowByte (distance address value)]
  | .immediate | .indexedIndirect | .indirectIndexed => [s.fullCode, lowByte value]
  | .indexedX | .indexedY | .absolute | .indirect =>
    if s.isShort known then [s.zeroPageCode, lowByte value]
    else [s.fullCode, lowByte value, highByte value]

end Statement

namespace DataKind

def width : DataKind → Nat
  | byte => 1
  | word | dbyte => 2

def encode : DataKind → Nat → List UInt8
  | byte, n => [lowByte n]
  | word, n => [lowByte n, highByte n]
  | dbyte, n => [highByte n, lowByte n]

end DataKind

namespace DataItem

/-- How many values the entry contributes, given the names known when it is met. -/
def count (known : Names) : DataItem → Nat
  | expr e => if (e.meaning known).isKnown then 1 else 0
  | string text _ => text.length

/-- The values the entry contributes: an expression only if it was known when it was met. -/
def values (known all : Names) : DataItem → List Nat
  | expr e => if (e.meaning known).isKnown then [(e.meaning all).word.toNat] else []
  | string text _ => text.toList.map fun c => c.val.toNat

def totalCount (known : Names) : List DataItem → Nat
  | [] => 0
  | i :: rest => i.count known + totalCount known rest

end DataItem

namespace Body

def size (known : Names) : Body → Nat
  | directive (.data kind items _) => kind.width * DataItem.totalCount known items
  | directive _ => 0
  | statement s => s.size known

def bytes (known all : Names) (address : Nat) : Body → List UInt8
  | directive (.data kind items _) => (items.flatMap (·.values known all)).flatMap kind.encode
  | directive _ => []
  | statement s => s.bytes known all address

end Body

namespace Line

/-- The name a line defines by its label. -/
def labelName (l : Line) : List String := (l.label.map (·.name)).toList

/-- The name a line defines by an assignment. -/
def assigned (l : Line) : List String :=
  match l.body with
  | some (.directive (.assign name _ _)) => [name]
  | _ => []

/-- The names a line defines. -/
def definitions (l : Line) : List String := l.labelName ++ l.assigned

end Line

/-! ### The first pass -/

namespace TwoPass

/-- Where the first pass stands. -/
structure Progress where
  counter : Nat
  names : Names

/-- A line with what the first pass finds out about it. -/
structure Placed where
  line : Line
  start : Nat
  /-- The names known when the body of the line is met. -/
  known : Names

namespace Progress

def init : Progress := ⟨0, .empty⟩

def define (t : Progress) (name : String) (value : UInt32) : Progress :=
  { t with names := t.names.define name value }

/-- A label stands for the program counter. -/
def enter (t : Progress) (l : Line) : Progress :=
  match l.label with
  | some label => t.define label.name (UInt32.ofNat t.counter)
  | none => t

/-- What a directive says about the counter and the names, if its expression is known. -/
def direct (t : Progress) : Option Body → Progress
  | some (.directive (.origin e _)) =>
    match e.meaning t.names with
    | .value v => { t with counter := v.toNat }
    | _ => t
  | some (.directive (.assign name e _)) =>
    match e.meaning t.names with
    | .value v => t.define name v
    | _ => t
  | _ => t

/-- The place of a line that is met now. -/
def placed (t : Progress) (l : Line) : Placed :=
  ⟨l, ((t.enter l).direct l.body).counter, (t.enter l).names⟩

/-- The progress after a line. -/
def after (t : Progress) (l : Line) : Progress :=
  let u := (t.enter l).direct l.body
  { u with counter := u.counter + l.body.elim 0 (Body.size (t.enter l).names) }

end Progress

/-- The lines in their places. -/
def layout : Progress → List Line → List Placed
  | _, [] => []
  | t, l :: rest => t.placed l :: layout (t.after l) rest

/-- The progress after all lines. -/
def final : Progress → List Line → Progress
  | t, [] => t
  | t, l :: rest => final (t.after l) rest

/-! ### The second pass -/

namespace Placed

def size (p : Placed) : Nat := p.line.body.elim 0 (Body.size p.known)

def bytes (all : Names) (p : Placed) : List UInt8 :=
  p.line.body.elim [] (Body.bytes p.known all p.start)

/-- The byte for an address, if the line has one. -/
def byteFor (all : Names) (p : Placed) (address : Nat) : Option UInt8 :=
  if p.start ≤ address then (p.bytes all)[address - p.start]? else none

def Covers (p : Placed) (address : Nat) : Prop :=
  p.start ≤ address ∧ address < p.start + p.size

instance (p : Placed) (address : Nat) : Decidable (p.Covers address) :=
  inferInstanceAs (Decidable (_ ∧ _))

/-- The record of the line. -/
def codeLine (p : Placed) : CodeLine where
  start := UInt32.ofNat p.start
  length := UInt32.ofNat p.size
  label := p.line.label.map (·.name)
  text := Listing.join p.line.terminals
  line := p.line.loc.line

end Placed

/-- What a program has to satisfy to be assembled. -/
structure Acceptable (lines : List Line) : Prop where
  distinct : (lines.flatMap Line.definitions).Nodup
  assignments : ∀ p ∈ layout .init lines, ∀ name e loc,
    p.line.body = some (.directive (.assign name e loc)) → (e.meaning p.known).isKnown
  origins : ∀ p ∈ layout .init lines, ∀ e loc,
    p.line.body = some (.directive (.origin e loc)) → (e.meaning p.known).mayFit 0xFFFF
  entries : ∀ p ∈ layout .init lines, ∀ kind items loc,
    p.line.body = some (.directive (.data kind items loc)) →
      ∀ m ∈ items.flatMap (·.meanings p.known), m.mayFit kind.maxValue
  operands : ∀ p ∈ layout .init lines, ∀ s, p.line.body = some (.statement s) →
    s.mode ≠ .implied → s.mode ≠ .relative →
      (s.meaning (final .init lines).names).fits s.limit
  branches : ∀ p ∈ layout .init lines, ∀ s, p.line.body = some (.statement s) →
    s.mode = .relative → (s.meaning (final .init lines).names).isReachedFrom p.start
  room : ∀ p ∈ layout .init lines, 0 < p.size → p.start + p.size ≤ 0x10000

/-- The byte at an address, from the first line that has one. -/
def byteAt (lines : List Line) (address : Nat) : UInt8 :=
  let all := (final .init lines).names
  ((layout .init lines).findSome? (·.byteFor all address)).getD unmappedByte

/-- What the two passes make of a program. -/
structure Produces (lines : List Line) (a : Assembly) : Prop where
  codeLines : a.codeLines = (layout .init lines).map Placed.codeLine
  inRange : ∀ p ∈ layout .init lines, p.start + p.size ≤ 0x10000
  symbols : a.symbols.value? = (final .init lines).names
  addresses : ∀ address : UInt32, (∃ b ∈ a.blocks, b.contains address = true) ↔
    ∃ p ∈ layout .init lines, p.Covers address.toNat
  bytes : ∀ address : UInt32, Memory.byteAt a.blocks address = byteAt lines address.toNat

end TwoPass

end CrossAsm
