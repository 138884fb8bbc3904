import CrossAsm.Assembly.Encode

/-!
What is left for the end: operands and branch targets that had to wait for their symbols.
-/

namespace CrossAsm.Assembly.State

/-- The largest operand of an instruction that is `width` bytes wide. -/
def operandMax (width : Nat) : UInt32 := if width ≥ 3 then 0xFFFF else 0xFF

def applyDeferred (s : State) (p : DeferredPatch) : State :=
  match p.operand.eval s.symbols with
  | .ok (some value) =>
    let s := s.patch p.address p.opcode
    if value > operandMax p.width then
      s.report (.operandTooLarge p.operand.text value (operandMax p.width).toNat) p.loc
    else
      let s := s.patch (p.address + 1) value.toUInt8
      if p.width = 3 then s.patch (p.address + 2) (value >>> 8).toUInt8 else s
  | .ok none => s.report (.unresolved p.operand.text) p.loc
  | .error z => s.reportZero z

def resolveDeferred (s : State) : State :=
  let waiting := s.deferred
  waiting.foldl applyDeferred
    ({ s with deferred := #[] }.log (.resolvingOperands waiting.size))

/-- The way from the byte after the offset to the target. -/
def branchOffset (p : BranchPatch) (target : UInt32) : Int :=
  (target.toNat : Int) - ((p.address + 1).toNat : Int)

def applyBranch (s : State) (p : BranchPatch) : State :=
  match p.target.eval s.symbols with
  | .ok (some target) =>
    let offset := branchOffset p target
    if -128 ≤ offset ∧ offset ≤ 127 then s.patch p.address (UInt8.ofInt offset)
    else s.report (.targetTooFar (p.address + 1) p.target.text target offset) p.target.loc
  | .ok none => s.report (.unresolvedTarget p.target.text) p.target.loc
  | .error z => s.reportZero z

def resolveBranches (s : State) : State :=
  let waiting := s.branches
  waiting.foldl applyBranch
    ({ s with branches := #[] }.log (.resolvingBranches waiting.size))

end CrossAsm.Assembly.State
