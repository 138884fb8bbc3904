import Mathlib.Tactic.Common
import CrossAsm.Assembly.Resolve
import CrossAsm.Proofs.Emission

/-!
What becomes of the patches at the end, whether they are at fault or not. A patch is settled by some
bytes from its address on, which may be none, and by what is reported; both depend on the symbols
alone. So the two passes settle one patch after the other.
-/

namespace CrossAsm

open Assembly.State (operandMax branchOffset)

/-- What becomes of a patch: bytes from an address on, and what is reported. -/
structure Settlement where
  address : UInt32
  bytes : List UInt8
  faults : List Diagnostic

namespace DeferredPatch

/-- The bytes for the room. -/
def bytes (d : DeferredPatch) (value : UInt32) : List UInt8 :=
  d.opcode :: value.toUInt8 :: if d.width = 3 then [(value >>> 8).toUInt8] else []

/-- Without a value nothing is stored; a value that is too large leaves the opcode alone. -/
def settle (t : SymbolTable) (p : DeferredPatch) : Settlement :=
  match p.operand.eval t with
  | .ok (some value) =>
    if value > operandMax p.width then
      ⟨p.address, [p.opcode], [(Fault.operandTooLarge p.operand.text value
        (operandMax p.width).toNat).diagnose p.loc]⟩
    else ⟨p.address, p.bytes value, []⟩
  | .ok none => ⟨p.address, [], [(Fault.unresolved p.operand.text).diagnose p.loc]⟩
  | .error z => ⟨p.address, [], [z.fault.diagnose z.loc]⟩

end DeferredPatch

namespace BranchPatch

/-- A target that is unknown or out of reach leaves nothing. -/
def settle (t : SymbolTable) (p : BranchPatch) : Settlement :=
  match p.target.eval t with
  | .ok (some target) =>
    if -128 ≤ branchOffset p target ∧ branchOffset p target ≤ 127 then
      ⟨p.address, [UInt8.ofInt (branchOffset p target)], []⟩
    else
      ⟨p.address, [], [(Fault.targetTooFar (p.address + 1) p.target.text target
        (branchOffset p target)).diagnose p.target.loc]⟩
  | .ok none => ⟨p.address, [], [(Fault.unresolvedTarget p.target.text).diagnose p.target.loc]⟩
  | .error z => ⟨p.address, [], [z.fault.diagnose z.loc]⟩

end BranchPatch

def Payload.settle (m : Payload) (x : Settlement) : Payload := m.fill x.address x.bytes

namespace Assembly.State

variable (s : State)

def settle (x : Settlement) : State :=
  { s with payload := s.payload.settle x, faults := s.faults ++ x.faults }

lemma applyDeferred_eq_settle (p : DeferredPatch) :
    s.applyDeferred p = s.settle (p.settle s.symbols) := by
  rcases heval : p.operand.eval s.symbols with z | _ | value
  · simp only [applyDeferred, DeferredPatch.settle, heval]
    rfl
  · simp only [applyDeferred, DeferredPatch.settle, heval]
    rfl
  · simp only [applyDeferred, DeferredPatch.settle, heval]
    split
    · rfl
    · have htwo : p.address + 1 + 1 = p.address + 2 := by
        rw [UInt32.add_assoc]
        rfl
      simp only [settle, Payload.settle, DeferredPatch.bytes, Payload.fill_cons, htwo]
      split <;> rfl

lemma applyBranch_eq_settle (p : BranchPatch) :
    s.applyBranch p = s.settle (p.settle s.symbols) := by
  rcases heval : p.target.eval s.symbols with z | _ | target
  · simp only [applyBranch, BranchPatch.settle, heval]
    rfl
  · simp only [applyBranch, BranchPatch.settle, heval]
    rfl
  · simp only [applyBranch, BranchPatch.settle, heval]
    split <;> rfl

/-! ### The two passes -/

lemma foldl_settle (l : List Settlement) : l.foldl settle s =
    { s with
      payload := l.foldl Payload.settle s.payload
      faults := s.faults ++ l.flatMap (·.faults) } := by
  induction l generalizing s with
  | nil => simp
  | cons x rest ih =>
    have hfaults : s.faults ++ x.faults ++ rest.flatMap (·.faults) =
        s.faults ++ (x :: rest).flatMap (·.faults) := by
      apply Array.toList_inj.mp
      simp
    rw [List.foldl_cons, ih, ← hfaults]
    rfl

/-- Steps that settle something by the symbols do so by the symbols there are at first. -/
lemma foldl_eq_settle {α : Type} {f : State → α → State} {g : SymbolTable → α → Settlement}
    (hf : ∀ (t : State) (a : α), f t a = t.settle (g t.symbols a)) (l : List α) :
    l.foldl f s = (l.map (g s.symbols)).foldl settle s := by
  induction l generalizing s with
  | nil => rfl
  | cons a rest ih =>
    rw [List.foldl_cons, hf, ih]
    rfl

lemma resolveDeferred_eq_settle : s.resolveDeferred =
    { s with
      deferred := #[]
      events := s.events.push (.resolvingOperands s.deferred.size)
      payload := (s.deferred.toList.map (·.settle s.symbols)).foldl Payload.settle s.payload
      faults := s.faults ++ (s.deferred.toList.map (·.settle s.symbols)).flatMap (·.faults) } := by
  simp only [resolveDeferred, ← Array.foldl_toList]
  rw [foldl_eq_settle _ applyDeferred_eq_settle, foldl_settle]
  rfl

lemma resolveBranches_eq_settle : s.resolveBranches =
    { s with
      branches := #[]
      events := s.events.push (.resolvingBranches s.branches.size)
      payload := (s.branches.toList.map (·.settle s.symbols)).foldl Payload.settle s.payload
      faults := s.faults ++ (s.branches.toList.map (·.settle s.symbols)).flatMap (·.faults) } := by
  simp only [resolveBranches, ← Array.foldl_toList]
  rw [foldl_eq_settle _ applyBranch_eq_settle, foldl_settle]
  rfl

end Assembly.State

end CrossAsm
