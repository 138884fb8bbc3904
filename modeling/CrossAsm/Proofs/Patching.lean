import Mathlib.Data.List.Basic
import CrossAsm.Proofs.Walk

/-!
What is filled in at the end, from the two lists that the walk leaves: when this is done without a
fault, and what it does to the payload.
-/

namespace CrossAsm

/-! ### One patch -/

namespace DeferredPatch

/-- The operand is known and no larger than its room allows. -/
def Fits (t : SymbolTable) (d : DeferredPatch) : Prop :=
  (d.operand.meaning t).fits (Assembly.State.operandMax d.width).toNat = true

def store (t : SymbolTable) (m : Payload) (d : DeferredPatch) : Payload :=
  m.fill d.address (d.bytes (d.operand.meaning t).word)

variable {t : SymbolTable} {d : DeferredPatch}

lemma settle_of_fits (h : d.Fits t) :
    d.settle t = ⟨d.address, d.bytes (d.operand.meaning t).word, []⟩ := by
  unfold Fits at h
  rcases hm : d.operand.meaning t with v | _ | _
  · have hv : ¬v > Assembly.State.operandMax d.width := by
      rw [gt_iff_lt, UInt32.lt_iff_toNat_lt]
      simpa [hm, Meaning.fits] using h
    simp only [settle, Operand.eval_of_value hm, if_neg hv, Meaning.word_value]
  · simp [hm, Meaning.fits] at h
  · simp [hm, Meaning.fits] at h

/-- What does not fit is reported. -/
lemma faults_settle_eq_nil : (d.settle t).faults = [] ↔ d.Fits t := by
  refine ⟨fun h => ?_, fun h => by rw [settle_of_fits h]⟩
  unfold Fits
  rcases hm : d.operand.meaning t with v | _ | _
  · simp only [settle, Operand.eval_of_value hm] at h
    split at h
    · cases h
    · next hv =>
      rw [gt_iff_lt, UInt32.lt_iff_toNat_lt] at hv
      simpa [Meaning.fits] using hv
  · simp only [settle, Operand.eval_of_unknown hm, reduceCtorEq] at h
  · obtain ⟨z, hz⟩ := Operand.eval_of_undefined hm
    simp only [settle, hz, reduceCtorEq] at h

end DeferredPatch

namespace BranchPatch

/-- The target is known and near enough. -/
def Reaches (t : SymbolTable) (d : BranchPatch) : Prop :=
  ∃ v, d.target.meaning t = .value v ∧
    -128 ≤ Assembly.State.branchOffset d v ∧ Assembly.State.branchOffset d v ≤ 127

def store (t : SymbolTable) (m : Payload) (d : BranchPatch) : Payload :=
  m.fill d.address [lowByte (Assembly.State.branchOffset d (d.target.meaning t).word)]

variable {t : SymbolTable} {d : BranchPatch}

lemma settle_of_reaches (h : d.Reaches t) : d.settle t =
    ⟨d.address, [lowByte (Assembly.State.branchOffset d (d.target.meaning t).word)], []⟩ := by
  obtain ⟨v, hm, hv⟩ := h
  simp only [settle, Operand.eval_of_value hm, if_pos hv, hm, Meaning.word_value, lowByte_ofInt]

/-- What is out of reach is reported. -/
lemma faults_settle_eq_nil : (d.settle t).faults = [] ↔ d.Reaches t := by
  refine ⟨fun h => ?_, fun h => by rw [settle_of_reaches h]⟩
  rcases hm : d.target.meaning t with v | _ | _
  · simp only [settle, Operand.eval_of_value hm] at h
    split at h
    · next hv => exact ⟨v, hm, hv⟩
    · cases h
  · simp only [settle, Operand.eval_of_unknown hm, reduceCtorEq] at h
  · obtain ⟨z, hz⟩ := Operand.eval_of_undefined hm
    simp only [settle, hz, reduceCtorEq] at h

end BranchPatch

/-! ### All patches -/

namespace Assembly.State

variable {s : State}

lemma applyDeferred_eq (d : DeferredPatch) (h : d.Fits s.symbols) :
    s.applyDeferred d = { s with payload := d.store s.symbols s.payload } := by
  rw [applyDeferred_eq_settle, DeferredPatch.settle_of_fits h]
  rfl

lemma resolveDeferred_symbols : s.resolveDeferred.symbols = s.symbols := by
  rw [resolveDeferred_eq_settle]

lemma resolveDeferred_branches : s.resolveDeferred.branches = s.branches := by
  rw [resolveDeferred_eq_settle]

/-- Nothing is at fault after settlements just if nothing was before, and none is. -/
lemma append_flatMap_eq_empty {faults : Array Diagnostic} {l : List Settlement} :
    faults ++ l.flatMap (·.faults) = #[] ↔ faults = #[] ∧ ∀ x ∈ l, x.faults = [] := by
  rw [← Array.toList_inj, Array.toList_appendList, Array.toList_empty, List.append_eq_nil_iff,
    List.flatMap_eq_nil_iff, Array.toList_eq_nil_iff]

lemma clean_resolveDeferred : s.resolveDeferred.Clean ↔
    s.Clean ∧ ∀ d ∈ s.deferred.toList, d.Fits s.symbols := by
  simp only [Clean, resolveDeferred_eq_settle, append_flatMap_eq_empty, List.forall_mem_map,
    DeferredPatch.faults_settle_eq_nil]

lemma clean_resolveBranches : s.resolveBranches.Clean ↔
    s.Clean ∧ ∀ d ∈ s.branches.toList, d.Reaches s.symbols := by
  simp only [Clean, resolveBranches_eq_settle, append_flatMap_eq_empty, List.forall_mem_map,
    BranchPatch.faults_settle_eq_nil]

/-- Settlements without a fault store something, and that is all. -/
lemma settle_map {α : Type} {g : α → Settlement} {store : Payload → α → Payload} {l : List α}
    (hfaults : ∀ a ∈ l, (g a).faults = []) (hstore : ∀ m, ∀ a ∈ l, m.settle (g a) = store m a)
    (m : Payload) :
    (l.map g).flatMap (·.faults) = [] ∧ (l.map g).foldl Payload.settle m = l.foldl store m := by
  refine ⟨List.flatMap_eq_nil_iff.mpr (List.forall_mem_map.mpr hfaults), ?_⟩
  rw [List.foldl_map]
  exact List.foldl_ext _ _ m hstore

lemma resolveDeferred_eq (h : ∀ d ∈ s.deferred.toList, d.Fits s.symbols) :
    ∃ events, s.resolveDeferred =
      { s with
        deferred := #[]
        events := events
        payload := s.deferred.toList.foldl (DeferredPatch.store s.symbols) s.payload } := by
  obtain ⟨hfaults, hpayload⟩ := settle_map (g := (·.settle s.symbols))
    (fun d hd => DeferredPatch.faults_settle_eq_nil.mpr (h d hd))
    (fun m d hd => congrArg m.settle (DeferredPatch.settle_of_fits (h d hd))) s.payload
  rw [resolveDeferred_eq_settle, hfaults, hpayload]
  exact ⟨_, rfl⟩

lemma resolveBranches_eq (h : ∀ d ∈ s.branches.toList, d.Reaches s.symbols) :
    ∃ events, s.resolveBranches =
      { s with
        branches := #[]
        events := events
        payload := s.branches.toList.foldl (BranchPatch.store s.symbols) s.payload } := by
  obtain ⟨hfaults, hpayload⟩ := settle_map (g := (·.settle s.symbols))
    (fun d hd => BranchPatch.faults_settle_eq_nil.mpr (h d hd))
    (fun m d hd => congrArg m.settle (BranchPatch.settle_of_reaches (h d hd))) s.payload
  rw [resolveBranches_eq_settle, hfaults, hpayload]
  exact ⟨_, rfl⟩

end Assembly.State

end CrossAsm
