import Mathlib.Data.List.Basic
import Mathlib.Tactic.Common
import CrossAsm.Proofs.Patching

/-!
The payload in the end is the outcome of three rounds of writes, each in the order of the lines: one
while the lines are met, one for the operands that had to wait, and one for the offsets of branches.
The later rounds write what the second pass gives these lines.
-/

namespace CrossAsm

/-! ### Statements that wait -/

namespace Statement

variable {s : Statement} {known : Names}

/-- A statement whose operand is unknown takes its wide form if there is one. -/
lemma isShort_of_unknown (hm : s.meaning known = .unknown) :
    s.isShort known = (s.codes.zeroPage.isSome && s.codes.full.isNone) := by
  simp [isShort, hm, Meaning.fits]

/-- The room for an operand is as wide as its largest value asks for. -/
lemma operandMax_size (hst : s.Sound) (hi : s.mode ≠ .implied) (hr : s.mode ≠ .relative)
    (hm : s.meaning known = .unknown) :
    (Assembly.State.operandMax (s.size known)).toNat = s.limit := by
  rcases Mode.shape_of_operand hi hr with hshape | hshape
  · rw [size_of_byte hshape, limit_of_byte hshape]
    rfl
  · rw [size_of_address hshape, limit_of_address hshape, isShort_of_unknown hm]
    rcases Assembly.State.codes_cases hst with ⟨hf, hz⟩ | ⟨hf, hz⟩ | ⟨hf, hz⟩ <;>
      simp [hf, hz, Assembly.State.operandMax]

/-- What fills the room is what the second pass gives the statement. -/
lemma bytes_patch (hi : s.mode ≠ .implied) (hr : s.mode ≠ .relative) (known all : Names)
    (address : Nat) (o : Operand) (a : UInt32) (loc : Location) :
    (⟨s.code known, s.size known, o, a, loc⟩ : DeferredPatch).bytes (s.meaning all).word =
      s.bytes known all address := by
  rcases Mode.shape_of_operand hi hr with hshape | hshape
  · have hshort := s.isShort_eq_false (Mode.zeroPageForm?_of_byte hshape) known
    simp [DeferredPatch.bytes, code, hshort, size_of_byte hshape, bytes_of_byte hshape,
      lowByte_toNat]
  · rw [bytes_of_address hshape, lowByte_toNat, highByte_toNat]
    by_cases hshort : s.isShort known = true
    · simp [DeferredPatch.bytes, code, size_of_address hshape, hshort]
    · simp [DeferredPatch.bytes, code, size_of_address hshape, hshort]

end Statement

/-! ### The rounds -/

namespace TwoPass.Placed

/-- A branch; its offset comes in the last round. -/
def isBranch (p : Placed) : Bool :=
  match p.line.body with
  | some (.statement s) => s.mode = .relative
  | _ => false

/-- A statement whose operand is unknown when it is met; its bytes come in the second round. -/
def waits (p : Placed) : Bool :=
  match p.line.body with
  | some (.statement s) => s.mode ≠ .relative && s.meaning p.known = .unknown
  | _ => false

/-- What the second round writes for a line. -/
def late (all : Names) (p : Placed) : List Write :=
  if p.waits then [⟨p.start, p.bytes all⟩] else []

/-- What the last round writes for a line. -/
def offset (all : Names) (p : Placed) : List Write :=
  if p.isBranch then [⟨p.start + 1, (p.bytes all).drop 1⟩] else []

/-- The line goes through in the later rounds. -/
structure Resolves (all : Names) (p : Placed) : Prop where
  operand : ∀ s, p.line.body = some (.statement s) → s.mode ≠ .relative →
    s.meaning p.known = .unknown → (s.meaning all).fits s.limit = true
  target : ∀ s, p.line.body = some (.statement s) → s.mode = .relative →
    (s.meaning all).isReachedFrom p.start = true

variable {p : Placed} {t : SymbolTable}

lemma deferred_cases (p : Placed) :
    (p.waits = false ∧ p.deferred = []) ∨
    ∃ s e, p.line.body = some (.statement s) ∧ s.operand = some e ∧ s.mode ≠ .relative ∧
      s.meaning p.known = .unknown ∧ p.waits = true ∧
      p.deferred =
        [⟨s.code p.known, s.size p.known, e.toOperand, UInt32.ofNat p.start, s.loc⟩] := by
  rcases hb : p.line.body with _ | (d | s)
  · simp [waits, deferred, hb]
  · simp [waits, deferred, hb]
  · by_cases hr : s.mode = .relative
    · simp [waits, deferred, hb, hr, Statement.deferred]
    · by_cases hm : s.meaning p.known = .unknown
      · rcases he : s.operand with _ | e
        · simp [Statement.meaning, he] at hm
        · refine .inr ⟨s, e, rfl, he, hr, hm, ?_, ?_⟩
          · simp [waits, hb, hr, hm]
          · simp [deferred, hb, Statement.deferred, hr, hm, he]
      · simp [waits, deferred, hb, hr, hm, Statement.deferred]

lemma branches_cases (hl : p.line.Sound) :
    (p.isBranch = false ∧ p.branches = []) ∨
    ∃ s e, p.line.body = some (.statement s) ∧ s.operand = some e ∧ s.mode = .relative ∧
      p.isBranch = true ∧ p.branches = [⟨UInt32.ofNat (p.start + 1), e.toOperand⟩] := by
  rcases hb : p.line.body with _ | (d | s)
  · simp [isBranch, branches, hb]
  · simp [isBranch, branches, hb]
  · by_cases hr : s.mode = .relative
    · have hs : s.Sound := hl _ hb
      obtain ⟨e, he⟩ := hs.operand_of_hasOperand (by simp [hr])
      refine .inr ⟨s, e, rfl, he, hr, ?_, ?_⟩
      · simp [isBranch, hb, hr]
      · simp [branches, hb, Statement.branches, hr, he]
    · simp [isBranch, branches, hb, hr, Statement.branches]

lemma bytes_of_statement {s : Statement} (hb : p.line.body = some (.statement s)) (all : Names) :
    p.bytes all = s.bytes p.known all p.start := by
  simp [bytes, hb, Body.bytes]

lemma not_implied_of_unknown {s : Statement} (hs : s.Sound) {known : Names}
    (hm : s.meaning known = .unknown) : s.mode ≠ .implied := by
  intro hi
  simp [Statement.meaning, hs.operand_of_implied hi] at hm

/-! #### The second round -/

lemma forall_deferred_iff (hl : p.line.Sound) :
    (∀ d ∈ p.deferred, d.Fits t) ↔
      ∀ s, p.line.body = some (.statement s) → s.mode ≠ .relative →
        s.meaning p.known = .unknown → (s.meaning t.value?).fits s.limit = true := by
  rcases p.deferred_cases with ⟨hw, hd⟩ | ⟨s, e, hb, he, hr, hm, -, hd⟩
  · rw [hd]
    simp only [List.not_mem_nil, false_imp_iff, implies_true, true_iff]
    intro s hb hr hm
    simp [waits, hb, hr, hm] at hw
  · have hi := not_implied_of_unknown (hl _ hb) hm
    have hfit : DeferredPatch.Fits t
        ⟨s.code p.known, s.size p.known, e.toOperand, UInt32.ofNat p.start, s.loc⟩ ↔
        (s.meaning t.value?).fits s.limit = true := by
      rw [DeferredPatch.Fits, Statement.operandMax_size (hl _ hb) hi hr hm, e.meaning_toOperand,
        s.meaning_of_operand he]
    rw [hd, List.forall_mem_singleton, hfit]
    refine ⟨?_, ?_⟩
    · rintro h s' hb' - -
      obtain rfl : s = s' := by simpa [hb] using hb'
      exact h
    · intro h
      exact h s hb hr hm

lemma foldl_deferred (hl : p.line.Sound) (m : Payload) :
    p.deferred.foldl (DeferredPatch.store t) m = (p.late t.value?).foldl .store m := by
  rcases p.deferred_cases with ⟨hw, hd⟩ | ⟨s, e, hb, he, hr, hm, hw, hd⟩
  · simp [late, hw, hd]
  · have hi := not_implied_of_unknown (hl _ hb) hm
    simp only [late, hw, hd, if_true, List.foldl_cons, List.foldl_nil, DeferredPatch.store,
      Payload.store, bytes_of_statement hb]
    rw [e.meaning_toOperand, ← s.meaning_of_operand he,
      Statement.bytes_patch hi hr p.known t.value? p.start]

/-! #### The last round -/

/-- From an offset that does not run past the end of all addresses. -/
lemma branchOffset_eq (h : p.start + 2 < 0x100000000) (o : Operand) (v : UInt32) :
    Assembly.State.branchOffset ⟨UInt32.ofNat (p.start + 1), o⟩ v = distance p.start v.toNat := by
  have hstop : (UInt32.ofNat (p.start + 1) + 1).toNat = p.start + 2 := by
    rw [← UInt32.ofNat_one, ← UInt32.ofNat_add, UInt32.toNat_ofNat_of_lt' h]
  simp only [Assembly.State.branchOffset, distance, hstop]

lemma forall_branches_iff (hl : p.line.Sound) (h : p.start + 2 < 0x100000000) :
    (∀ d ∈ p.branches, d.Reaches t) ↔
      ∀ s, p.line.body = some (.statement s) → s.mode = .relative →
        (s.meaning t.value?).isReachedFrom p.start = true := by
  rcases branches_cases hl with ⟨hw, hd⟩ | ⟨s, e, hb, he, hr, -, hd⟩
  · rw [hd]
    simp only [List.not_mem_nil, false_imp_iff, implies_true, true_iff]
    intro s hb hr
    simp [isBranch, hb, hr] at hw
  · have hreach : BranchPatch.Reaches t ⟨UInt32.ofNat (p.start + 1), e.toOperand⟩ ↔
        (s.meaning t.value?).isReachedFrom p.start = true := by
      simp only [BranchPatch.Reaches, branchOffset_eq h, e.meaning_toOperand,
        s.meaning_of_operand he]
      rcases e.meaning t.value? with v | _ | _ <;> simp [Meaning.isReachedFrom]
    rw [hd, List.forall_mem_singleton, hreach]
    refine ⟨?_, ?_⟩
    · rintro hs s' hb' -
      obtain rfl : s = s' := by simpa [hb] using hb'
      exact hs
    · intro hs
      exact hs s hb hr

lemma foldl_branches (hl : p.line.Sound) (h : p.start + 2 < 0x100000000) (m : Payload) :
    p.branches.foldl (BranchPatch.store t) m = (p.offset t.value?).foldl .store m := by
  rcases branches_cases hl with ⟨hw, hd⟩ | ⟨s, e, hb, he, hr, hw, hd⟩
  · simp [offset, hw, hd]
  · simp only [offset, hw, hd, if_true, List.foldl_cons, List.foldl_nil, BranchPatch.store,
      Payload.store, bytes_of_statement hb, branchOffset_eq h]
    rw [e.meaning_toOperand, ← s.meaning_of_operand he]
    simp [Statement.bytes, hr]

end TwoPass.Placed

/-! ### All rounds -/

namespace TwoPass

/-- Everything that is written, in the order of the rounds. -/
def writes (all : Names) (placed : List Placed) : List Write :=
  placed.map Placed.stored ++ placed.flatMap (Placed.late all) ++
    placed.flatMap (Placed.offset all)

variable {placed : List Placed} {t : SymbolTable} (hl : ∀ p ∈ placed, p.line.Sound)

include hl

lemma foldl_flatMap_deferred (m : Payload) :
    (placed.flatMap Placed.deferred).foldl (DeferredPatch.store t) m =
      (placed.flatMap (Placed.late t.value?)).foldl .store m := by
  rw [List.foldl_flatMap, List.foldl_flatMap]
  exact List.foldl_ext _ _ m fun m p hp => Placed.foldl_deferred (hl p hp) m

lemma foldl_flatMap_branches (hstart : ∀ p ∈ placed, p.start ≤ 0x10000) (m : Payload) :
    (placed.flatMap Placed.branches).foldl (BranchPatch.store t) m =
      (placed.flatMap (Placed.offset t.value?)).foldl .store m := by
  rw [List.foldl_flatMap, List.foldl_flatMap]
  refine List.foldl_ext _ _ m fun m p hp => Placed.foldl_branches (hl p hp) ?_ m
  have := hstart p hp
  omega

end TwoPass

namespace Assembly.State

open TwoPass

variable {s : State} {t : Progress} {done : List Placed}

section Resolve

variable (h : s.Follows t done) (hl : ∀ p ∈ done, p.line.Sound)
  (hstart : ∀ p ∈ done, p.start ≤ 0x10000)

include h hl

lemma forall_deferred (hsym : s.symbols.value? = t.names) :
    (∀ d ∈ s.deferred.toList, d.Fits s.symbols) ↔
      ∀ p ∈ done, ∀ st, p.line.body = some (.statement st) → st.mode ≠ .relative →
        st.meaning p.known = .unknown → (st.meaning t.names).fits st.limit = true := by
  rw [h.deferred, List.forall_mem_flatMap, ← hsym]
  exact forall₂_congr fun p hp => Placed.forall_deferred_iff (hl p hp)

include hstart

lemma forall_branches (hsym : s.symbols.value? = t.names) :
    (∀ d ∈ s.branches.toList, d.Reaches s.symbols) ↔
      ∀ p ∈ done, ∀ st, p.line.body = some (.statement st) → st.mode = .relative →
        (st.meaning t.names).isReachedFrom p.start = true := by
  rw [h.branches, List.forall_mem_flatMap, ← hsym]
  refine forall₂_congr fun p hp => Placed.forall_branches_iff (hl p hp) ?_
  have := hstart p hp
  omega

/-- The later rounds are without a fault just if every line goes through in them. -/
lemma clean_resolve : s.resolveDeferred.resolveBranches.Clean ↔
    s.Clean ∧ ∀ p ∈ done, p.Resolves t.names := by
  rw [clean_resolveBranches, clean_resolveDeferred, resolveDeferred_symbols,
    resolveDeferred_branches, forall_deferred h hl h.meets.names,
    forall_branches h hl hstart h.meets.names, and_assoc]
  refine and_congr_right fun _ => ?_
  refine ⟨?_, ?_⟩
  · rintro ⟨hop, hbr⟩ p hp
    exact ⟨hop p hp, hbr p hp⟩
  · intro hres
    exact ⟨fun p hp => (hres p hp).operand, fun p hp => (hres p hp).target⟩

/-- The later rounds write what they should, and change nothing that the result shows. -/
lemma resolve_eq (hres : ∀ p ∈ done, p.Resolves t.names) :
    ∃ events, s.resolveDeferred.resolveBranches =
      { s with
        deferred := #[]
        branches := #[]
        events := events
        payload := (writes t.names done).foldl .store .empty } := by
  have hnames := h.meets.names
  obtain ⟨e₁, h₁⟩ := resolveDeferred_eq
    ((forall_deferred h hl hnames).mpr fun p hp => (hres p hp).operand)
  have hbr := (forall_branches h hl hstart hnames).mpr fun p hp => (hres p hp).target
  rw [← resolveDeferred_branches, ← resolveDeferred_symbols (s := s)] at hbr
  obtain ⟨e₂, h₂⟩ := resolveBranches_eq hbr
  refine ⟨e₂, ?_⟩
  rw [h₂, h₁]
  congr 1
  simp only [h.branches, h.deferred, h.payload, writes, List.foldl_append]
  rw [foldl_flatMap_deferred hl, foldl_flatMap_branches hl hstart, hnames]

end Resolve

end Assembly.State

end CrossAsm
