import Mathlib.Tactic.Common
import CrossAsm.Proofs.Blocks
import CrossAsm.Proofs.Deferral

/-!
The rooms of the patches. A patch is settled within the addresses that were kept for it, so the two
passes replace bytes, and neither takes room from the other.
-/

namespace CrossAsm

open Assembly.State (operandMax branchOffset)

lemma mem_consecutive_of_le {a b : UInt32} {m n : Nat} (h : b ∈ consecutive a m) (hle : m ≤ n) :
    b ∈ consecutive a n := by
  obtain ⟨k, rfl⟩ := Nat.exists_eq_add_of_le hle
  rw [consecutive_add]
  exact List.mem_append_left _ h

namespace Payload

lemma get?_fill_of_not_mem (p : Payload) {a b : UInt32} {bytes : List UInt8}
    (h : b ∉ consecutive a bytes.length) : (p.fill a bytes).get? b = p.get? b := by
  induction bytes generalizing p a with
  | nil => rfl
  | cons x rest ih =>
    rw [List.length_cons, consecutive_succ] at h
    rw [fill_cons, ih _ (List.not_mem_of_not_mem_cons h), get?_insert,
      if_neg (List.ne_of_not_mem_cons h).symm]

/-- The addresses with a byte, after some more are stored. -/
lemma isSome_get?_fill (p : Payload) (a b : UInt32) (bytes : List UInt8) :
    ((p.fill a bytes).get? b).isSome = true ↔
      b ∈ consecutive a bytes.length ∨ (p.get? b).isSome = true := by
  induction bytes generalizing p a with
  | nil => simp [consecutive]
  | cons x rest ih =>
    rw [fill_cons, ih, get?_insert, List.length_cons, consecutive_succ, List.mem_cons]
    by_cases hab : a = b
    · simp [hab]
    · rw [if_neg hab, eq_comm (a := b), or_iff_right hab]

end Payload

/-! ### The room of a patch -/

/-- The addresses of the opcode and the operand that were left for later. -/
def DeferredPatch.room (p : DeferredPatch) : List UInt32 := consecutive p.address p.width

/-- The addresses that are written. -/
def Settlement.addresses (x : Settlement) : List UInt32 := consecutive x.address x.bytes.length

lemma DeferredPatch.settle_inside {p : DeferredPatch} (h : p.width = 2 ∨ p.width = 3)
    (t : SymbolTable) : ∀ a ∈ (p.settle t).addresses, a ∈ p.room := by
  have hlength : (p.settle t).address = p.address ∧ (p.settle t).bytes.length ≤ p.width := by
    unfold settle
    split
    · split
      · exact ⟨rfl, by simp only [List.length_singleton]; omega⟩
      · exact ⟨rfl, Nat.le_of_eq (length_bytes h _)⟩
    · exact ⟨rfl, Nat.zero_le _⟩
    · exact ⟨rfl, Nat.zero_le _⟩
  intro a ha
  rw [Settlement.addresses, hlength.1] at ha
  exact mem_consecutive_of_le ha hlength.2

lemma BranchPatch.settle_inside (p : BranchPatch) (t : SymbolTable) :
    ∀ a ∈ (p.settle t).addresses, a = p.address := by
  unfold settle
  intro a ha
  split at ha
  · split at ha
    · simpa [Settlement.addresses, consecutive] using ha
    · simp [Settlement.addresses, consecutive] at ha
  · simp [Settlement.addresses, consecutive] at ha
  · simp [Settlement.addresses, consecutive] at ha

/-- A patch whose operand has no value stores nothing, and one whose operand is too large stores
the opcode. -/
lemma DeferredPatch.bytes_settle (p : DeferredPatch) (t : SymbolTable) :
    (p.operand.eval t = .ok none → (p.settle t).bytes = []) ∧
      (∀ z, p.operand.eval t = .error z → (p.settle t).bytes = []) ∧
      ∀ v, p.operand.eval t = .ok (some v) → operandMax p.width < v →
        (p.settle t).address = p.address ∧ (p.settle t).bytes = [p.opcode] := by
  refine ⟨fun h => ?_, fun z h => ?_, fun v h hlarge => ?_⟩
  · simp only [settle, h]
  · simp only [settle, h]
  · simp only [settle, h, gt_iff_lt, if_pos hlarge, and_self]

lemma BranchPatch.bytes_settle {p : BranchPatch} {t : SymbolTable} (h : ¬p.Reaches t) :
    (p.settle t).bytes = [] := by
  rcases heval : p.target.eval t with z | _ | target
  · simp only [settle, heval]
  · simp only [settle, heval]
  · have hfar : ¬(-128 ≤ branchOffset p target ∧ branchOffset p target ≤ 127) :=
      fun hnear => h ⟨target, by simp only [Operand.meaning, heval], hnear⟩
    simp only [settle, heval, if_neg hfar]

namespace Payload

lemma get?_foldl_settle {l : List Settlement} {b : UInt32} (h : ∀ x ∈ l, b ∉ x.addresses)
    (m : Payload) : (l.foldl settle m).get? b = m.get? b := by
  induction l generalizing m with
  | nil => rfl
  | cons x rest ih =>
    obtain ⟨hx, hrest⟩ := List.forall_mem_cons.mp h
    rw [List.foldl_cons, ih hrest, settle, get?_fill_of_not_mem m hx]

/-- Where all that is written replaces something, the addresses stay the same. -/
lemma isSome_foldl_settle {l : List Settlement} {m : Payload}
    (h : ∀ x ∈ l, ∀ a ∈ x.addresses, (m.get? a).isSome = true) (b : UInt32) :
    ((l.foldl settle m).get? b).isSome = (m.get? b).isSome := by
  induction l generalizing m with
  | nil => rfl
  | cons x rest ih =>
    obtain ⟨hx, hrest⟩ := List.forall_mem_cons.mp h
    have hsame (a : UInt32) : ((m.settle x).get? a).isSome = (m.get? a).isSome := by
      rw [Bool.eq_iff_iff, settle, isSome_get?_fill]
      exact or_iff_right_of_imp (hx a)
    rw [List.foldl_cons, ih, hsame]
    intro y hy a ha
    rw [hsame]
    exact hrest y hy a ha

end Payload

/-! ### The two passes -/

namespace Assembly.State

/-- From `s` to `t` bytes are replaced in a room that is full of bytes already. -/
structure Refills (s t : State) (room : List UInt32) : Prop where
  full : ∀ a ∈ room, (s.payload.get? a).isSome = true
  outside : ∀ a, a ∉ room → t.payload.get? a = s.payload.get? a
  addresses : ∀ a, (t.payload.get? a).isSome = (s.payload.get? a).isSome
  symbols : t.symbols = s.symbols
  codeLines : t.codeLines = s.codeLines
  counter : t.counter = s.counter

variable {s : State} {room : List UInt32}

/-- Patches that are settled within a room refill it. -/
lemma refills_of_settle (hroom : ∀ a ∈ room, (s.payload.get? a).isSome = true)
    {l : List Settlement} (hl : ∀ x ∈ l, ∀ a ∈ x.addresses, a ∈ room)
    (deferred : Array DeferredPatch) (branches : Array BranchPatch) (faults : Array Diagnostic)
    (events : Array Event) :
    s.Refills { s with
      payload := l.foldl Payload.settle s.payload
      deferred := deferred
      branches := branches
      faults := faults
      events := events } room where
  full := hroom
  outside a ha := Payload.get?_foldl_settle (fun x hx hmem => ha (hl x hx a hmem)) s.payload
  addresses := Payload.isSome_foldl_settle fun x hx a ha => hroom a (hl x hx a ha)
  symbols := rfl
  codeLines := rfl
  counter := rfl

/-- There is room in memory for all that is left for later. -/
structure Roomy (s : State) : Prop where
  width : ∀ p ∈ s.deferred.toList, p.width = 2 ∨ p.width = 3
  room : ∀ p ∈ s.deferred.toList, ∀ a ∈ p.room, (s.payload.get? a).isSome = true
  offset : ∀ p ∈ s.branches.toList, (s.payload.get? p.address).isSome = true

namespace Roomy

lemma refills_deferred (h : s.Roomy) :
    s.Refills s.resolveDeferred (s.deferred.toList.flatMap DeferredPatch.room) := by
  rw [resolveDeferred_eq_settle]
  refine refills_of_settle ?_ ?_ _ _ _ _
  · intro a ha
    obtain ⟨p, hp, ha⟩ := List.mem_flatMap.mp ha
    exact h.room p hp a ha
  · intro x hx a ha
    obtain ⟨p, hp, rfl⟩ := List.mem_map.mp hx
    exact List.mem_flatMap.mpr ⟨p, hp, p.settle_inside (h.width p hp) s.symbols a ha⟩

lemma refills_branches (h : s.Roomy) :
    s.Refills s.resolveBranches (s.branches.toList.map (·.address)) := by
  rw [resolveBranches_eq_settle]
  refine refills_of_settle ?_ ?_ _ _ _ _
  · intro a ha
    obtain ⟨p, hp, rfl⟩ := List.mem_map.mp ha
    exact h.offset p hp
  · intro x hx a ha
    obtain ⟨p, hp, rfl⟩ := List.mem_map.mp hx
    exact List.mem_map.mpr ⟨p, hp, (p.settle_inside s.symbols a ha).symm⟩

/-- The first pass takes no room from the second one. -/
lemma resolveDeferred (h : s.Roomy) : s.resolveDeferred.Roomy := by
  have haddresses := h.refills_deferred.addresses
  refine ⟨?_, ?_, fun p hp => ?_⟩
  · simp [resolveDeferred_eq_settle]
  · simp [resolveDeferred_eq_settle]
  · rw [haddresses]
    exact h.offset p (resolveDeferred_branches ▸ hp)

end Roomy

end Assembly.State

end CrossAsm
