import Mathlib.Tactic.Common
import CrossAsm.Proofs.Rooms

/-!
The order of the patches. Operands and branch offsets that had to wait are settled one by one, and
each of them sees the symbols, which no longer change, and its own room. So where no two rooms have
an address in common, every room ends up as if its patch were the only one, and the order of the
patches and of the two passes leaves no trace but in the order of the faults and of the log. Main
statement: `patch_order_irrelevant`.
-/

namespace CrossAsm

namespace Payload

/-- What is stored hides what was there before. -/
lemma get?_fill_congr {m m' : Payload} {a b : UInt32} {bytes : List UInt8}
    (h : b ∉ consecutive a bytes.length → m.get? b = m'.get? b) :
    (m.fill a bytes).get? b = (m'.fill a bytes).get? b := by
  induction bytes generalizing m m' a with
  | nil => exact h (by simp [consecutive])
  | cons x rest ih =>
    rw [fill_cons, fill_cons]
    refine ih fun hrest => ?_
    rw [get?_insert, get?_insert]
    by_cases hab : a = b
    · rw [if_pos hab, if_pos hab]
    · rw [if_neg hab, if_neg hab]
      refine h ?_
      rw [List.length_cons, consecutive_succ]
      exact List.not_mem_cons_of_ne_of_not_mem (Ne.symm hab) hrest

end Payload

/-! ### Patches of both kinds -/

/-- Something that is left for the end. -/
inductive Patch where
  | deferred (p : DeferredPatch)
  | branch (p : BranchPatch)

namespace Patch

/-- The room of either kind: that of an operand with its opcode, or the one byte of an offset. -/
def room : Patch → List UInt32
  | deferred p => p.room
  | branch p => [p.address]

def settle (t : SymbolTable) : Patch → Settlement
  | deferred p => p.settle t
  | branch p => p.settle t

/-- A deferred instruction is two or three bytes wide. -/
def Sized : Patch → Prop
  | deferred p => p.width = 2 ∨ p.width = 3
  | branch _ => True

lemma settle_inside {p : Patch} (h : p.Sized) (t : SymbolTable) :
    ∀ a ∈ (p.settle t).addresses, a ∈ p.room := by
  cases p with
  | deferred p => exact p.settle_inside h t
  | branch p => exact fun a ha => List.mem_singleton.mpr (p.settle_inside t a ha)

/-- The rooms have no address in common. -/
def Apart (p q : Patch) : Prop := p.room.Disjoint q.room

instance (p q : Patch) : Decidable (p.Apart q) :=
  List.decidableBAll (fun a => a ∈ q.room → False) p.room

lemma Apart.symm {p q : Patch} (h : p.Apart q) : q.Apart p := List.disjoint_symm h

/-- Among patches that are apart, each finds its room as it was at first, and no other patch
changes it afterwards. -/
lemma get?_foldl_settle {l : List Patch} (hsized : ∀ p ∈ l, p.Sized) (hapart : l.Pairwise Apart)
    {p : Patch} (hp : p ∈ l) {b : UInt32} (hb : b ∈ p.room) (t : SymbolTable) (m : Payload) :
    ((l.map (settle t)).foldl Payload.settle m).get? b = (m.settle (p.settle t)).get? b := by
  induction l generalizing m with
  | nil => simp at hp
  | cons q rest ih =>
    obtain ⟨hq, hrest⟩ := List.forall_mem_cons.mp hsized
    obtain ⟨hqapart, hapart⟩ := List.pairwise_cons.mp hapart
    rw [List.map_cons, List.foldl_cons]
    rcases List.mem_cons.mp hp with rfl | hp
    · refine Payload.get?_foldl_settle ?_ _
      intro x hx hmem
      obtain ⟨r, hr, rfl⟩ := List.mem_map.mp hx
      exact hqapart r hr hb (settle_inside (hrest r hr) t b hmem)
    · rw [ih hrest hapart hp]
      refine Payload.get?_fill_congr fun _ => Payload.get?_fill_of_not_mem m fun hmem => ?_
      exact hqapart p hp (settle_inside hq t b hmem) hb

end Patch

namespace Assembly.State

/-- All that is left for the end. -/
def patches (s : State) : List Patch :=
  s.deferred.toList.map .deferred ++ s.branches.toList.map .branch

/-- Settles one patch. -/
def apply (s : State) : Patch → State
  | .deferred p => s.applyDeferred p
  | .branch p => s.applyBranch p

lemma apply_eq_settle (s : State) (p : Patch) : s.apply p = s.settle (p.settle s.symbols) := by
  cases p with
  | deferred p => exact s.applyDeferred_eq_settle p
  | branch p => exact s.applyBranch_eq_settle p

/-- From `s` to `t` some patches are settled, one after the other. -/
structure Applies (s t : State) (l : List Patch) : Prop where
  payload : t.payload = (l.map (Patch.settle s.symbols)).foldl Payload.settle s.payload
  faults : t.faults.toList = s.faults.toList ++ l.flatMap fun p => (p.settle s.symbols).faults
  rest : t = { s with
    payload := t.payload
    faults := t.faults
    events := t.events
    deferred := t.deferred
    branches := t.branches }

/-- In `t` everything is settled that was left for the end in `s`. No order is involved: each room
is as if its patch were the only one. -/
structure Settled (s t : State) : Prop where
  alone : ∀ p ∈ s.patches, ∀ a ∈ p.room, t.payload.get? a = (s.apply p).payload.get? a
  outside : ∀ a, (∀ p ∈ s.patches, a ∉ p.room) → t.payload.get? a = s.payload.get? a
  faults : t.faults.toList.Perm
    (s.faults.toList ++ s.patches.flatMap fun p => (p.settle s.symbols).faults)
  rest : t = { s with
    payload := t.payload
    faults := t.faults
    events := t.events
    deferred := #[]
    branches := #[] }

/-- The states are the same but for the order of the faults and the log. -/
structure Coincides (t u : State) : Prop where
  payload : t.payload.bytes.Equiv u.payload.bytes
  faults : t.faults.toList.Perm u.faults.toList
  rest : t = { u with payload := t.payload, faults := t.faults, events := t.events }

variable {s t u : State}

lemma Settled.coincides (ht : s.Settled t) (hu : s.Settled u) : t.Coincides u where
  payload := by
    refine .of_forall_constGet?_eq fun a => ?_
    by_cases ha : ∃ p ∈ s.patches, a ∈ p.room
    · obtain ⟨p, hp, ha⟩ := ha
      exact (ht.alone p hp a ha).trans (hu.alone p hp a ha).symm
    · have hnone : ∀ p ∈ s.patches, a ∉ p.room := fun p hp hmem => ha ⟨p, hp, hmem⟩
      exact (ht.outside a hnone).trans (hu.outside a hnone).symm
  faults := ht.faults.trans hu.faults.symm
  rest := by
    rw [ht.rest, hu.rest]

namespace Applies

variable {l l' : List Patch}

lemma trans (h : s.Applies t l) (h' : t.Applies u l') : s.Applies u (l ++ l') := by
  have hsymbols : t.symbols = s.symbols := by rw [h.rest]
  refine ⟨?_, ?_, ?_⟩
  · rw [h'.payload, h.payload, hsymbols, List.map_append, List.foldl_append]
  · rw [h'.faults, h.faults, hsymbols, List.flatMap_append, List.append_assoc]
  · rw [h'.rest, h.rest]

/-- Whatever the order of the patches is, if their rooms are apart, then all of them are settled. -/
lemma settled (h : s.Applies t l) (hl : l.Perm s.patches) (hsized : ∀ p ∈ s.patches, p.Sized)
    (hapart : s.patches.Pairwise Patch.Apart) (hdeferred : t.deferred = #[])
    (hbranches : t.branches = #[]) : s.Settled t where
  alone p hp a ha := by
    have hsized' : ∀ q ∈ l, q.Sized := fun q hq => hsized q (hl.mem_iff.mp hq)
    have hapart' : l.Pairwise Patch.Apart := hl.symm.pairwise hapart Patch.Apart.symm
    rw [h.payload, apply_eq_settle]
    exact Patch.get?_foldl_settle hsized' hapart' (hl.mem_iff.mpr hp) ha s.symbols s.payload
  outside a ha := by
    rw [h.payload]
    refine Payload.get?_foldl_settle ?_ s.payload
    intro x hx hmem
    obtain ⟨p, hp, rfl⟩ := List.mem_map.mp hx
    have hp := hl.mem_iff.mp hp
    exact ha p hp (Patch.settle_inside (hsized p hp) s.symbols a hmem)
  faults := by
    rw [h.faults]
    exact (hl.flatMap_right _).append_left _
  rest := by
    rw [← hdeferred, ← hbranches]
    exact h.rest

end Applies

/-! ### The two passes, in either order -/

lemma applies_resolveDeferred (s : State) :
    s.Applies s.resolveDeferred (s.deferred.toList.map .deferred) ∧
      s.resolveDeferred.deferred = #[] ∧ s.resolveDeferred.branches = s.branches := by
  rw [resolveDeferred_eq_settle]
  refine ⟨⟨?_, ?_, rfl⟩, rfl, rfl⟩
  · rw [List.map_map]
    rfl
  · rw [Array.toList_appendList, List.flatMap_map, List.flatMap_map]
    rfl

lemma applies_resolveBranches (s : State) :
    s.Applies s.resolveBranches (s.branches.toList.map .branch) ∧
      s.resolveBranches.branches = #[] ∧ s.resolveBranches.deferred = s.deferred := by
  rw [resolveBranches_eq_settle]
  refine ⟨⟨?_, ?_, rfl⟩, rfl, rfl⟩
  · rw [List.map_map]
    rfl
  · rw [Array.toList_appendList, List.flatMap_map, List.flatMap_map]
    rfl

/-- The state with its patches in another order. -/
def reorder (s : State) (deferred : Array DeferredPatch) (branches : Array BranchPatch) : State :=
  { s with deferred := deferred, branches := branches }

/-- What patches do to a state has nothing to do with those that are left. -/
lemma Applies.of_reorder {deferred : Array DeferredPatch} {branches : Array BranchPatch}
    {l : List Patch} (h : (s.reorder deferred branches).Applies t l) : s.Applies t l :=
  ⟨h.payload, h.faults, h.rest⟩

section Passes

variable (hsized : ∀ p ∈ s.patches, p.Sized) (hapart : s.patches.Pairwise Patch.Apart)
  {deferred : Array DeferredPatch} {branches : Array BranchPatch}
  (hdeferred : deferred.toList.Perm s.deferred.toList)
  (hbranches : branches.toList.Perm s.branches.toList)

include hsized hapart hdeferred hbranches

lemma settled_passes :
    s.Settled (s.reorder deferred branches).resolveDeferred.resolveBranches := by
  obtain ⟨hfirst, hdone, hleft⟩ := (s.reorder deferred branches).applies_resolveDeferred
  obtain ⟨hsecond, hdone', hkept⟩ :=
    (s.reorder deferred branches).resolveDeferred.applies_resolveBranches
  rw [hleft] at hsecond
  exact (hfirst.trans hsecond).of_reorder.settled ((hdeferred.map _).append (hbranches.map _))
    hsized hapart (hkept.trans hdone) hdone'

lemma settled_passes_swapped :
    s.Settled (s.reorder deferred branches).resolveBranches.resolveDeferred := by
  obtain ⟨hfirst, hdone, hleft⟩ := (s.reorder deferred branches).applies_resolveBranches
  obtain ⟨hsecond, hdone', hkept⟩ :=
    (s.reorder deferred branches).resolveBranches.applies_resolveDeferred
  rw [hleft] at hsecond
  exact (hfirst.trans hsecond).of_reorder.settled
    (((hbranches.map _).append (hdeferred.map _)).trans List.perm_append_comm)
    hsized hapart hdone' (hkept.trans hdone)

end Passes

/-- **The order of the patches is irrelevant** where no two of their rooms have an address in
common: in whatever order the patches of either kind are, and whichever kind comes first, the
payload is the same and so are the faults, up to their order. Each room holds what its patch alone
would leave there. -/
theorem patch_order_irrelevant (s : State)
    (hwidth : ∀ p ∈ s.deferred.toList, p.width = 2 ∨ p.width = 3)
    (hapart : s.patches.Pairwise Patch.Apart)
    (deferred : Array DeferredPatch) (branches : Array BranchPatch)
    (hdeferred : deferred.toList.Perm s.deferred.toList)
    (hbranches : branches.toList.Perm s.branches.toList) :
    s.Settled s.resolveDeferred.resolveBranches ∧
    (s.reorder deferred branches).resolveDeferred.resolveBranches.Coincides
      s.resolveDeferred.resolveBranches ∧
    (s.reorder deferred branches).resolveBranches.resolveDeferred.Coincides
      s.resolveDeferred.resolveBranches := by
  have hsized : ∀ p ∈ s.patches, p.Sized := by
    intro p hp
    rcases List.mem_append.mp hp with hp | hp
    · obtain ⟨d, hd, rfl⟩ := List.mem_map.mp hp
      exact hwidth d hd
    · obtain ⟨b, -, rfl⟩ := List.mem_map.mp hp
      trivial
  have hsettled : s.Settled s.resolveDeferred.resolveBranches :=
    settled_passes hsized hapart (.refl _) (.refl _)
  exact ⟨hsettled, (settled_passes hsized hapart hdeferred hbranches).coincides hsettled,
    (settled_passes_swapped hsized hapart hdeferred hbranches).coincides hsettled⟩

/-- Patches side by side, one for each outcome: an operand that fits, one that is too large, one
that is unknown and one that divides by zero; a target in reach, one too far and one unknown. -/
def patchwork : State :=
  let place (line : Nat) : Location := ⟨line, 1, ⟨4 * line, 4 * line + 3⟩⟩
  { State.init "patchwork" with
    deferred := #[⟨0x4C, 3, .number 0x1234 (place 1), 0x1000, place 1⟩,
      ⟨0xA9, 2, .number 0x100 (place 2), 0x1003, place 2⟩,
      ⟨0xAD, 3, .symbol "nowhere" (place 3), 0x1005, place 3⟩,
      ⟨0xA9, 2, .binary .div (.number 1 (place 4)) (.number 0 (place 4)) (place 4), 0x1008,
        place 4⟩]
    branches := #[⟨0x100B, .number 0x1000 (place 5)⟩, ⟨0x100D, .number 0x2000 (place 6)⟩,
      ⟨0x100F, .symbol "nowhere" (place 7)⟩] }

theorem patch_order_irrelevant_patchwork :
    patchwork.patches.Pairwise Patch.Apart ∧
    (patchwork.reorder patchwork.deferred.reverse
      patchwork.branches.reverse).resolveBranches.resolveDeferred.Coincides
        patchwork.resolveDeferred.resolveBranches ∧
    patchwork.resolveDeferred.resolveBranches.payload.bytes.toList =
      [(0x1000, 0x4C), (0x1001, 0x34), (0x1002, 0x12), (0x1003, 0xA9), (0x100B, 0xF4)] ∧
    patchwork.resolveDeferred.resolveBranches.faults.toList.map (·.line) = [2, 3, 4, 6, 7] := by
  have hapart : patchwork.patches.Pairwise Patch.Apart := by decide +kernel
  obtain ⟨-, -, h⟩ := patch_order_irrelevant patchwork (by decide +kernel) hapart
    patchwork.deferred.reverse patchwork.branches.reverse
    (by simp [List.reverse_perm]) (by simp [List.reverse_perm])
  exact ⟨hapart, h, by decide +kernel, by decide +kernel⟩

end Assembly.State

end CrossAsm
