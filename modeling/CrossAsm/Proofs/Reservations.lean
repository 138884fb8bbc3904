import Mathlib.Tactic.Common
import CrossAsm.Proofs.Rooms

/-!
Room for what comes later. The visits may come in any order, also in one that no tree has: whatever
they do, a patch has room at the addresses that its own statement has stored bytes at, and nothing
takes bytes away again. So what is filled in at the end replaces bytes of these rooms, and adds no
address. Main statement: `patches_stay_in_rooms`.
-/

namespace CrossAsm.Assembly.State

/-! ### What a visit does -/

/-- From `s` to `t` the bytes are stored at the counter, and nothing is left for later. -/
structure Emits (s t : State) (bytes : List UInt8) : Prop where
  payload : t.payload = s.payload.fill s.counter bytes
  counter : t.counter = s.counter + UInt32.ofNat bytes.length
  deferred : t.deferred = s.deferred
  branches : t.branches = s.branches

/-- From `s` to `t` an operand is left for later, and there is room for it and its opcode. -/
structure Defers (s t : State) (p : DeferredPatch) : Prop where
  width : p.width = 2 ∨ p.width = 3
  address : p.address = s.counter
  payload : t.payload = s.payload.fill s.counter (List.replicate p.width unmappedByte)
  counter : t.counter = s.counter + UInt32.ofNat p.width
  deferred : t.deferred = s.deferred.push p
  branches : t.branches = s.branches

/-- From `s` to `t` an opcode is stored, and there is room for an offset behind it. -/
structure Branches (s t : State) (p : BranchPatch) : Prop where
  address : p.address = s.counter + 1
  payload : ∃ opcode, t.payload = s.payload.fill s.counter [opcode, unmappedByte]
  counter : t.counter = s.counter + 2
  deferred : t.deferred = s.deferred
  branches : t.branches = s.branches.push p

/-- From `s` to `t` the counter goes to an origin. -/
structure Moves (s t : State) : Prop where
  payload : t.payload = s.payload
  counter : t.counter ≤ maxAddress
  deferred : t.deferred = s.deferred
  branches : t.branches = s.branches

/-- What a visit does. Only statements leave something for later. -/
inductive Effect (s t : State) : Visit → Prop
  | emits {v : Visit} {bytes : List UInt8} (h : s.Emits t bytes) : Effect s t v
  | moves {loc : Location} (h : s.Moves t) : Effect s t (.origin loc)
  | defers {mnemonic : String} {mode : Mode} {loc : Location} {p : DeferredPatch}
      (h : s.Defers t p) : Effect s t (.statement mnemonic mode loc)
  | branches {mnemonic : String} {mode : Mode} {loc : Location} {p : BranchPatch}
      (h : s.Branches t p) : Effect s t (.statement mnemonic mode loc)

section Step

variable {s t : State} {ready : Prop}

lemma Emits.of_notes (h : s.Notes t ready) (bytes : List UInt8) : s.Emits (t.emit bytes) bytes where
  payload := by rw [emit_payload, h.payload, h.counter]
  counter := by rw [emit_counter, h.counter]
  deferred := by rw [emit_deferred, h.deferred]
  branches := by rw [emit_branches, h.branches]

lemma Defers.of_notes (h : s.Notes t ready) {opcode : UInt8} {width : Nat}
    (hwidth : width = 2 ∨ width = 3) (operand : Operand) (loc : Location) :
    s.Defers (t.defer opcode width operand loc) ⟨opcode, width, operand, t.counter, loc⟩ := by
  have hroom := Emits.of_notes h (List.replicate width unmappedByte)
  have hcounter := hroom.counter
  rw [List.length_replicate] at hcounter
  exact ⟨hwidth, h.counter, hroom.payload, hcounter, congrArg (Array.push · _) hroom.deferred,
    hroom.branches⟩

lemma Branches.of_notes (h : s.Notes t ready) (opcode : UInt8) (mnemonic : String)
    (target : Operand) :
    s.Branches (t.encodeBranch opcode mnemonic target) ⟨t.counter + 1, target⟩ := by
  have hroom := Emits.of_notes h [opcode, unmappedByte]
  exact ⟨by rw [h.counter], ⟨opcode, hroom.payload⟩, hroom.counter, hroom.deferred,
    congrArg (Array.push · _) hroom.branches⟩

lemma Does.effect {v : Visit} (h : s.Does v t) : s.Effect t v := by
  cases h with
  | emits hnotes _ => exact .emits (.of_notes hnotes _)
  | defers hnotes hwidth _ => exact .defers (.of_notes hnotes hwidth _ _)
  | branches hnotes _ => exact .branches (.of_notes hnotes _ _ _)
  | moves hnotes haddress =>
    exact .moves ⟨hnotes.payload, haddress, hnotes.deferred, hnotes.branches⟩
  | @ends label terminals loc =>
    obtain ⟨faults, events, hend⟩ := endLine_eq label terminals loc s
    have hnothing : s.Emits (s.endLine label terminals loc) [] := by
      rw [hend]
      exact ⟨rfl, by simp, rfl, rfl⟩
    exact .emits hnothing

/-- An origin moves the counter, or else it is ignored. -/
lemma Does.counter_origin {loc : Location} (h : s.Does (.origin loc) t) :
    t.counter ≤ maxAddress ∨ t.counter = s.counter := by
  cases h with
  | emits hnotes hroom =>
    obtain rfl := List.eq_nil_of_length_eq_zero (Nat.le_zero.mp hroom)
    exact .inr hnotes.counter
  | moves _ haddress => exact .inl haddress

end Step

variable (s : State)

/-- **One visit**: all that it can do to memory, to the counter and to what is left for later. -/
lemma effect_step (v : Visit) : s.Effect (s.step v) v := (s.does_step v).effect

/-! ### Runs of visits -/

/-- One of the statements has led from a state to another as told. -/
def LeftBy (visits : List Visit) (R : State → State → Prop) : Prop :=
  ∃ done mnemonic mode loc rest, visits = done ++ .statement mnemonic mode loc :: rest ∧
    R (s.run done) ((s.run done).step (.statement mnemonic mode loc))

/-- How far a visit takes the counter on, which is no further than the number of bytes it stores.
An origin does not count. -/
def advance : Visit → Nat
  | .origin _ => 0
  | v => ((s.step v).counter - s.counter).toNat

/-- How far the visits take the counter on. -/
def advances (s : State) : List Visit → Nat
  | [] => 0
  | v :: rest => s.advance v + (s.step v).advances rest

variable {s} {t : State} {v : Visit} {visits : List Visit}

/-- What does not hold before a run but holds after it has come with one of the visits. -/
lemma exists_step_of_run {P : State → Prop} (hs : ¬P s) (h : P (s.run visits)) :
    ∃ done v rest, visits = done ++ v :: rest ∧ ¬P (s.run done) ∧ P ((s.run done).step v) := by
  induction visits generalizing s with
  | nil => exact absurd h hs
  | cons v rest ih =>
    by_cases hv : P (s.step v)
    · exact ⟨[], v, rest, rfl, hs, hv⟩
    · obtain ⟨done, w, later, rfl, hbefore, hafter⟩ := ih hv h
      exact ⟨v :: done, w, later, rfl, hbefore, hafter⟩

lemma Effect.isSome_get? {a : UInt32} (h : s.Effect t v)
    (ha : (s.payload.get? a).isSome = true) : (t.payload.get? a).isSome = true := by
  cases h with
  | emits h =>
    rw [h.payload, Payload.isSome_get?_fill]
    exact .inr ha
  | moves h => rwa [h.payload]
  | defers h =>
    rw [h.payload, Payload.isSome_get?_fill]
    exact .inr ha
  | branches h =>
    obtain ⟨opcode, hpayload⟩ := h.payload
    rw [hpayload, Payload.isSome_get?_fill]
    exact .inr ha

/-- An address that has a byte keeps having one. -/
lemma isSome_get?_run {a : UInt32} (ha : (s.payload.get? a).isSome = true)
    (visits : List Visit) : ((s.run visits).payload.get? a).isSome = true := by
  induction visits generalizing s with
  | nil => exact ha
  | cons v rest ih => exact ih ((s.effect_step v).isSome_get? ha)

/-! ### Deferred operands -/

section Deferred

variable {p : DeferredPatch}

lemma Effect.defers_of_mem (h : s.Effect t v) (hs : p ∉ s.deferred.toList)
    (ht : p ∈ t.deferred.toList) :
    ∃ mnemonic mode loc, v = .statement mnemonic mode loc ∧ s.Defers t p := by
  cases h with
  | emits h => exact absurd (h.deferred ▸ ht) hs
  | moves h => exact absurd (h.deferred ▸ ht) hs
  | @defers mnemonic mode loc q h =>
    rw [h.deferred, Array.toList_push, List.mem_append, List.mem_singleton] at ht
    obtain rfl := ht.resolve_left hs
    exact ⟨mnemonic, mode, loc, rfl, h⟩
  | branches h => exact absurd (h.deferred ▸ ht) hs

lemma leftBy_of_mem_deferred (hs : p ∉ s.deferred.toList)
    (h : p ∈ (s.run visits).deferred.toList) : s.LeftBy visits (Defers · · p) := by
  obtain ⟨done, v, rest, rfl, hbefore, hafter⟩ :=
    exists_step_of_run (P := fun t => p ∈ t.deferred.toList) hs h
  obtain ⟨mnemonic, mode, loc, rfl, hdefers⟩ :=
    (effect_step _ v).defers_of_mem hbefore hafter
  exact ⟨done, mnemonic, mode, loc, rest, rfl, hdefers⟩

/-- The room of a patch keeps being full of bytes. -/
lemma isSome_room (h : s.LeftBy visits (Defers · · p)) :
    ∀ a ∈ p.room, ((s.run visits).payload.get? a).isSome = true := by
  obtain ⟨done, mnemonic, mode, loc, rest, rfl, h⟩ := h
  intro a ha
  rw [run_append]
  refine isSome_get?_run ?_ rest
  rw [h.payload, Payload.isSome_get?_fill, List.length_replicate, ← h.address]
  exact .inl ha

end Deferred

/-! ### Branches -/

section Branches

variable {p : BranchPatch}

lemma Effect.branches_of_mem (h : s.Effect t v) (hs : p ∉ s.branches.toList)
    (ht : p ∈ t.branches.toList) :
    ∃ mnemonic mode loc, v = .statement mnemonic mode loc ∧ s.Branches t p := by
  cases h with
  | emits h => exact absurd (h.branches ▸ ht) hs
  | moves h => exact absurd (h.branches ▸ ht) hs
  | defers h => exact absurd (h.branches ▸ ht) hs
  | @branches mnemonic mode loc q h =>
    rw [h.branches, Array.toList_push, List.mem_append, List.mem_singleton] at ht
    obtain rfl := ht.resolve_left hs
    exact ⟨mnemonic, mode, loc, rfl, h⟩

lemma leftBy_of_mem_branches (hs : p ∉ s.branches.toList)
    (h : p ∈ (s.run visits).branches.toList) : s.LeftBy visits (Branches · · p) := by
  obtain ⟨done, v, rest, rfl, hbefore, hafter⟩ :=
    exists_step_of_run (P := fun t => p ∈ t.branches.toList) hs h
  obtain ⟨mnemonic, mode, loc, rfl, hbranches⟩ :=
    (effect_step _ v).branches_of_mem hbefore hafter
  exact ⟨done, mnemonic, mode, loc, rest, rfl, hbranches⟩

lemma isSome_offset (h : s.LeftBy visits (Branches · · p)) :
    ((s.run visits).payload.get? p.address).isSome = true := by
  obtain ⟨done, mnemonic, mode, loc, rest, rfl, h⟩ := h
  rw [run_append]
  refine isSome_get?_run ?_ rest
  obtain ⟨opcode, hpayload⟩ := h.payload
  rw [hpayload, Payload.isSome_get?_fill, h.address]
  exact .inl (by simp [consecutive, List.range_succ])

end Branches

/-- **All visits**: there is room for all that they leave for later. -/
lemma roomy_run (hdeferred : s.deferred = #[]) (hbranches : s.branches = #[])
    (visits : List Visit) : (s.run visits).Roomy where
  width p hp := by
    obtain ⟨_, _, _, _, _, _, h⟩ := leftBy_of_mem_deferred (by simp [hdeferred]) hp
    exact h.width
  room p hp := isSome_room (leftBy_of_mem_deferred (by simp [hdeferred]) hp)
  offset p hp := isSome_offset (leftBy_of_mem_branches (by simp [hbranches]) hp)

/-! ### How far the counter goes -/

lemma advances_append (u w : List Visit) :
    s.advances (u ++ w) = s.advances u + (s.run u).advances w := by
  induction u generalizing s with
  | nil => simp [advances, run]
  | cons v rest ih =>
    rw [List.cons_append, advances, advances, ih, Nat.add_assoc]
    rfl

lemma toNat_counter_step_le {n : Nat} (hn : maxAddress.toNat ≤ n) (hs : s.counter.toNat ≤ n)
    (v : Visit) : (s.step v).counter.toNat ≤ n + s.advance v := by
  have hstep (t : State) : t.counter.toNat ≤ n + (t.counter - s.counter).toNat := by
    have hback : s.counter + (t.counter - s.counter) = t.counter := by
      rw [UInt32.add_comm, UInt32.sub_add_cancel]
    have hle := Nat.mod_le (s.counter.toNat + (t.counter - s.counter).toNat) (2 ^ 32)
    rw [← UInt32.toNat_add, hback] at hle
    omega
  cases v with
  | origin loc =>
    rcases (s.does_step (.origin loc)).counter_origin with h | h
    · exact Nat.le_trans (UInt32.le_iff_toNat_le.mp h) hn
    · rw [h]
      exact hs
  | _ => exact hstep _

lemma toNat_counter_run_le {n : Nat} (hn : maxAddress.toNat ≤ n) (hs : s.counter.toNat ≤ n)
    (visits : List Visit) : (s.run visits).counter.toNat ≤ n + s.advances visits := by
  induction visits generalizing s n with
  | nil => exact hs
  | cons v rest ih =>
    have hrest := ih (Nat.le_add_right_of_le hn) (toNat_counter_step_le hn hs v)
    rw [Nat.add_assoc] at hrest
    exact hrest

/-- A statement of the run starts so far down that its bytes are still counted. -/
lemma LeftBy.bound {R : State → State → Prop} (h : s.LeftBy visits R)
    (hs : s.counter ≤ maxAddress) :
    ∃ u w, R u w ∧ u.counter.toNat + (w.counter - u.counter).toNat ≤
      maxAddress.toNat + s.advances visits := by
  obtain ⟨done, mnemonic, mode, loc, rest, rfl, h⟩ := h
  refine ⟨_, _, h, ?_⟩
  have hcounter := toNat_counter_run_le (Nat.le_refl _) (UInt32.le_iff_toNat_le.mp hs) done
  have hadvance : (s.run done).advance (.statement mnemonic mode loc) =
      (((s.run done).step (.statement mnemonic mode loc)).counter -
        (s.run done).counter).toNat := rfl
  rw [advances_append, advances, hadvance]
  omega

lemma Defers.end_le {p : DeferredPatch} {n : Nat} (h : s.Defers t p)
    (hn : s.counter.toNat + (t.counter - s.counter).toNat ≤ n) : p.address.toNat + p.width ≤ n := by
  have hwidth : (t.counter - s.counter).toNat = p.width := by
    rw [h.counter, UInt32.add_comm, UInt32.add_sub_cancel]
    rcases h.width with hw | hw <;> rw [hw] <;> rfl
  rwa [h.address, ← hwidth]

lemma Branches.end_le {p : BranchPatch} {n : Nat} (h : s.Branches t p)
    (hn : s.counter.toNat + (t.counter - s.counter).toNat ≤ n) : p.address.toNat + 1 ≤ n := by
  have htwo : (t.counter - s.counter).toNat = 2 := by
    rw [h.counter, UInt32.add_comm, UInt32.add_sub_cancel]
    rfl
  have hle := Nat.mod_le (s.counter.toNat + (1 : UInt32).toNat) (2 ^ 32)
  rw [← UInt32.toNat_add, ← h.address, UInt32.toNat_one] at hle
  omega

/-! ### Filling in -/

/-- **Patches stay in their rooms**, whatever the visits are: a statement has made room for each of
them, and the rooms end so far down that no address wraps while the visits store fewer than 2^31
bytes. What is filled in at the end replaces bytes of these rooms, and what fails leaves its room
alone, but for an operand that is too large: its opcode is filled in. -/
theorem patches_stay_in_rooms {file : String} {visits : List Visit} {s : State}
    (hs : (State.init file).run visits = s) :
    (∀ p ∈ s.deferred.toList, (State.init file).LeftBy visits (Defers · · p) ∧
      p.address.toNat + p.width ≤ 0xFFFF + (State.init file).advances visits) ∧
    (∀ p ∈ s.branches.toList, (State.init file).LeftBy visits (Branches · · p) ∧
      p.address.toNat + 1 ≤ 0xFFFF + (State.init file).advances visits) ∧
    s.Refills s.resolveDeferred (s.deferred.toList.flatMap DeferredPatch.room) ∧
    s.resolveDeferred.Refills s.resolveDeferred.resolveBranches
      (s.branches.toList.map (·.address)) ∧
    s.resolveDeferred.resolveBranches.deferred = #[] ∧
    s.resolveDeferred.resolveBranches.branches = #[] ∧
    s.resolveDeferred.payload =
      (s.deferred.toList.map (·.settle s.symbols)).foldl Payload.settle s.payload ∧
    s.resolveDeferred.resolveBranches.payload =
      (s.branches.toList.map (·.settle s.symbols)).foldl Payload.settle s.resolveDeferred.payload ∧
    (∀ p ∈ s.deferred.toList,
      (∀ a ∈ (p.settle s.symbols).addresses, a ∈ p.room) ∧
      (p.operand.eval s.symbols = .ok none → (p.settle s.symbols).bytes = []) ∧
      (∀ z, p.operand.eval s.symbols = .error z → (p.settle s.symbols).bytes = []) ∧
      ∀ v, p.operand.eval s.symbols = .ok (some v) → operandMax p.width < v →
        (p.settle s.symbols).address = p.address ∧ (p.settle s.symbols).bytes = [p.opcode]) ∧
    ∀ p ∈ s.branches.toList,
      (∀ a ∈ (p.settle s.symbols).addresses, a = p.address) ∧
      (¬p.Reaches s.symbols → (p.settle s.symbols).bytes = []) := by
  have hroomy : s.Roomy := hs ▸ roomy_run rfl rfl visits
  have hsecond := hroomy.resolveDeferred.refills_branches
  rw [resolveDeferred_branches] at hsecond
  have hresolved := s.resolveDeferred_eq_settle
  have hresolved' := s.resolveDeferred.resolveBranches_eq_settle
  have hstart : (State.init file).counter ≤ maxAddress := UInt32.zero_le
  refine ⟨fun p hp => ?_, fun p hp => ?_, hroomy.refills_deferred, hsecond, ?_, ?_, ?_, ?_,
    fun p hp => ⟨p.settle_inside (hroomy.width p hp) _, p.bytes_settle _⟩,
    fun p _ => ⟨p.settle_inside _, BranchPatch.bytes_settle⟩⟩
  · have hleft : (State.init file).LeftBy visits (Defers · · p) :=
      leftBy_of_mem_deferred (by simp [State.init]) (hs ▸ hp)
    obtain ⟨u, w, h, hbound⟩ := hleft.bound hstart
    exact ⟨hleft, h.end_le hbound⟩
  · have hleft : (State.init file).LeftBy visits (Branches · · p) :=
      leftBy_of_mem_branches (by simp [State.init]) (hs ▸ hp)
    obtain ⟨u, w, h, hbound⟩ := hleft.bound hstart
    exact ⟨hleft, h.end_le hbound⟩
  · rw [hresolved', hresolved]
  · rw [hresolved']
  · rw [hresolved]
  · rw [hresolved', resolveDeferred_branches, resolveDeferred_symbols]

/-- Three statements without a line around them: an operand that is too large, one that stays
unknown, and a branch. -/
def strayVisits : List Visit :=
  [.symbol "large" ⟨1, 5, ⟨4, 9⟩⟩, .statement "JMP" .absolute ⟨1, 1, ⟨0, 9⟩⟩,
    .symbol "unknown" ⟨2, 6, ⟨15, 22⟩⟩, .statement "LDA" .immediate ⟨2, 1, ⟨10, 22⟩⟩,
    .symbol "near" ⟨3, 5, ⟨27, 31⟩⟩, .statement "BNE" .relative ⟨3, 1, ⟨23, 31⟩⟩,
    .label "near" ⟨4, 1, ⟨32, 37⟩⟩, .number 0x12345 ⟨5, 9, ⟨46, 52⟩⟩,
    .assign "large" ⟨5, 1, ⟨38, 52⟩⟩]

theorem patches_stay_in_rooms_stray :
    ∃ s, (State.init "stray").run strayVisits = s ∧
      (State.init "stray").advances strayVisits = 7 ∧
      s.Refills s.resolveDeferred [0, 1, 2, 3, 4] ∧
      s.resolveDeferred.Refills s.resolveDeferred.resolveBranches [6] ∧
      [0, 1, 2, 3, 4, 5, 6, 7].map s.resolveDeferred.resolveBranches.payload.get? =
        [some 0x4C, some 0xFF, some 0xFF, some 0xFF, some 0xFF, some 0xD0, some 0, none] ∧
      s.resolveDeferred.resolveBranches.faults.size = 2 := by
  have hrooms : ((State.init "stray").run strayVisits).deferred.toList.flatMap
      DeferredPatch.room = [0, 1, 2, 3, 4] := by decide +kernel
  have hoffsets : ((State.init "stray").run strayVisits).branches.toList.map (·.address) =
      [6] := by decide +kernel
  obtain ⟨-, -, hfirst, hsecond, -⟩ :=
    patches_stay_in_rooms (rfl : (State.init "stray").run strayVisits = _)
  rw [hrooms] at hfirst
  rw [hoffsets] at hsecond
  exact ⟨_, rfl, by decide +kernel, hfirst, hsecond, by decide +kernel, by decide +kernel⟩

end CrossAsm.Assembly.State
