import Mathlib.Tactic.Common
import CrossAsm.Proofs.Reading
import CrossAsm.Proofs.Steps

/-!
What a line stores, whether it is at fault or not. Every step of a line either emits bytes behind
those that the line has emitted so far, or touches neither memory nor the program counter; only an
origin moves the counter. What a line leaves for the end is about its own bytes.
-/

namespace CrossAsm

/-- A data directive has one operand for each value. -/
lemma DataItem.length_operands (items : List DataItem) :
    (items.flatMap DataItem.operands).length = DataItem.totalWeight items := by
  induction items with
  | nil => rfl
  | cons i rest ih =>
    rw [List.flatMap_cons, List.length_append, ih, totalWeight]
    cases i <;> simp [operands, weight, String.length_toList]

namespace Assembly.State

/-- Where the stack was empty before the line, its body has room for two bytes for each value and
word. -/
lemma mostBytes_root {s : State} (hs : s.operands = []) (b : Body) :
    (s.pushAll b.operands).mostBytes b.root ≤ 2 * b.weight := by
  have hcount (os : List Operand) : (s.pushAll os).operands.length = os.length := by
    simp [pushAll, hs]
  rcases b with (⟨e, loc⟩ | ⟨kind, items, loc⟩ | ⟨name, e, loc⟩) | st
  · exact Nat.zero_le _
  · simp only [mostBytes, Body.root, hcount, Body.operands, DataItem.length_operands, Body.weight,
      Nat.le_refl]
  · exact Nat.zero_le _
  · simp only [mostBytes, Body.root, hcount, Body.operands]
    cases hoperand : st.operand <;> simp [Body.weight, Statement.weight, hoperand]

/-- On the way from `s` to `t` the line in progress has emitted the bytes, from an address on that
is where the counter stood or else an origin. -/
structure Stores (s t : State) (a : UInt32) (bytes : List UInt8) : Prop where
  starts : a = s.counter ∨ a ≤ maxAddress
  payload : t.payload = s.payload.fill a bytes
  counter : t.counter = a + UInt32.ofNat bytes.length
  lineStart : t.lineStart.getD t.counter = a
  deferred : ∀ p ∈ t.deferred.toList,
    p ∈ s.deferred.toList ∨ (p.address = a ∧ 2 ≤ p.width ∧ p.width ≤ bytes.length)
  branches : ∀ p ∈ t.branches.toList,
    p ∈ s.branches.toList ∨ (p.address = a + 1 ∧ 2 ≤ bytes.length)

/-- The line in progress has emitted no more than so many bytes. -/
def StoresUpTo (n : Nat) (s t : State) : Prop := ∃ a bytes, bytes.length ≤ n ∧ s.Stores t a bytes

namespace Stores

variable {s t : State} {a : UInt32} {bytes : List UInt8}

lemma refl (hs : s.lineStart = none) : s.Stores s s.counter [] where
  starts := .inl rfl
  payload := rfl
  counter := by simp
  lineStart := by rw [hs, Option.getD_none]
  deferred _ hp := .inl hp
  branches _ hp := .inl hp

lemma upTo (h : s.Stores t a bytes) {n : Nat} (hn : bytes.length ≤ n) : StoresUpTo n s t :=
  ⟨a, bytes, hn, h⟩

/-! ### Single steps -/

lemma notes {u : State} {ready : Prop} (h : s.Stores t a bytes) (hnotes : t.Notes u ready) :
    s.Stores u a bytes where
  starts := h.starts
  payload := hnotes.payload.trans h.payload
  counter := hnotes.counter.trans h.counter
  lineStart := by rw [hnotes.lineStart, hnotes.counter, h.lineStart]
  deferred p hp := h.deferred p (hnotes.deferred ▸ hp)
  branches p hp := h.branches p (hnotes.branches ▸ hp)

lemma emit (h : s.Stores t a bytes) (more : List UInt8) :
    s.Stores (t.emit more) a (bytes ++ more) where
  starts := h.starts
  payload := by rw [emit_payload, h.payload, h.counter, Payload.fill_append]
  counter := by
    rw [emit_counter, h.counter, List.length_append, UInt32.ofNat_add, UInt32.add_assoc]
  lineStart := by
    rcases more with _ | ⟨x, more⟩
    · exact h.lineStart
    · rw [emit_lineStart, if_neg (by simp), Option.getD_some, h.lineStart]
  deferred p hp := by
    rw [emit_deferred] at hp
    refine (h.deferred p hp).imp_right fun ⟨haddress, hmin, hmax⟩ => ⟨haddress, hmin, ?_⟩
    rw [List.length_append]
    omega
  branches p hp := by
    rw [emit_branches] at hp
    refine (h.branches p hp).imp_right fun ⟨haddress, hmin⟩ => ⟨haddress, ?_⟩
    rw [List.length_append]
    omega

/-- Before the first byte of the line the counter stands where the line starts. -/
lemma counter_eq (h : s.Stores t a []) : t.counter = a := by simpa using h.counter

/-- What is deferred covers the room that is left for it. -/
lemma defer (h : s.Stores t a []) (opcode : UInt8) {width : Nat} (hwidth : 2 ≤ width)
    (operand : Operand) (loc : Location) :
    s.Stores (t.defer opcode width operand loc) a (List.replicate width unmappedByte) := by
  have hroom := h.emit (List.replicate width unmappedByte)
  refine { hroom with deferred := ?_ }
  intro p hp
  simp only [State.defer, State.log, Array.toList_push, List.mem_append, List.mem_singleton] at hp
  rcases hp with hp | rfl
  · exact hroom.deferred p hp
  · exact .inr ⟨h.counter_eq, hwidth, by simp⟩

lemma encodeBranch (h : s.Stores t a []) (opcode : UInt8) (mnemonic : String)
    (target : Operand) :
    s.Stores (t.encodeBranch opcode mnemonic target) a [opcode, unmappedByte] := by
  have hroom := (h.emit [opcode]).emit [unmappedByte]
  refine { hroom with branches := ?_ }
  intro p hp
  simp only [State.encodeBranch, State.log, Array.toList_push, List.mem_append,
    List.mem_singleton] at hp
  rcases hp with hp | rfl
  · exact hroom.branches p hp
  · exact .inr ⟨by rw [h.counter_eq], Nat.le_refl 2⟩

/-- A new origin is the only other place a line may start at. -/
lemma moves (h : s.Stores t a []) {address : UInt32} (haddress : address ≤ maxAddress) :
    s.Stores { t with counter := address, lineStart := some address } address [] where
  starts := .inr haddress
  payload := h.payload
  counter := by simp
  lineStart := rfl
  deferred p hp := .inl ((h.deferred p hp).resolve_right (by simp only [List.length_nil]; omega))
  branches p hp := .inl ((h.branches p hp).resolve_right (by simp))

/-- A step within a line that has no bytes yet stores no more than it may. -/
lemma does {u : State} {v : Visit} (h : s.Stores t a []) (hdoes : t.Does v u)
    (hv : v.endsLine = false) : StoresUpTo (t.mostBytes v) s u := by
  cases hdoes with
  | emits hnotes hroom => exact ((h.notes hnotes).emit _).upTo hroom
  | defers hnotes hwidth hroom =>
    exact ((h.notes hnotes).defer _ (by omega) _ _).upTo (by rwa [List.length_replicate])
  | branches hnotes hroom => exact ((h.notes hnotes).encodeBranch _ _ _).upTo hroom
  | moves hnotes haddress => exact ((h.notes hnotes).moves haddress).upTo (Nat.zero_le _)
  | ends => cases hv

/-! ### Lines -/

lemma perform (h : s.Stores t a []) (ht : t.operands = []) (body : Option Body) :
    StoresUpTo (2 * body.elim 0 Body.weight) s (t.perform body) := by
  cases body with
  | none => exact h.upTo (Nat.le_refl 0)
  | some b =>
    have hpush := h.notes (t.notes_pushAll b.operands)
    obtain ⟨a', bytes, hlength, hstores⟩ := hpush.does (does_step _ b.root) b.endsLine_root
    exact hstores.upTo (Nat.le_trans hlength (mostBytes_root ht b))

end Stores

/-- A line that starts with nothing pending stores two bytes at most for each value and word. -/
lemma stores_line {s : State} (hoperands : s.operands = []) (hstart : s.lineStart = none)
    (l : Line) : StoresUpTo (2 * l.weight) s ((s.enter l).perform l.body) :=
  ((Stores.refl hstart).notes (s.notes_enter l)).perform (by rw [enter_operands, hoperands]) l.body

end Assembly.State

end CrossAsm
