import Mathlib.Tactic.Common
import CrossAsm.Assembly.Encode

/-!
Storing bytes: what a run of bytes does to the payload, to the program counter and to the start of
the line, and that it leaves everything else alone.
-/

namespace CrossAsm

namespace Payload

lemma get?_insert (p : Payload) (a b : UInt32) (byte : UInt8) :
    (p.insert a byte).get? b = if a = b then some byte else p.get? b := by
  simp [get?, insert, Std.TreeMap.getElem?_insert]

@[simp] lemma fill_nil (p : Payload) (a : UInt32) : p.fill a [] = p := rfl

lemma fill_cons (p : Payload) (a : UInt32) (byte : UInt8) (rest : List UInt8) :
    p.fill a (byte :: rest) = (p.insert a byte).fill (a + 1) rest := rfl

lemma ofNat_succ_add (a : UInt32) (n : Nat) :
    a + 1 + UInt32.ofNat n = a + UInt32.ofNat (n + 1) := by
  rw [UInt32.add_assoc, ← UInt32.ofNat_one, ← UInt32.ofNat_add, Nat.add_comm 1 n]

lemma fill_append (p : Payload) (a : UInt32) (bytes more : List UInt8) :
    p.fill a (bytes ++ more) = (p.fill a bytes).fill (a + UInt32.ofNat bytes.length) more := by
  induction bytes generalizing p a with
  | nil => simp
  | cons x rest ih => rw [List.cons_append, fill_cons, fill_cons, ih, ofNat_succ_add,
      List.length_cons]

/-- What is stored at an address by bytes that do not run past the end of all addresses. -/
lemma get?_fill (p : Payload) (a b : UInt32) (bytes : List UInt8)
    (h : a.toNat + bytes.length ≤ 0x100000000) :
    (p.fill a bytes).get? b =
      if a.toNat ≤ b.toNat ∧ b.toNat < a.toNat + bytes.length then bytes[b.toNat - a.toNat]?
      else p.get? b := by
  induction bytes generalizing p a with
  | nil =>
    rw [fill_nil, if_neg]
    simp only [List.length_nil]
    omega
  | cons x rest ih =>
    rw [fill_cons]
    simp only [List.length_cons] at h ⊢
    rcases Nat.eq_zero_or_pos rest.length with hr | hr
    · -- the last byte may stand at the last address, which has no successor
      obtain rfl : rest = [] := List.length_eq_zero_iff.mp hr
      rw [fill_nil, get?_insert]
      by_cases hab : a = b
      · subst hab
        simp
      · have : a.toNat ≠ b.toNat := fun e => hab (UInt32.toNat_inj.mp e)
        rw [if_neg hab, if_neg]
        simp only [List.length_nil]
        omega
    · have ha : (a + 1).toNat = a.toNat + 1 := by
        rw [UInt32.toNat_add]
        simp only [UInt32.toNat_one]
        omega
      rw [ih _ _ (by omega), ha, get?_insert]
      by_cases hab : a = b
      · subst hab
        rw [if_neg (by omega), if_pos rfl, if_pos (by omega)]
        simp
      · have hne : a.toNat ≠ b.toNat := fun e => hab (UInt32.toNat_inj.mp e)
        rw [if_neg hab]
        by_cases hin : a.toNat + 1 ≤ b.toNat ∧ b.toNat < a.toNat + 1 + rest.length
        · rw [if_pos hin, if_pos (by omega)]
          have : b.toNat - a.toNat = b.toNat - (a.toNat + 1) + 1 := by omega
          rw [this, List.getElem?_cons_succ]
        · rw [if_neg hin, if_neg (by omega)]

/-- Whether bytes at consecutive addresses replace one that is there. -/
def hits (p : Payload) : UInt32 → List UInt8 → Bool
  | _, [] => false
  | address, byte :: rest =>
    (p.get? address).isSome || (p.insert address byte).hits (address + 1) rest

end Payload

/-- Bytes for consecutive addresses. -/
structure Write where
  start : Nat
  bytes : List UInt8

namespace Write

/-- The byte for an address, if there is one. -/
def byteFor (w : Write) (address : Nat) : Option UInt8 :=
  if w.start ≤ address then w.bytes[address - w.start]? else none

/-- The write ends within the addresses there are. -/
def Fits (w : Write) : Prop := w.start + w.bytes.length < 0x100000000

lemma byteFor_eq_none {w : Write} {address : Nat}
    (h : ¬(w.start ≤ address ∧ address < w.start + w.bytes.length)) :
    w.byteFor address = none := by
  unfold byteFor
  split
  · exact List.getElem?_eq_none (by omega)
  · rfl

lemma isSome_byteFor {w : Write} {address : Nat} : (w.byteFor address).isSome = true ↔
    w.start ≤ address ∧ address < w.start + w.bytes.length := by
  unfold byteFor
  split
  · next hle =>
    rw [and_iff_right hle, ← Option.ne_none_iff_isSome, ne_eq, List.getElem?_eq_none_iff]
    omega
  · next hlt => simp [hlt]

end Write

namespace Payload

def store (p : Payload) (w : Write) : Payload := p.fill (UInt32.ofNat w.start) w.bytes

lemma get?_store (p : Payload) {w : Write} (h : w.Fits) (a : UInt32) :
    (p.store w).get? a = (w.byteFor a.toNat).or (p.get? a) := by
  unfold Write.Fits at h
  have hstart : (UInt32.ofNat w.start).toNat = w.start :=
    UInt32.toNat_ofNat_of_lt' (Nat.lt_of_le_of_lt (Nat.le_add_right _ _) h)
  rw [store, get?_fill p _ a _ (by omega), hstart]
  split
  · next hin =>
    have hlt : a.toNat - w.start < w.bytes.length := by omega
    simp [Write.byteFor, hin.1, List.getElem?_eq_getElem hlt]
  · next hout => rw [Write.byteFor_eq_none hout, Option.none_or]

/-- Of several writes, the last one that has a byte for an address counts. -/
lemma get?_foldl_store (p : Payload) {ws : List Write} (h : ∀ w ∈ ws, w.Fits) (a : UInt32) :
    (ws.foldl store p).get? a = (ws.reverse.findSome? (·.byteFor a.toNat)).or (p.get? a) := by
  induction ws generalizing p with
  | nil => rfl
  | cons w rest ih =>
    obtain ⟨hw, hrest⟩ := List.forall_mem_cons.mp h
    rw [List.foldl_cons, ih _ hrest, get?_store p hw, List.reverse_cons, List.findSome?_append,
      List.findSome?_singleton, Option.or_assoc]

end Payload

namespace Assembly.State

variable (s : State) (bytes : List UInt8)

lemma emit_nil : s.emit [] = s := rfl

lemma emit_cons (byte : UInt8) : s.emit (byte :: bytes) = (s.emitByte byte).emit bytes := rfl

lemma emit_append (more : List UInt8) : s.emit (bytes ++ more) = (s.emit bytes).emit more := by
  simp [emit, List.foldl_append]

lemma reserve_eq (width : Nat) :
    s.reserve width = s.emit (List.replicate width unmappedByte) := rfl

/-- A run of bytes changes four fields. -/
lemma emit_eq : s.emit bytes =
    { s with
      payload := s.payload.fill s.counter bytes
      counter := s.counter + UInt32.ofNat bytes.length
      lineStart := if bytes = [] then s.lineStart else some (s.lineStart.getD s.counter)
      overwrites := s.overwrites || s.payload.hits s.counter bytes } := by
  induction bytes generalizing s with
  | nil => simp [emit_nil, Payload.hits]
  | cons x rest ih =>
    rw [emit_cons, ih]
    simp only [emitByte, Payload.fill_cons, Payload.ofNat_succ_add, List.length_cons,
      Option.getD_some, reduceCtorEq, if_false, ite_self, Payload.hits, Bool.or_assoc]

@[simp] lemma emit_file : (s.emit bytes).file = s.file := by rw [emit_eq]

@[simp] lemma emit_symbols : (s.emit bytes).symbols = s.symbols := by rw [emit_eq]

@[simp] lemma emit_codeLines : (s.emit bytes).codeLines = s.codeLines := by rw [emit_eq]

@[simp] lemma emit_operands : (s.emit bytes).operands = s.operands := by rw [emit_eq]

@[simp] lemma emit_deferred : (s.emit bytes).deferred = s.deferred := by rw [emit_eq]

@[simp] lemma emit_branches : (s.emit bytes).branches = s.branches := by rw [emit_eq]

@[simp] lemma emit_faults : (s.emit bytes).faults = s.faults := by rw [emit_eq]

@[simp] lemma emit_events : (s.emit bytes).events = s.events := by rw [emit_eq]

lemma emit_payload : (s.emit bytes).payload = s.payload.fill s.counter bytes := by rw [emit_eq]

lemma emit_counter : (s.emit bytes).counter = s.counter + UInt32.ofNat bytes.length := by
  rw [emit_eq]

lemma emit_overwrites : (s.emit bytes).overwrites =
    (s.overwrites || s.payload.hits s.counter bytes) := by
  rw [emit_eq]

lemma emit_lineStart : (s.emit bytes).lineStart =
    if bytes = [] then s.lineStart else some (s.lineStart.getD s.counter) := by
  rw [emit_eq]

@[simp] lemma reserve_symbols (width : Nat) : (s.reserve width).symbols = s.symbols :=
  emit_symbols s _

@[simp] lemma reserve_faults (width : Nat) : (s.reserve width).faults = s.faults :=
  emit_faults s _

end Assembly.State

end CrossAsm
