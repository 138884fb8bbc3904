import Mathlib.Tactic.Common
import CrossAsm.Proofs.Patching

/-!
An operand that has to wait against the same operand known at once. Width and range are decided in
two places, when an instruction is met and when what waits is filled in; here they are shown to
decide alike. Both ways settle the operand in the widest form of the instruction, but for an address
that is known to fit a byte and has a short form besides the long one. Main statement:
`waiting_matches_direct`.
-/

namespace CrossAsm

/-- What is stored over as many bytes hides them. -/
lemma Payload.get?_fill_fill (p : Payload) {a : UInt32} {old new : List UInt8}
    (hlength : old.length = new.length) (hroom : a.toNat + new.length ≤ 0x100000000) (b : UInt32) :
    ((p.fill a old).fill a new).get? b = (p.fill a new).get? b := by
  rw [get?_fill _ a b new hroom, get?_fill p a b new hroom, get?_fill p a b old (by omega), hlength]
  split <;> rfl

namespace Instruction.Opcodes

/-- The form that an instruction takes while its operand is unknown: its opcode, and how many bytes
it has. -/
inductive Widest (codes : Opcodes) : OperandShape → UInt8 → Nat → Prop
  | byte {opcode : UInt8} : codes.full = some opcode → codes.Widest .byte opcode 2
  | full {opcode : UInt8} : codes.full = some opcode → codes.Widest .address opcode 3
  | zeroPage {opcode : UInt8} : codes.full = none → codes.zeroPage = some opcode →
    codes.Widest .address opcode 2

/-- A value under a table fits the short form of an address that has a long one too. -/
def Shortens (codes : Opcodes) (o : Operand) (t : SymbolTable) : Prop :=
  codes.full.isSome ∧ codes.zeroPage.isSome ∧ ∃ v, o.eval t = .ok (some v) ∧ v ≤ 0xFF

end Instruction.Opcodes

namespace Instruction

variable {mnemonic : String} {mode : Mode}

lemma shape_of_zeroPage {opcode : UInt8} (h : (opcodes mnemonic mode).zeroPage = some opcode) :
    mode.shape = .address := by
  cases mode <;> first | rfl | simp [opcodes, Mode.zeroPageForm?] at h

lemma exists_widest (hsupported : supports mnemonic mode = true) (hi : mode ≠ .implied)
    (hr : mode ≠ .relative) :
    ∃ opcode width, (opcodes mnemonic mode).Widest mode.shape opcode width := by
  rcases hfull : (opcodes mnemonic mode).full with _ | full
  · have hzero : (opcodes mnemonic mode).zeroPage.isSome = true := by
      simpa [supports, hfull] using hsupported
    obtain ⟨zeroPage, hzeroPage⟩ := Option.isSome_iff_exists.mp hzero
    exact ⟨zeroPage, 2, shape_of_zeroPage hzeroPage ▸ .zeroPage hfull hzeroPage⟩
  · rcases Mode.shape_of_operand hi hr with hshape | hshape
    · exact ⟨full, 2, hshape ▸ .byte hfull⟩
    · exact ⟨full, 3, hshape ▸ .full hfull⟩

lemma Opcodes.Widest.width_eq {codes : Opcodes} {shape : OperandShape} {opcode : UInt8}
    {width : Nat} (h : codes.Widest shape opcode width) : width = 2 ∨ width = 3 := by
  cases h with
  | byte => exact .inl rfl
  | full => exact .inr rfl
  | zeroPage => exact .inl rfl

end Instruction

lemma highByte_of_le {v : UInt32} (h : v ≤ 0xFF) : (v >>> 8).toUInt8 = 0 := by
  have hv := (le_byte_iff v).mp h
  rw [← highByte_toNat, highByte, Nat.div_eq_of_lt (by omega)]
  rfl

lemma DeferredPatch.length_bytes {d : DeferredPatch} (h : d.width = 2 ∨ d.width = 3) (v : UInt32) :
    (d.bytes v).length = d.width := by
  rcases h with h | h <;> simp [bytes, h]

namespace Assembly.State

/-- The state with other symbols. -/
def knowing (s : State) (t : SymbolTable) : State := { s with symbols := t }

/-- The same when the operand of an instruction is off the stack. -/
def taking (s : State) (t : SymbolTable) (rest : List Operand) : State :=
  { s with symbols := t, operands := rest }

/-! ### What an instruction leaves -/

/-- On the way to `t` nothing was reported, and the bytes were stored at the program counter. -/
structure Leaves (s t : State) (bytes : List UInt8) : Prop where
  counter : t.counter = s.counter + UInt32.ofNat bytes.length
  faults : t.faults = s.faults
  payload : ∀ a, t.payload.get? a = (s.payload.fill s.counter bytes).get? a

/-- On the way to `t` a fault was reported, and the counter went on. -/
structure Reports (s t : State) (width : Nat) (f : Fault) (loc : Location) : Prop where
  counter : t.counter = s.counter + UInt32.ofNat width
  faults : t.faults = s.faults.push (f.diagnose loc)

/-- What becomes of an operand with some symbols, in the form of a patch. -/
structure Settles (s t : State) (d : DeferredPatch) (table : SymbolTable) : Prop where
  stored : ∀ v, d.operand.eval table = .ok (some v) → v ≤ operandMax d.width →
    s.Leaves t (d.bytes v)
  tooLarge : ∀ v, d.operand.eval table = .ok (some v) → ¬v ≤ operandMax d.width →
    s.Reports t d.width (.operandTooLarge d.operand.text v (operandMax d.width).toNat) d.loc
  undefined : ∀ z, d.operand.eval table = .error z → s.Reports t d.width z.fault z.loc

/-- Two ways from a state move the counter alike and report the same; and if they report nothing,
they leave the same bytes. -/
structure Agrees (s t t' : State) : Prop where
  counter : t.counter = t'.counter
  faults : t.faults = t'.faults
  payload : t'.faults = s.faults → ∀ a, t.payload.get? a = t'.payload.get? a

variable {s u u' : State} {t t' table : SymbolTable} {o : Operand} {rest : List Operand}
  {d : DeferredPatch} {loc : Location} {mnemonic : String} {mode : Mode} {opcode : UInt8}
  {width : Nat}

lemma Reports.agrees {f : Fault} (h : s.Reports u width f loc) (h' : s.Reports u' width f loc) :
    s.Agrees u u' where
  counter := by rw [h.counter, h'.counter]
  faults := by rw [h.faults, h'.faults]
  payload hnone := by
    rw [h'.faults] at hnone
    simpa using congrArg Array.size hnone

lemma Leaves.agrees {bytes : List UInt8} (h : s.Leaves u bytes) (h' : s.Leaves u' bytes) :
    s.Agrees u u' where
  counter := by rw [h.counter, h'.counter]
  faults := by rw [h.faults, h'.faults]
  payload _ a := by rw [h.payload, h'.payload]

/-- What is settled in one form is settled alike. -/
lemma Settles.agrees (h : s.Settles u d table) (h' : s.Settles u' d table)
    (hknown : d.operand.eval table ≠ .ok none) : s.Agrees u u' := by
  rcases heval : d.operand.eval table with z | _ | v
  · exact (h.undefined z heval).agrees (h'.undefined z heval)
  · exact absurd heval hknown
  · by_cases hv : v ≤ operandMax d.width
    · exact (h.stored v heval hv).agrees (h'.stored v heval hv)
    · exact (h.tooLarge v heval hv).agrees (h'.tooLarge v heval hv)

/-! ### At once -/

lemma leaves_emit (s : State) (t : SymbolTable) (rest : List Operand) (bytes : List UInt8) :
    s.Leaves ((s.taking t rest).emit bytes) bytes where
  counter := emit_counter _ _
  faults := emit_faults _ _
  payload a := by rw [emit_payload]; rfl

lemma reports_emit (s : State) (t : SymbolTable) (rest : List Operand) (f : Fault) (loc : Location)
    {bytes : List UInt8} (hlength : bytes.length = width) :
    s.Reports (((s.taking t rest).report f loc).emit bytes) width f loc where
  counter := by rw [emit_counter, hlength]; rfl
  faults := emit_faults _ _

lemma reports_reserve (s : State) (t : SymbolTable) (rest : List Operand) (f : Fault)
    (loc : Location) (width : Nat) :
    s.Reports (((s.taking t rest).report f loc).reserve width) width f loc :=
  reports_emit s t rest f loc List.length_replicate

/-- A value is stored, unless it is too large. -/
lemma settles_value {v max : UInt32} (hv : d.operand.eval t = .ok (some v))
    (hmax : operandMax d.width = max) (hstored : s.Leaves u (d.bytes v))
    (hlarge : s.Reports u' d.width (.operandTooLarge d.operand.text v max.toNat) d.loc) :
    s.Settles (if v > max then u' else u) d t where
  stored w hw hle := by
    obtain rfl : v = w := by simpa [hv] using hw
    rwa [if_neg (by rw [← hmax]; exact UInt32.not_lt.mpr hle)]
  tooLarge w hw hgt := by
    obtain rfl : v = w := by simpa [hv] using hw
    rwa [if_pos (by rw [← hmax]; exact UInt32.not_le.mp hgt), hmax]
  undefined z hz := by simp [hv] at hz

/-- A division by zero is reported. -/
lemma settles_undefined {z : ZeroDivision} (hz : d.operand.eval t = .error z)
    (h : s.Reports u d.width z.fault z.loc) : s.Settles u d t where
  stored v hv := by simp [hz] at hv
  tooLarge v hv := by simp [hz] at hv
  undefined w hw := by
    obtain rfl : z = w := by simpa [hz] using hw
    exact h

section Known

variable (s) (rest) (address : UInt32)

lemma settles_encodeByte (hknown : o.eval t ≠ .ok none) :
    s.Settles ((s.taking t rest).encodeByte opcode o loc) ⟨opcode, 2, o, address, loc⟩ t := by
  rcases heval : o.eval t with z | _ | v
  · refine settles_undefined heval ?_
    simp only [encodeByte, taking, heval]
    exact reports_reserve s t rest _ _ _
  · exact absurd heval hknown
  · simp only [encodeByte, taking, heval]
    rw [apply_ite (State.emit · _)]
    exact settles_value heval rfl (leaves_emit s t rest _) (reports_emit s t rest _ _ rfl)

lemma settles_encodeWide {v : UInt32} (hv : o.eval t = .ok (some v)) :
    s.Settles ((s.taking t rest).encodeWide opcode o v loc) ⟨opcode, 3, o, address, loc⟩ t :=
  settles_value hv rfl (leaves_emit s t rest _) (reports_reserve s t rest _ _ _)

lemma settles_encodeNarrow {v : UInt32} (hv : o.eval t = .ok (some v)) :
    s.Settles ((s.taking t rest).encodeNarrow opcode o v loc) ⟨opcode, 2, o, address, loc⟩ t :=
  settles_value hv rfl (leaves_emit s t rest _) (reports_reserve s t rest _ _ _)

lemma settles_encodeAddress {codes : Instruction.Opcodes}
    (hwidest : codes.Widest .address opcode width)
    (hshort : ¬codes.Shortens o t) (hknown : o.eval t ≠ .ok none) :
    s.Settles ((s.taking t rest).encodeAddress codes mnemonic o loc)
      ⟨opcode, width, o, address, loc⟩ t := by
  rcases heval : o.eval t with z | _ | v
  · refine settles_undefined heval ?_
    simp only [encodeAddress, taking, heval]
    cases hwidest with
    | full hfull => rw [hfull]; exact reports_reserve s t rest _ _ _
    | zeroPage hfull hzero => rw [hfull]; exact reports_reserve s t rest _ _ _
  · exact absurd heval hknown
  · simp only [encodeAddress, taking, heval, encodeKnown]
    cases hwidest with
    | full hfull =>
      rcases hzero : codes.zeroPage with _ | zeroPage
      · simp only [hfull]
        exact settles_encodeWide s rest address heval
      · have hv : ¬v ≤ 0xFF := fun hle => hshort ⟨by simp [hfull], by simp [hzero], v, heval, hle⟩
        simp only [hfull, if_neg hv]
        exact settles_encodeWide s rest address heval
    | zeroPage hfull hzero =>
      simp only [hfull, hzero]
      exact settles_encodeNarrow s rest address heval

end Known

section Encode

variable (hstack : s.operands = o :: rest)

include hstack

lemma encode_byte (hshape : mode.shape = .byte)
    (hfull : (Instruction.opcodes mnemonic mode).full = some opcode) :
    (s.knowing t).encode mnemonic mode loc = (s.taking t rest).encodeByte opcode o loc := by
  have hsupported : Instruction.supports mnemonic mode = true := by
    simp [Instruction.supports, hfull]
  simp only [encode, hsupported, hshape, hfull, if_true, withOperand, knowing, hstack]
  rfl

lemma encode_address (hsupported : Instruction.supports mnemonic mode = true)
    (hshape : mode.shape = .address) :
    (s.knowing t).encode mnemonic mode loc =
      (s.taking t rest).encodeAddress (Instruction.opcodes mnemonic mode) mnemonic o loc := by
  simp only [encode, hsupported, hshape, if_true, withOperand, knowing, hstack]
  rfl

lemma settles_encode (hsupported : Instruction.supports mnemonic mode = true)
    (hwidest : (Instruction.opcodes mnemonic mode).Widest mode.shape opcode width)
    (hshort : ¬(Instruction.opcodes mnemonic mode).Shortens o t) (hknown : o.eval t ≠ .ok none) :
    s.Settles ((s.knowing t).encode mnemonic mode loc) ⟨opcode, width, o, s.counter, loc⟩ t := by
  rcases hshape : mode.shape with _ | _ | _ | _ <;> rw [hshape] at hwidest
  · cases hwidest
  · cases hwidest
  · cases hwidest with
    | byte hfull =>
      rw [encode_byte hstack hshape hfull]
      exact settles_encodeByte s rest s.counter hknown
  · rw [encode_address hstack hsupported hshape]
    exact settles_encodeAddress s rest s.counter hwidest hshort hknown

/-! ### Later -/

lemma encode_waiting (hsupported : Instruction.supports mnemonic mode = true)
    (hwidest : (Instruction.opcodes mnemonic mode).Widest mode.shape opcode width)
    (hwaits : o.eval t = .ok none) :
    (s.knowing t).encode mnemonic mode loc = (s.taking t rest).defer opcode width o loc := by
  rcases hshape : mode.shape with _ | _ | _ | _ <;> rw [hshape] at hwidest
  · cases hwidest
  · cases hwidest
  · cases hwidest with
    | byte hfull =>
      rw [encode_byte hstack hshape hfull]
      simp only [encodeByte, taking, hwaits]
  · rw [encode_address hstack hsupported hshape]
    simp only [encodeAddress, taking, hwaits]
    cases hwidest with
    | full hfull => simp only [hfull]
    | zeroPage hfull hzero => simp only [hfull, hzero]

end Encode

section Resolve

variable (hpending : s.deferred = #[]) (t t' : SymbolTable) (rest : List Operand) (opcode : UInt8)
  (width : Nat) (o : Operand) (loc : Location)

include hpending

/-- With nothing else waiting, only the operand in question is filled in, where room was left for
it. -/
lemma resolve_defer : ∃ b : State,
    (((s.taking t rest).defer opcode width o loc).knowing t').resolveDeferred =
      b.applyDeferred ⟨opcode, width, o, s.counter, loc⟩ ∧
    b.symbols = t' ∧ b.counter = s.counter + UInt32.ofNat width ∧ b.faults = s.faults ∧
    b.payload = s.payload.fill s.counter (List.replicate width unmappedByte) := by
  have hwaiting : (((s.taking t rest).defer opcode width o loc).knowing t').deferred =
      #[⟨opcode, width, o, s.counter, loc⟩] := by
    simp [knowing, defer, log, reserve, taking, hpending]
  simp only [resolveDeferred, hwaiting, ← Array.foldl_toList, List.foldl_cons, List.foldl_nil]
  refine ⟨_, rfl, rfl, ?_, ?_, ?_⟩
  · simp [knowing, defer, log, reserve, emit_counter, taking]
  · simp [knowing, defer, log, reserve, taking]
  · simp [knowing, defer, log, reserve, emit_payload, taking]

/-- What waits is settled in the form that it got. -/
lemma settles_resolve (hwidth : width = 2 ∨ width = 3)
    (hroom : s.counter.toNat + width ≤ 0x100000000) :
    s.Settles (((s.taking t rest).defer opcode width o loc).knowing t').resolveDeferred
      ⟨opcode, width, o, s.counter, loc⟩ t' := by
  obtain ⟨b, hresolve, rfl, hcounter, hfaults, hpayload⟩ :=
    resolve_defer hpending t t' rest opcode width o loc
  rw [hresolve]
  refine ⟨?_, ?_, ?_⟩
  · intro v hv hle
    have hmean : o.meaning b.symbols = .value v := by simp only [Operand.meaning, hv]
    have hlength := DeferredPatch.length_bytes (d := ⟨opcode, width, o, s.counter, loc⟩) hwidth v
    rw [applyDeferred_eq]
    · refine ⟨by rw [hlength]; exact hcounter, hfaults, fun a => ?_⟩
      simp only [DeferredPatch.store, hmean, Meaning.word_value, hpayload]
      exact s.payload.get?_fill_fill (by rw [hlength, List.length_replicate])
        (by rw [hlength]; exact hroom) a
    · simpa [DeferredPatch.Fits, hmean, Meaning.fits] using UInt32.le_iff_toNat_le.mp hle
  · intro v hv hgt
    simp only [applyDeferred, hv, if_pos (UInt32.not_le.mp hgt)]
    exact ⟨hcounter, by rw [← hfaults]; rfl⟩
  · intro z hz
    simp only [applyDeferred, hz]
    exact ⟨hcounter, by rw [← hfaults]; rfl⟩

end Resolve

/-! ### Both -/

/-- An instruction is met with the symbols of one table, and what waits is filled in with those of
another one. -/
def encodeLate (s : State) (t t' : SymbolTable) (mnemonic : String) (mode : Mode)
    (loc : Location) : State :=
  (((s.knowing t).encode mnemonic mode loc).knowing t').resolveDeferred

/-- An instruction is met with all symbols. -/
def encodeAtOnce (s : State) (t : SymbolTable) (mnemonic : String) (mode : Mode)
    (loc : Location) : State :=
  (s.knowing t).encode mnemonic mode loc

section Both

variable (hstack : s.operands = o :: rest) (hsupported : Instruction.supports mnemonic mode = true)

include hstack hsupported

/-- An address with two forms gets the short one at once, if its value is known to fit. -/
lemma leaves_encodeAtOnce {full zeroPage : UInt8} {v : UInt32}
    (hfull : (Instruction.opcodes mnemonic mode).full = some full)
    (hzero : (Instruction.opcodes mnemonic mode).zeroPage = some zeroPage)
    (hv : o.eval t = .ok (some v)) (hle : v ≤ 0xFF) :
    s.Leaves (s.encodeAtOnce t mnemonic mode loc) [zeroPage, v.toUInt8] := by
  rw [encodeAtOnce, encode_address hstack hsupported (Instruction.shape_of_zeroPage hzero)]
  simp only [encodeAddress, taking, hv, encodeKnown, hfull, hzero, if_pos hle]
  exact leaves_emit s t rest _

variable (hpending : s.deferred = #[]) (hroom : s.counter.toNat + 3 ≤ 0x100000000)
  (hwaits : o.eval t = .ok none)

include hpending hroom hwaits

lemma settles_encodeLate
    (hwidest : (Instruction.opcodes mnemonic mode).Widest mode.shape opcode width) :
    s.Settles (s.encodeLate t t' mnemonic mode loc) ⟨opcode, width, o, s.counter, loc⟩ t' := by
  have hwidth := hwidest.width_eq
  rw [encodeLate, encode_waiting hstack hsupported hwidest hwaits]
  exact settles_resolve hpending t t' rest opcode width o loc hwidth (by omega)

/-- Later it gets the long one, with nothing in the high byte. -/
lemma leaves_encodeLate {full zeroPage : UInt8} {v : UInt32}
    (hfull : (Instruction.opcodes mnemonic mode).full = some full)
    (hzero : (Instruction.opcodes mnemonic mode).zeroPage = some zeroPage)
    (hv : o.eval t' = .ok (some v)) (hle : v ≤ 0xFF) :
    s.Leaves (s.encodeLate t t' mnemonic mode loc) [full, v.toUInt8, 0] := by
  have hwidest : (Instruction.opcodes mnemonic mode).Widest mode.shape full 3 := by
    rw [Instruction.shape_of_zeroPage hzero]
    exact .full hfull
  have hsettles : s.Settles (s.encodeLate t t' mnemonic mode loc) _ t' :=
    settles_encodeLate hstack hsupported hpending hroom hwaits hwidest
  have hmax : (0xFF : UInt32) ≤ operandMax 3 := by decide
  simpa [DeferredPatch.bytes, highByte_of_le hle] using
    hsettles.stored v hv (UInt32.le_trans hle hmax)

end Both

/-- **Waiting makes no difference** to the counter, to the bytes and to what is reported, but for
the length of an address that is known to fit a byte: at once it gets its short form, and later the
long one with a zero. -/
theorem waiting_matches_direct (s : State) (mnemonic : String) (mode : Mode) (loc : Location)
    {t t' : SymbolTable} {o : Operand} {rest : List Operand} (hpending : s.deferred = #[])
    (hcounter : s.counter.toNat < 0x100000000 - 3)
    (hsupported : Instruction.supports mnemonic mode = true) (hoperand : mode.hasOperand = true)
    (hbranch : mode ≠ .relative) (hstack : s.operands = o :: rest) (hwaits : o.eval t = .ok none)
    (hknown : o.eval t' ≠ .ok none) :
    (s.Agrees (s.encodeLate t t' mnemonic mode loc) (s.encodeAtOnce t' mnemonic mode loc) ↔
      ¬(Instruction.opcodes mnemonic mode).Shortens o t') ∧
    ∀ full zeroPage v, (Instruction.opcodes mnemonic mode).full = some full →
      (Instruction.opcodes mnemonic mode).zeroPage = some zeroPage →
      o.eval t' = .ok (some v) → v ≤ 0xFF →
        s.Leaves (s.encodeAtOnce t' mnemonic mode loc) [zeroPage, v.toUInt8] ∧
        s.Leaves (s.encodeLate t t' mnemonic mode loc) [full, v.toUInt8, 0] := by
  have hroom : s.counter.toNat + 3 ≤ 0x100000000 := by omega
  refine ⟨⟨?_, ?_⟩, ?_⟩
  · rintro hagrees ⟨hfull, hzero, v, hv, hle⟩
    obtain ⟨full, hfull⟩ := Option.isSome_iff_exists.mp hfull
    obtain ⟨zeroPage, hzero⟩ := Option.isSome_iff_exists.mp hzero
    -- the counter is one further if the operand waits
    have hcounters := hagrees.counter
    rw [(leaves_encodeAtOnce hstack hsupported hfull hzero hv hle).counter,
      (leaves_encodeLate hstack hsupported hpending hroom hwaits hfull hzero hv hle).counter,
      UInt32.add_right_inj] at hcounters
    exact absurd (show (3 : UInt32) = 2 from hcounters) (by decide)
  · intro hshort
    have hi : mode ≠ .implied := by
      rintro rfl
      exact Bool.noConfusion hoperand
    obtain ⟨opcode, width, hwidest⟩ := Instruction.exists_widest hsupported hi hbranch
    exact (settles_encodeLate hstack hsupported hpending hroom hwaits hwidest).agrees
      (settles_encode hstack hsupported hwidest hshort hknown) hknown
  · intro full zeroPage v hfull hzero hv hle
    exact ⟨leaves_encodeAtOnce hstack hsupported hfull hzero hv hle,
      leaves_encodeLate hstack hsupported hpending hroom hwaits hfull hzero hv hle⟩

/-- The operand of `loading`. -/
def later : Operand := .symbol "later" default

/-- A state with an operand on the stack. -/
def loading : State := { State.init unnamedFile with operands := [later], counter := 0x1000 }

/-- A table that has a value for it. -/
def knownAs (value : UInt32) : SymbolTable :=
  ⟨SymbolTable.empty.entries.insert "later" ⟨"later", value, 9, 1⟩⟩

/-- A load from an address that turns out to be in the zero page, and one of a byte that turns out
to be more than that. -/
theorem waiting_matches_direct_loads :
    later.eval .empty = .ok none ∧
      loading.Leaves (loading.encodeAtOnce (knownAs 0x20) "LDA" .absolute default)
        [0xA5, 0x20] ∧
      loading.Leaves (loading.encodeLate .empty (knownAs 0x20) "LDA" .absolute default)
        [0xAD, 0x20, 0] ∧
      loading.Agrees (loading.encodeLate .empty (knownAs 0x100) "LDA" .immediate default)
        (loading.encodeAtOnce (knownAs 0x100) "LDA" .immediate default) ∧
      (loading.encodeLate .empty (knownAs 0x100) "LDA" .immediate default).faults.size = 1 := by
  have hwaits : later.eval .empty = .ok none := by decide +kernel
  have hshort : later.eval (knownAs 0x20) = .ok (some 0x20) := by decide +kernel
  have hlong : later.eval (knownAs 0x100) = .ok (some 0x100) := by decide +kernel
  have habsolute := waiting_matches_direct loading "LDA" .absolute default rfl (by decide +kernel)
    (by decide +kernel) rfl (by decide) rfl hwaits (by rw [hshort]; simp)
  have himmediate := waiting_matches_direct loading "LDA" .immediate default rfl (by decide +kernel)
    (by decide +kernel) rfl (by decide) rfl hwaits (by rw [hlong]; simp)
  obtain ⟨hnow, hlate⟩ := habsolute.2 0xAD 0xA5 0x20 (by decide +kernel) (by decide +kernel) hshort
    (by decide)
  have hagrees := himmediate.1.mpr fun h => absurd h.2.1 (by decide +kernel)
  exact ⟨hwaits, hnow, hlate, hagrees, by decide +kernel⟩

end Assembly.State

end CrossAsm
