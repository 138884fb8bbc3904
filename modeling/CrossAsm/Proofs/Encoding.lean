import Mathlib.Tactic.Common
import CrossAsm.Proofs.Chunks
import CrossAsm.Proofs.Definitions
import CrossAsm.Proofs.InstructionSet
import CrossAsm.Proofs.Reading
import CrossAsm.Proofs.Stack
import CrossAsm.Proofs.TwoPass

/-!
What a statement does to a state that agrees with the first pass, and when it does so without a
fault. It stores its bytes at once if its operand is known; else it leaves room and an entry in one
of the two lists for the end.
-/

namespace CrossAsm

/-! ### Bytes -/

lemma lowByte_toNat (v : UInt32) : lowByte (v.toNat : Int) = v.toUInt8 := by
  apply UInt8.toNat_inj.mp
  have : ((v.toNat : Int) % 256).toNat = v.toNat % 256 := by omega
  rw [lowByte, this, UInt8.toNat_ofNat', UInt32.toNat_toUInt8]
  omega

lemma highByte_toNat (v : UInt32) : highByte v.toNat = (v >>> 8).toUInt8 := by
  apply UInt8.toNat_inj.mp
  have : (((v.toNat / 256 : Nat) : Int) % 256).toNat = v.toNat / 256 % 256 := by omega
  rw [highByte, lowByte, this, UInt8.toNat_ofNat', toNat_highByte]
  omega

lemma le_byte_iff (v : UInt32) : v ≤ 0xFF ↔ v.toNat ≤ 0xFF := UInt32.le_iff_toNat_le

lemma gt_byte_iff (v : UInt32) : v > 0xFF ↔ 0xFF < v.toNat := UInt32.lt_iff_toNat_lt

lemma gt_word_iff (v : UInt32) : v > 0xFFFF ↔ 0xFFFF < v.toNat := UInt32.lt_iff_toNat_lt

lemma lowByte_ofInt (n : Int) : UInt8.ofInt n = lowByte n := rfl

lemma DataKind.encode_toNat (kind : DataKind) (v : UInt32) :
    kind.encode v.toNat = kind.bytes v := by
  cases kind <;> simp [encode, bytes, wordBytes, lowByte_toNat, highByte_toNat]

lemma DataKind.length_encode (kind : DataKind) (n : Nat) : (kind.encode n).length = kind.width := by
  cases kind <;> rfl

lemma DataItem.length_values (known all : Names) (i : DataItem) :
    (i.values known all).length = i.count known := by
  cases i with
  | expr e => simp only [values, count]; split <;> rfl
  | string text loc => simp only [values, count, List.length_map, String.length_toList]

lemma DataItem.length_encode (kind : DataKind) (known all : Names) (items : List DataItem) :
    ((items.flatMap (·.values known all)).flatMap kind.encode).length =
      kind.width * DataItem.totalCount known items := by
  have hlen (l : List Nat) : (l.flatMap kind.encode).length = kind.width * l.length := by
    induction l with
    | nil => rfl
    | cons n rest ih =>
      rw [List.flatMap_cons, List.length_append, ih, DataKind.length_encode, List.length_cons,
        Nat.mul_succ, Nat.add_comm]
  rw [hlen]
  congr 1
  induction items with
  | nil => rfl
  | cons i rest ih =>
    rw [List.flatMap_cons, List.length_append, ih, i.length_values]
    rfl

/-! ### What is stored when, and what waits -/

namespace Statement

/-- The opcode of the form that the statement takes. -/
def code (known : Names) (s : Statement) : UInt8 :=
  if s.isShort known then s.zeroPageCode else s.fullCode

/-- The bytes stored when the statement is met. What waits reads as unmapped. -/
def walked (known : Names) (s : Statement) : List UInt8 :=
  if s.mode = .relative then [s.fullCode, unmappedByte]
  else if s.meaning known = .unknown then List.replicate (s.size known) unmappedByte
  else s.bytes known known 0

/-- The operand that waits, if it does. -/
def deferred (known : Names) (address : Nat) (s : Statement) : List DeferredPatch :=
  if s.mode = .relative then []
  else if s.meaning known = .unknown then
    s.operand.toList.map fun e =>
      ⟨s.code known, s.size known, e.toOperand, UInt32.ofNat address, s.loc⟩
  else []

/-- The branch target that waits, if there is one. -/
def branches (address : Nat) (s : Statement) : List BranchPatch :=
  if s.mode = .relative then
    s.operand.toList.map fun e => ⟨UInt32.ofNat (address + 1), e.toOperand⟩
  else []

end Statement

namespace TwoPass.Placed

def walked (p : Placed) : List UInt8 :=
  match p.line.body with
  | some (.statement s) => s.walked p.known
  | some b => b.bytes p.known p.known p.start
  | none => []

def deferred (p : Placed) : List DeferredPatch :=
  match p.line.body with
  | some (.statement s) => s.deferred p.known p.start
  | _ => []

def branches (p : Placed) : List BranchPatch :=
  match p.line.body with
  | some (.statement s) => s.branches p.start
  | _ => []

end TwoPass.Placed

namespace Statement

variable {s : Statement}

lemma Sound.full_isSome (h : s.Sound) (hz : s.mode.zeroPageForm? = none) :
    s.codes.full = some s.fullCode := by
  have hs := h.supported
  simp only [Instruction.supports, Instruction.opcodes, hz, Option.bind_none, Option.isSome_none,
    Bool.or_false] at hs
  obtain ⟨c, hc⟩ := Option.isSome_iff_exists.mp hs
  simp [fullCode, codes, Instruction.opcodes, hc]

lemma isShort_eq_false (hz : s.mode.zeroPageForm? = none) (known : Names) :
    s.isShort known = false := by
  simp [isShort, codes, Instruction.opcodes, hz]

lemma Sound.operand_of_hasOperand (h : s.Sound) (hm : s.mode ≠ .implied) :
    ∃ e, s.operand = some e := by
  refine Option.isSome_iff_exists.mp (h.operand.trans ?_)
  cases hmode : s.mode <;> first | rfl | exact absurd hmode hm

lemma Sound.operand_of_implied (h : s.Sound) (hm : s.mode = .implied) : s.operand = none := by
  simpa [hm, Mode.hasOperand] using h.operand

lemma meaning_of_operand {e : Expr} (h : s.operand = some e) (names : Names) :
    s.meaning names = e.meaning names := by
  simp [meaning, h]

/-- A statement with an operand of one byte. -/
lemma size_of_byte (h : s.mode.shape = .byte) (known : Names) : s.size known = 2 := by
  cases hm : s.mode <;> simp [hm, Mode.shape] at h <;> simp [size, hm]

lemma limit_of_byte (h : s.mode.shape = .byte) : s.limit = 0xFF := by
  cases hm : s.mode <;> simp [hm, Mode.shape] at h <;> simp [limit, hm]

lemma bytes_of_byte (h : s.mode.shape = .byte) (known all : Names) (address : Nat) :
    s.bytes known all address = [s.fullCode, lowByte (s.meaning all).word.toNat] := by
  cases hm : s.mode <;> simp [hm, Mode.shape] at h <;> simp [bytes, hm]

/-- A statement with an address of one byte or two. -/
lemma size_of_address (h : s.mode.shape = .address) (known : Names) :
    s.size known = if s.isShort known then 2 else 3 := by
  cases hm : s.mode <;> simp [hm, Mode.shape] at h <;> simp [size, hm]

lemma limit_of_address (h : s.mode.shape = .address) :
    s.limit = if s.codes.full.isSome then 0xFFFF else 0xFF := by
  cases hm : s.mode <;> simp [hm, Mode.shape] at h <;> simp [limit, hm]

lemma bytes_of_address (h : s.mode.shape = .address) (known all : Names) (address : Nat) :
    s.bytes known all address =
      if s.isShort known then [s.zeroPageCode, lowByte (s.meaning all).word.toNat]
      else [s.fullCode, lowByte (s.meaning all).word.toNat,
        highByte (s.meaning all).word.toNat] := by
  cases hm : s.mode <;> simp [hm, Mode.shape] at h <;> simp [bytes, hm]

lemma length_bytes (known all : Names) (address : Nat) :
    (s.bytes known all address).length = s.size known := by
  cases hm : s.mode <;> simp only [bytes, size, hm, List.length_cons, List.length_nil]
  all_goals split <;> rfl

lemma length_walked (known : Names) : (s.walked known).length = s.size known := by
  unfold walked
  split
  · next h => simp [size, h]
  · split
    · simp
    · exact length_bytes known known 0

end Statement

namespace TwoPass.Placed

lemma length_bytes (all : Names) (p : Placed) : (p.bytes all).length = p.size := by
  unfold bytes size
  rcases p.line.body with _ | (⟨e, loc⟩ | ⟨kind, items, loc⟩ | ⟨name, e, loc⟩) | s
  · rfl
  · rfl
  · exact DataItem.length_encode kind p.known all items
  · rfl
  · exact Statement.length_bytes p.known all p.start

lemma length_walked (p : Placed) : p.walked.length = p.size := by
  unfold walked size
  rcases p.line.body with _ | (⟨e, loc⟩ | ⟨kind, items, loc⟩ | ⟨name, e, loc⟩) | s
  · rfl
  · rfl
  · exact DataItem.length_encode kind p.known p.known items
  · rfl
  · exact Statement.length_walked p.known

end TwoPass.Placed

/-! ### Statements -/

namespace Assembly.State

open TwoPass

/-- The state agrees with the first pass where the body of a line is met. -/
structure Meets (s : State) (t : Progress) : Prop where
  counter : s.counter = UInt32.ofNat t.counter
  names : s.symbols.value? = t.names
  operands : s.operands = []
  lineStart : s.lineStart = none

variable {s : State} {t : Progress} {st : Statement}

lemma Meets.meaning (h : s.Meets t) (e : Expr) :
    e.toOperand.meaning s.symbols = e.meaning t.names := by
  rw [e.meaning_toOperand, h.names]

lemma pushAll_nil_of_empty (hs : s.operands = []) (os : List Operand) :
    ({ s.pushAll os with operands := [] } : State) = s := by
  cases s
  simp_all [pushAll]

lemma withOperand_pushAll (hs : s.operands = []) (o : Operand) (mnemonic : String)
    (loc : Location) (f : State → Operand → State) :
    (s.pushAll [o]).withOperand mnemonic loc f = f s o := by
  have h : (s.pushAll [o]).operands = [o] := by simp [pushAll, hs]
  simp only [withOperand, h]
  rw [pushAll_nil_of_empty hs]

lemma perform_implied (hst : st.Sound) (hm : st.mode = .implied) :
    s.perform (some (.statement st)) = s.emit [st.fullCode] := by
  have hfull : (Instruction.opcodes st.mnemonic st.mode).full = some st.fullCode :=
    hst.full_isSome (by simp [hm, Mode.zeroPageForm?])
  have hop := hst.operand_of_implied hm
  have hsup := hst.supported
  simp only [perform, step, Body.root, Body.operands, hop, encode, hsup, hfull]
  simp [hm, Mode.shape, pushAll]

lemma perform_relative (hs : s.operands = []) (hst : st.Sound) (hm : st.mode = .relative)
    {e : Expr} (he : st.operand = some e) :
    s.perform (some (.statement st)) = s.encodeBranch st.fullCode st.mnemonic e.toOperand := by
  have hfull : (Instruction.opcodes st.mnemonic st.mode).full = some st.fullCode :=
    hst.full_isSome (by simp [hm, Mode.zeroPageForm?])
  have hshape : st.mode.shape = .offset := by simp [hm, Mode.shape]
  simp only [perform, step, Body.root, Body.operands, he, encode, hst.supported, hfull, hshape,
    if_true]
  exact withOperand_pushAll hs _ _ _ _

lemma perform_byte (hs : s.operands = []) (hst : st.Sound) (hm : st.mode.shape = .byte)
    {e : Expr} (he : st.operand = some e) :
    s.perform (some (.statement st)) = s.encodeByte st.fullCode e.toOperand st.loc := by
  have hfull : (Instruction.opcodes st.mnemonic st.mode).full = some st.fullCode :=
    hst.full_isSome (Mode.zeroPageForm?_of_byte hm)
  simp only [perform, step, Body.root, Body.operands, he, encode, hst.supported, hfull, hm,
    if_true]
  exact withOperand_pushAll hs _ _ _ _

lemma perform_address (hs : s.operands = []) (hst : st.Sound) (hm : st.mode.shape = .address)
    {e : Expr} (he : st.operand = some e) :
    s.perform (some (.statement st)) =
      s.encodeAddress st.codes st.mnemonic e.toOperand st.loc := by
  simp only [perform, step, Body.root, Body.operands, he, encode, hst.supported, hm, if_true]
  exact withOperand_pushAll hs _ _ _ _

/-- What becomes of an operand that is no branch target, by what it means when it is met. -/
structure Encodes (s s' : State) (known : Names) (st : Statement) (e : Expr) : Prop where
  stored : ∀ v, e.meaning known = .value v → v.toNat ≤ st.limit →
    s' = s.emit (st.bytes known known 0)
  tooLarge : ∀ v, e.meaning known = .value v → st.limit < v.toNat → ¬s'.Clean
  waits : e.meaning known = .unknown →
    s' = s.defer (st.code known) (st.size known) e.toOperand st.loc
  undefined : e.meaning known = .undefined → ¬s'.Clean

lemma encodes_byte (h : s.Meets t) (hst : st.Sound) (hm : st.mode.shape = .byte) {e : Expr}
    (he : st.operand = some e) :
    Encodes s (s.perform (some (.statement st))) t.names st e := by
  rw [perform_byte h.operands hst hm he]
  have hmean := h.meaning e
  have hlimit := Statement.limit_of_byte hm
  have hshort := st.isShort_eq_false (Mode.zeroPageForm?_of_byte hm) t.names
  refine ⟨?_, ?_, ?_, ?_⟩
  · intro v hv hle
    rw [hlimit] at hle
    have hgt : ¬v > 0xFF := by
      rw [gt_byte_iff]
      omega
    rw [hv] at hmean
    simp [encodeByte, Operand.eval_of_value hmean, hgt, Statement.bytes_of_byte hm,
      st.meaning_of_operand he, hv, lowByte_toNat]
  · intro v hv hlt
    rw [hlimit] at hlt
    have hgt : v > 0xFF := (gt_byte_iff v).mpr hlt
    rw [hv] at hmean
    simp [encodeByte, Operand.eval_of_value hmean, hgt, not_clean_report]
  · intro hv
    rw [hv] at hmean
    simp [encodeByte, Operand.eval_of_unknown hmean, Statement.code, hshort,
      Statement.size_of_byte hm]
  · intro hv
    rw [hv] at hmean
    obtain ⟨z, hz⟩ := Operand.eval_of_undefined hmean
    simp [encodeByte, hz, not_clean_reportZero]

/-- The opcodes of a sound statement are those its forms name, and there is one of them. -/
lemma codes_cases (hst : st.Sound) :
    (st.codes.full = some st.fullCode ∧ st.codes.zeroPage = some st.zeroPageCode) ∨
    (st.codes.full = some st.fullCode ∧ st.codes.zeroPage = none) ∨
    (st.codes.full = none ∧ st.codes.zeroPage = some st.zeroPageCode) := by
  have hs : (st.codes.full.isSome || st.codes.zeroPage.isSome) = true := hst.supported
  unfold Statement.fullCode Statement.zeroPageCode
  rcases hf : st.codes.full with _ | full <;> rcases hz : st.codes.zeroPage with _ | zeroPage <;>
    simp [hf, hz] at hs ⊢

section Address

variable {known : Names} {v : UInt32} (hst : st.Sound) (hm : st.mode.shape = .address)
  (o : Operand) (loc : Location)

include hst hm

/-- An address that fits is stored in the form that the names known so far decide on. -/
lemma encodeKnown_of_le (hv : st.meaning known = .value v) (hle : v.toNat ≤ st.limit) :
    s.encodeKnown st.codes st.mnemonic o v loc = s.emit (st.bytes known known 0) := by
  have hword : (st.meaning known).word.toNat = v.toNat := by rw [hv, Meaning.word_value]
  rw [Statement.limit_of_address hm] at hle
  rw [Statement.bytes_of_address hm, hword, lowByte_toNat, highByte_toNat]
  unfold encodeKnown
  rcases codes_cases hst with ⟨hf, hz⟩ | ⟨hf, hz⟩ | ⟨hf, hz⟩
  · -- both forms: the value decides
    simp only [hf, Option.isSome_some, if_true] at hle
    have hgt : ¬v > 0xFFFF := by
      rw [gt_word_iff]
      omega
    have hfit : (st.meaning known).fits 0xFF = decide (v ≤ 0xFF) := by
      simp [hv, Meaning.fits, le_byte_iff]
    by_cases hv8 : v ≤ 0xFF
    · simp [Statement.isShort, hf, hz, hfit, hv8]
    · simp [Statement.isShort, hf, hz, hfit, hv8, encodeWide, hgt, wordBytes]
  · -- the wide form only
    simp only [hf, Option.isSome_some, if_true] at hle
    have hgt : ¬v > 0xFFFF := by
      rw [gt_word_iff]
      omega
    simp [Statement.isShort, hf, hz, encodeWide, hgt, wordBytes]
  · -- the zero-page form only
    simp only [hf, Option.isSome_none, Bool.false_eq_true, if_false] at hle
    have hgt : ¬v > 0xFF := by
      rw [gt_byte_iff]
      omega
    simp [Statement.isShort, hf, hz, encodeNarrow, hgt]

lemma not_clean_encodeKnown (hlt : st.limit < v.toNat) :
    ¬(s.encodeKnown st.codes st.mnemonic o v loc).Clean := by
  rw [Statement.limit_of_address hm] at hlt
  unfold encodeKnown
  rcases codes_cases hst with ⟨hf, hz⟩ | ⟨hf, hz⟩ | ⟨hf, hz⟩
  · simp only [hf, Option.isSome_some, if_true] at hlt
    have hv8 : ¬v ≤ 0xFF := by
      rw [le_byte_iff]
      omega
    simp [hf, hz, hv8, encodeWide, (gt_word_iff v).mpr hlt, not_clean_report]
  · simp only [hf, Option.isSome_some, if_true] at hlt
    simp [hf, hz, encodeWide, (gt_word_iff v).mpr hlt, not_clean_report]
  · simp only [hf, Option.isSome_none, Bool.false_eq_true, if_false] at hlt
    simp [hf, hz, encodeNarrow, (gt_byte_iff v).mpr hlt, not_clean_report]

end Address

lemma encodes_address (h : s.Meets t) (hst : st.Sound) (hm : st.mode.shape = .address) {e : Expr}
    (he : st.operand = some e) :
    Encodes s (s.perform (some (.statement st))) t.names st e := by
  rw [perform_address h.operands hst hm he]
  have hmean := h.meaning e
  have hst' := st.meaning_of_operand he t.names
  refine ⟨?_, ?_, ?_, ?_⟩
  · intro v hv hle
    rw [hv] at hmean
    simp only [encodeAddress, Operand.eval_of_value hmean]
    exact encodeKnown_of_le hst hm _ _ (hst'.trans hv) hle
  · intro v hv hlt
    rw [hv] at hmean
    simp only [encodeAddress, Operand.eval_of_value hmean]
    exact not_clean_encodeKnown hst hm _ _ hlt
  · intro hv
    rw [hv] at hmean
    have hfit : (st.meaning t.names).fits 0xFF = false := by simp [hst', hv, Meaning.fits]
    rw [Statement.size_of_address hm]
    simp only [encodeAddress, Operand.eval_of_unknown hmean]
    rcases codes_cases hst with ⟨hf, hz⟩ | ⟨hf, hz⟩ | ⟨hf, hz⟩ <;>
      simp [Statement.code, Statement.isShort, hf, hz, hfit]
  · intro hv
    rw [hv] at hmean
    obtain ⟨z, hz⟩ := Operand.eval_of_undefined hmean
    simp [encodeAddress, hz, not_clean_reportZero]

/-! ### The effect of a body -/

/-- The body of a placed line went through: it stored its bytes, left what waits in the lists, and
moved the counter past the line. -/
structure Performs (s s' : State) (p : Placed) (names : Names) : Prop where
  names : s'.symbols.value? = names
  payload : s'.payload = s.payload.fill (UInt32.ofNat p.start) p.walked
  deferred : s'.deferred.toList = s.deferred.toList ++ p.deferred
  branches : s'.branches.toList = s.branches.toList ++ p.branches
  codeLines : s'.codeLines = s.codeLines
  counter : s'.counter = UInt32.ofNat (p.start + p.size)
  start : s'.lineStart.getD s'.counter = UInt32.ofNat p.start
  overwrites : s'.overwrites =
    (s.overwrites || s.payload.hits (UInt32.ofNat p.start) p.walked)

variable {p : Placed}

lemma Meets.emit_counter (h : s.Meets t) (bytes : List UInt8) :
    (s.emit bytes).counter = UInt32.ofNat (t.counter + bytes.length) := by
  rw [State.emit_counter, h.counter, UInt32.ofNat_add]

lemma Meets.emit_start (h : s.Meets t) (bytes : List UInt8) :
    (s.emit bytes).lineStart.getD (s.emit bytes).counter = UInt32.ofNat t.counter := by
  rw [emit_lineStart, h.lineStart]
  split
  · next hb =>
    rw [hb, emit_nil]
    exact h.counter
  · exact h.counter

/-- Bytes that are all known. -/
lemma performs_emit (h : s.Meets t) (hp : p.start = t.counter) (hd : p.deferred = [])
    (hb : p.branches = []) :
    Performs s (s.emit p.walked) p t.names where
  names := by rw [emit_symbols, h.names]
  payload := by rw [emit_payload, h.counter, hp]
  deferred := by rw [emit_deferred, hd, List.append_nil]
  branches := by rw [emit_branches, hb, List.append_nil]
  codeLines := emit_codeLines s _
  counter := by rw [h.emit_counter, p.length_walked, hp]
  start := by rw [h.emit_start, hp]
  overwrites := by rw [emit_overwrites, h.counter, hp]

/-- An operand that waits. -/
lemma performs_defer (h : s.Meets t) (hp : p.start = t.counter) {opcode : UInt8} {o : Operand}
    {loc : Location} (hw : p.walked = List.replicate p.size unmappedByte)
    (hd : p.deferred = [⟨opcode, p.size, o, UInt32.ofNat p.start, loc⟩]) (hb : p.branches = []) :
    Performs s (s.defer opcode p.size o loc) p t.names := by
  have he : s.reserve p.size = s.emit p.walked := by rw [reserve_eq, hw]
  have h0 : p.start = t.counter ∧ s.counter = UInt32.ofNat p.start := ⟨hp, by rw [h.counter, hp]⟩
  refine ⟨?_, ?_, ?_, ?_, ?_, ?_, ?_, ?_⟩
  · simp [defer, log, he, h.names]
  · simp only [defer, log, he]
    rw [emit_payload, h0.2]
  · simp [defer, log, he, hd, h0.2]
  · simp [defer, log, he, hb]
  · simp [defer, log, he]
  · simp only [defer, log, he]
    rw [h.emit_counter, p.length_walked, hp]
  · simp only [defer, log, he]
    rw [h.emit_start, hp]
  · simp only [defer, log, he]
    rw [emit_overwrites, h0.2]

/-- A branch. -/
lemma performs_branch (h : s.Meets t) (hp : p.start = t.counter) {opcode : UInt8} {o : Operand}
    {mnemonic : String} (hw : p.walked = [opcode, unmappedByte]) (hd : p.deferred = [])
    (hb : p.branches = [⟨UInt32.ofNat (p.start + 1), o⟩]) :
    Performs s (s.encodeBranch opcode mnemonic o) p t.names := by
  have he : (s.emit [opcode]).reserve 1 = s.emit p.walked := by
    rw [hw, reserve_eq, ← emit_append]
    rfl
  have hc : s.counter + 1 = UInt32.ofNat (p.start + 1) := by
    rw [h.counter, hp, UInt32.ofNat_add, UInt32.ofNat_one]
  refine ⟨?_, ?_, ?_, ?_, ?_, ?_, ?_, ?_⟩
  · simp [encodeBranch, log, he, h.names]
  · simp only [encodeBranch, log, he]
    rw [emit_payload, h.counter, hp]
  · simp [encodeBranch, log, he, hd]
  · simp [encodeBranch, log, he, hb, hc]
  · simp [encodeBranch, log, he]
  · simp only [encodeBranch, log, he]
    rw [h.emit_counter, p.length_walked, hp]
  · simp only [encodeBranch, log, he]
    rw [h.emit_start, hp]
  · simp only [encodeBranch, log, he]
    rw [emit_overwrites, h.counter, hp]

lemma encodes_operand (h : s.Meets t) (hst : st.Sound) (hi : st.mode ≠ .implied)
    (hr : st.mode ≠ .relative) {e : Expr} (he : st.operand = some e) :
    Encodes s (s.perform (some (.statement st))) t.names st e := by
  rcases Mode.shape_of_operand hi hr with hm | hm
  · exact encodes_byte h hst hm he
  · exact encodes_address h hst hm he

lemma clean_statement (h : s.Meets t) (hst : st.Sound) :
    (s.perform (some (.statement st))).Clean ↔
      s.Clean ∧ (st.mode = .relative ∨ (st.meaning t.names).mayFit st.limit = true) := by
  by_cases hi : st.mode = .implied
  · have hop := hst.operand_of_implied hi
    rw [perform_implied hst hi]
    simp [Statement.meaning, hop, Meaning.mayFit]
  obtain ⟨e, he⟩ := hst.operand_of_hasOperand hi
  by_cases hr : st.mode = .relative
  · rw [perform_relative h.operands hst hr he]
    have hc : (s.encodeBranch st.fullCode st.mnemonic e.toOperand).Clean ↔ s.Clean :=
      clean_of_faults (by simp [encodeBranch, log])
    simp [hc, hr]
  · have henc := encodes_operand h hst hi hr he
    rw [st.meaning_of_operand he]
    rcases hm : e.meaning t.names with v | _ | _
    · by_cases hle : v.toNat ≤ st.limit
      · rw [henc.stored v hm hle]
        simp [Meaning.mayFit, hle]
      · simp [henc.tooLarge v hm (by omega), Meaning.mayFit, hle, hr]
    · rw [henc.waits hm]
      have hc : (s.defer (st.code t.names) (st.size t.names) e.toOperand st.loc).Clean ↔ s.Clean :=
        clean_of_faults (by simp [defer, log])
      simp [hc, Meaning.mayFit]
    · simp [henc.undefined hm, Meaning.mayFit, hr]

lemma performs_statement (h : s.Meets t) (hst : st.Sound) (hp : p.start = t.counter)
    (hk : p.known = t.names) (hbody : p.line.body = some (.statement st))
    (hfit : st.mode = .relative ∨ (st.meaning t.names).mayFit st.limit = true) :
    Performs s (s.perform (some (.statement st))) p t.names := by
  have hwalked : p.walked = st.walked t.names := by simp only [Placed.walked, hbody, hk]
  have hsize : p.size = st.size t.names := by
    simp only [Placed.size, hbody, hk]
    rfl
  have hdef : p.deferred = st.deferred t.names p.start := by
    simp only [Placed.deferred, hbody, hk]
  have hbr : p.branches = st.branches p.start := by simp only [Placed.branches, hbody]
  by_cases hi : st.mode = .implied
  · have hop := hst.operand_of_implied hi
    have hw : p.walked = [st.fullCode] := by
      simp [hwalked, Statement.walked, hi, Statement.meaning, hop, Statement.bytes]
    rw [perform_implied hst hi, ← hw]
    refine performs_emit h hp ?_ ?_
    · simp [hdef, Statement.deferred, hop]
    · simp [hbr, Statement.branches, hop]
  obtain ⟨e, he⟩ := hst.operand_of_hasOperand hi
  by_cases hr : st.mode = .relative
  · rw [perform_relative h.operands hst hr he]
    refine performs_branch h hp ?_ ?_ ?_
    · simp [hwalked, Statement.walked, hr]
    · simp [hdef, Statement.deferred, hr]
    · simp [hbr, Statement.branches, hr, he]
  · have henc := encodes_operand h hst hi hr he
    have hbr0 : p.branches = [] := by simp [hbr, Statement.branches, hr]
    rw [st.meaning_of_operand he] at hfit
    rcases hm : e.meaning t.names with v | _ | _
    · -- a value is stored at once
      have hle : v.toNat ≤ st.limit := by simpa [hm, hr, Meaning.mayFit] using hfit
      have hw : p.walked = st.bytes t.names t.names 0 := by
        simp [hwalked, Statement.walked, hr, st.meaning_of_operand he, hm]
      rw [henc.stored v hm hle, ← hw]
      refine performs_emit h hp ?_ hbr0
      simp [hdef, Statement.deferred, hr, st.meaning_of_operand he, hm]
    · -- an unknown operand leaves room and waits
      rw [henc.waits hm, ← hsize]
      refine performs_defer h hp ?_ ?_ hbr0
      · simp [hwalked, Statement.walked, hr, st.meaning_of_operand he, hm, hsize]
      · simp [hdef, Statement.deferred, hr, st.meaning_of_operand he, hm, he, hsize]
    · simp [hm, hr, Meaning.mayFit] at hfit

end Assembly.State

end CrossAsm
