import Mathlib.Tactic.Common
import CrossAsm.Proofs.Acceptance
import CrossAsm.Proofs.Chaining
import CrossAsm.Proofs.InstructionSet

/-!
Instruction streams can be read back. The opcode says which instruction it is and how many bytes
belong to it, so a disassembler that starts at the first byte finds the statements again, each with
the value that its operand has in the end. Main statement: `instructions_read_back`.
-/

namespace CrossAsm

/-! ### A disassembler -/

/-- What is found: an instruction, and the value of its operand. -/
structure Decoded where
  mnemonic : String
  mode : Mode
  operand : Option Int
deriving DecidableEq

/-- A byte in two's complement. -/
def signed (byte : UInt8) : Int :=
  if byte.toNat < 0x80 then byte.toNat else byte.toNat - 0x100

/-- The value of the bytes behind an opcode. An offset counts from the next instruction. -/
def Form.value? (form : Form) (next : Nat) : List UInt8 → Option Int
  | [] => none
  | [byte] => some (if form = .relative then next + signed byte else byte.toNat)
  | low :: high :: _ => some (low.toNat + 0x100 * high.toNat)

/-- Reads bytes as instructions, from an address on: nothing if a byte is no opcode, or if the bytes
end within an instruction. -/
def disassemble : Nat → List UInt8 → Option (List Decoded)
  | _, [] => some []
  | address, opcode :: rest =>
    match Instruction.ofOpcode? opcode with
    | none => none
    | some (mnemonic, form) =>
      match form.operandSize, rest with
      | 0, rest => (disassemble (address + 1) rest).map (⟨mnemonic, form.mode, none⟩ :: ·)
      | 1, byte :: rest =>
        (disassemble (address + 2) rest).map
          (⟨mnemonic, form.mode, form.value? (address + 2) [byte]⟩ :: ·)
      | 2, low :: high :: rest =>
        (disassemble (address + 3) rest).map
          (⟨mnemonic, form.mode, form.value? (address + 3) [low, high]⟩ :: ·)
      | _, _ => none

/-- The statement is found again, with the value that its operand has under the symbols. -/
structure Decoded.Recovers (t : SymbolTable) (s : Statement) (d : Decoded) : Prop where
  mnemonic : d.mnemonic = s.mnemonic
  mode : d.mode = s.mode
  operand : Option.Rel (fun (e : Expr) (n : Int) => ∃ v : UInt32,
    e.toOperand.eval t = .ok (some v) ∧ n = v.toNat) s.operand d.operand

/-! ### One instruction -/

/-- An opcode takes the bytes of its form. -/
lemma disassemble_opcode {mnemonic : String} {form : Form} {opcode : UInt8}
    (h : Instruction.opcode? mnemonic form = some opcode) (address : Nat) {operand : List UInt8}
    (hsize : operand.length = form.operandSize) (rest : List UInt8) :
    disassemble address (opcode :: operand ++ rest) =
      (disassemble (address + (operand.length + 1)) rest).map
        (⟨mnemonic, form.mode, form.value? (address + (operand.length + 1)) operand⟩ :: ·) := by
  have hcode := Instruction.ofOpcode?_of_opcode? h
  rcases operand with _ | ⟨x, _ | ⟨y, _ | ⟨z, more⟩⟩⟩
  · simp [disassemble, hcode, ← hsize, Form.value?]
  · simp [disassemble, hcode, ← hsize]
  · simp [disassemble, hcode, ← hsize]
  · cases form <;> simp [Form.operandSize] at hsize

lemma toNat_lowByte {n : Nat} (h : n ≤ 0xFF) : (lowByte n).toNat = n := by
  have hmod : ((n : Int) % 256).toNat = n := by omega
  rw [lowByte, hmod, UInt8.toNat_ofNat']
  omega

lemma toNat_low_add_high {n : Nat} (h : n ≤ 0xFFFF) :
    ((lowByte n).toNat : Int) + 0x100 * (highByte n).toNat = n := by
  have hlow : ((n : Int) % 256).toNat = n % 256 := by omega
  have hhigh : (((n / 256 : Nat) : Int) % 256).toNat = n / 256 := by omega
  rw [highByte, lowByte, lowByte, hlow, hhigh, UInt8.toNat_ofNat', UInt8.toNat_ofNat']
  omega

lemma signed_lowByte {d : Int} (hmin : -128 ≤ d) (hmax : d ≤ 127) : signed (lowByte d) = d := by
  have hbyte : (lowByte d).toNat = (d % 256).toNat := by
    rw [lowByte, UInt8.toNat_ofNat']
    omega
  rw [signed, hbyte]
  split <;> omega

namespace Statement

variable {s : Statement} {t : SymbolTable} {known : Names} {address : Nat}

/-- The bytes are read as the statement, and reading goes on behind them. -/
def ReadsBack (t : SymbolTable) (s : Statement) (address : Nat) (bytes : List UInt8) : Prop :=
  ∃ d : Decoded, d.Recovers t s ∧ ∀ rest, disassemble address (bytes ++ rest) =
    (disassemble (address + bytes.length) rest).map (d :: ·)

lemma size_pos (s : Statement) (known : Names) : 0 < s.size known := by
  unfold size
  grind

/-- An operand that fits has a value. -/
lemma exists_value {names : Names} {max : Nat} (h : (s.meaning names).fits max = true) :
    ∃ v, s.meaning names = .value v ∧ v.toNat ≤ max := by
  cases hv : s.meaning names with
  | unknown => simp [hv, Meaning.fits] at h
  | undefined => simp [hv, Meaning.fits] at h
  | value v => exact ⟨v, rfl, by simpa [hv, Meaning.fits] using h⟩

variable (hs : s.Sound)

include hs

lemma readsBack_implied (hm : s.mode = .implied) (known : Names) :
    s.ReadsBack t address (s.bytes known t.value? address) := by
  have hcode := hs.full_isSome (by rw [hm]; rfl)
  have hbytes : s.bytes known t.value? address = [s.fullCode] := by simp [bytes, hm]
  rw [hbytes]
  refine ⟨_, ⟨rfl, s.mode.mode_fullForm, ?_⟩, disassemble_opcode hcode address ?_⟩
  · rw [hs.operand_of_implied hm]
    exact .none
  · rw [hm]
    rfl

/-- A form of the mode is read back if its bytes have the value of the operand. -/
lemma readsBack_form {form : Form} {opcode : UInt8} {operand : List UInt8} {v : UInt32}
    (hm : s.mode ≠ .implied) (hcode : Instruction.opcode? s.mnemonic form = some opcode)
    (hmode : form.mode = s.mode) (hsize : operand.length = form.operandSize)
    (hv : s.meaning t.value? = .value v)
    (hvalue : form.value? (address + (operand.length + 1)) operand = some (v.toNat : Int)) :
    s.ReadsBack t address (opcode :: operand) := by
  obtain ⟨e, he⟩ := hs.operand_of_hasOperand hm
  refine ⟨_, ⟨rfl, hmode, ?_⟩, disassemble_opcode hcode address hsize⟩
  rw [meaning_of_operand he, ← Expr.meaning_toOperand] at hv
  simp only
  rw [he, hvalue]
  exact .some ⟨v, Operand.eval_of_value hv, rfl⟩

lemma readsBack_relative (hm : s.mode = .relative) (known : Names)
    (hreach : (s.meaning t.value?).isReachedFrom address = true) :
    s.ReadsBack t address (s.bytes known t.value? address) := by
  have hcode := hs.full_isSome (by rw [hm]; rfl)
  have hform : s.mode.fullForm = .relative := by rw [hm]; rfl
  cases hv : s.meaning t.value? with
  | unknown => simp [hv, Meaning.isReachedFrom] at hreach
  | undefined => simp [hv, Meaning.isReachedFrom] at hreach
  | value v =>
    simp only [hv, Meaning.isReachedFrom, Bool.and_eq_true, decide_eq_true_eq] at hreach
    have hbytes : s.bytes known t.value? address =
        [s.fullCode, lowByte (distance address v.toNat)] := by
      simp [bytes, hm, hv]
    rw [hbytes]
    refine readsBack_form hs (by simp [hm]) hcode s.mode.mode_fullForm (by rw [hform]; rfl) hv ?_
    simp only [hform, Form.value?, if_true, signed_lowByte hreach.1 hreach.2, List.length_cons,
      List.length_nil]
    congr 1
    rw [distance]
    omega

lemma readsBack_byte (hm : s.mode.shape = .byte) (known : Names)
    (hfits : (s.meaning t.value?).fits s.limit = true) :
    s.ReadsBack t address (s.bytes known t.value? address) := by
  have hcode := hs.full_isSome (Mode.zeroPageForm?_of_byte hm)
  have hform : s.mode.fullForm.operandSize = 1 ∧ s.mode.fullForm ≠ .relative := by
    cases h : s.mode <;> simp [h, Mode.shape] at hm <;> exact ⟨rfl, by simp [Mode.fullForm]⟩
  obtain ⟨v, hv, hle⟩ := exists_value hfits
  rw [limit_of_byte hm] at hle
  rw [bytes_of_byte hm, hv, Meaning.word_value]
  refine readsBack_form hs (Mode.ne_implied_of_shape (by simp [hm])) hcode s.mode.mode_fullForm
    hform.1.symm hv ?_
  simp only [Form.value?, if_neg hform.2, toNat_lowByte hle]

section Address

variable (hm : s.mode.shape = .address) {v : UInt32} (hv : s.meaning t.value? = .value v)

include hm hv

lemma readsBack_short (hzero : s.codes.zeroPage = some s.zeroPageCode) (hle : v.toNat ≤ 0xFF) :
    s.ReadsBack t address [s.zeroPageCode, lowByte v.toNat] := by
  obtain ⟨form, hform, hcode⟩ := Option.bind_eq_some_iff.mp hzero
  have hsize : form.operandSize = 1 ∧ form ≠ .relative := by
    cases h : s.mode <;> rw [h] at hform <;> cases hform <;> exact ⟨rfl, by simp⟩
  refine readsBack_form hs (Mode.ne_implied_of_shape (by simp [hm])) hcode
    (Mode.mode_of_zeroPageForm? hform) hsize.1.symm hv ?_
  simp only [Form.value?, if_neg hsize.2, toNat_lowByte hle]

lemma readsBack_wide (hfull : s.codes.full = some s.fullCode) (hle : v.toNat ≤ 0xFFFF) :
    s.ReadsBack t address [s.fullCode, lowByte v.toNat, highByte v.toNat] := by
  have hsize : s.mode.fullForm.operandSize = 2 := by
    cases h : s.mode <;> simp [h, Mode.shape] at hm <;> rfl
  refine readsBack_form hs (Mode.ne_implied_of_shape (by simp [hm])) hfull s.mode.mode_fullForm
    hsize.symm hv ?_
  simp only [Form.value?, toNat_low_add_high hle]

/-- A short form was chosen because there is no other, or for a value known to fit it. -/
lemma le_of_isShort (hwithin : known.Within t.value?) (hshort : s.isShort known = true)
    (hle : v.toNat ≤ s.limit) : v.toNat ≤ 0xFF := by
  simp only [isShort, Bool.and_eq_true, Bool.or_eq_true] at hshort
  rcases hshort.2 with hnone | hknown
  · simpa [limit_of_address hm, Option.isNone_iff_eq_none.mp hnone] using hle
  · obtain ⟨e, he⟩ := hs.operand_of_hasOperand (Mode.ne_implied_of_shape (by simp [hm]))
    obtain ⟨w, hw, hwle⟩ := exists_value hknown
    rw [meaning_of_operand he] at hv hw
    obtain rfl : w = v := by
      rw [Expr.meaning_value_within hwithin hw] at hv
      exact Meaning.value.inj hv
    exact hwle

/-- The names known early decide on the form, and the value fits it in the end. -/
lemma readsBack_address (hwithin : known.Within t.value?) (hle : v.toNat ≤ s.limit) :
    s.ReadsBack t address (s.bytes known t.value? address) := by
  rw [bytes_of_address hm, hv, Meaning.word_value]
  split
  · next hshort =>
    have hzero : s.codes.zeroPage.isSome = true := (Bool.and_eq_true_iff.mp hshort).1
    obtain ⟨code, hcode⟩ := Option.isSome_iff_exists.mp hzero
    exact readsBack_short hs hm hv (by simp [zeroPageCode, hcode])
      (le_of_isShort hs hm hv hwithin hshort hle)
  · next hshort =>
    have hmax : s.limit ≤ 0xFFFF := by
      rw [limit_of_address hm]
      split <;> omega
    refine readsBack_wide hs hm hv ?_ (Nat.le_trans hle hmax)
    obtain ⟨hfull, -⟩ | ⟨hfull, -⟩ | ⟨hfull, hzero⟩ := Assembly.State.codes_cases hs
    · exact hfull
    · exact hfull
    · exact absurd (by simp [isShort, hfull, hzero]) hshort

end Address

/-- **A statement is read back** from its bytes. -/
lemma readsBack_bytes (hwithin : known.Within t.value?)
    (hoperand : s.mode ≠ .implied → s.mode ≠ .relative →
      (s.meaning t.value?).fits s.limit = true)
    (hbranch : s.mode = .relative → (s.meaning t.value?).isReachedFrom address = true) :
    s.ReadsBack t address (s.bytes known t.value? address) := by
  by_cases hi : s.mode = .implied
  · exact readsBack_implied hs hi known
  by_cases hr : s.mode = .relative
  · exact readsBack_relative hs hr known (hbranch hr)
  have hfits := hoperand hi hr
  rcases Mode.shape_of_operand hi hr with hm | hm
  · exact readsBack_byte hs hm known hfits
  · obtain ⟨v, hv, hle⟩ := exists_value hfits
    exact readsBack_address hs hm hv hwithin hle

end Statement

/-! ### Programs -/

def Body.statement? : Body → Option Statement
  | directive _ => none
  | statement s => some s

def Body.isData : Body → Bool
  | directive (.data ..) => true
  | _ => false

namespace Line

/-- The statements of a program, in order. -/
def statements (lines : List Line) : List Statement :=
  lines.filterMap fun l => l.body.bind Body.statement?

lemma statements_cons (l : Line) (rest : List Line) :
    statements (l :: rest) = (l.body.bind Body.statement?).toList ++ statements rest := by
  rw [statements, List.filterMap_cons]
  cases l.body.bind Body.statement? <;> rfl

lemma mem_statements {s : Statement} {lines : List Line} :
    s ∈ statements lines ↔ ∃ l ∈ lines, l.body = some (.statement s) := by
  have hbody (b : Body) : b.statement? = some s ↔ b = .statement s := by
    cases b <;> simp [Body.statement?]
  simp [statements, List.mem_filterMap, Option.bind_eq_some_iff, hbody]

def hasData (l : Line) : Bool := l.body.any Body.isData

end Line

namespace TwoPass

variable {t : SymbolTable}

/-- Without data, the bytes are those of statements. -/
lemma Placed.statement_or_nil {p : Placed} (h : p.line.hasData = false) :
    (∃ s, p.line.body = some (.statement s)) ∨
      p.line.body.bind Body.statement? = none ∧ ∀ all, p.bytes all = [] := by
  unfold Placed.bytes
  rcases hb : p.line.body with _ | (⟨e, loc⟩ | ⟨kind, items, loc⟩ | ⟨name, e, loc⟩) | s
  · exact .inr ⟨rfl, fun _ => rfl⟩
  · exact .inr ⟨rfl, fun _ => rfl⟩
  · simp [Line.hasData, hb, Body.isData] at h
  · exact .inr ⟨rfl, fun _ => rfl⟩
  · exact .inl ⟨s, rfl⟩

/-- What can be read back line by line can be read back as a whole, if the lines adjoin one
another. -/
lemma disassemble_chain {ps : List Placed} (hchain : ps.IsChain Placed.Adjoins)
    (hdata : ∀ p ∈ ps, p.line.hasData = false)
    (hread : ∀ p ∈ ps, ∀ s, p.line.body = some (.statement s) →
      s.ReadsBack t p.start (p.bytes t.value?))
    {address : Nat} (hstart : ∀ p ∈ ps.head?, p.start = address) :
    ∃ ds, disassemble address (ps.flatMap (·.bytes t.value?)) = some ds ∧
      List.Forall₂ (Decoded.Recovers t) (Line.statements (ps.map Placed.line)) ds := by
  induction ps generalizing address with
  | nil => exact ⟨[], rfl, .nil⟩
  | cons p rest ih =>
    obtain rfl : p.start = address := hstart p rfl
    obtain ⟨hadjoins, hchain⟩ := List.isChain_cons.mp hchain
    obtain ⟨hp, hdata⟩ := List.forall_mem_cons.mp hdata
    obtain ⟨hread, hreads⟩ := List.forall_mem_cons.mp hread
    obtain ⟨ds, hds, hrec⟩ := ih hchain hdata hreads fun q hq => (hadjoins q hq).symm
    rcases p.statement_or_nil hp with ⟨s, hs⟩ | ⟨hnone, hnil⟩
    · obtain ⟨d, hd, hall⟩ := hread s hs
      refine ⟨d :: ds, ?_, ?_⟩
      · rw [List.flatMap_cons, hall, p.length_bytes, hds, Option.map_some]
      · rw [List.map_cons, Line.statements_cons, hs]
        exact .cons hd hrec
    · have hsize : p.size = 0 := by rw [← p.length_bytes t.value?, hnil, List.length_nil]
      rw [hsize, Nat.add_zero] at hds
      refine ⟨ds, ?_, ?_⟩
      · rw [List.flatMap_cons, hnil, List.nil_append, hds]
      · rw [List.map_cons, Line.statements_cons, hnone]
        exact hrec

end TwoPass

namespace Assembly

open TwoPass

variable {a : Assembly} {lines : List Line} (h : a.Realizes lines)

include h

/-- The statements of an accepted program are read back from their lines. -/
lemma readsBack_of_realizes {p : Placed} (hp : p ∈ layout .init lines) {s : Statement}
    (hs : p.line.body = some (.statement s)) :
    s.ReadsBack a.symbols p.start (p.bytes a.symbols.value?) := by
  have hok := (acceptable_iff h.sound).mpr ⟨h.passes, h.resolves⟩
  have hwithin := known_within_final hp
  have hoperand := hok.operands p hp s hs
  have hbranch := hok.branches p hp s hs
  rw [← h.names] at hwithin hoperand hbranch
  rw [Placed.bytes, hs]
  exact Statement.readsBack_bytes (h.sound _ (line_mem_of_layout hp) _ hs) hwithin hoperand hbranch

/-- A statement has bytes. -/
lemma exists_codeLine_of_statement (hne : Line.statements lines ≠ []) :
    ∃ l ∈ a.codeLines, 0 < l.length := by
  obtain ⟨s, hs⟩ := List.exists_mem_of_ne_nil _ hne
  rw [← map_line_layout .init lines] at hs
  obtain ⟨l, hl, hbody⟩ := Line.mem_statements.mp hs
  obtain ⟨p, hp, rfl⟩ := List.mem_map.mp hl
  refine ⟨p.codeLine, by rw [h.codeLines]; exact List.mem_map_of_mem hp, ?_⟩
  rw [UInt32.lt_iff_toNat_lt, (Placed.toNat_codeLine (h.stop_le p hp)).2, Placed.size, hbody]
  exact s.size_pos p.known

omit h

/-- **Instruction streams can be read back**: where a source has statements but no data, and sets
the origin in its first line at most, a disassembler that starts at the first byte of its block
takes all of the bytes and finds the statements again in their order, each with its mnemonic, its
mode and the value of its operand. -/
theorem instructions_read_back {source : String} (hlen : source.utf8ByteSize < 0x40000000)
    {lexemes : List Lexeme} (ht : tokenize source = .ok lexemes) (hok : ofSource source = .ok a)
    (hlines : (Parser.parse (LineMap.ofString source) lexemes).lines = lines)
    (hdata : ∀ l ∈ lines, l.hasData = false) (hne : Line.statements lines ≠ [])
    (horigin : ∀ l ∈ lines.tail, l.setsOrigin = false) :
    ∃ b ds, a.blocks = [b] ∧ disassemble b.start.toNat b.bytes.toList = some ds ∧
      List.Forall₂ (Decoded.Recovers a.symbols) (Line.statements lines) ds := by
  obtain ⟨lexemes', ht', h⟩ := realizes_of_ok hlen hok
  obtain rfl : lexemes = lexemes' := Except.ok.inj (ht.symm.trans ht')
  rw [hlines] at h
  have hchain := isChain_layout_init horigin
  obtain ⟨l, hl, hpos⟩ := exists_codeLine_of_statement h hne
  obtain ⟨b, hb, hstart, hbytes⟩ := block_of_chain h hchain (blocks_ne_nil hlen hok hl hpos)
  obtain ⟨ds, hds, hrecovers⟩ := disassemble_chain hchain
    (fun p hp => hdata _ (line_mem_of_layout hp)) (fun p hp s hs => readsBack_of_realizes h hp hs)
    (fun p hp => (hstart p hp).symm)
  rw [map_line_layout] at hrecovers
  rw [h.names, ← hbytes] at hds
  exact ⟨b, ds, hb, hds, hrecovers⟩

/-- A loop with branches back and ahead, an operand that has to wait, a short and a long form. -/
def countdown : String :=
  ".ORG $C000\nLDX #count\nloop: BEQ done\nDEC $20,X\nDEX\nBNE loop\ndone: JMP [$C000]\ncount = 3"

/-- What is found in its bytes. -/
def countdownRead : List Decoded :=
  [⟨"LDX", .immediate, some 3⟩, ⟨"BEQ", .relative, some 0xC009⟩, ⟨"DEC", .indexedX, some 0x20⟩,
    ⟨"DEX", .implied, none⟩, ⟨"BNE", .relative, some 0xC002⟩, ⟨"JMP", .indirect, some 0xC000⟩]

theorem instructions_read_back_countdown :
    ∃ lexemes a b, tokenize countdown = .ok lexemes ∧ ofSource countdown = .ok a ∧
      a.blocks = [b] ∧ disassemble b.start.toNat b.bytes.toList = some countdownRead ∧
      List.Forall₂ (Decoded.Recovers a.symbols)
        (Line.statements (Parser.parse (LineMap.ofString countdown) lexemes).lines)
        countdownRead := by
  have hscan : tokenize countdown = .ok ((tokenize countdown).toOption.getD []) := by
    decide +kernel
  have hrun : (ofSource countdown).toOption.any (fun a =>
      a.blocks.map (fun b => disassemble b.start.toNat b.bytes.toList) ==
        [some countdownRead]) = true := by
    decide +kernel
  obtain ⟨a, hok, hread⟩ := exists_ok_iff.mpr hrun
  have hlines : let lines := (Parser.parse (LineMap.ofString countdown)
      ((tokenize countdown).toOption.getD [])).lines
      (∀ l ∈ lines, l.hasData = false) ∧ Line.statements lines ≠ [] ∧
        ∀ l ∈ lines.tail, l.setsOrigin = false := by
    decide +kernel
  obtain ⟨b, ds, hblocks, hds, hrecovers⟩ := instructions_read_back (by decide +kernel) hscan hok
    rfl hlines.1 hlines.2.1 hlines.2.2
  rw [hblocks] at hread
  simp only [List.map_cons, List.map_nil, hds, beq_iff_eq, List.cons.injEq, Option.some.injEq,
    and_true] at hread
  rw [hread] at hds hrecovers
  exact ⟨_, a, b, hscan, hok, hblocks, hds, hrecovers⟩

end Assembly

end CrossAsm
