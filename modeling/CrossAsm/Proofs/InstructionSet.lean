import Mathlib.Tactic.Common
import CrossAsm.Instruction

/-!
What the table of instructions says as a whole: a mnemonic that branches has no other form, and no
opcode stands for two instructions.
-/

namespace CrossAsm

lemma Mode.ne_implied_of_shape {mode : Mode} (h : mode.shape ≠ .empty) : mode ≠ .implied := by
  rintro rfl
  exact h rfl

/-- An operand that is no branch target is a byte or an address. -/
lemma Mode.shape_of_operand {mode : Mode} (hi : mode ≠ .implied) (hr : mode ≠ .relative) :
    mode.shape = .byte ∨ mode.shape = .address := by
  cases mode <;> simp_all [shape]

lemma Mode.zeroPageForm?_of_byte {mode : Mode} (h : mode.shape = .byte) :
    mode.zeroPageForm? = none := by
  cases mode <;> simp_all [shape, zeroPageForm?]

lemma Mode.mode_fullForm (mode : Mode) : mode.fullForm.mode = mode := by cases mode <;> rfl

lemma Mode.mode_of_zeroPageForm? {mode : Mode} {form : Form} (h : mode.zeroPageForm? = some form) :
    form.mode = mode := by
  cases mode <;> cases h <;> rfl

namespace Instruction

variable {mnemonic : String} {mode : Mode} {form : Form} {opcode : UInt8}

/-- An opcode stands in the row of its mnemonic. -/
lemma exists_row (h : opcode? mnemonic form = some opcode) :
    (mnemonic, forms mnemonic) ∈ table ∧ (form, opcode) ∈ forms mnemonic := by
  obtain ⟨front, back, hforms, -⟩ := List.lookup_eq_some_iff.mp h
  cases hrow : table.lookup mnemonic with
  | none => simp [forms, hrow] at hforms
  | some row =>
    obtain rfl : forms mnemonic = row := by rw [forms, hrow, Option.getD_some]
    obtain ⟨above, below, htable, -⟩ := List.lookup_eq_some_iff.mp hrow
    exact ⟨by rw [htable]; simp, by rw [hforms]; simp⟩

/-- A mode is supported by way of one of its forms. -/
lemma exists_form_of_supports (h : supports mnemonic mode = true) :
    ∃ form opcode, opcode? mnemonic form = some opcode ∧ form.mode = mode := by
  rcases Bool.or_eq_true_iff.mp h with hfull | hzero
  · obtain ⟨opcode, hopcode⟩ := Option.isSome_iff_exists.mp hfull
    exact ⟨mode.fullForm, opcode, hopcode, mode.mode_fullForm⟩
  · obtain ⟨opcode, hopcode⟩ := Option.isSome_iff_exists.mp hzero
    obtain ⟨form, hform, hopcode⟩ := Option.bind_eq_some_iff.mp hopcode
    exact ⟨form, opcode, hopcode, Mode.mode_of_zeroPageForm? hform⟩

lemma isMnemonic_of_supports {word : String} (h : supports word.toUpper mode = true) :
    isMnemonic word = true := by
  obtain ⟨form, opcode, hopcode, -⟩ := exists_form_of_supports h
  exact List.lookup_isSome_iff.mpr ⟨_, (exists_row hopcode).1, by simp⟩

/-- With a single form there is a single mode. -/
lemma mode_of_supports (hforms : (forms mnemonic).map Prod.fst = [form])
    (h : supports mnemonic mode = true) : mode = form.mode := by
  obtain ⟨form', opcode, hopcode, rfl⟩ := exists_form_of_supports h
  have hmem : form' ∈ (forms mnemonic).map Prod.fst :=
    List.mem_map_of_mem (exists_row hopcode).2
  rw [hforms, List.mem_singleton] at hmem
  rw [hmem]

lemma relative_alone : ∀ row ∈ table, .relative ∈ row.2.map Prod.fst →
    row.2.map Prod.fst = [.relative] := by
  decide +kernel

/-- Branches have no form but the relative one. -/
lemma forms_of_isBranch (h : isBranch mnemonic = true) :
    (forms mnemonic).map Prod.fst = [.relative] := by
  obtain ⟨opcode, hopcode⟩ := Option.isSome_iff_exists.mp h
  obtain ⟨hrow, hform⟩ := exists_row hopcode
  exact relative_alone _ hrow (List.mem_map_of_mem hform)

lemma isBranch_iff (h : supports mnemonic mode = true) :
    isBranch mnemonic = true ↔ mode = .relative := by
  constructor
  · intro hbranch
    exact mode_of_supports (forms_of_isBranch hbranch) h
  · rintro rfl
    simpa [isBranch, supports, opcodes, Mode.fullForm, Mode.zeroPageForm?] using h

lemma mode_of_isImpliedOnly (hm : isImpliedOnly mnemonic = true)
    (h : supports mnemonic mode = true) : mode = .implied :=
  mode_of_supports (of_decide_eq_true hm) h

/-! ### Opcodes -/

lemma ofOpcode?_of_row : ∀ row ∈ table, ∀ entry ∈ row.2,
    ofOpcode? entry.2 = some (row.1, entry.1) := by
  decide +kernel

/-- An opcode stands for one instruction. -/
lemma ofOpcode?_of_opcode? (h : opcode? mnemonic form = some opcode) :
    ofOpcode? opcode = some (mnemonic, form) := by
  obtain ⟨hrow, hentry⟩ := exists_row h
  exact ofOpcode?_of_row _ hrow _ hentry

end Instruction

end CrossAsm
