import Mathlib.Tactic.Common
import CrossAsm.Proofs.Definitions

/-!
What evaluation of operands comes to, said without the evaluator. An operand with all its symbols
stands for a number, by the rules of arithmetic modulo 2^32; evaluation gives this number just if
nothing is divided by zero on the way. What it gives it keeps giving when symbols are added. Main
statement: `evaluation_settled`.
-/

namespace CrossAsm

/-! ### Operations -/

namespace BinaryOp

/-- The operation on numbers from 0 to 2^32 - 1. Division drops the remainder. -/
def compute : BinaryOp → Int → Int → Int
  | add, a, b => (a + b) % 0x100000000
  | sub, a, b => (a - b) % 0x100000000
  | mul, a, b => (a * b) % 0x100000000
  | div, a, b => a.tdiv b
  | mod, a, b => a.tmod b

/-- Whether the right side is divided by. -/
def divides : BinaryOp → Bool
  | div | mod => true
  | add | sub | mul => false

variable {op : BinaryOp} {a b v : UInt32}

lemma fails_iff : op.apply? a b = none ↔ op.divides = true ∧ b.toNat = 0 := by
  have hzero : b = 0 ↔ b.toNat = 0 := UInt32.toNat_inj.symm
  cases op <;> simp [divides, BinaryOp.apply?, hzero]

lemma compute_eq (h : op.apply? a b = some v) :
    op.compute a.toNat b.toNat = v.toNat := by
  have ha := a.toNat_lt
  have hb := b.toNat_lt
  cases op <;> simp only [Option.some.injEq, BinaryOp.apply?, Option.ite_none_left_eq_some] at h
  · rw [compute, ← h, UInt32.toNat_add]
    omega
  · rw [compute, ← h, UInt32.toNat_sub]
    omega
  · rw [compute, ← h, UInt32.toNat_mul, Int.natCast_emod, Int.natCast_mul]
    rfl
  · rw [compute, ← h.2, UInt32.toNat_div]
    rfl
  · rw [compute, ← h.2, UInt32.toNat_mod]
    rfl

end BinaryOp

/-! ### Operands -/

namespace Meaning

lemma combine_eq_value {op : BinaryOp} {m n : Meaning} {v : UInt32} :
    combine op m n = .value v ↔
      ∃ a b, m = .value a ∧ n = .value b ∧ op.apply? a b = some v := by
  rcases m with a | _ | _
  · rcases n with b | _ | _
    · simp only [combine]
      cases hv : op.apply? a b <;> simp [hv]
    · simp [combine]
    · simp [combine]
  · cases n <;> simp [combine]
  · simp [combine]

lemma combine_eq_unknown {op : BinaryOp} {m n : Meaning} (h : combine op m n = .unknown) :
    m = .unknown ∨ n = .unknown := by
  rcases m with a | _ | _
  · rcases n with b | _ | _
    · simp only [combine] at h
      cases hv : op.apply? a b <;> simp [hv] at h
    · exact .inr rfl
    · simp [combine] at h
  · exact .inl rfl
  · simp [combine] at h

end Meaning

/-- The value of a name, and 0 where it has none. -/
def SymbolTable.word (t : SymbolTable) (name : String) : UInt32 := (t.value? name).getD 0

namespace Operand

/-- The names in an operand, from left to right. -/
def symbols : Operand → List String
  | number _ _ => []
  | symbol name _ => [name]
  | binary _ l r _ => l.symbols ++ r.symbols

/-- What is divided by in an operand. -/
def divisors : Operand → List Operand
  | number _ _ | symbol _ _ => []
  | binary op l r _ => l.divisors ++ r.divisors ++ if op.divides then [r] else []

/-- The number that an operand stands for. -/
def denote (t : SymbolTable) : Operand → Int
  | number v _ => v.toNat
  | symbol name _ => (t.word name).toNat
  | binary op l r _ => op.compute (l.denote t) (r.denote t)

/-- All names in the operand have a value. -/
def Defined (t : SymbolTable) (o : Operand) : Prop := ∀ name ∈ o.symbols, (t.value? name).isSome

/-- Nothing is divided by zero. -/
def Divisible (t : SymbolTable) (o : Operand) : Prop := ∀ d ∈ o.divisors, d.denote t ≠ 0

variable {t t' : SymbolTable} {o : Operand} {v : UInt32}

lemma defined_binary {op : BinaryOp} {l r : Operand} {loc : Location} :
    (binary op l r loc).Defined t ↔ l.Defined t ∧ r.Defined t := by
  simp only [Defined, symbols, List.forall_mem_append]

lemma divisible_binary {op : BinaryOp} {l r : Operand} {loc : Location} :
    (binary op l r loc).Divisible t ↔
      l.Divisible t ∧ r.Divisible t ∧ (op.divides = true → r.denote t ≠ 0) := by
  simp only [Divisible, divisors, List.forall_mem_append, and_assoc]
  cases op.divides <;> simp

/-- Only a missing symbol makes an operand wait. -/
lemma meaning_ne_unknown (h : o.Defined t) : o.meaning t ≠ .unknown := by
  induction o with
  | number v l => simp
  | symbol name l =>
    obtain ⟨v, hv⟩ := Option.isSome_iff_exists.mp (h name (List.mem_singleton_self name))
    simp [meaning_symbol, hv]
  | binary op l r loc ihl ihr =>
    obtain ⟨hl, hr⟩ := defined_binary.mp h
    rw [meaning_binary]
    intro hu
    rcases Meaning.combine_eq_unknown hu with hu | hu
    · exact ihl hl hu
    · exact ihr hr hu

/-- A value needs all symbols and no division by zero, and it is the number the operand stands
for. -/
lemma denote_of_value (h : o.meaning t = .value v) :
    o.Defined t ∧ o.Divisible t ∧ o.denote t = v.toNat := by
  induction o generalizing v with
  | number w l =>
    obtain rfl : w = v := by simpa using h
    simp [Defined, symbols, Divisible, divisors, denote]
  | symbol name l =>
    rw [meaning_symbol] at h
    rcases hv : t.value? name with _ | w
    · simp [hv] at h
    · obtain rfl : w = v := by simpa [hv] using h
      simp [Defined, symbols, Divisible, divisors, denote, SymbolTable.word, hv]
  | binary op l r loc ihl ihr =>
    rw [meaning_binary] at h
    obtain ⟨a, b, hl, hr, happly⟩ := Meaning.combine_eq_value.mp h
    obtain ⟨hldef, hldiv, hlnum⟩ := ihl hl
    obtain ⟨hrdef, hrdiv, hrnum⟩ := ihr hr
    refine ⟨defined_binary.mpr ⟨hldef, hrdef⟩, divisible_binary.mpr ⟨hldiv, hrdiv, ?_⟩, ?_⟩
    · intro hop hzero
      have hb : b.toNat = 0 := by omega
      simp [BinaryOp.fails_iff.mpr ⟨hop, hb⟩] at happly
    · rw [denote, hlnum, hrnum]
      exact BinaryOp.compute_eq happly

/-- With all symbols and no division by zero there is a value. -/
lemma exists_value (hdef : o.Defined t) (hdiv : o.Divisible t) : ∃ v, o.meaning t = .value v := by
  induction o with
  | number v l => exact ⟨v, rfl⟩
  | symbol name l =>
    obtain ⟨v, hv⟩ := Option.isSome_iff_exists.mp (hdef name (List.mem_singleton_self name))
    exact ⟨v, by simp [meaning_symbol, hv]⟩
  | binary op l r loc ihl ihr =>
    obtain ⟨hldef, hrdef⟩ := defined_binary.mp hdef
    obtain ⟨hldiv, hrdiv, hop⟩ := divisible_binary.mp hdiv
    obtain ⟨a, ha⟩ := ihl hldef hldiv
    obtain ⟨b, hb⟩ := ihr hrdef hrdiv
    rw [meaning_binary]
    rcases happly : op.apply? a b with _ | v
    · obtain ⟨hdivides, hzero⟩ := BinaryOp.fails_iff.mp happly
      exact absurd (by rw [(denote_of_value hb).2.2, hzero]; rfl) (hop hdivides)
    · exact ⟨v, Meaning.combine_eq_value.mpr ⟨a, b, ha, hb, happly⟩⟩

lemma meaning_eq_value_iff : o.meaning t = .value v ↔
    o.Defined t ∧ o.Divisible t ∧ o.denote t = v.toNat := by
  refine ⟨denote_of_value, ?_⟩
  rintro ⟨hdef, hdiv, hnum⟩
  obtain ⟨w, hw⟩ := exists_value hdef hdiv
  have hwv : w.toNat = v.toNat := by
    have := (denote_of_value hw).2.2
    omega
  rw [hw, UInt32.toNat_inj.mp hwv]

/-- A meaning that does not wait for symbols stays as it is in a table that has more of them. -/
lemma meaning_within (h : Names.Within t.value? t'.value?) (o : Operand) :
    (o.meaning t).Within (o.meaning t') := by
  induction o with
  | number v l => exact fun _ => rfl
  | symbol name l =>
    intro hn
    rw [meaning_symbol] at hn ⊢
    rw [meaning_symbol]
    rcases hv : t.value? name with _ | v
    · simp [hv] at hn
    · rw [h name v hv]
  | binary op l r loc ihl ihr =>
    rw [meaning_binary, meaning_binary]
    exact Meaning.combine_within op ihl ihr

/-! ### Evaluation -/

lemma eval_eq_value_iff : o.eval t = .ok (some v) ↔ o.meaning t = .value v := by
  refine ⟨?_, eval_of_value⟩
  intro h
  simp [meaning, h]

lemma eval_eq_unknown_iff : o.eval t = .ok none ↔ o.meaning t = .unknown := by
  refine ⟨?_, eval_of_unknown⟩
  intro h
  simp [meaning, h]

lemma exists_error_iff : (∃ z, o.eval t = .error z) ↔ o.meaning t = .undefined := by
  refine ⟨?_, eval_of_undefined⟩
  rintro ⟨z, h⟩
  simp [meaning, h]

/-- **Evaluation is settled**: a value or a division by zero stays one in every table that has all
symbols of the first one with their values; only a missing symbol makes an operand wait; and a
value comes out just if all symbols are defined and nothing is divided by zero, and then it is the
number that the operand stands for. -/
theorem evaluation_settled (o : Operand) (t t' : SymbolTable)
    (h : Names.Within t.value? t'.value?) :
    (∀ v, o.eval t = .ok (some v) → o.eval t' = .ok (some v)) ∧
      ((∃ z, o.eval t = .error z) → ∃ z, o.eval t' = .error z) ∧
      (o.Defined t → o.eval t ≠ .ok none) ∧
      ∀ v, o.eval t = .ok (some v) ↔
        o.Defined t ∧ o.Divisible t ∧ o.denote t = v.toNat := by
  have hwithin := meaning_within h o
  simp only [exists_error_iff, eval_eq_value_iff, ne_eq, eval_eq_unknown_iff]
  refine ⟨?_, ?_, meaning_ne_unknown, fun v => meaning_eq_value_iff⟩
  · intro v hv
    rw [hwithin (by simp [hv]), hv]
  · intro hu
    rw [hwithin (by simp [hu]), hu]

/-- A table with one symbol. -/
def sized : SymbolTable := ⟨SymbolTable.empty.entries.insert "size" ⟨"size", 0x100, 1, 1⟩⟩

/-- The same with another one. -/
def sizedAndBased : SymbolTable := ⟨sized.entries.insert "base" ⟨"base", 0x800, 2, 1⟩⟩

/-- `(size - 257) * 2`, which goes below zero. -/
def wrapping : Operand :=
  .binary .mul (.binary .sub (.symbol "size" default) (.number 0x101 default) default)
    (.number 2 default) default

/-- `base + 1 / (size - 256)`, which divides by zero before `base` is known. -/
def broken : Operand :=
  .binary .add (.symbol "base" default)
    (.binary .div (.number 1 default)
      (.binary .sub (.symbol "size" default) (.number 0x100 default) default) default) default

theorem evaluation_settled_sized :
    Names.Within sized.value? sizedAndBased.value? ∧
      wrapping.eval sized = .ok (some 0xFFFFFFFE) ∧
      wrapping.eval sizedAndBased = .ok (some 0xFFFFFFFE) ∧
      wrapping.denote sized = 0xFFFFFFFE ∧
      sized.value? "base" = none ∧ ¬broken.Divisible sized ∧
      ∃ z, broken.eval sizedAndBased = .error z := by
  have hfresh : sized.value? "base" = none := by decide +kernel
  have hwithin : Names.Within sized.value? sizedAndBased.value? := by
    rw [sizedAndBased, SymbolTable.value?_insert_fresh (s := ⟨"base", 0x800, 2, 1⟩) hfresh]
    exact Names.within_define _ _ _
  have hvalue : wrapping.eval sized = .ok (some 0xFFFFFFFE) := by decide +kernel
  have hzero : ∃ z, broken.eval sized = .error z := exists_error_iff.mpr (by decide +kernel)
  have hdivisor : ¬broken.Divisible sized := by
    unfold Divisible
    decide +kernel
  obtain ⟨hkept, -, -, hexact⟩ := evaluation_settled wrapping sized sizedAndBased hwithin
  obtain ⟨-, hbroken, -⟩ := evaluation_settled broken sized sizedAndBased hwithin
  exact ⟨hwithin, hvalue, hkept _ hvalue, ((hexact _).mp hvalue).2.2, hfresh, hdivisor,
    hbroken hzero⟩

end Operand

end CrossAsm
