import Mathlib.Tactic.Common
import CrossAsm.Operand
import CrossAsm.Tree.Line

/-!
What expressions mean under the symbols known at some point: a value, nothing yet, or a division by
zero. Meanings are kept when more symbols become known, and evaluation of operands agrees with
them.
-/

namespace CrossAsm

/-- The values of names, as far as they are known. -/
abbrev Names := String → Option UInt32

namespace Names

def empty : Names := fun _ => none

/-- A name keeps the value it got first. -/
def define (names : Names) (name : String) (value : UInt32) : Names := fun n =>
  (names n).or (if n = name then some value else none)

/-- Whatever is known in the first place is known in the second, with the same value. -/
def Within (names more : Names) : Prop := ∀ n v, names n = some v → more n = some v

lemma Within.refl (names : Names) : names.Within names := fun _ _ h => h

lemma Within.trans {a b c : Names} (hab : a.Within b) (hbc : b.Within c) : a.Within c :=
  fun n v h => hbc n v (hab n v h)

lemma within_define (names : Names) (name : String) (value : UInt32) :
    names.Within (names.define name value) := by
  intro n v h
  simp [define, h]

lemma define_of_fresh {names : Names} {name : String} (value : UInt32)
    (h : names name = none) (n : String) :
    names.define name value n = if n = name then some value else names n := by
  unfold define
  split
  · next hn => rw [hn, h]; rfl
  · simp

end Names

/-- What an expression comes to. -/
inductive Meaning where
  | value (v : UInt32)
  /-- A symbol is missing. -/
  | unknown
  /-- Something is divided by zero. -/
  | undefined
deriving DecidableEq

namespace Meaning

/-- An operation without a meaning has none, whatever the other side is; only then do missing
symbols count. -/
def combine (op : BinaryOp) : Meaning → Meaning → Meaning
  | undefined, _ => undefined
  | _, undefined => undefined
  | value a, value b =>
    match op.apply? a b with
    | some v => value v
    | none => undefined
  | _, _ => unknown

def value? : Meaning → Option UInt32
  | value v => some v
  | _ => none

/-- The value, and 0 where there is none. -/
def word (m : Meaning) : UInt32 := m.value?.getD 0

@[simp] lemma word_value (v : UInt32) : (value v).word = v := rfl

/-- The second one is the same, unless the first one waits for symbols. -/
def Within (m n : Meaning) : Prop := m ≠ unknown → n = m

lemma combine_within (op : BinaryOp) {a a' b b' : Meaning} (ha : a.Within a')
    (hb : b.Within b') : (combine op a b).Within (combine op a' b') := by
  intro h
  -- one side may still be unknown, but then the other one divides by zero, and keeps doing so
  rcases a with v | _ | _
  · rw [ha (by simp)]
    rcases b with w | _ | _
    · rw [hb (by simp)]
    · exact absurd rfl h
    · rw [hb (by simp)]
  · rcases b with w | _ | _
    · exact absurd rfl h
    · exact absurd rfl h
    · rw [hb (by simp)]
      cases a' <;> rfl
  · rw [ha (by simp)]
    rfl

end Meaning

def Expr.meaning (names : Names) : Expr → Meaning
  | .number v _ => .value v
  | .symbol name _ => (names name).elim .unknown .value
  | .binary op l r _ => .combine op (l.meaning names) (r.meaning names)
  | .group e _ => e.meaning names

/-- One meaning for each value that the entry asks for. -/
def DataItem.meanings (names : Names) : DataItem → List Meaning
  | .expr e => [e.meaning names]
  | .string text _ => text.toList.map fun c => .value c.val

/-! ### More symbols -/

namespace Expr

variable {names more : Names}

/-- A meaning that does not wait for symbols stays as it is when more of them become known. -/
lemma meaning_within (h : names.Within more) (e : Expr) :
    (e.meaning names).Within (e.meaning more) := by
  induction e with
  | number v l => exact fun _ => rfl
  | symbol name l =>
    intro hn
    rcases hv : names name with _ | v
    · simp [meaning, hv] at hn
    · simp [meaning, hv, h name v hv]
  | group e l ih => exact ih
  | binary op l r loc ihl ihr => exact Meaning.combine_within op ihl ihr

lemma meaning_value_within (h : names.Within more) {e : Expr} {v : UInt32}
    (he : e.meaning names = .value v) : e.meaning more = .value v := by
  rw [meaning_within h e (by simp [he]), he]

lemma meaning_undefined_within (h : names.Within more) {e : Expr}
    (he : e.meaning names = .undefined) : e.meaning more = .undefined := by
  rw [meaning_within h e (by simp [he]), he]

end Expr

/-! ### Evaluation -/

namespace Operand

/-- What evaluation of an operand comes to, apart from the text and the place of a fault. -/
def meaning (t : SymbolTable) (o : Operand) : Meaning :=
  match o.eval t with
  | .ok (some v) => .value v
  | .ok none => .unknown
  | .error _ => .undefined

variable {t : SymbolTable} {o : Operand}

lemma eval_of_value {v : UInt32} (h : o.meaning t = .value v) : o.eval t = .ok (some v) := by
  unfold meaning at h
  split at h <;> simp_all

lemma eval_of_unknown (h : o.meaning t = .unknown) : o.eval t = .ok none := by
  unfold meaning at h
  split at h <;> simp_all

lemma eval_of_undefined (h : o.meaning t = .undefined) : ∃ z, o.eval t = .error z := by
  unfold meaning at h
  split at h <;> simp_all

@[simp] lemma meaning_number (t : SymbolTable) (v : UInt32) (l : Location) :
    (Operand.number v l).meaning t = .value v := rfl

lemma meaning_symbol (t : SymbolTable) (name : String) (l : Location) :
    (Operand.symbol name l).meaning t = (t.value? name).elim .unknown .value := by
  unfold meaning eval
  cases t.value? name <;> rfl

lemma meaning_binary (t : SymbolTable) (op : BinaryOp) (l r : Operand) (loc : Location) :
    (Operand.binary op l r loc).meaning t = .combine op (l.meaning t) (r.meaning t) := by
  unfold meaning
  rw [eval]
  rcases l.eval t with z | _ | a
  · rfl
  · rcases r.eval t with z | _ | b <;> rfl
  · rcases r.eval t with z | _ | b
    · rfl
    · rfl
    · simp only [Meaning.combine]
      cases op.apply? a b <;> rfl

end Operand

/-- Evaluation without parentheses gives what the expression means. -/
lemma Expr.meaning_toOperand (t : SymbolTable) (e : Expr) :
    e.toOperand.meaning t = e.meaning t.value? := by
  induction e with
  | number v l => rfl
  | symbol name l => exact Operand.meaning_symbol t name l
  | binary op l r loc ihl ihr => rw [toOperand, Operand.meaning_binary, ihl, ihr]; rfl
  | group e l ih => exact ih

/-- The operands of an entry, in order. -/
def DataItem.operands : DataItem → List Operand
  | .expr e => [e.toOperand]
  | .string text loc => text.toList.map fun c => .number c.val loc

lemma DataItem.map_meaning_operands (t : SymbolTable) (i : DataItem) :
    i.operands.map (·.meaning t) = i.meanings t.value? := by
  cases i with
  | expr e => simp [operands, meanings, Expr.meaning_toOperand]
  | string text loc => simp [operands, meanings]

end CrossAsm
