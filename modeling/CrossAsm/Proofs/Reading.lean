import Mathlib.Tactic.Common
import CrossAsm.Tree.Parser

/-!
What reading gives, whatever the lexemes are. A statement has an opcode in its mode, and an operand
just where the mode asks for one. A line needs no more values and words than lexemes and characters
of strings were taken for it. Faults are about the text, never about the assembler itself.
-/

namespace CrossAsm

/-- How many values or words of a line a token can stand for. -/
def Token.weight : Token → Nat
  | string text => text.length + 1
  | _ => 1

lemma Token.weight_pos (t : Token) : 1 ≤ t.weight := by
  cases t <;> simp [weight]

def Lexeme.totalWeight : List Lexeme → Nat
  | [] => 0
  | l :: rest => l.token.weight + totalWeight rest

namespace DataItem

/-- How many values the entry asks for. -/
def weight : DataItem → Nat
  | expr _ => 1
  | string text _ => text.length

def totalWeight : List DataItem → Nat
  | [] => 0
  | i :: rest => i.weight + totalWeight rest

end DataItem

namespace Statement

/-- There is an opcode for the mode, and an operand where the mode has one. -/
structure Sound (s : Statement) : Prop where
  supported : Instruction.supports s.mnemonic s.mode = true
  operand : s.operand.isSome = s.mode.hasOperand

def weight (s : Statement) : Nat := 1 + s.operand.toList.length

end Statement

namespace Body

def Sound : Body → Prop
  | directive _ => True
  | statement s => s.Sound

def weight : Body → Nat
  | directive (.data _ items _) => DataItem.totalWeight items
  | directive _ => 0
  | statement s => s.weight

end Body

namespace Line

def Sound (l : Line) : Prop := ∀ b ∈ l.body, b.Sound

def weight (l : Line) : Nat := l.body.elim 0 Body.weight

def totalWeight : List Line → Nat
  | [] => 0
  | l :: rest => l.weight + totalWeight rest

end Line

/-! ### Cursors -/

namespace Cursor

variable {c d : Cursor}

def weight (c : Cursor) : Nat := Lexeme.totalWeight c.ahead

lemma weight_advance_of_peek {t : Token} (h : c.peek = some t) :
    c.advance.weight + t.weight = c.weight := by
  obtain ⟨lines, position, previous, ahead⟩ := c
  rcases ahead with _ | ⟨l, rest⟩
  · simp [peek, peekAhead] at h
  · obtain rfl : l.token = t := by simpa [peek, peekAhead] using h
    simp only [weight, advance, Lexeme.totalWeight]
    omega

lemma weight_advance_lt {t : Token} (h : c.peek = some t) : c.advance.weight + 1 ≤ c.weight := by
  have := weight_advance_of_peek h
  have := t.weight_pos
  omega

lemma weight_advance_le (c : Cursor) : c.advance.weight ≤ c.weight := by
  rcases h : c.peek with _ | t
  · obtain ⟨lines, position, previous, ahead⟩ := c
    rcases ahead with _ | ⟨l, rest⟩
    · simp [advance]
    · simp [peek, peekAhead] at h
  · have := weight_advance_lt h
    omega

lemma peek_of_check {k : Token.Kind} (h : c.check k = true) : ∃ t, c.peek = some t := by
  unfold check at h
  cases hp : c.peek with
  | none => simp [hp] at h
  | some t => exact ⟨t, rfl⟩

lemma weight_accept {k : Token.Kind} (h : c.accept? k = some d) : d.weight + 1 ≤ c.weight := by
  unfold accept? at h
  split at h
  · next hk =>
    obtain ⟨t, ht⟩ := peek_of_check hk
    obtain rfl : c.advance = d := by simpa using h
    exact weight_advance_lt ht
  · simp at h

lemma weight_skipFrom (lines : LineMap) (p : Token → Bool) (position : Nat)
    (previous : Option Lexeme) (ahead : List Lexeme) :
    (skipFrom lines p position previous ahead).weight ≤ Lexeme.totalWeight ahead := by
  induction ahead generalizing position previous with
  | nil => simp [skipFrom, weight, Lexeme.totalWeight]
  | cons l rest ih =>
    simp only [skipFrom, Lexeme.totalWeight]
    split
    · have := ih (position + 1) (some l)
      omega
    · simp [weight, Lexeme.totalWeight]

lemma weight_skipWhile (c : Cursor) (p : Token → Bool) : (c.skipWhile p).weight ≤ c.weight :=
  weight_skipFrom c.lines p c.position c.previous c.ahead

end Cursor

/-! ### Outcomes -/

namespace Outcome

variable {α β : Type} {n m : Nat} {P : α → Nat → Prop} {Q : β → Nat → Prop}

/-- After a step from where `n` was ahead: `P` relates what was read to what is still ahead, and a
fault is one of the text and has not moved back. -/
def Reads (n : Nat) (P : α → Nat → Prop) : Outcome α → Prop
  | ok a d => P a d.weight
  | fail f d => f.code ≠ .internalError ∧ d.weight ≤ n

lemma Reads.mono {P' : α → Nat → Prop} {o : Outcome α} (h : o.Reads n P) (hn : n ≤ m)
    (hP : ∀ a k, P a k → P' a k) : o.Reads m P' := by
  cases o with
  | ok a d => exact hP a _ h
  | fail f d => exact ⟨h.1, Nat.le_trans h.2 hn⟩

lemma Reads.bind {o : Outcome α} {f : α → Cursor → Outcome β} (h : o.Reads n P)
    (hf : ∀ a d, P a d.weight → (f a d).Reads n Q) : (o.bind f).Reads n Q := by
  cases o with
  | ok a d => exact hf a d h
  | fail g d => exact h

lemma Reads.map {o : Outcome α} {f : α → β} (h : o.Reads n P)
    (hf : ∀ a k, P a k → Q (f a) k) : (o.map f).Reads n Q := by
  cases o with
  | ok a d => exact hf a _ h
  | fail g d => exact h

lemma reads_fail {c : Cursor} {f : Fault} (hf : f.code ≠ .internalError) (hn : c.weight ≤ n) :
    (c.fail f : Outcome α).Reads n P := ⟨hf, hn⟩

end Outcome

lemma Fault.code_expected (what : String) (found : Option Token) :
    (Fault.expected what found).code ≠ .internalError := by
  cases found <;> simp [Fault.code]

lemma Fault.code_noExpression (found : Option Token) :
    (Fault.noExpression found).code ≠ .internalError := by
  cases found <;> simp [Fault.code]

lemma Cursor.expect_reads (c : Cursor) (k : Token.Kind) (what : String) :
    (c.expect k what).Reads c.weight fun _ n => n + 1 ≤ c.weight := by
  unfold expect
  split
  · next l rest h =>
    split
    · exact weight_advance_lt (t := l.token) (by simp [peek, peekAhead, h])
    · exact Outcome.reads_fail (Fault.code_expected _ _) (Nat.le_refl _)
  · exact Outcome.reads_fail (Fault.code_expected _ _) (Nat.le_refl _)

/-! ### Expressions -/

namespace Parser

open Outcome

/-- Reading an operand or an expression takes a lexeme at least. -/
def Taking (read : Cursor → Outcome Expr) : Prop :=
  ∀ c, (read c).Reads c.weight fun _ n => n + 1 ≤ c.weight

lemma chainFrom_reads {op? : Token → Option BinaryOp} {operand : Cursor → Outcome Expr}
    (h : Taking operand) (count : Nat) (left : Expr) (c : Cursor) :
    (chainFrom op? operand count left c).Reads c.weight fun _ n => n ≤ c.weight := by
  induction count generalizing left c with
  | zero => exact Nat.le_refl c.weight
  | succ count ih =>
    simp only [chainFrom]
    split
    · exact Nat.le_refl c.weight
    · next op _ =>
      have hc := c.weight_advance_le
      refine ((h c.advance).mono hc fun _ _ hk => hk).bind fun right d hd => ?_
      exact (ih (join left op right) d).mono (by omega) fun _ k hk => by omega

lemma chain_taking {op? : Token → Option BinaryOp} {operand : Cursor → Outcome Expr}
    (h : Taking operand) (count : Nat) : Taking (chain op? operand count) := by
  intro c
  refine (h c).bind fun left d hd => ?_
  exact (chainFrom_reads h count left d).mono (by omega) fun _ k hk => by omega

lemma factorWith_taking {inner : Cursor → Outcome Expr} (h : Taking inner) :
    Taking (factorWith inner) := by
  intro c
  rcases hp : c.peek with _ | t
  · simp only [factorWith, hp]
    exact reads_fail (Fault.code_noExpression _) (Nat.le_refl _)
  have hc := c.weight_advance_lt hp
  rcases t with v | code | text | name | m
  · simp only [factorWith, hp]
    exact hc
  · simp only [factorWith, hp]
    exact hc
  · simp only [factorWith, hp]
    exact reads_fail (Fault.code_noExpression _) (Nat.le_refl _)
  · simp only [factorWith, hp]
    exact hc
  · by_cases hm : m = .leftParen
    · subst hm
      simp only [factorWith, hp]
      refine ((h c.advance).mono (by omega) fun _ _ hk => hk).bind fun e d hd => ?_
      refine ((d.expect_reads _ _).mono (by omega) fun _ _ hk => hk).bind fun close d' hd' => ?_
      show d'.weight + 1 ≤ c.weight
      omega
    · have hfail : factorWith inner c = c.fail (.noExpression (some (.mark m))) := by
        cases m <;> first | exact absurd rfl hm | simp only [factorWith, hp]
      rw [hfail]
      exact reads_fail (Fault.code_noExpression _) (Nat.le_refl _)

lemma expressionUpTo_taking (count : Nat) : Taking (expressionUpTo count) := by
  induction count with
  | zero => exact fun c => reads_fail (Fault.code_noExpression _) (Nat.le_refl _)
  | succ count ih => exact chain_taking (chain_taking (factorWith_taking ih) count) count

lemma expression_taking : Taking expression := fun c => expressionUpTo_taking c.room c

/-! ### Statements -/

lemma indexRegister_reads (c : Cursor) :
    (indexRegister c).Reads c.weight fun _ n => n ≤ c.weight := by
  unfold indexRegister
  split
  · exact c.weight_advance_le
  · exact reads_fail (Fault.code_expected _ _) (Nat.le_refl _)

/-- What an operand with its mode is like: there is an expression just where the mode has one, and
it took a lexeme. -/
def OperandOf (n : Nat) (r : Mode × Option Expr) (k : Nat) : Prop :=
  r.2.isSome = r.1.hasOperand ∧ k + r.2.toList.length ≤ n

lemma indirectOperand_reads (c : Cursor) :
    (indirectOperand c).Reads c.weight (OperandOf c.weight) := by
  refine (expression_taking c).bind fun e d hd => ?_
  split
  · next d₁ h₁ =>
    have := d.weight_accept h₁
    refine ((indexRegister_reads d₁).mono (by omega) fun _ _ hk => hk).bind fun r d₂ h₂ => ?_
    split
    · refine ((d₂.expect_reads _ _).mono (by omega) fun _ _ hk => hk).bind fun _ d₃ h₃ => ?_
      exact ⟨rfl, by simp only [Option.toList_some, List.length_singleton]; omega⟩
    · exact reads_fail (by simp [Fault.code]) (by omega)
  · refine ((d.expect_reads _ _).mono (by omega) fun _ _ hk => hk).bind fun _ d₁ h₁ => ?_
    split
    · next d₂ h₂ =>
      have := d₁.weight_accept h₂
      refine ((indexRegister_reads d₂).mono (by omega) fun _ _ hk => hk).bind fun r d₃ h₃ => ?_
      split
      · exact ⟨rfl, by simp only [Option.toList_some, List.length_singleton]; omega⟩
      · exact reads_fail (by simp [Fault.code]) (by omega)
    · exact ⟨rfl, by simp only [Option.toList_some, List.length_singleton]; omega⟩

lemma addressOperand_reads (c : Cursor) :
    (addressOperand c).Reads c.weight (OperandOf c.weight) := by
  refine (expression_taking c).bind fun e d hd => ?_
  split
  · next d₁ h₁ =>
    have := d.weight_accept h₁
    refine ((indexRegister_reads d₁).mono (by omega) fun _ _ hk => hk).map fun r k hk => ?_
    refine ⟨?_, by simp only [Option.toList_some, List.length_singleton]; omega⟩
    cases r <;> rfl
  · exact ⟨rfl, by simp only [Option.toList_some, List.length_singleton]; omega⟩

lemma operand_reads (mnemonic : String) (c : Cursor) :
    (operand mnemonic c).Reads c.weight (OperandOf c.weight) := by
  unfold operand
  split
  · refine (expression_taking c).map fun e k hk => ⟨rfl, ?_⟩
    simpa using hk
  split
  · exact ⟨rfl, Nat.le_refl _⟩
  split
  · exact ⟨rfl, c.weight_advance_le⟩
  split
  · next d hd =>
    have := c.weight_accept hd
    refine ((expression_taking d).mono (by omega) fun _ _ hk => hk).map fun e k hk => ⟨rfl, ?_⟩
    simp only [Option.toList_some, List.length_singleton]
    omega
  split
  · next d hd =>
    have := c.weight_accept hd
    exact (indirectOperand_reads d).mono (by omega) fun _ k hk => ⟨hk.1, by have := hk.2; omega⟩
  · exact addressOperand_reads c

lemma statement_reads (c : Cursor) :
    (statement c).Reads c.weight fun s n => s.Sound ∧ n + s.weight ≤ c.weight := by
  unfold statement
  split
  · next word hp =>
    have hc := c.weight_advance_lt hp
    split
    · refine ((operand_reads word.toUpper c.advance).mono (by omega) fun _ _ hk => hk).bind
        fun r d hd => ?_
      obtain ⟨mode, e⟩ := r
      obtain ⟨hsome, hw⟩ := hd
      simp only
      split
      · next hsup =>
        refine ⟨⟨hsup, hsome⟩, ?_⟩
        simp only [Statement.weight] at hw ⊢
        omega
      · exact ⟨by simp [Fault.diagnose, Fault.code], by omega⟩
    · exact reads_fail (by simp [Fault.code]) (Nat.le_refl _)
  · exact reads_fail (by simp [Fault.code]) (Nat.le_refl _)

/-! ### Directives -/

lemma dataItem_reads (c : Cursor) :
    (dataItem c).Reads c.weight fun i n => n + i.weight ≤ c.weight := by
  unfold dataItem
  split
  · next text hp =>
    have := c.weight_advance_of_peek hp
    show c.advance.weight + text.length ≤ c.weight
    simp only [Token.weight] at this
    omega
  · exact (expression_taking c).map fun e k hk => hk

lemma dataItemsFrom_reads (count : Nat) (c : Cursor) :
    (dataItemsFrom count c).Reads c.weight
      fun items n => n + DataItem.totalWeight items ≤ c.weight := by
  induction count generalizing c with
  | zero => exact Nat.le_refl c.weight
  | succ count ih =>
    simp only [dataItemsFrom]
    split
    · exact Nat.le_refl c.weight
    · next d hd =>
      have := c.weight_accept hd
      refine ((dataItem_reads d).mono (by omega) fun _ _ hk => hk).bind fun i d₁ h₁ => ?_
      refine ((ih d₁).mono (by omega) fun _ _ hk => hk).map fun items k hk => ?_
      simp only [DataItem.totalWeight]
      omega

lemma dataItems_reads (c : Cursor) :
    (dataItems c).Reads c.weight fun items n => n + DataItem.totalWeight items ≤ c.weight := by
  refine (dataItem_reads c).bind fun i d hd => ?_
  refine ((dataItemsFrom_reads d.room d).mono (by omega) fun _ _ hk => hk).map
    fun items k hk => ?_
  simp only [DataItem.totalWeight]
  omega

lemma directive_reads (c : Cursor) :
    (directive c).Reads c.weight fun d n => n + (Body.directive d).weight ≤ c.weight := by
  refine (c.expect_reads _ _).bind fun _ d hd => ?_
  split
  · have hda := d.weight_advance_le
    split
    · refine ((expression_taking d.advance).mono (by omega) fun _ _ hk => hk).map fun e k hk => ?_
      simp only [Body.weight]
      omega
    split
    · refine ((dataItems_reads d.advance).mono (by omega) fun _ _ hk => hk).map
        fun items k hk => ?_
      simp only [Body.weight]
      omega
    · exact reads_fail (by simp [Fault.code]) (by omega)
  · exact reads_fail (by simp [Fault.code]) (by omega)

lemma assignment_reads (c : Cursor) :
    (assignment c).Reads c.weight fun d n => n + (Body.directive d).weight ≤ c.weight := by
  have hc := c.weight_advance_le
  unfold assignment
  split
  · refine ((c.advance.expect_reads _ _).mono hc fun _ _ hk => hk).bind fun _ d hd => ?_
    refine ((expression_taking d).mono (by omega) fun _ _ hk => hk).map fun e k hk => ?_
    simp only [Body.weight]
    omega
  · exact reads_fail (by simp [Fault.code]) hc

/-! ### Lines -/

/-- What the body of a line is like. -/
def BodyOf (n : Nat) (b : Option Body) (k : Nat) : Prop :=
  (∀ x ∈ b, x.Sound) ∧ k + b.elim 0 Body.weight ≤ n

lemma body_reads (c : Cursor) : (body c).Reads c.weight (BodyOf c.weight) := by
  unfold body
  split
  · exact ⟨by simp, Nat.le_refl _⟩
  split
  · refine (directive_reads c).map fun d k hk => ⟨?_, hk⟩
    simp [Body.Sound]
  split
  · refine (assignment_reads c).map fun d k hk => ⟨?_, hk⟩
    simp [Body.Sound]
  split
  · refine (statement_reads c).map fun s k hk => ⟨?_, hk.2⟩
    simpa [Body.Sound] using hk.1
  · exact reads_fail (Fault.code_expected _ _) (Nat.le_refl _)

lemma label?_weight {c d : Cursor} {label : Label} (h : label? c = some (label, d)) :
    d.weight ≤ c.weight := by
  unfold label? at h
  split at h
  · split at h
    · obtain rfl : c.advance.advance = d := by
        simp only [Option.some.injEq, Prod.mk.injEq] at h
        exact h.2
      have := c.weight_advance_le
      have := c.advance.weight_advance_le
      omega
    · simp at h
  · simp at h

/-- What a line is like that comes with or without a fault. -/
def LineOf (n : Nat) (r : Line × Option Diagnostic) (k : Nat) : Prop :=
  r.1.Sound ∧ k + r.1.weight ≤ n ∧ ∀ f ∈ r.2, f.code ≠ .internalError

lemma line_reads (c : Cursor) : (line c).Reads c.weight (LineOf c.weight) := by
  unfold line
  split
  · refine (body_reads c).bind fun b d hd => ?_
    exact ⟨hd.1, hd.2, by simp⟩
  · next label start hl =>
    have hs := label?_weight hl
    have hb := body_reads start
    split
    · next b d hbody =>
      rw [hbody] at hb
      obtain ⟨hsound, hw⟩ := hb
      exact ⟨hsound, Nat.le_trans hw hs, by simp⟩
    · next fault d hbody =>
      -- the label stays, and nothing of the body is kept
      rw [hbody] at hb
      obtain ⟨hcode, hw⟩ := hb
      have := d.weight_skipWhile (· ≠ .mark .newline)
      refine ⟨by simp [Line.Sound], ?_, by simpa using hcode⟩
      simp only [Line.weight, Option.elim_none, Cursor.skipLine]
      omega

/-- What a whole program is like. -/
structure ProgramOf (n : Nat) (p : Program) : Prop where
  sound : ∀ l ∈ p.lines, l.Sound
  weight : Line.totalWeight p.lines ≤ n
  code : ∀ f ∈ p.faults, f.code ≠ .internalError

lemma programUpTo_of (count : Nat) (c : Cursor) :
    ProgramOf c.weight (programUpTo count c).1 := by
  induction count generalizing c with
  | zero => exact ⟨by simp [programUpTo], by simp [programUpTo, Line.totalWeight],
      by simp [programUpTo]⟩
  | succ count ih =>
    have hskip : c.skipNewlines.weight ≤ c.weight := c.weight_skipWhile _
    have hline := line_reads c.skipNewlines
    simp only [programUpTo]
    split
    · exact ⟨by simp, by simp [Line.totalWeight], by simp⟩
    split
    · next l fault d hl =>
      rw [hl] at hline
      obtain ⟨hsound, hw, hcode⟩ := hline
      obtain ⟨ihs, ihw, ihc⟩ := ih d
      refine ⟨?_, ?_, ?_⟩
      · intro m hm
        rcases List.mem_cons.mp hm with rfl | hm
        · exact hsound
        · exact ihs m hm
      · simp only [Line.totalWeight]
        simp only at hw
        omega
      · intro f hf
        rcases List.mem_append.mp hf with hf | hf
        · exact hcode f (by simpa using hf)
        · exact ihc f hf
    · next fault d hl =>
      rw [hl] at hline
      obtain ⟨hcode, hw⟩ := hline
      have hd : d.skipLine.weight ≤ d.weight := d.weight_skipWhile _
      obtain ⟨ihs, ihw, ihc⟩ := ih d.skipLine
      refine ⟨ihs, by simp only; omega, ?_⟩
      intro f hf
      rcases List.mem_cons.mp hf with rfl | hf
      · exact hcode
      · exact ihc f hf

/-- **What reading gives**: sound lines, no heavier than the lexemes, and faults of the text. -/
lemma parse_of (lines : LineMap) (lexemes : List Lexeme) :
    ProgramOf (Lexeme.totalWeight lexemes) (parse lines lexemes) :=
  programUpTo_of lexemes.length (.start lines lexemes)

end Parser

end CrossAsm
