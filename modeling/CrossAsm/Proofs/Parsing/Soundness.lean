import Mathlib.Tactic.Common
import CrossAsm.Proofs.Parsing.Grammar
import CrossAsm.Proofs.Parsing.Passage

/-!
What is read is spelled by the tokens that were passed, no more and no fewer.
-/

namespace CrossAsm

lemma DataKind.ofName?_eq_some {name : String} {kind : DataKind}
    (h : DataKind.ofName? name = some kind) : name = kind.name := by
  have hfound := List.find?_some h
  exact (of_decide_eq_true hfound).symm

namespace Parser

open Outcome

/-! ### Expressions -/

lemma additive?_eq_some {t : Token} {op : BinaryOp} (h : additive? t = some op) :
    t = .mark op.mark ∧ op.precedence = 1 := by
  unfold additive? at h
  split at h
  · obtain rfl := Option.some.inj h
    exact ⟨rfl, rfl⟩
  · obtain rfl := Option.some.inj h
    exact ⟨rfl, rfl⟩
  · simp at h

lemma multiplicative?_eq_some {t : Token} {op : BinaryOp} (h : multiplicative? t = some op) :
    t = .mark op.mark ∧ op.precedence = 2 := by
  unfold multiplicative? at h
  split at h
  case h_4 => simp at h
  all_goals
    obtain rfl := Option.some.inj h
    exact ⟨rfl, rfl⟩

lemma mark_ne_newline (op : BinaryOp) : Token.mark op.mark ≠ .mark .newline := by
  cases op <;> simp [BinaryOp.mark]

/-- The operators of one level. -/
def OperatorsOf (level : Nat) (op? : Token → Option BinaryOp) : Prop :=
  ∀ t op, op? t = some op → t = .mark op.mark ∧ op.precedence = level

/-- What the reader gives is spelled, at the level, by the tokens it passed. -/
def ReadsAt (level : Nat) (read : Cursor → Outcome Expr) : Prop :=
  ∀ c, (read c).Took c fun e ts => e.Spelled level ts

section Chains

variable {level : Nat} {op? : Token → Option BinaryOp} {operand : Cursor → Outcome Expr}

lemma chainFrom_took (hop : OperatorsOf level op?) (h : ReadsAt (level + 1) operand)
    (count : Nat) (left : Expr) (c : Cursor) :
    (chainFrom op? operand count left c).Took c fun e us =>
      ∀ ts, left.Spelled level ts → e.Spelled level (ts ++ us) := by
  induction count generalizing left c with
  | zero => exact took_ok fun ts hts => by simpa using hts
  | succ count ih =>
    simp only [chainFrom]
    split
    · exact took_ok fun ts hts => by simpa using hts
    · next op hpeek =>
      obtain ⟨t, ht, hopt⟩ := Option.bind_eq_some_iff.mp hpeek
      obtain ⟨rfl, hlevel⟩ := hop t op hopt
      refine Took.step ht (mark_ne_newline op) ((h c.advance).bind fun right us d hright => ?_)
      -- what was read so far is the left operand of the rest
      refine (ih (join left op right) d).mono fun e vs he ts hts => ?_
      have hjoin := he _ (.binary (left.loc.through right.loc) hlevel hts hright)
      simpa using hjoin

lemma chain_took (hop : OperatorsOf level op?) (h : ReadsAt (level + 1) operand) (count : Nat) :
    ReadsAt level (chain op? operand count) := by
  intro c
  refine (h c).bind fun left ts d hleft => ?_
  exact (chainFrom_took hop h count left d).mono fun e us he => he ts (.tighter hleft)

end Chains

lemma startsExpression_cases {t : Token} (h : t.startsExpression = true) :
    t = .mark .leftParen ∨ (∃ v, t = .number v) ∨ (∃ code, t = .char code) ∨
      ∃ name, t = .identifier name := by
  rcases t with v | code | text | name | m
  · exact .inr (.inl ⟨v, rfl⟩)
  · exact .inr (.inr (.inl ⟨code, rfl⟩))
  · exact absurd h Bool.false_ne_true
  · exact .inr (.inr (.inr ⟨name, rfl⟩))
  · cases m <;> first | exact .inl rfl | exact absurd h Bool.false_ne_true

lemma factorWith_eq_fail {c : Cursor} (h : ∀ t, c.peek = some t → t.startsExpression = false)
    (inner : Cursor → Outcome Expr) : factorWith inner c = c.fail (.noExpression c.peek) := by
  rcases hp : c.peek with _ | v | code | text | name | m
  · simp only [factorWith, hp]
  · exact absurd (h _ hp).symm Bool.false_ne_true
  · exact absurd (h _ hp).symm Bool.false_ne_true
  · simp only [factorWith, hp]
  · exact absurd (h _ hp).symm Bool.false_ne_true
  · have hm := h _ hp
    cases m <;> first | exact absurd hm.symm Bool.false_ne_true | simp only [factorWith, hp]

/-- What a factor starts with. -/
lemma factor_cases (c : Cursor) :
    (c.peek = some (.mark .leftParen) ∨ (∃ v, c.peek = some (.number v)) ∨
      (∃ code, c.peek = some (.char code)) ∨ ∃ name, c.peek = some (.identifier name)) ∨
    ∀ t, c.peek = some t → t.startsExpression = false := by
  by_cases h : ∃ t, c.peek = some t ∧ t.startsExpression = true
  · obtain ⟨t, hp, ht⟩ := h
    rw [hp]
    exact .inl (by simpa using startsExpression_cases ht)
  · refine .inr fun t hp => ?_
    by_contra ht
    exact h ⟨t, hp, by simpa using ht⟩

lemma factorWith_took {inner : Cursor → Outcome Expr} (h : ReadsAt 1 inner) :
    ReadsAt 3 (factorWith inner) := by
  intro c
  rcases factor_cases c with (hp | ⟨v, hp⟩ | ⟨code, hp⟩ | ⟨name, hp⟩) | hp
  · simp only [factorWith, hp]
    refine Took.step hp (by simp) ((h c.advance).bind fun e ts d he => ?_)
    refine (d.expect_took (by simp) _).bind fun close us d' hus => ?_
    subst hus
    exact took_ok (by simpa using Expr.Spelled.group _ he)
  · simp only [factorWith, hp]
    exact ⟨_, .one hp (by simp), .number v _⟩
  · simp only [factorWith, hp]
    exact ⟨_, .one hp (by simp), .char code _⟩
  · simp only [factorWith, hp]
    exact ⟨_, .one hp (by simp), .symbol name _⟩
  · rw [factorWith_eq_fail hp]
    exact took_fail _

lemma expressionUpTo_took (count : Nat) : ReadsAt 1 (expressionUpTo count) := by
  induction count with
  | zero => exact fun c => took_fail _
  | succ count ih =>
    have hterm : ReadsAt 2 (termWith (expressionUpTo count) count) :=
      chain_took (fun _ _ => multiplicative?_eq_some) (factorWith_took ih) count
    exact chain_took (fun _ _ => additive?_eq_some) hterm count

lemma expression_took : ReadsAt 1 expression := fun c => expressionUpTo_took c.room c

/-! ### Operands -/

lemma ofToken?_eq_some {t : Token} {r : Register} (h : Register.ofToken? t = some r) :
    ∃ name, t = .identifier name ∧
      (r = .x ∧ name.toUpper = "X" ∨ r = .y ∧ name.toUpper = "Y") := by
  unfold Register.ofToken? at h
  split at h
  · next name =>
    refine ⟨name, rfl, ?_⟩
    split at h
    · next hx => exact .inl ⟨by simpa using h.symm, hx⟩
    split at h
    · next hy => exact .inr ⟨by simpa using h.symm, hy⟩
    · simp at h
  · simp at h

lemma indexRegister_took (c : Cursor) :
    (indexRegister c).Took c fun r ts => ∃ name, ts = [.identifier name] ∧
      (r = .x ∧ name.toUpper = "X" ∨ r = .y ∧ name.toUpper = "Y") := by
  unfold indexRegister
  split
  · next r hr =>
    obtain ⟨t, ht, hreg⟩ := Option.bind_eq_some_iff.mp hr
    obtain ⟨name, rfl, hname⟩ := ofToken?_eq_some hreg
    exact ⟨_, .one ht (by simp), name, rfl, hname⟩
  · exact took_fail _

/-- What an operand of the mnemonic is spelled by. -/
abbrev OperandOfTokens (mnemonic : String) (r : Mode × Option Expr) (ts : List Token) : Prop :=
  Instruction.OperandSpelled mnemonic r.1 r.2 ts

section Operands

variable {mnemonic : String}

lemma indirectOperand_took (hm : Instruction.TakesOperand mnemonic) (c : Cursor) :
    (indirectOperand c).Took c fun r ts =>
      OperandOfTokens mnemonic r (.mark .leftBracket :: ts) := by
  refine (expression_took c).bind fun e ts d he => ?_
  split
  · next d₁ h₁ =>
    obtain ⟨hcomma, rfl⟩ := Cursor.accept?_mark.mp h₁
    refine Took.step hcomma (by simp) ((indexRegister_took _).bind fun r us d₂ hr => ?_)
    obtain ⟨name, rfl, hname⟩ := hr
    split
    · next hx =>
      subst hx
      obtain ⟨-, hX⟩ | ⟨hxy, -⟩ := hname
      · refine (d₂.expect_took (by simp) _).bind fun _ vs d₃ hvs => ?_
        subst hvs
        exact took_ok (by simpa using .indexedIndirect hm he hX)
      · simp at hxy
    · exact took_fail _
  · refine (d.expect_took (by simp) _).bind fun _ us d₁ hus => ?_
    subst hus
    split
    · next d₂ h₂ =>
      obtain ⟨hcomma, rfl⟩ := Cursor.accept?_mark.mp h₂
      refine Took.step hcomma (by simp) ((indexRegister_took _).bind fun r us d₃ hr => ?_)
      obtain ⟨name, rfl, hname⟩ := hr
      split
      · next hy =>
        subst hy
        obtain ⟨hyx, -⟩ | ⟨-, hY⟩ := hname
        · simp at hyx
        · exact took_ok (by simpa using .indirectIndexed hm he hY)
      · exact took_fail _
    · exact took_ok (by simpa using .indirect hm he)

lemma addressOperand_took (hm : Instruction.TakesOperand mnemonic) (c : Cursor)
    (ho : ∀ name, c.peek = some (.identifier name) → Instruction.isMnemonic name = false ∧
      ¬(name.toUpper = "A" ∧ Instruction.supports mnemonic .implied = true)) :
    (addressOperand c).Took c (OperandOfTokens mnemonic) := by
  -- the address opens with the token that is ahead now
  have hexpr : (expression c).Took c fun e ts =>
      e.Spelled 1 ts ∧ Instruction.OpensAddress mnemonic ts := by
    have h := expression_took c
    cases hc : expression c with
    | fail f d => rw [hc] at h; exact h
    | ok e d =>
      rw [hc] at h
      obtain ⟨ts, hts, he⟩ := h
      refine ⟨ts, hts, he, ?_⟩
      rintro name rest rfl
      exact ho name (Cursor.passes_cons.mp hts).1
  refine hexpr.bind fun e ts d he => ?_
  obtain ⟨he, hopens⟩ := he
  split
  · next d₁ h₁ =>
    obtain ⟨hcomma, rfl⟩ := Cursor.accept?_mark.mp h₁
    refine Took.step hcomma (by simp) ((indexRegister_took _).map fun r us hr => ?_)
    obtain ⟨name, rfl, ⟨rfl, hX⟩ | ⟨rfl, hY⟩⟩ := hr
    · exact .indexedX hm he hopens hX
    · exact .indexedY hm he hopens hY
  · exact took_ok (by simpa using .absolute hm he hopens)

lemma operandFollows_identifier {c : Cursor} {name : String} (h : operandFollows c = true)
    (hp : c.peek = some (.identifier name)) : Instruction.isMnemonic name = false := by
  simp only [operandFollows, hp, Bool.and_eq_true, Bool.not_eq_true'] at h
  exact h.2

lemma atAccumulator_iff {c : Cursor} :
    atAccumulator c = true ↔ ∃ name, c.peek = some (.identifier name) ∧ name.toUpper = "A" := by
  unfold atAccumulator
  split
  · next name hp => simp [hp]
  · next hp =>
    simp only [Bool.false_eq_true, false_iff, not_exists, not_and]
    exact fun name hname _ => hp name hname

lemma operand_took (mnemonic : String) (c : Cursor) :
    (operand mnemonic c).Took c (OperandOfTokens mnemonic) := by
  unfold operand
  split
  · next hbranch => exact (expression_took c).map fun e ts he => .relative hbranch he
  next hbranch =>
  have hbranch : Instruction.isBranch mnemonic = false := by simpa using hbranch
  split
  · exact took_ok (.implied hbranch)
  next hfollows =>
  simp only [Bool.or_eq_true, Bool.not_eq_true', not_or, Bool.not_eq_false,
    Bool.not_eq_true] at hfollows
  obtain ⟨himplied, hfollows⟩ := hfollows
  have hm : Instruction.TakesOperand mnemonic := ⟨hbranch, himplied⟩
  split
  · next hacc =>
    obtain ⟨hacc, hsup⟩ := Bool.and_eq_true_iff.mp hacc
    obtain ⟨name, hp, hname⟩ := atAccumulator_iff.mp hacc
    exact ⟨_, .one hp (by simp), .accumulator hm hsup hname⟩
  next hacc =>
  split
  · next d hd =>
    obtain ⟨hp, rfl⟩ := Cursor.accept?_mark.mp hd
    exact Took.step hp (by simp) ((expression_took _).map fun e ts he => .immediate hm he)
  split
  · next d hd =>
    obtain ⟨hp, rfl⟩ := Cursor.accept?_mark.mp hd
    exact Took.step hp (by simp) (indirectOperand_took hm _)
  · refine addressOperand_took hm c fun name hp => ⟨operandFollows_identifier hfollows hp, ?_⟩
    rintro ⟨hname, hsup⟩
    exact hacc (by rw [atAccumulator_iff.mpr ⟨name, hp, hname⟩, hsup]; rfl)

end Operands

/-! ### Bodies -/

lemma statement_took (c : Cursor) :
    (statement c).Took c fun s ts => (Body.statement s).Spelled ts := by
  unfold statement
  split
  · next word hp =>
    split
    · next hword =>
      refine Took.step hp (by simp) ((operand_took _ _).bind fun r ts d hr => ?_)
      obtain ⟨mode, e⟩ := r
      simp only
      split
      · next hmode => exact took_ok (by simpa using .statement c.location hword hr hmode)
      · exact ⟨[], .refl d⟩
    · exact took_fail _
  · exact took_fail _

lemma dataItem_took (c : Cursor) : (dataItem c).Took c DataItem.Spelled := by
  unfold dataItem
  split
  · next text hp => exact ⟨_, .one hp (by simp), .string text _⟩
  · exact (expression_took c).map fun e ts he => .expr he

lemma dataItemsFrom_took (count : Nat) (c : Cursor) :
    (dataItemsFrom count c).Took c DataItem.SpelledAfter := by
  induction count generalizing c with
  | zero => exact took_ok .nil
  | succ count ih =>
    simp only [dataItemsFrom]
    split
    · exact took_ok .nil
    · next d hd =>
      obtain ⟨hcomma, rfl⟩ := Cursor.accept?_mark.mp hd
      refine Took.step hcomma (by simp) ((dataItem_took _).bind fun i ts d hi => ?_)
      exact (ih d).map fun items us hitems => .cons hi hitems

lemma dataItems_took (c : Cursor) : (dataItems c).Took c fun items ts =>
    ∃ i rest us vs, items = i :: rest ∧ ts = us ++ vs ∧ i.Spelled us ∧
      DataItem.SpelledAfter rest vs := by
  refine (dataItem_took c).bind fun i us d hi => ?_
  exact (dataItemsFrom_took d.room d).map fun rest vs hrest =>
    ⟨i, rest, us, vs, rfl, rfl, hi, hrest⟩

lemma directive_took (c : Cursor) :
    (directive c).Took c fun d ts => (Body.directive d).Spelled ts := by
  refine (c.expect_took (by simp) _).bind fun _ us d hus => ?_
  subst hus
  split
  · next name hp =>
    split
    · next horg =>
      refine Took.step hp (by simp) ((expression_took _).map fun e ts he => ?_)
      exact .origin c.location horg he
    split
    · next kind hkind =>
      refine Took.step hp (by simp) ((dataItems_took _).map fun items ts hitems => ?_)
      obtain ⟨i, rest, us, vs, rfl, rfl, hi, hrest⟩ := hitems
      exact .data c.location (DataKind.ofName?_eq_some hkind) hi hrest
    · exact took_fail _
  · exact took_fail _

lemma assignment_took {c : Cursor} (h : c.identifierThen (.mark .equal) = true) :
    (assignment c).Took c fun d ts => (Body.directive d).Spelled ts := by
  obtain ⟨name, hp, -⟩ := Cursor.identifierThen_mark.mp h
  simp only [assignment, hp]
  refine Took.step hp (by simp) ((c.advance.expect_took (by simp) _).bind fun _ us d hus => ?_)
  subst hus
  exact (expression_took d).map fun e ts he => .assign c.location he

lemma body_took (c : Cursor) : (body c).Took c fun b ts =>
    (b = none ∧ ts = [] ∧ (c.atLineEnd || c.identifierThen (.mark .colon)) = true) ∨
      ∃ x, b = some x ∧ x.Spelled ts := by
  unfold body
  split
  · next h => exact took_ok (.inl ⟨rfl, rfl, h⟩)
  split
  · exact (directive_took c).map fun d ts hd => .inr ⟨_, rfl, hd⟩
  split
  · next h => exact (assignment_took h).map fun d ts hd => .inr ⟨_, rfl, hd⟩
  split
  · exact (statement_took c).map fun s ts hs => .inr ⟨_, rfl, hs⟩
  · exact took_fail _

end Parser

end CrossAsm
