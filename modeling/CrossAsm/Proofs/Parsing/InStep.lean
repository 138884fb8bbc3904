import Mathlib.Tactic.Common
import CrossAsm.Proofs.Likeness
import CrossAsm.Proofs.Parsing.Lines

/-!
Two readers in step. They stand before lexemes that are alike, and one of them may have more ahead,
but only behind an end of line that both have still to come to. Every step that one takes the other
takes too, with an outcome that is alike, faults included: reading looks no further than its line.
-/

namespace CrossAsm

/-- Two readers: how alike what they read is, the texts they read in, how far apart they are, and
what the second one has ahead beyond the first one's end. -/
structure Pairing where
  like : Likeness
  closed : like.Closed
  lines : LineMap
  lines' : LineMap
  shift : Nat
  tail : List Lexeme

variable {p : Pairing}

/-! ### Cursors -/

/-- The same token, with a text and a place that are alike. -/
structure Lexeme.Alike (p : Pairing) (l l' : Lexeme) : Prop where
  token : l.token = l'.token
  text : p.like.text l.text l'.text
  start : p.like.place (p.lines.locate l.span) (p.lines'.locate l'.span)

/-- The ends of the lexemes are alike. -/
def Lexeme.StopAlike (p : Pairing) (l l' : Lexeme) : Prop :=
  p.like.place (p.lines.locate ⟨l.span.stop, l.span.stop⟩)
    (p.lines'.locate ⟨l'.span.stop, l'.span.stop⟩)

/-- Lexemes that are alike one by one, and where the last of them end is alike too. -/
structure Lexeme.AllAlike (p : Pairing) (w w' : List Lexeme) : Prop where
  each : List.Forall₂ (Lexeme.Alike p) w w'
  stop : Option.Rel (Lexeme.StopAlike p) w.getLast? w'.getLast?

lemma Lexeme.AllAlike.of_nil {w : List Lexeme} (h : Lexeme.AllAlike p [] w) : w = [] :=
  List.forall₂_nil_left_iff.mp h.each

lemma Lexeme.AllAlike.of_cons {l : Lexeme} {rest w : List Lexeme}
    (h : Lexeme.AllAlike p (l :: rest) w) : ∃ l' rest', w = l' :: rest' ∧ l.Alike p l' ∧
      Lexeme.AllAlike p rest rest' ∧ (rest = [] → l.StopAlike p l') := by
  obtain ⟨each, stop⟩ := h
  obtain ⟨l', rest', hl, hrest, rfl⟩ := List.forall₂_cons_left_iff.mp each
  refine ⟨l', rest', rfl, hl, ?_⟩
  cases hrest with
  | nil =>
    cases stop with
    | some hstop => exact ⟨⟨.nil, .none⟩, fun _ => hstop⟩
  | cons hm hrest =>
    simp only [List.getLast?_cons_cons] at stop
    exact ⟨⟨.cons hm hrest, stop⟩, by simp⟩

namespace Cursor

variable {c c' d d' : Cursor}

/-- What is ahead of the one is ahead of the other too, and then the tail. -/
structure Alike (p : Pairing) (c c' : Cursor) : Prop where
  ahead : ∃ front, c'.ahead = front ++ p.tail ∧ Lexeme.AllAlike p c.ahead front
  lines : c.lines = p.lines
  lines' : c'.lines = p.lines'
  position : c'.position = c.position + p.shift
  atEnd : c.ahead = [] → p.tail = [] → p.like.place c.location c'.location

/-- Nothing of the tail is on the line. -/
def Ends (tail : List Lexeme) (c : Cursor) : Prop :=
  tail = [] ∨ ∃ l ∈ c.ahead, l.token = .mark .newline

structure InStep (p : Pairing) (c c' : Cursor) : Prop where
  alike : c.Alike p c'
  ends : c.Ends p.tail

lemma location_of_last {l : Lexeme} (h : c.ahead = []) (hp : c.previous = some l) :
    c.location = c.lines.locate ⟨l.span.stop, l.span.stop⟩ := by
  simp [location, peekSpan, previousSpan, h, hp]

/-- Behind a lexeme both readers are alike again. -/
lemma Alike.advance (h : c.Alike p c') (hne : c.ahead ≠ []) :
    c.advance.Alike p c'.advance := by
  obtain ⟨⟨front, hfront, hall⟩, hlines, hlines', hpos, -⟩ := h
  rcases hc : c.ahead with _ | ⟨l, rest⟩
  · exact absurd hc hne
  rw [hc] at hall
  obtain ⟨l', front', rfl, hl, hrest, hstop⟩ := hall.of_cons
  have hc' : c'.ahead = l' :: (front' ++ p.tail) := by rw [hfront, List.cons_append]
  rw [advance_of_ahead hc, advance_of_ahead hc']
  refine ⟨⟨front', rfl, hrest⟩, hlines, hlines', by simp only; omega, ?_⟩
  intro hnil htail
  -- at the very end, the place is that of the end of the lexeme just passed
  simp only at hnil
  subst hnil
  obtain rfl := hrest.of_nil
  rw [location_of_last rfl rfl, location_of_last (by simpa using htail) rfl, hlines, hlines']
  exact hstop rfl

namespace InStep

variable (h : c.InStep p c')
include h

lemma peek : c.peek = c'.peek := by
  obtain ⟨⟨⟨front, hfront, hall⟩, -, -, -, -⟩, hends⟩ := h
  rw [peek_eq, peek_eq, hfront]
  rcases hc : c.ahead with _ | ⟨l, rest⟩
  · -- nothing ahead of the first reader: there is no end of line either, so no tail
    rw [hc] at hall
    obtain rfl := hall.of_nil
    rcases hends with htail | ⟨l, hl, -⟩
    · simp [htail]
    · simp [hc] at hl
  · rw [hc] at hall
    obtain ⟨l', front', rfl, hl, -, -⟩ := hall.of_cons
    simp [hl.token]

lemma location : p.like.place c.location c'.location := by
  obtain ⟨⟨⟨front, hfront, hall⟩, hlines, hlines', -, hatEnd⟩, hends⟩ := h
  rcases hc : c.ahead with _ | ⟨l, rest⟩
  · rcases hends with htail | ⟨l, hl, -⟩
    · exact hatEnd hc htail
    · simp [hc] at hl
  · rw [hc] at hall
    obtain ⟨l', front', rfl, hl, -, -⟩ := hall.of_cons
    have hc' : c'.ahead = l' :: (front' ++ p.tail) := by rw [hfront, List.cons_append]
    rw [location_of_ahead hc, location_of_ahead hc', hlines, hlines']
    exact hl.start

/-- A step within the line keeps the readers in step. -/
lemma advance {t : Token} (hp : c.peek = some t) (ht : t ≠ .mark .newline) :
    c.advance.InStep p c'.advance := by
  obtain ⟨l, rest, hl, rfl⟩ := peek_eq_some.mp hp
  refine ⟨h.alike.advance (by simp [hl]), ?_⟩
  rcases h.ends with htail | ⟨n, hn, hnl⟩
  · exact .inl htail
  · refine .inr ⟨n, ?_, hnl⟩
    rw [hl] at hn
    rw [advance_of_ahead hl]
    rcases List.mem_cons.mp hn with rfl | hn
    · exact absurd hnl ht
    · exact hn

lemma passes {ts : List Token} (hpass : c.Passes ts d) :
    ∃ d', c'.Passes ts d' ∧ d.InStep p d' := by
  induction hpass generalizing c' with
  | refl c => exact ⟨c', .refl c', h⟩
  | step hp ht _ ih =>
    obtain ⟨d', hd', hstep⟩ := ih (h.advance hp ht)
    exact ⟨d', .step (h.peek ▸ hp) ht hd', hstep⟩

lemma check (kind : Token.Kind) : c.check kind = c'.check kind := by
  rw [Cursor.check, Cursor.check, h.peek]

lemma identifierThen (m : Mark) : c.identifierThen (.mark m) = c'.identifierThen (.mark m) := by
  rw [Bool.eq_iff_iff, identifierThen_mark, identifierThen_mark, ← h.peek]
  constructor
  · rintro ⟨name, hp, hm⟩
    exact ⟨name, hp, (h.advance hp (by simp)).peek ▸ hm⟩
  · rintro ⟨name, hp, hm⟩
    exact ⟨name, hp, (h.advance hp (by simp)).peek ▸ hm⟩

lemma atLineEnd : c.atLineEnd = c'.atLineEnd := by
  rw [Bool.eq_iff_iff, atLineEnd_iff, atLineEnd_iff, h.peek]

lemma skipLine : c.skipLine.InStep p c'.skipLine := by
  obtain ⟨ts, hts, hend⟩ := passes_skipLine c
  obtain ⟨d', hd', hstep⟩ := h.passes hts
  rw [hd'.skipLine_eq (hstep.atLineEnd ▸ hend)]
  exact hstep

lemma room : c.room = c'.room := by
  obtain ⟨ts, hts, hend⟩ := passes_skipLine c
  obtain ⟨d', hd', hstep⟩ := h.passes hts
  rw [hts.room, hd'.room, room_of_atLineEnd hend, room_of_atLineEnd (hstep.atLineEnd ▸ hend)]

/-- What was passed since is alike. -/
lemma upTo {ts : List Token} (hpass : c.Passes ts d) (hd : d.InStep p d') :
    List.Forall₂ (fun l l' => l.token = l'.token ∧ p.like.text l.text l'.text)
      (c.upTo d) (c'.upTo d') := by
  obtain ⟨w, -, hleft⟩ := hpass.left
  obtain ⟨front, hfront, hall⟩ := h.alike.ahead
  have hlen : w.length ≤ front.length := by
    rw [← hall.each.length_eq, hleft.ahead, List.length_append]
    omega
  have hcount : d'.position - c'.position = d.position - c.position := by
    rw [hd.alike.position, h.alike.position]
    omega
  have hw : d.position - c.position = w.length := by rw [hleft.position]; omega
  rw [Cursor.upTo, Cursor.upTo, hcount, hfront, hw, List.take_append_of_le_length hlen]
  exact (List.forall₂_take w.length hall.each).imp fun _ _ hl => ⟨hl.token, hl.text⟩

end InStep

end Cursor

/-! ### Outcomes -/

namespace Outcome

variable {α β : Type} {c c' : Cursor} {V : α → α → Prop} {W : β → β → Prop}

/-- Both readers got something, or both failed, and they are still in step. -/
inductive InStep (p : Pairing) (V : α → α → Prop) :
    Outcome α → Outcome α → Prop
  | ok {a a' : α} {d d' : Cursor} (ha : V a a') (hd : d.InStep p d') :
      InStep p V (.ok a d) (.ok a' d')
  | fail {f f' : Diagnostic} {d d' : Cursor} (hf : f.Alike p.like f')
      (hd : d.InStep p d') : InStep p V (.fail f d) (.fail f' d')

lemma InStep.bind {o o' : Outcome α} {f f' : α → Cursor → Outcome β}
    (h : o.InStep p V o')
    (hf : ∀ a a' d d', V a a' → d.InStep p d' →
      (f a d).InStep p W (f' a' d')) :
    (o.bind f).InStep p W (o'.bind f') := by
  cases h with
  | ok ha hd => exact hf _ _ _ _ ha hd
  | fail hg hd => exact .fail hg hd

lemma InStep.map {o o' : Outcome α} {f f' : α → β} (h : o.InStep p V o')
    (hf : ∀ a a', V a a' → W (f a) (f' a')) :
    (o.map f).InStep p W (o'.map f') := by
  cases h with
  | ok ha hd => exact .ok (hf _ _ ha) hd
  | fail hg hd => exact .fail hg hd

lemma inStep_fail (h : c.InStep p c') (f : Fault) :
    (c.fail f : Outcome α).InStep p V (c'.fail f) :=
  .fail ⟨f, _, _, h.location, rfl, rfl⟩ h

end Outcome

lemma Cursor.InStep.expect {c c' : Cursor} (h : c.InStep p c') {m : Mark}
    (hm : m ≠ .newline) (what : String) :
    (c.expect (.mark m) what).InStep p
      (fun l l' => p.like.place (p.lines.locate l.span) (p.lines'.locate l'.span))
      (c'.expect (.mark m) what) := by
  have hpeek := h.peek
  obtain ⟨front, hfront, hall⟩ := h.alike.ahead
  unfold Cursor.expect
  rcases hc : c.ahead with _ | ⟨l, rest⟩
  · have hnone : c.peek = none := Cursor.peek_eq_none.mpr hc
    have hc' : c'.ahead = [] := Cursor.peek_eq_none.mp (hpeek ▸ hnone)
    simp only [hc']
    exact Outcome.inStep_fail h _
  · rw [hc] at hall
    obtain ⟨l', front', rfl, hl, -, -⟩ := hall.of_cons
    have hc' : c'.ahead = l' :: (front' ++ p.tail) := by rw [hfront, List.cons_append]
    simp only [hc', ← hl.token]
    split
    · next hk =>
      refine .ok hl.start (h.advance (Cursor.peek_eq_some.mpr ⟨l, rest, hc, rfl⟩) ?_)
      intro hnl
      rw [hnl] at hk
      simp only [Token.kind, Token.Kind.mark.injEq] at hk
      exact hm hk.symm
    · exact Outcome.inStep_fail h _

lemma Cursor.InStep.accept? {c c' d : Cursor} {m : Mark} (h : c.InStep p c')
    (hm : m ≠ .newline) (hd : c.accept? (.mark m) = some d) :
    ∃ d', c'.accept? (.mark m) = some d' ∧ d.InStep p d' := by
  obtain ⟨hp, rfl⟩ := Cursor.accept?_mark.mp hd
  exact ⟨c'.advance, Cursor.accept?_mark.mpr ⟨h.peek ▸ hp, rfl⟩, h.advance hp (by simpa using hm)⟩

lemma Cursor.InStep.accept?_eq_none {c c' : Cursor} {m : Mark} (h : c.InStep p c')
    (hd : c.accept? (.mark m) = none) : c'.accept? (.mark m) = none := by
  rw [Cursor.accept?_eq_none] at hd ⊢
  rwa [← h.peek]

namespace Parser

open Outcome

variable {c c' : Cursor}

/-! ### Expressions -/

/-- Readers in step get the same from it, but for places. -/
def KeepsStep (p : Pairing) (read : Cursor → Outcome Expr) : Prop :=
  ∀ ⦃c c'⦄, c.InStep p c' → (read c).InStep p (Expr.Alike p.like) (read c')

section Chains

variable {level : Nat} {op? : Token → Option BinaryOp} {operand : Cursor → Outcome Expr}

lemma chainFrom_inStep (hop : OperatorsOf level op?) (hread : KeepsStep p operand)
    (count : Nat) {left left' : Expr} (hleft : left.Alike p.like left')
    (h : c.InStep p c') :
    (chainFrom op? operand count left c).InStep p (Expr.Alike p.like)
      (chainFrom op? operand count left' c') := by
  induction count generalizing left left' c c' with
  | zero => exact .ok hleft h
  | succ count ih =>
    cases hpeek : c.peek.bind op? with
    | none =>
      have hpeek' : c'.peek.bind op? = none := h.peek ▸ hpeek
      simp only [chainFrom, hpeek, hpeek']
      exact .ok hleft h
    | some op =>
      have hpeek' : c'.peek.bind op? = some op := h.peek ▸ hpeek
      simp only [chainFrom, hpeek, hpeek']
      obtain ⟨t, ht, hopt⟩ := Option.bind_eq_some_iff.mp hpeek
      obtain ⟨rfl, -⟩ := hop t op hopt
      refine (hread (h.advance ht (mark_ne_newline op))).bind fun right right' d d' hright hd => ?_
      exact ih (hleft.join p.closed op hright) hd

lemma chain_inStep (hop : OperatorsOf level op?) (hread : KeepsStep p operand)
    (count : Nat) : KeepsStep p (chain op? operand count) := by
  intro c c' h
  exact (hread h).bind fun left left' d d' hleft hd => chainFrom_inStep hop hread count hleft hd

end Chains

lemma factorWith_inStep {inner : Cursor → Outcome Expr} (hread : KeepsStep p inner) :
    KeepsStep p (factorWith inner) := by
  intro c c' h
  rcases factor_cases c with (hp | ⟨v, hp⟩ | ⟨code, hp⟩ | ⟨name, hp⟩) | hp
  · simp only [factorWith, hp, ← h.peek]
    refine (hread (h.advance hp (by simp))).bind fun e e' d d' he hd => ?_
    refine (hd.expect (by simp) _).bind fun close close' d₁ d₁' hclose hd₁ => ?_
    rw [h.alike.lines, h.alike.lines']
    exact .ok (.group he (p.closed.through h.location hclose)) hd₁
  · simp only [factorWith, hp, ← h.peek]
    exact .ok (.number h.location) (h.advance hp (by simp))
  · simp only [factorWith, hp, ← h.peek]
    exact .ok (.number h.location) (h.advance hp (by simp))
  · simp only [factorWith, hp, ← h.peek]
    exact .ok (.symbol h.location) (h.advance hp (by simp))
  · rw [factorWith_eq_fail hp, factorWith_eq_fail (h.peek ▸ hp), ← h.peek]
    exact inStep_fail h _

lemma expressionUpTo_inStep (count : Nat) : KeepsStep p (expressionUpTo count) := by
  induction count with
  | zero =>
    intro c c' h
    simp only [expressionUpTo, ← h.peek]
    exact inStep_fail h _
  | succ count ih =>
    have hterm : KeepsStep p (termWith (expressionUpTo count) count) :=
      chain_inStep (fun _ _ => multiplicative?_eq_some) (factorWith_inStep ih) count
    exact chain_inStep (fun _ _ => additive?_eq_some) hterm count

lemma expression_inStep : KeepsStep p expression := by
  intro c c' h
  rw [expression, expression, ← h.room]
  exact expressionUpTo_inStep c.room h

/-! ### Operands -/

lemma indexRegister_inStep (h : c.InStep p c') :
    (indexRegister c).InStep p Eq (indexRegister c') := by
  cases hr : c.peek.bind Register.ofToken? with
  | some r =>
    have hr' : c'.peek.bind Register.ofToken? = some r := h.peek ▸ hr
    obtain ⟨t, ht, hreg⟩ := Option.bind_eq_some_iff.mp hr
    obtain ⟨name, rfl, -⟩ := ofToken?_eq_some hreg
    simp only [indexRegister, hr, hr']
    exact .ok rfl (h.advance ht (by simp))
  | none =>
    simp only [indexRegister, hr, ← h.peek]
    exact inStep_fail h _

/-- The same mode, and operands that are alike. -/
def OperandAlike (k : Likeness) (r r' : Mode × Option Expr) : Prop :=
  r.1 = r'.1 ∧ Option.Rel (Expr.Alike k) r.2 r'.2

lemma indirectOperand_inStep (h : c.InStep p c') :
    (indirectOperand c).InStep p (OperandAlike p.like) (indirectOperand c') := by
  refine (expression_inStep h).bind fun e e' d d' he hd => ?_
  split
  · next d₁ h₁ =>
    obtain ⟨d₁', h₁', hd₁⟩ := hd.accept? (by simp) h₁
    simp only [h₁']
    refine (indexRegister_inStep hd₁).bind fun r r' d₂ d₂' hr hd₂ => ?_
    subst hr
    split
    · refine (hd₂.expect (by simp) _).bind fun _ _ d₃ d₃' _ hd₃ => ?_
      exact .ok ⟨rfl, .some he⟩ hd₃
    · exact inStep_fail hd₂ _
  · next h₁ =>
    simp only [hd.accept?_eq_none h₁]
    refine (hd.expect (by simp) _).bind fun _ _ d₁ d₁' _ hd₁ => ?_
    split
    · next d₂ h₂ =>
      obtain ⟨d₂', h₂', hd₂⟩ := hd₁.accept? (by simp) h₂
      simp only [h₂']
      refine (indexRegister_inStep hd₂).bind fun r r' d₃ d₃' hr hd₃ => ?_
      subst hr
      split
      · exact .ok ⟨rfl, .some he⟩ hd₃
      · exact inStep_fail hd₃ _
    · next h₂ =>
      simp only [hd₁.accept?_eq_none h₂]
      exact .ok ⟨rfl, .some he⟩ hd₁

lemma addressOperand_inStep (h : c.InStep p c') :
    (addressOperand c).InStep p (OperandAlike p.like) (addressOperand c') := by
  refine (expression_inStep h).bind fun e e' d d' he hd => ?_
  split
  · next d₁ h₁ =>
    obtain ⟨d₁', h₁', hd₁⟩ := hd.accept? (by simp) h₁
    simp only [h₁']
    refine (indexRegister_inStep hd₁).map fun r r' hr => ?_
    subst hr
    exact ⟨rfl, .some he⟩
  · next h₁ =>
    simp only [hd.accept?_eq_none h₁]
    exact .ok ⟨rfl, .some he⟩ hd

lemma operandFollows_inStep (h : c.InStep p c') : operandFollows c = operandFollows c' := by
  simp only [operandFollows, ← h.peek, ← h.identifierThen]

lemma atAccumulator_inStep (h : c.InStep p c') : atAccumulator c = atAccumulator c' := by
  simp only [atAccumulator, ← h.peek]

lemma operand_inStep (mnemonic : String) (h : c.InStep p c') :
    (operand mnemonic c).InStep p (OperandAlike p.like) (operand mnemonic c') := by
  unfold operand
  rw [← operandFollows_inStep h, ← atAccumulator_inStep h]
  split
  · exact (expression_inStep h).map fun e e' he => ⟨rfl, .some he⟩
  split
  · exact .ok ⟨rfl, .none⟩ h
  split
  · next hacc =>
    obtain ⟨name, hp, -⟩ := atAccumulator_iff.mp (Bool.and_eq_true_iff.mp hacc).1
    exact .ok ⟨rfl, .none⟩ (h.advance hp (by simp))
  split
  · next d hd =>
    obtain ⟨d', hd', hstep⟩ := h.accept? (by simp) hd
    simp only [hd']
    exact (expression_inStep hstep).map fun e e' he => ⟨rfl, .some he⟩
  next hhash =>
  simp only [h.accept?_eq_none hhash]
  split
  · next d hd =>
    obtain ⟨d', hd', hstep⟩ := h.accept? (by simp) hd
    simp only [hd']
    exact indirectOperand_inStep hstep
  · next hbracket =>
    simp only [h.accept?_eq_none hbracket]
    exact addressOperand_inStep h

/-! ### Bodies -/

lemma statement_inStep (h : c.InStep p c') :
    (statement c).InStep p (fun s s' => (Body.statement s).Alike p.like (.statement s'))
      (statement c') := by
  unfold statement
  rw [← h.peek]
  split
  · next word hp =>
    split
    · refine (operand_inStep _ (h.advance hp (by simp))).bind fun r r' d d' hr hd => ?_
      obtain ⟨mode, e⟩ := r
      obtain ⟨mode', e'⟩ := r'
      obtain ⟨rfl, he⟩ := hr
      simp only
      split
      · exact .ok (.statement he h.location) hd
      · exact .fail ⟨_, _, _, h.location, rfl, rfl⟩ hd
    · exact inStep_fail h _
  · exact inStep_fail h _

lemma dataItem_inStep (h : c.InStep p c') :
    (dataItem c).InStep p (DataItem.Alike p.like) (dataItem c') := by
  unfold dataItem
  rw [← h.peek]
  split
  · next hp => exact .ok (.string h.location) (h.advance hp (by simp))
  · exact (expression_inStep h).map fun e e' he => .expr he

lemma dataItemsFrom_inStep (count : Nat) (h : c.InStep p c') :
    (dataItemsFrom count c).InStep p (List.Forall₂ (DataItem.Alike p.like))
      (dataItemsFrom count c') := by
  induction count generalizing c c' with
  | zero => exact .ok .nil h
  | succ count ih =>
    simp only [dataItemsFrom]
    split
    · next hcomma =>
      simp only [h.accept?_eq_none hcomma]
      exact .ok .nil h
    · next d hd =>
      obtain ⟨d', hd', hstep⟩ := h.accept? (by simp) hd
      simp only [hd']
      refine (dataItem_inStep hstep).bind fun i i' d₁ d₁' hi hd₁ => ?_
      exact (ih hd₁).map fun items items' hitems => .cons hi hitems

lemma dataItems_inStep (h : c.InStep p c') :
    (dataItems c).InStep p (List.Forall₂ (DataItem.Alike p.like)) (dataItems c') := by
  refine (dataItem_inStep h).bind fun i i' d d' hi hd => ?_
  rw [← hd.room]
  exact (dataItemsFrom_inStep d.room hd).map fun items items' hitems => .cons hi hitems

lemma directive_inStep (h : c.InStep p c') :
    (directive c).InStep p (fun d d' => (Body.directive d).Alike p.like (.directive d'))
      (directive c') := by
  refine (h.expect (by simp) _).bind fun _ _ d d' _ hd => ?_
  rw [← hd.peek]
  split
  · next name hp =>
    have hstep := hd.advance hp (by simp)
    split
    · exact (expression_inStep hstep).map fun e e' he => .origin he h.location
    split
    · exact (dataItems_inStep hstep).map fun items items' hitems => .data hitems h.location
    · exact inStep_fail hd _
  · exact inStep_fail hd _

lemma assignment_inStep (h : c.InStep p c') (hc : c.identifierThen (.mark .equal) = true) :
    (assignment c).InStep p (fun d d' => (Body.directive d).Alike p.like (.directive d'))
      (assignment c') := by
  obtain ⟨name, hp, -⟩ := Cursor.identifierThen_mark.mp hc
  simp only [assignment, ← h.peek, hp]
  refine ((h.advance hp (by simp)).expect (by simp) _).bind fun _ _ d d' _ hd => ?_
  exact (expression_inStep hd).map fun e e' he => .assign he h.location

lemma body_inStep (h : c.InStep p c') :
    (body c).InStep p (Option.Rel (Body.Alike p.like)) (body c') := by
  unfold body
  rw [← h.atLineEnd, ← h.identifierThen, ← h.check, ← h.identifierThen, ← h.check, ← h.peek]
  split
  · exact .ok .none h
  split
  · exact (directive_inStep h).map fun d d' hd => .some hd
  split
  · next hc => exact (assignment_inStep h hc).map fun d d' hd => .some hd
  split
  · exact (statement_inStep h).map fun s s' hs => .some hs
  · exact inStep_fail h _

/-! ### Lines -/

lemma label?_inStep {label : Label} {start : Cursor} (h : c.InStep p c')
    (hl : label? c = some (label, start)) :
    ∃ label' start', label? c' = some (label', start') ∧ label.Alike p.like label' ∧
      start.InStep p start' := by
  unfold label? at hl
  split at hl
  · next name hp =>
    split at hl
    · next hcolon =>
      obtain ⟨rfl, rfl⟩ := Prod.mk.inj (Option.some.inj hl)
      obtain ⟨-, -, hnext⟩ := Cursor.identifierThen_mark.mp hcolon
      refine ⟨⟨name, c'.location⟩, c'.advance.advance, ?_, ⟨rfl, h.location⟩, ?_⟩
      · simp [label?, ← h.peek, hp, ← h.identifierThen, hcolon]
      · exact (h.advance hp (by simp)).advance hnext (by simp)
    · simp at hl
  · simp at hl

/-- Lines that are alike, and a fault with both or with neither. -/
def LineAlike (k : Likeness) (r r' : Line × Option Diagnostic) : Prop :=
  r.1.Alike k r'.1 ∧ Option.Rel (Diagnostic.Alike k) r.2 r'.2

lemma line_inStep_unlabelled (h : c.InStep p c') (hl : label? c = none) :
    (line c).InStep p (LineAlike p.like) (line c') := by
  have hl' : label? c' = none := by
    rw [label?_eq_none] at hl ⊢
    rw [← h.identifierThen, hl]
  have htook := body_took c
  have hbody := body_inStep h
  simp only [line, hl, hl']
  generalize body c = o at htook hbody ⊢
  generalize body c' = o' at hbody ⊢
  cases hbody with
  | fail hf hd => exact .fail hf hd
  | ok hb hd =>
    obtain ⟨ts, hts, -⟩ := htook
    refine .ok ⟨⟨.none, hb, ?_, h.location⟩, .none⟩ hd
    simp only [Body.Alike.any_isStatement hb]
    exact terminals_alike p.closed _ (h.upTo hts hd)

lemma line_inStep_labelled {label : Label} {start : Cursor} (h : c.InStep p c')
    (hl : label? c = some (label, start)) :
    (line c).InStep p (LineAlike p.like) (line c') := by
  obtain ⟨label', start', hl', hlabel, hstart⟩ := label?_inStep h hl
  have htook := body_took start
  have hbody := body_inStep hstart
  simp only [line, hl, hl']
  generalize body start = o at htook hbody ⊢
  generalize body start' = o' at hbody ⊢
  cases hbody with
  | @fail _ _ d d' hf hd =>
    -- both keep the label and skip the rest of the line
    obtain ⟨ts, hts⟩ := htook
    obtain ⟨us, hus, -⟩ := Cursor.passes_skipLine d
    refine .ok ⟨⟨.some hlabel, .none, ?_, h.location⟩, .some hf⟩ hd.skipLine
    exact terminals_alike p.closed _ (hstart.upTo (hts.trans hus) hd.skipLine)
  | ok hb hd =>
    obtain ⟨ts, hts, -⟩ := htook
    refine .ok ⟨⟨.some hlabel, hb, ?_, h.location⟩, .none⟩ hd
    simp only [Body.Alike.any_isStatement hb]
    exact terminals_alike p.closed _ (hstart.upTo hts hd)

lemma line_inStep (h : c.InStep p c') : (line c).InStep p (LineAlike p.like) (line c') := by
  rcases hl : label? c with _ | ⟨label, start⟩
  · exact line_inStep_unlabelled h hl
  · exact line_inStep_labelled h hl

end Parser

end CrossAsm
