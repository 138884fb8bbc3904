import Mathlib.Data.List.Forall2
import Mathlib.Tactic.Common
import CrossAsm.Proofs.Likeness
import CrossAsm.Proofs.Parsing.Lines
import CrossAsm.Proofs.Tiling

/-!
Trees and faults point into the text. A reader that stands in a text only moves on in it, so what an
operation covers starts with its left operand, and every place that is written down is that of a
part of the text.
-/

namespace CrossAsm

variable {text : List Char} {n : Nat}

/-- Alike is what is the same and points into the text. -/
def Likeness.into (text : List Char) : Likeness where
  place l l' := l = l' ∧ l.PointsInto text
  text _ _ := True

/-! ### Cursors -/

namespace Cursor

variable {c d : Cursor}

/-- Where the lexeme right behind ends. -/
def behind (c : Cursor) : Nat := c.previous.elim 0 (·.span.stop)

/-- The reader stands in the text, at an offset or behind it. -/
structure Stands (text : List Char) (n : Nat) (c : Cursor) : Prop where
  lines : c.lines = .ofChars text
  behind : Boundary text c.behind
  ahead : Lexeme.Stand text c.behind c.ahead
  offset : n ≤ c.location.span.start

lemma location_of_nil (h : c.ahead = []) : c.location = c.lines.locate ⟨c.behind, c.behind⟩ := by
  rcases hp : c.previous with _ | l <;>
    simp [location, peekSpan, previousSpan, Cursor.behind, h, hp]

/-- What is next stands at the end of what is behind, or further on. -/
lemma behind_le_location (h : Lexeme.Stand text c.behind c.ahead) :
    c.behind ≤ c.location.span.start := by
  generalize hahead : c.ahead = ahead at h
  cases h with
  | nil => rw [location_of_nil hahead]; exact Nat.le_refl _
  | cons hle _ _ _ _ => rw [location_of_ahead hahead]; exact hle

namespace Stands

lemma self (h : c.Stands text n) : c.Stands text c.location.span.start :=
  { h with offset := Nat.le_refl _ }

lemma mono {m : Nat} (h : c.Stands text n) (hle : m ≤ n) : c.Stands text m :=
  { h with offset := Nat.le_trans hle h.offset }

lemma location (h : c.Stands text n) : c.location.PointsInto text := by
  obtain ⟨hlines, hbehind, hstand, -⟩ := h
  generalize hahead : c.ahead = ahead at hstand
  cases hstand with
  | nil =>
    rw [location_of_nil hahead, hlines]
    exact Location.pointsInto_locate hbehind hbehind (Nat.le_refl _)
  | cons _ hlt hstart hstop _ =>
    rw [location_of_ahead hahead, hlines]
    exact Location.pointsInto_locate hstart hstop (Nat.le_of_lt hlt)

lemma advance (h : c.Stands text n) : c.advance.Stands text n := by
  have hstands := h
  obtain ⟨hlines, hbehind, hstand, hoffset⟩ := h
  generalize hahead : c.ahead = ahead at hstand
  cases hstand with
  | nil => simpa [Cursor.advance, hahead] using hstands
  | @cons _ l rest hle hlt hstart hstop hrest =>
    have hadvance := advance_of_ahead hahead
    have hnext : l.span.stop ≤ c.advance.location.span.start := by
      rw [hadvance]
      exact behind_le_location (c := ⟨c.lines, c.position + 1, some l, rest⟩) hrest
    rw [location_of_ahead hahead] at hoffset
    have hoffset : n ≤ l.span.start := hoffset
    refine ⟨?_, ?_, ?_, by omega⟩
    · rw [hadvance]
      exact hlines
    · rw [hadvance]
      exact hstop
    · rw [hadvance]
      exact hrest

lemma passes {ts : List Token} (h : c.Stands text n) (hpass : c.Passes ts d) :
    d.Stands text n := by
  induction hpass with
  | refl c => exact h
  | step _ _ _ ih => exact ih h.advance

lemma accept? {k : Token.Kind} (h : c.Stands text n) (hd : c.accept? k = some d) :
    d.Stands text n := by
  unfold Cursor.accept? at hd
  split at hd
  · obtain rfl : c.advance = d := by simpa using hd
    exact h.advance
  · simp at hd

lemma skipLine (h : c.Stands text n) : c.skipLine.Stands text n := by
  obtain ⟨ts, hts, -⟩ := passes_skipLine c
  exact h.passes hts

lemma place (h : c.Stands text n) : (Likeness.into text).place c.location c.location :=
  ⟨rfl, h.location⟩

end Stands

end Cursor

/-! ### Outcomes -/

namespace Outcome

variable {α β : Type} {c : Cursor} {P : α → Prop} {Q : β → Prop}

/-- What was read satisfies `P`, a fault points into the text, and the reader has not moved back. -/
inductive Places (text : List Char) (n : Nat) (P : α → Prop) : Outcome α → Prop
  | ok {a : α} {d : Cursor} (ha : P a) (hd : d.Stands text n) : Places text n P (.ok a d)
  | fail {f : Diagnostic} {d : Cursor} (hf : f.Alike (.into text) f) (hd : d.Stands text n) :
      Places text n P (.fail f d)

lemma Places.mono {m : Nat} {P' : α → Prop} {o : Outcome α} (h : o.Places text n P) (hle : m ≤ n)
    (hP : ∀ a, P a → P' a) : o.Places text m P' := by
  cases h with
  | ok ha hd => exact .ok (hP _ ha) (hd.mono hle)
  | fail hf hd => exact .fail hf (hd.mono hle)

lemma Places.bind {o : Outcome α} {f : α → Cursor → Outcome β} (h : o.Places text n P)
    (hf : ∀ a d, P a → d.Stands text n → (f a d).Places text n Q) :
    (o.bind f).Places text n Q := by
  cases h with
  | ok ha hd => exact hf _ _ ha hd
  | fail hg hd => exact .fail hg hd

lemma Places.map {o : Outcome α} {f : α → β} (h : o.Places text n P)
    (hf : ∀ a, P a → Q (f a)) : (o.map f).Places text n Q := by
  cases h with
  | ok ha hd => exact .ok (hf _ ha) hd
  | fail hg hd => exact .fail hg hd

lemma places_fail (h : c.Stands text n) (f : Fault) : (c.fail f : Outcome α).Places text n P :=
  .fail ⟨f, _, _, h.place, rfl, rfl⟩ h

end Outcome

lemma Cursor.Stands.expect {c : Cursor} (h : c.Stands text n) (k : Token.Kind) (what : String) :
    (c.expect k what).Places text n fun l =>
      (c.lines.locate l.span).PointsInto text ∧ n ≤ l.span.start := by
  unfold Cursor.expect
  split
  · next l rest hahead =>
    split
    · have hl := Cursor.location_of_ahead hahead
      refine .ok ⟨hl ▸ h.location, ?_⟩ h.advance
      have hoffset := h.offset
      rwa [hl] at hoffset
    · exact Outcome.places_fail h _
  · exact Outcome.places_fail h _

namespace Parser

open Outcome

variable {c : Cursor}

/-! ### Expressions -/

/-- The places in the expression point into the text, and it starts at an offset. -/
structure PlacedAt (text : List Char) (n : Nat) (e : Expr) : Prop where
  alike : e.Alike (.into text) e
  start : e.loc.span.start = n

/-- What is read starts where the reader stands. -/
def ReadsPlaced (text : List Char) (read : Cursor → Outcome Expr) : Prop :=
  ∀ ⦃c n⦄, c.Stands text n →
    (read c).Places text c.location.span.start (PlacedAt text c.location.span.start)

lemma PlacedAt.join {m : Nat} {left right : Expr} (hleft : PlacedAt text n left)
    (hright : PlacedAt text m right) (hle : n ≤ m) (op : BinaryOp) :
    PlacedAt text n (join left op right) := by
  obtain ⟨hl, rfl⟩ := hleft
  obtain ⟨hr, rfl⟩ := hright
  refine ⟨.binary hl hr ⟨rfl, hl.loc.2.through hr.loc.2 hle⟩, ?_⟩
  exact Nat.min_eq_left hle

section Chains

variable {op? : Token → Option BinaryOp} {operand : Cursor → Outcome Expr}

lemma chainFrom_places (hread : ReadsPlaced text operand) (count : Nat) {left : Expr}
    (hleft : PlacedAt text n left) (h : c.Stands text n) :
    (chainFrom op? operand count left c).Places text n (PlacedAt text n) := by
  induction count generalizing left c with
  | zero => exact .ok hleft h
  | succ count ih =>
    simp only [chainFrom]
    split
    · exact .ok hleft h
    · next op _ =>
      have hle := h.advance.offset
      refine ((hread h.advance).mono hle fun _ hright => hright).bind fun right d hright hd => ?_
      exact ih (hleft.join hright hle op) hd

lemma chain_places (hread : ReadsPlaced text operand) (count : Nat) :
    ReadsPlaced text (chain op? operand count) := by
  intro c n h
  exact (hread h).bind fun left d hleft hd => chainFrom_places hread count hleft hd

end Chains

lemma factorWith_places {inner : Cursor → Outcome Expr} (hread : ReadsPlaced text inner) :
    ReadsPlaced text (factorWith inner) := by
  intro c n h
  have hself := h.self
  rcases factor_cases c with (hp | ⟨v, hp⟩ | ⟨code, hp⟩ | ⟨name, hp⟩) | hp
  · simp only [factorWith, hp]
    refine ((hread hself.advance).mono hself.advance.offset fun _ he => he).bind fun e d he hd => ?_
    refine (hd.expect _ _).bind fun close d₁ hclose hd₁ => ?_
    rw [hd.lines, ← h.lines] at hclose
    refine .ok ⟨.group he.alike ⟨rfl, h.location.through hclose.1 hclose.2⟩, ?_⟩ hd₁
    exact Nat.min_eq_left hclose.2
  · simp only [factorWith, hp]
    exact .ok ⟨.number h.place, rfl⟩ hself.advance
  · simp only [factorWith, hp]
    exact .ok ⟨.number h.place, rfl⟩ hself.advance
  · simp only [factorWith, hp]
    exact .ok ⟨.symbol h.place, rfl⟩ hself.advance
  · rw [factorWith_eq_fail hp]
    exact places_fail hself _

lemma expressionUpTo_places (count : Nat) : ReadsPlaced text (expressionUpTo count) := by
  induction count with
  | zero => exact fun c n h => places_fail h.self _
  | succ count ih => exact chain_places (chain_places (factorWith_places ih) count) count

/-- From here on it does not matter how far the reader has come. -/
lemma expression_places (h : c.Stands text 0) :
    (expression c).Places text 0 fun e => e.Alike (.into text) e :=
  (expressionUpTo_places c.room h).mono (Nat.zero_le _) fun _ he => he.alike

/-! ### Operands -/

lemma indexRegister_places (h : c.Stands text 0) :
    (indexRegister c).Places text 0 fun _ => True := by
  unfold indexRegister
  split
  · exact .ok trivial h.advance
  · exact places_fail h _

/-- The operand, if there is one, points into the text. -/
def OperandPlaced (text : List Char) (r : Mode × Option Expr) : Prop :=
  Option.Rel (Expr.Alike (.into text)) r.2 r.2

lemma indirectOperand_places (h : c.Stands text 0) :
    (indirectOperand c).Places text 0 (OperandPlaced text) := by
  refine (expression_places h).bind fun e d he hd => ?_
  split
  · next d₁ h₁ =>
    refine (indexRegister_places (hd.accept? h₁)).bind fun r d₂ _ hd₂ => ?_
    split
    · exact (hd₂.expect _ _).bind fun _ d₃ _ hd₃ => .ok (.some he) hd₃
    · exact places_fail hd₂ _
  · refine (hd.expect _ _).bind fun _ d₁ _ hd₁ => ?_
    split
    · next d₂ h₂ =>
      refine (indexRegister_places (hd₁.accept? h₂)).bind fun r d₃ _ hd₃ => ?_
      split
      · exact .ok (.some he) hd₃
      · exact places_fail hd₃ _
    · exact .ok (.some he) hd₁

lemma addressOperand_places (h : c.Stands text 0) :
    (addressOperand c).Places text 0 (OperandPlaced text) := by
  refine (expression_places h).bind fun e d he hd => ?_
  split
  · next d₁ h₁ => exact (indexRegister_places (hd.accept? h₁)).map fun _ _ => .some he
  · exact .ok (.some he) hd

lemma operand_places (mnemonic : String) (h : c.Stands text 0) :
    (operand mnemonic c).Places text 0 (OperandPlaced text) := by
  unfold operand
  split
  · exact (expression_places h).map fun _ he => .some he
  split
  · exact .ok .none h
  split
  · exact .ok .none h.advance
  split
  · next d hd => exact (expression_places (h.accept? hd)).map fun _ he => .some he
  split
  · next d hd => exact indirectOperand_places (h.accept? hd)
  · exact addressOperand_places h

/-! ### Bodies -/

/-- The body points into the text. -/
def BodyPlaced (text : List Char) (b : Body) : Prop := b.Alike (.into text) b

lemma statement_places (h : c.Stands text 0) :
    (statement c).Places text 0 fun s => BodyPlaced text (.statement s) := by
  unfold statement
  split
  · next word _ =>
    split
    · refine (operand_places word.toUpper h.advance).bind fun r d hr hd => ?_
      simp only
      split
      · exact .ok (.statement hr h.place) hd
      · exact .fail ⟨_, _, _, h.place, rfl, rfl⟩ hd
    · exact places_fail h _
  · exact places_fail h _

lemma dataItem_places (h : c.Stands text 0) :
    (dataItem c).Places text 0 fun i => i.Alike (.into text) i := by
  unfold dataItem
  split
  · exact .ok (.string h.place) h.advance
  · exact (expression_places h).map fun _ he => .expr he

lemma dataItemsFrom_places (count : Nat) (h : c.Stands text 0) :
    (dataItemsFrom count c).Places text 0 fun items =>
      List.Forall₂ (DataItem.Alike (.into text)) items items := by
  induction count generalizing c with
  | zero => exact .ok .nil h
  | succ count ih =>
    simp only [dataItemsFrom]
    split
    · exact .ok .nil h
    · next d hd =>
      refine (dataItem_places (h.accept? hd)).bind fun i d₁ hi hd₁ => ?_
      exact (ih hd₁).map fun _ hitems => .cons hi hitems

lemma dataItems_places (h : c.Stands text 0) :
    (dataItems c).Places text 0 fun items =>
      List.Forall₂ (DataItem.Alike (.into text)) items items := by
  refine (dataItem_places h).bind fun i d hi hd => ?_
  exact (dataItemsFrom_places d.room hd).map fun _ hitems => .cons hi hitems

lemma directive_places (h : c.Stands text 0) :
    (directive c).Places text 0 fun d => BodyPlaced text (.directive d) := by
  refine (h.expect _ _).bind fun _ d _ hd => ?_
  split
  · split
    · exact (expression_places hd.advance).map fun _ he => .origin he h.place
    split
    · exact (dataItems_places hd.advance).map fun _ hitems => .data hitems h.place
    · exact places_fail hd _
  · exact places_fail hd _

lemma assignment_places (h : c.Stands text 0) :
    (assignment c).Places text 0 fun d => BodyPlaced text (.directive d) := by
  unfold assignment
  split
  · refine (h.advance.expect _ _).bind fun _ d _ hd => ?_
    exact (expression_places hd).map fun _ he => .assign he h.place
  · exact places_fail h.advance _

lemma body_places (h : c.Stands text 0) :
    (body c).Places text 0 fun b => Option.Rel (Body.Alike (.into text)) b b := by
  unfold body
  split
  · exact .ok .none h
  split
  · exact (directive_places h).map fun _ hd => .some hd
  split
  · exact (assignment_places h).map fun _ hd => .some hd
  split
  · exact (statement_places h).map fun _ hs => .some hs
  · exact places_fail h _

/-! ### Lines -/

lemma terminals_into (texts : List String) :
    List.Forall₂ (Likeness.into text).text texts texts :=
  List.forall₂_same.mpr fun _ _ => trivial

lemma line_places (h : c.Stands text 0) :
    (line c).Places text 0 fun r => r.1.Alike (.into text) r.1 ∧
      Option.Rel (Diagnostic.Alike (.into text)) r.2 r.2 := by
  unfold line
  split
  · exact (body_places h).bind fun b d hb hd =>
      .ok ⟨⟨.none, hb, terminals_into _, h.place⟩, .none⟩ hd
  · next label start hlabel =>
    obtain ⟨hloc, hpass⟩ := label?_eq_some hlabel
    have hlabelled : Option.Rel (Label.Alike (.into text)) (some label) (some label) :=
      .some ⟨rfl, hloc ▸ h.place⟩
    have hbody := body_places (h.passes hpass)
    generalize body start = o at hbody
    cases hbody with
    | ok hb hd => exact .ok ⟨⟨hlabelled, hb, terminals_into _, h.place⟩, .none⟩ hd
    | fail hf hd =>
      exact .ok ⟨⟨hlabelled, .none, terminals_into _, h.place⟩, .some hf⟩ hd.skipLine

/-- The lines and the faults of the program point into the text. -/
structure ProgramPlaced (text : List Char) (p : Program) : Prop where
  lines : List.Forall₂ (Line.Alike (.into text)) p.lines p.lines
  faults : List.Forall₂ (Diagnostic.Alike (.into text)) p.faults p.faults

lemma program_placed (h : c.Stands text 0) : ProgramPlaced text (program c).1 := by
  obtain ⟨count, hcount⟩ : ∃ count, c.ahead.length = count := ⟨_, rfl⟩
  induction count using Nat.strongRecOn generalizing c with
  | ind count ih =>
    subst hcount
    rcases ahead_cases c with hc | hc | hc
    · rw [program_of_end hc]
      exact ⟨.nil, .nil⟩
    · obtain ⟨l, rest, hl, -⟩ := Cursor.peek_eq_some.mp hc
      rw [program_of_newline hc]
      refine ih _ ?_ h.advance rfl
      simp [Cursor.advance_of_ahead hl, hl]
    · have hline := line_places h
      generalize hr : line c = o at hline
      cases hline with
      | @ok r d ha hd =>
        obtain ⟨l, fault⟩ := r
        obtain ⟨hl, hfault⟩ := ha
        obtain ⟨w, hleft, hw⟩ := left_of_ok hc hr
        obtain ⟨hlines, hfaults⟩ := ih _ (hleft.ahead_length_lt hw) hd rfl
        rw [program_of_ok hc hr]
        refine ⟨.cons hl hlines, ?_⟩
        cases hfault with
        | none => exact hfaults
        | some hf => exact .cons hf hfaults
      | @fail f d hf hd =>
        obtain ⟨w, hleft, hw⟩ := left_of_fail hc hr
        obtain ⟨hlines, hfaults⟩ := ih _ (hleft.ahead_length_lt hw) hd.skipLine rfl
        rw [program_of_fail hc hr]
        exact ⟨hlines, .cons hf hfaults⟩

lemma parse_placed {lexemes : List Lexeme} (h : Lexeme.Stand text 0 lexemes) :
    ProgramPlaced text (parse (.ofChars text) lexemes) :=
  program_placed ⟨rfl, ⟨[], text, rfl, rfl⟩, h, Nat.zero_le _⟩

end Parser

end CrossAsm
