import Mathlib.Tactic.Common
import CrossAsm.Proofs.Parsing.Soundness

/-!
Reading line by line: what a logical line is read from, and the program as lines one after another.
-/

namespace CrossAsm

open Cursor

/-- What a line starts with: the tokens of its label, or nothing if it has none. -/
def Line.labelTokens (l : Line) : List Token := l.label.elim [] Label.tokens

/-- The tokens spell the line: first its label, then its body. -/
def Line.Spelled (l : Line) (ts : List Token) : Prop :=
  ∃ us, ts = l.labelTokens ++ us ∧ l.BodySpelled us

/-- The line is what its lexemes spell: first the label, then the body, whose texts it keeps. -/
structure Line.From (l : Line) (w : List Lexeme) (front back : List Lexeme) : Prop where
  split : w = front ++ back
  label : front.map (·.token) = l.labelTokens
  body : l.BodySpelled (back.map (·.token))
  terminals : l.terminals = Parser.terminals (l.body.any Body.isStatement) back
  inLine : ∀ x ∈ w, x.token ≠ .mark .newline

lemma Body.Spelled.ne_nil {b : Body} {ts : List Token} (h : b.Spelled ts) : ts ≠ [] := by
  cases h <;> simp

namespace Parser

variable {c d : Cursor}

/-! ### One line -/

lemma label?_eq_some {label : Label} (h : label? c = some (label, d)) :
    label.loc = c.location ∧ c.Passes label.tokens d := by
  unfold label? at h
  split at h
  · next name hp =>
    split at h
    · next hcolon =>
      obtain ⟨rfl, rfl⟩ := Prod.mk.inj (Option.some.inj h)
      obtain ⟨-, -, hnext⟩ := identifierThen_mark.mp hcolon
      exact ⟨rfl, .step hp (by simp) (.one hnext (by simp))⟩
    · simp at h
  · simp at h

lemma label?_eq_none : label? c = none ↔ c.identifierThen (.mark .colon) = false := by
  constructor
  · intro h
    by_contra hcolon
    have hcolon : c.identifierThen (.mark .colon) = true := by simpa using hcolon
    obtain ⟨name, hp, -⟩ := identifierThen_mark.mp hcolon
    simp [label?, hp, hcolon] at h
  · intro h
    unfold label?
    split
    · simp [h]
    · rfl

/-- What reading a line can come to. -/
inductive LineRead (c : Cursor) : Outcome (Line × Option Diagnostic) → Prop
  | whole {l : Line} {w front back : List Lexeme} {d : Cursor} (hleft : c.Left w d)
      (hline : l.From w front back) (hw : w ≠ []) : LineRead c (.ok (l, none) d)
  /-- The body is at fault, and the label stays. -/
  | broken {l : Line} {label : Label} {f : Diagnostic} {ts : List Token} {d : Cursor}
      (hlabel : l.label = some label) (hbody : l.body = none)
      (hpass : c.Passes (label.tokens ++ ts) d) (hend : d.atLineEnd = true) :
      LineRead c (.ok (l, some f) d)
  | lost {f : Diagnostic} {ts : List Token} {d : Cursor} (hpass : c.Passes ts d) :
      LineRead c (.fail f d)

lemma line_read_unlabelled (hc : c.atLineEnd = false) (hl : label? c = none) :
    LineRead c (line c) := by
  have hbody := body_took c
  simp only [line, hl]
  cases hb : body c with
  | fail f d =>
    rw [hb] at hbody
    obtain ⟨ts, hts⟩ := hbody
    exact .lost hts
  | ok b d =>
    rw [hb] at hbody
    obtain ⟨ts, hts, hspelled⟩ := hbody
    obtain ⟨w, rfl, hleft⟩ := hts.left
    obtain ⟨rfl, -, hend⟩ | ⟨x, rfl, hx⟩ := hspelled
    · -- neither the end of the line nor a label is ahead
      rw [hc, label?_eq_none.mp hl] at hend
      simp at hend
    · have hfrom : Line.From ⟨none, some x, terminals x.isStatement (c.upTo d), c.location⟩
          w [] w := ⟨rfl, rfl, .inr ⟨x, rfl, hx⟩, by rw [← hleft.upTo]; rfl, hleft.inLine⟩
      refine .whole hleft hfrom ?_
      rintro rfl
      exact hx.ne_nil rfl

lemma line_read_labelled {label : Label} {start : Cursor} (hl : label? c = some (label, start)) :
    LineRead c (line c) := by
  obtain ⟨-, hlabel⟩ := label?_eq_some hl
  have hbody := body_took start
  simp only [line, hl]
  cases hb : body start with
  | fail f d =>
    rw [hb] at hbody
    obtain ⟨ts, hts⟩ := hbody
    obtain ⟨us, hus, hend⟩ := passes_skipLine d
    exact .broken rfl rfl (hlabel.trans (hts.trans hus)) hend
  | ok b d =>
    rw [hb] at hbody
    obtain ⟨ts, hts, hspelled⟩ := hbody
    obtain ⟨front, hfront, hleft₁⟩ := hlabel.left
    obtain ⟨back, rfl, hleft₂⟩ := hts.left
    have hfrom : Line.From
        ⟨some label, b, terminals (b.any Body.isStatement) (start.upTo d), c.location⟩
        (front ++ back) front back := by
      refine ⟨rfl, hfront, ?_, by rw [← hleft₂.upTo], (hleft₁.trans hleft₂).inLine⟩
      obtain ⟨rfl, hnil, -⟩ | ⟨x, rfl, hx⟩ := hspelled
      · exact .inl ⟨rfl, hnil⟩
      · exact .inr ⟨x, rfl, hx⟩
    refine .whole (hleft₁.trans hleft₂) hfrom ?_
    intro hnil
    obtain ⟨rfl, -⟩ := List.append_eq_nil_iff.mp hnil
    simp [Label.tokens] at hfront

lemma line_read (hc : c.atLineEnd = false) : LineRead c (line c) := by
  rcases hl : label? c with _ | ⟨label, start⟩
  · exact line_read_unlabelled hc hl
  · exact line_read_labelled hl

/-- Reading a line stays on it. -/
lemma left_of_ok {r : Line × Option Diagnostic} (hc : c.atLineEnd = false)
    (h : line c = .ok r d) : ∃ w, c.Left w d ∧ w ≠ [] := by
  have hread := line_read hc
  rw [h] at hread
  cases hread with
  | whole hleft hline hw => exact ⟨_, hleft, hw⟩
  | broken hlabel hbody hpass hend =>
    obtain ⟨w, hw, hleft⟩ := hpass.left
    refine ⟨w, hleft, ?_⟩
    rintro rfl
    simp [Label.tokens] at hw

/-- So does losing it, for the rest of the line is skipped. -/
lemma left_of_fail {f : Diagnostic} (hc : c.atLineEnd = false) (h : line c = .fail f d) :
    ∃ w, c.Left w d.skipLine ∧ w ≠ [] := by
  have hread := line_read hc
  rw [h] at hread
  cases hread with
  | lost hpass =>
    obtain ⟨us, hus, hend⟩ := passes_skipLine d
    obtain ⟨w, hw, hleft⟩ := (hpass.trans hus).left
    refine ⟨w, hleft, ?_⟩
    rintro rfl
    -- nothing passed would leave the cursor in the line
    have hsame := passes_nil.mp (hw.symm ▸ hpass.trans hus)
    rw [← hsame, hc] at hend
    simp at hend

/-- A line takes a lexeme at least. -/
lemma ahead_length_of_ok {r : Line × Option Diagnostic} (hc : c.atLineEnd = false)
    (h : line c = .ok r d) : d.ahead.length < c.ahead.length := by
  obtain ⟨w, hleft, hw⟩ := left_of_ok hc h
  exact hleft.ahead_length_lt hw

lemma ahead_length_of_fail {f : Diagnostic} (hc : c.atLineEnd = false)
    (h : line c = .fail f d) : d.skipLine.ahead.length < c.ahead.length := by
  obtain ⟨w, hleft, hw⟩ := left_of_fail hc h
  exact hleft.ahead_length_lt hw

/-! ### Line after line -/

/-- Enough is as good as more. -/
lemma programUpTo_eq {n m : Nat} (hn : c.ahead.length ≤ n) (hm : c.ahead.length ≤ m) :
    programUpTo n c = programUpTo m c := by
  induction n generalizing c m with
  | zero =>
    have hpeek : c.peek = none := peek_eq_none.mpr (List.length_eq_zero_iff.mp (by omega))
    have hskip : c.skipNewlines = c := skipNewlines_eq_self (by simp [hpeek])
    cases m with
    | zero => rfl
    | succ m => simp [programUpTo, hskip, atEnd, peek_eq_none.mp hpeek]
  | succ n ih =>
    obtain ⟨hlen, hpeek⟩ := skipNewlines_spec c
    cases m with
    | zero =>
      have hpeek : c.peek = none := peek_eq_none.mpr (List.length_eq_zero_iff.mp (by omega))
      have hskip : c.skipNewlines = c := skipNewlines_eq_self (by simp [hpeek])
      simp [programUpTo, hskip, atEnd, peek_eq_none.mp hpeek]
    | succ m =>
      simp only [programUpTo]
      split
      · rfl
      next hend =>
      have hc : c.skipNewlines.atLineEnd = false := by
        simpa [atLineEnd, hend] using fun h => hpeek (check_mark.mp h)
      split
      · next l fault d hl =>
        have := ahead_length_of_ok hc hl
        rw [ih (m := m) (by omega) (by omega)]
      · next fault d hl =>
        have := ahead_length_of_fail hc hl
        rw [ih (m := m) (by omega) (by omega)]

lemma program_of_end (hc : c.ahead = []) : program c = (⟨[], [], []⟩, c) := by
  rw [program, hc]
  rfl

lemma program_of_newline (hc : c.peek = some (.mark .newline)) :
    program c = program c.advance := by
  obtain ⟨l, rest, hl, -⟩ := peek_eq_some.mp hc
  have hlen : c.advance.ahead.length ≤ rest.length + 1 := by simp [advance_of_ahead hl]
  rw [program, program, programUpTo_eq (c := c.advance) (Nat.le_refl _) hlen, hl,
    List.length_cons, programUpTo, programUpTo, skipNewlines_of_newline hc]

/-- Reading goes on behind a line that could be read, even in part. -/
lemma program_of_ok {l : Line} {fault : Option Diagnostic} (hc : c.atLineEnd = false)
    (h : line c = .ok (l, fault) d) :
    program c = ({ (program d).1 with
      lines := l :: (program d).1.lines
      faults := fault.toList ++ (program d).1.faults }, (program d).2) := by
  have hlt := ahead_length_of_ok hc h
  obtain ⟨n, hn⟩ : ∃ n, c.ahead.length = n + 1 := ⟨c.ahead.length - 1, by omega⟩
  have hskip := skipNewlines_eq_self (peek_ne_newline_of_atLineEnd hc)
  have hrest : programUpTo n d = program d := programUpTo_eq (by omega) (Nat.le_refl _)
  rw [program, hn, programUpTo, hskip, h, if_neg (by simp [atEnd_of_atLineEnd hc])]
  simp only [hrest]

/-- Reading goes on with the next physical line if one is lost. -/
lemma program_of_fail {fault : Diagnostic} (hc : c.atLineEnd = false)
    (h : line c = .fail fault d) :
    program c = ({ (program d.skipLine).1 with
      faults := fault :: (program d.skipLine).1.faults
      events := .lineSkipped fault.line :: (program d.skipLine).1.events },
      (program d.skipLine).2) := by
  have hlt := ahead_length_of_fail hc h
  obtain ⟨n, hn⟩ : ∃ n, c.ahead.length = n + 1 := ⟨c.ahead.length - 1, by omega⟩
  have hskip := skipNewlines_eq_self (peek_ne_newline_of_atLineEnd hc)
  have hrest : programUpTo n d.skipLine = program d.skipLine :=
    programUpTo_eq (by omega) (Nat.le_refl _)
  rw [program, hn, programUpTo, hskip, h, if_neg (by simp [atEnd_of_atLineEnd hc])]
  simp only [hrest]

/-- What is ahead: nothing, the end of a line, or a line. -/
lemma ahead_cases (c : Cursor) :
    c.ahead = [] ∨ c.peek = some (.mark .newline) ∨ c.atLineEnd = false := by
  by_cases hend : c.atLineEnd = true
  · rcases atLineEnd_iff.mp hend with h | h
    · exact .inl (peek_eq_none.mp h)
    · exact .inr (.inl h)
  · exact .inr (.inr (by simpa using hend))

/-! ### Programs without faults -/

/-- The lines are what the lexemes spell, one after another, with ends of lines between them. -/
inductive LinesFrom : List Line → List Lexeme → Prop
  | nil : LinesFrom [] []
  | newline {lines : List Line} {n : Lexeme} {ws : List Lexeme} (hn : n.token = .mark .newline)
      (h : LinesFrom lines ws) : LinesFrom lines (n :: ws)
  | line {l : Line} {lines : List Line} {w front back ws : List Lexeme}
      (hl : l.From w front back) (hw : w ≠ []) (h : LinesFrom lines ws) :
      LinesFrom (l :: lines) (w ++ ws)

/-- **Soundness**: where nothing is at fault, the lines are what is ahead. -/
lemma linesFrom_program (c : Cursor) (h : (program c).1.faults = []) :
    LinesFrom (program c).1.lines c.ahead := by
  obtain ⟨n, hn⟩ : ∃ n, c.ahead.length = n := ⟨_, rfl⟩
  induction n using Nat.strongRecOn generalizing c with
  | ind n ih =>
    subst hn
    rcases ahead_cases c with hc | hc | hc
    · rw [program_of_end hc, hc]
      exact .nil
    · obtain ⟨l, rest, hl, hnl⟩ := peek_eq_some.mp hc
      rw [program_of_newline hc] at h ⊢
      have hadv : c.advance.ahead = rest := by rw [advance_of_ahead hl]
      have hrest := ih c.advance.ahead.length (by simp [hadv, hl]) c.advance h rfl
      rw [hadv] at hrest
      rw [hl]
      exact .newline hnl hrest
    · have hread := line_read hc
      cases hline : line c with
      | fail fault d => simp [program_of_fail hc hline] at h
      | ok r d =>
        obtain ⟨l, fault⟩ := r
        rw [program_of_ok hc hline] at h ⊢
        rw [hline] at hread
        have hlt := ahead_length_of_ok hc hline
        cases hread with
        | broken => simp at h
        | whole hleft hfrom hw =>
          rw [hleft.ahead]
          exact .line hfrom hw (ih _ hlt d (by simpa using h) rfl)

end Parser

end CrossAsm
