import Mathlib.Tactic.Common
import CrossAsm.Proofs.Parsing.InStep

/-!
Reading is local to physical lines: lexemes that are cut at an end of line can be read on either
side of the cut alone. Main statement: `parse_append`.
-/

namespace CrossAsm

variable {p : Pairing} {c c' d : Cursor}

namespace Cursor

/-- What is ahead ends with an end of line, unless there is no tail anyway. -/
def Closed (tail : List Lexeme) (c : Cursor) : Prop :=
  tail = [] ∨ ∀ l, c.ahead.getLast? = some l → l.token = .mark .newline

lemma Closed.of_suffix {tail w : List Lexeme} (h : c.Closed tail) (hw : c.ahead = w ++ d.ahead) :
    d.Closed tail := by
  refine h.imp_right fun hlast l hl => hlast l ?_
  rw [hw, List.getLast?_append, hl]
  rfl

lemma Closed.ends {tail : List Lexeme} (h : c.Closed tail) (hc : c.ahead ≠ []) : c.Ends tail := by
  refine h.imp_right fun hlast => ?_
  have hl := List.getLast?_eq_some_getLast hc
  exact ⟨_, List.mem_of_getLast? hl, hlast _ hl⟩

/-- Where something is ahead of the first reader, it is ahead of the second one. -/
lemma Alike.peek {t : Token} (h : c.Alike p c') (hp : c.peek = some t) : c'.peek = some t := by
  obtain ⟨l, rest, hl, rfl⟩ := peek_eq_some.mp hp
  obtain ⟨front, hfront, hall⟩ := h.ahead
  rw [hl] at hall
  obtain ⟨l', front', rfl, hll, -, -⟩ := hall.of_cons
  exact peek_eq_some.mpr ⟨l', front' ++ p.tail, by rw [hfront, List.cons_append], hll.token.symm⟩

end Cursor

/-- Two readers of the same lexemes in one text, the second one with more ahead. -/
def Pairing.ofTail (lines : LineMap) (shift : Nat) (tail : List Lexeme) : Pairing :=
  ⟨.same, Likeness.closed_same, lines, lines, shift, tail⟩

lemma Pairing.forall₂_alike (lines : LineMap) (shift : Nat) (tail w : List Lexeme) :
    Lexeme.AllAlike (.ofTail lines shift tail) w w := by
  refine ⟨List.forall₂_same.mpr fun _ _ => ⟨rfl, rfl, rfl⟩, ?_⟩
  cases w.getLast? with
  | none => exact .none
  | some l => exact .some rfl

namespace Parser

open Cursor

/-- The second program is like the first one and goes on as the third. -/
structure Continues (k : Likeness) (first second third : Program) : Prop where
  lines : ∃ lines, second.lines = lines ++ third.lines ∧
    List.Forall₂ (Line.Alike k) first.lines lines
  faults : ∃ faults, second.faults = faults ++ third.faults ∧
    List.Forall₂ (Diagnostic.Alike k) first.faults faults

/-- With a line in front, and a fault of it if there is one. -/
lemma Continues.cons {k : Likeness} {first second third : Program}
    (h : Continues k first second third) {l l' : Line} (hl : l.Alike k l')
    {fault fault' : Option Diagnostic} (hfault : Option.Rel (Diagnostic.Alike k) fault fault') :
    Continues k
      { first with lines := l :: first.lines, faults := fault.toList ++ first.faults }
      { second with lines := l' :: second.lines, faults := fault'.toList ++ second.faults }
      third := by
  obtain ⟨⟨lines, hlines, hlikes⟩, ⟨faults, hfaults, hfaultlikes⟩⟩ := h
  refine ⟨⟨l' :: lines, by simp [hlines], .cons hl hlikes⟩,
    ⟨fault'.toList ++ faults, by simp [hfaults], ?_⟩⟩
  cases hfault with
  | none => exact hfaultlikes
  | some hf => exact .cons hf hfaultlikes

/-- A reader with a tail ahead reads what the other one does, and then the tail. -/
lemma program_continues (h : c.Alike p c') (hclosed : c.Closed p.tail) :
    ∃ e : Cursor, e.ahead = p.tail ∧ e.lines = p.lines' ∧
      Continues p.like (program c).1 (program c').1 (program e).1 := by
  obtain ⟨n, hn⟩ : ∃ n, c.ahead.length = n := ⟨_, rfl⟩
  induction n using Nat.strongRecOn generalizing c c' with
  | ind n ih =>
    subst hn
    rcases ahead_cases c with hc | hc | hc
    · -- the tail is all that is left
      obtain ⟨front, hfront, hall⟩ := h.ahead
      rw [hc] at hall
      obtain rfl := hall.of_nil
      refine ⟨c', by simpa using hfront, h.lines', ?_⟩
      rw [program_of_end hc]
      exact ⟨⟨[], rfl, .nil⟩, ⟨[], rfl, .nil⟩⟩
    · obtain ⟨l, rest, hl, -⟩ := peek_eq_some.mp hc
      have hadv : c.ahead = [l] ++ c.advance.ahead := by rw [advance_of_ahead hl, hl]; rfl
      rw [program_of_newline hc, program_of_newline (h.peek hc)]
      exact ih _ (by simp [hadv]) (h.advance (by simp [hl])) (hclosed.of_suffix hadv) rfl
    · have hne : c.ahead ≠ [] := by
        intro hnil
        simpa [atEnd, hnil] using atEnd_of_atLineEnd hc
      have hstep : c.InStep p c' := ⟨h, hclosed.ends hne⟩
      have hc' : c'.atLineEnd = false := by rw [← hstep.atLineEnd, hc]
      have hline := line_inStep hstep
      generalize hr : line c = r at hline
      generalize hr' : line c' = r' at hline
      cases hline with
      | @ok a a' d d' ha hd =>
        obtain ⟨l, fault⟩ := a
        obtain ⟨l', fault'⟩ := a'
        obtain ⟨hl, hfault⟩ := ha
        obtain ⟨w, hleft, hw⟩ := left_of_ok hc hr
        obtain ⟨e, he, helines, hcont⟩ := ih _ (hleft.ahead_length_lt hw) hd.alike
          (hclosed.of_suffix hleft.ahead) rfl
        refine ⟨e, he, helines, ?_⟩
        rw [program_of_ok hc hr, program_of_ok hc' hr']
        exact hcont.cons hl hfault
      | @fail f f' d d' hf hd =>
        obtain ⟨w, hleft, hw⟩ := left_of_fail hc hr
        obtain ⟨e, he, helines, hcont⟩ := ih _ (hleft.ahead_length_lt hw) hd.skipLine.alike
          (hclosed.of_suffix hleft.ahead) rfl
        refine ⟨e, he, helines, ?_⟩
        rw [program_of_fail hc hr, program_of_fail hc' hr']
        obtain ⟨⟨lines, hlines, hlikes⟩, ⟨faults, hfaults, hfaultlikes⟩⟩ := hcont
        exact ⟨⟨lines, hlines, hlikes⟩, ⟨f' :: faults, by simp [hfaults], .cons hf hfaultlikes⟩⟩

lemma Continues.eq {first second third : Program} (h : Continues .same first second third) :
    second.lines = first.lines ++ third.lines ∧ second.faults = first.faults ++ third.faults := by
  obtain ⟨⟨lines, hlines, hlikes⟩, ⟨faults, hfaults, hfaultlikes⟩⟩ := h
  rw [hlines, hfaults, eq_of_forall₂ (fun _ _ => Line.Alike.eq) hlikes,
    eq_of_forall₂ (fun _ _ => Diagnostic.Alike.eq) hfaultlikes]
  exact ⟨rfl, rfl⟩

/-- It does not matter what is behind a reader who has a line ahead. -/
lemma program_behind (e : Cursor) :
    (program e).1.lines = (parse e.lines e.ahead).lines ∧
      (program e).1.faults = (parse e.lines e.ahead).faults := by
  by_cases hnil : e.ahead = []
  · rw [parse, hnil, program_of_end hnil, program_of_end rfl]
    exact ⟨rfl, rfl⟩
  · have halike : (Cursor.start e.lines e.ahead).Alike (.ofTail e.lines e.position []) e :=
      ⟨⟨e.ahead, by simp [Pairing.ofTail], Pairing.forall₂_alike _ _ _ _⟩, rfl, rfl,
        by simp [start, Pairing.ofTail], fun h => absurd h hnil⟩
    obtain ⟨f, hf, -, hcont⟩ := program_continues halike (.inl rfl)
    have heq := hcont.eq
    rw [program_of_end hf, List.append_nil, List.append_nil] at heq
    exact heq

/-- **Reading is local to physical lines**: behind an end of line it starts anew, whatever was at
fault before it. -/
theorem parse_append (lines : LineMap) (before after : List Lexeme)
    (hbefore : ∀ l, before.getLast? = some l → l.token = .mark .newline) :
    (parse lines (before ++ after)).lines =
        (parse lines before).lines ++ (parse lines after).lines ∧
      (parse lines (before ++ after)).faults =
        (parse lines before).faults ++ (parse lines after).faults := by
  have halike : (Cursor.start lines before).Alike (.ofTail lines 0 after)
      (Cursor.start lines (before ++ after)) := by
    refine ⟨⟨before, rfl, Pairing.forall₂_alike _ _ _ _⟩, rfl, rfl, rfl, ?_⟩
    rintro hnil htail
    simp only [start] at hnil
    simp only [Pairing.ofTail] at htail
    rw [hnil, htail]
    rfl
  obtain ⟨e, hahead, hlines, hcont⟩ := program_continues halike (.inr hbefore)
  obtain ⟨hl, hf⟩ := hcont.eq
  obtain ⟨hl', hf'⟩ := program_behind e
  simp only [Pairing.ofTail] at hahead hlines
  rw [hl', hahead, hlines] at hl
  rw [hf', hahead, hlines] at hf
  exact ⟨hl, hf⟩

/-- A label whose statement breaks off, and a line behind it that breaks off where the text ends. -/
theorem parse_append_broken :
    let text := LineMap.ofString "a:LDA #\nb:LDX #"
    let before : List Lexeme := [⟨.identifier "a", "a", ⟨0, 1⟩⟩, ⟨.mark .colon, ":", ⟨1, 2⟩⟩,
      ⟨.identifier "LDA", "LDA", ⟨2, 5⟩⟩, ⟨.mark .hash, "#", ⟨6, 7⟩⟩,
      ⟨.mark .newline, "\n", ⟨7, 8⟩⟩]
    let after : List Lexeme := [⟨.identifier "b", "b", ⟨8, 9⟩⟩, ⟨.mark .colon, ":", ⟨9, 10⟩⟩,
      ⟨.identifier "LDX", "LDX", ⟨10, 13⟩⟩, ⟨.mark .hash, "#", ⟨14, 15⟩⟩]
    (∀ l, before.getLast? = some l → l.token = .mark .newline) ∧
      (parse text before).faults.map (·.code) = [.expectedExpression] ∧
      (parse text after).faults.map (·.code) = [.unexpectedEndOfFile] ∧
      (parse text (before ++ after)).lines =
          (parse text before).lines ++ (parse text after).lines ∧
        (parse text (before ++ after)).faults =
          (parse text before).faults ++ (parse text after).faults := by
  intro text before after
  have hbefore : ∀ l, before.getLast? = some l → l.token = .mark .newline := by
    rintro l hl
    obtain rfl := Option.some.inj hl
    rfl
  exact ⟨hbefore, by decide +kernel, by decide +kernel, parse_append text before after hbefore⟩

end Parser

end CrossAsm
