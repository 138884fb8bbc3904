import Mathlib.Tactic.Common
import CrossAsm.Proofs.Parsing.Completeness
import CrossAsm.Proofs.Parsing.Locality

/-!
Every lexeme is accounted for. A physical line is read into logical lines that spell it from its
start to its end, or up to the first one that is at fault: what is left of the physical line is
then given up for one fault, and of a logical line with a label the label stays. Main statement:
`parse_accounts`.
-/

namespace CrossAsm

/-- Lexemes that are one physical line of the others: as many as there are in a row with no end of
line among them. -/
structure PhysicalLine (lexemes before w after : List Lexeme) : Prop where
  split : lexemes = before ++ (w ++ after)
  inLine : ∀ x ∈ w, x.token ≠ .mark .newline
  opened : ∀ x, before.getLast? = some x → x.token = .mark .newline
  closed : ∀ x, after.head? = some x → x.token = .mark .newline

/-- The lexemes start with the label of a line. -/
def StartsWithLabel (w : List Lexeme) : Prop :=
  ∃ (label : Label) (rest : List Token), w.map (·.token) = label.tokens ++ rest

/-- From a place on, the lexemes that are left of a physical line are read into logical lines, and
into a fault if one of them cannot be read. Each step is the reading of a line at the place where
the one before it has stopped. -/
inductive RowRead : Cursor → List Lexeme → List Line → Option Diagnostic → Prop
  | done {c : Cursor} : RowRead c [] [] none
  /-- A logical line without a fault takes just the lexemes that spell it. -/
  | line {c d : Cursor} {l : Line} {u front back v : List Lexeme} {own : List Line}
      {fault : Option Diagnostic} (hread : Parser.line c = .ok (l, none) d) (hleft : c.Left u d)
      (hl : l.From u front back) (hu : u ≠ []) (h : RowRead d v own fault) :
      RowRead c (u ++ v) (l :: own) fault
  /-- The body of the last one is at fault, and its label stays. -/
  | broken {c d : Cursor} {l : Line} {label : Label} {w : List Lexeme} {rest : List Token}
      {f : Diagnostic} (hread : Parser.line c = .ok (l, some f) d) (hleft : c.Left w d)
      (hw : ∀ l : Line, ¬ l.Spelled (w.map (·.token))) (hlabel : l.label = some label)
      (hbody : l.body = none) (hstart : w.map (·.token) = label.tokens ++ rest) :
      RowRead c w [l] (some f)
  /-- The last one is at fault and has no label. -/
  | lost {c d : Cursor} {w : List Lexeme} {f : Diagnostic} (hread : Parser.line c = .fail f d)
      (hleft : c.Left w d.skipLine) (hw : ∀ l : Line, ¬ l.Spelled (w.map (·.token)))
      (hlabel : ¬ StartsWithLabel w) : RowRead c w [] (some f)

namespace Cursor

variable {c d : Cursor}

/-- There is one way to cut off a line. -/
lemma Left.eq_of_line {w v after : List Lexeme} (hleft : c.Left v d) (hend : d.atLineEnd = true)
    (hahead : c.ahead = w ++ after) (hw : ∀ x ∈ w, x.token ≠ .mark .newline)
    (hafter : ∀ x, after.head? = some x → x.token = .mark .newline) :
    v = w ∧ d.ahead = after := by
  have hroom : lineLength after = 0 := by
    cases after with
    | nil => rfl
    | cons x rest => rw [lineLength, if_pos (hafter x rfl)]
  have hlength : v.length = w.length := by
    have hv := hleft.room
    rw [room_of_atLineEnd hend, Cursor.room, hahead, lineLength_append w after hw, hroom] at hv
    omega
  exact List.append_inj (hleft.ahead.symm.trans hahead) hlength

end Cursor

namespace Parser

open Cursor

variable {c d : Cursor}

/-! ### One physical line -/

/-- With a label there is always a line, if only that of the label. -/
lemma label?_of_fail {f : Diagnostic} (h : line c = .fail f d) : label? c = none := by
  rcases hl : label? c with _ | ⟨label, start⟩
  · rfl
  · simp only [line, hl] at h
    cases hb : body start <;> simp [hb] at h

lemma label?_of_startsWithLabel {w : List Lexeme} (hpass : c.Passes (w.map (·.token)) d)
    (h : StartsWithLabel w) : label? c ≠ none := by
  obtain ⟨label, rest, hw⟩ := h
  rw [hw] at hpass
  obtain ⟨e, hlabel, -⟩ := passes_append.mp hpass
  rw [label?_of_passes hlabel]
  simp

/-- Tokens that are at fault up to the end of the line do not spell one. -/
lemma not_spelled {ts : List Token} (hc : c.atLineEnd = false) (hpass : c.Passes ts d)
    (hend : d.atLineEnd = true) (hline : ∀ l, line c ≠ .ok (l, none) d) (l : Line) :
    ¬ l.Spelled ts := by
  intro h
  have hts : ts ≠ [] := by
    rintro rfl
    rw [← passes_nil.mp hpass, hc] at hend
    simp at hend
  obtain ⟨-, l', hok, -⟩ := line_of_spelled h hts hpass hend
  exact hline l' hok

/-- What one program has in front of another. -/
structure Prepends (own : List Line) (fault : Option Diagnostic) (p q : Program) : Prop where
  lines : p.lines = own ++ q.lines
  faults : p.faults = fault.toList ++ q.faults

/-- What is ahead up to the end of the line is read, and then reading goes on from there. -/
lemma program_row (c : Cursor) : ∃ w d own fault, c.Left w d ∧ d.atLineEnd = true ∧
    RowRead c w own fault ∧ Prepends own fault (program c).1 (program d).1 := by
  obtain ⟨n, hn⟩ : ∃ n, c.ahead.length = n := ⟨_, rfl⟩
  induction n using Nat.strongRecOn generalizing c with
  | ind n ih =>
    subst hn
    by_cases hend : c.atLineEnd = true
    · exact ⟨[], c, [], none, ⟨rfl, rfl, rfl, by simp⟩, hend, .done, rfl, rfl⟩
    have hc : c.atLineEnd = false := by simpa using hend
    have hread := line_read hc
    generalize hline : line c = o at hread
    cases hread with
    | @whole l w front back d hleft hfrom hw =>
      obtain ⟨v, e, own, fault, hleft', he, hrow, hlines, hfaults⟩ :=
        ih _ (hleft.ahead_length_lt hw) d rfl
      refine ⟨w ++ v, e, l :: own, fault, hleft.trans hleft', he,
        .line hline hleft hfrom hw hrow, ?_⟩
      rw [program_of_ok hc hline]
      exact ⟨by simp [hlines], by simp [hfaults]⟩
    | @broken l label f ts d hlabel hbody hpass hend =>
      have hspelled := not_spelled hc hpass hend (by simp [hline])
      obtain ⟨w, hw, hleft⟩ := hpass.left
      refine ⟨w, d, [l], some f, hleft, hend,
        .broken hline hleft (hw ▸ hspelled) hlabel hbody hw, ?_⟩
      rw [program_of_ok hc hline]
      exact ⟨rfl, rfl⟩
    | @lost f ts d hpass =>
      -- what the fault left on the line is skipped
      obtain ⟨us, hus, hend⟩ := passes_skipLine d
      have hpass := hpass.trans hus
      have hspelled := not_spelled hc hpass hend (by simp [hline])
      obtain ⟨w, hw, hleft⟩ := hpass.left
      have hlabel : ¬ StartsWithLabel w := fun h =>
        label?_of_startsWithLabel (hw ▸ hpass) h (label?_of_fail hline)
      refine ⟨w, d.skipLine, [], some f, hleft, hend,
        .lost hline hleft (hw ▸ hspelled) hlabel, ?_⟩
      rw [program_of_fail hc hline]
      exact ⟨rfl, rfl⟩

/-! ### All of them -/

/-- Reading ends behind the last lexeme. -/
lemma program_stops (c : Cursor) : (program c).2.ahead = [] ∧
    (program c).2.position = c.position + c.ahead.length := by
  obtain ⟨n, hn⟩ : ∃ n, c.ahead.length = n := ⟨_, rfl⟩
  induction n using Nat.strongRecOn generalizing c with
  | ind n ih =>
    subst hn
    have goOn {w : List Lexeme} {d : Cursor} (hleft : c.Left w d) (hw : w ≠ []) :
        (program d).2.ahead = [] ∧ (program d).2.position = c.position + c.ahead.length := by
      obtain ⟨hahead, hposition⟩ := ih _ (hleft.ahead_length_lt hw) d rfl
      refine ⟨hahead, ?_⟩
      rw [hposition, hleft.position, hleft.ahead, List.length_append]
      omega
    rcases ahead_cases c with hc | hc | hc
    · rw [program_of_end hc]
      exact ⟨hc, by simp [hc]⟩
    · obtain ⟨l, rest, hl, -⟩ := peek_eq_some.mp hc
      obtain ⟨hahead, hposition⟩ := ih _ (by simp [advance_of_ahead hl, hl]) c.advance rfl
      rw [program_of_newline hc]
      refine ⟨hahead, ?_⟩
      rw [hposition, advance_of_ahead hl, hl, List.length_cons]
      simp only
      omega
    · cases hline : line c with
      | ok r d =>
        obtain ⟨w, hleft, hw⟩ := left_of_ok hc hline
        rw [program_of_ok hc hline]
        exact goOn hleft hw
      | fail f d =>
        obtain ⟨w, hleft, hw⟩ := left_of_fail hc hline
        rw [program_of_fail hc hline]
        exact goOn hleft hw

/-- **Every lexeme is accounted for**: reading stops at the end of the list, and what it gives for a
physical line, between what it gives for the lexemes before and after, is read from that line
alone, from its first lexeme on and with one fault at most. -/
theorem parse_accounts (lines : LineMap) (lexemes : List Lexeme) :
    (program (.start lines lexemes)).2.position = lexemes.length ∧
      ∀ before w after, PhysicalLine lexemes before w after → ∃ own fault,
        (parse lines lexemes).lines =
            (parse lines before).lines ++ (own ++ (parse lines after).lines) ∧
          (parse lines lexemes).faults =
            (parse lines before).faults ++ (fault.toList ++ (parse lines after).faults) ∧
          RowRead (.ofPosition lines lexemes before.length) w own fault := by
  refine ⟨by simpa [start] using (program_stops (.start lines lexemes)).2, ?_⟩
  rintro before w after ⟨rfl, hw, hbefore, hafter⟩
  have halike : (Cursor.start lines before).Alike (.ofTail lines 0 (w ++ after))
      (Cursor.start lines (before ++ (w ++ after))) := by
    refine ⟨⟨before, rfl, Pairing.forall₂_alike _ _ _ _⟩, rfl, rfl, rfl, ?_⟩
    intro hnil htail
    obtain rfl : before = [] := hnil
    rw [show w ++ after = [] from htail]
    rfl
  obtain ⟨e, hahead, hlines, hcont⟩ := program_continues halike (.inr hbefore)
  obtain ⟨hfront, hfaults⟩ := hcont.eq
  -- what is read from there on does not depend on what is behind
  obtain ⟨c, hc⟩ : ∃ c, Cursor.ofPosition lines (before ++ (w ++ after)) before.length = c :=
    ⟨_, rfl⟩
  have hcahead : c.ahead = w ++ after := by rw [← hc]; exact List.drop_left
  have hclines : c.lines = lines := by rw [← hc]; rfl
  obtain ⟨hsame, hsameFaults⟩ := program_behind e
  obtain ⟨hhere, hhereFaults⟩ := program_behind c
  rw [show e.ahead = w ++ after from hahead, show e.lines = lines from hlines] at hsame hsameFaults
  rw [hcahead, hclines] at hhere hhereFaults
  obtain ⟨v, d, own, fault, hleft, hend, hrow, hown⟩ := program_row c
  obtain ⟨rfl, hd⟩ := hleft.eq_of_line hend hcahead hw hafter
  obtain ⟨hback, hbackFaults⟩ := program_behind d
  rw [hleft.lines.trans hclines, hd] at hback hbackFaults
  refine ⟨own, fault, ?_, ?_, hc ▸ hrow⟩
  · rw [← hback, ← hown.lines, hhere, ← hsame]
    exact hfront
  · rw [← hbackFaults, ← hown.faults, hhereFaults, ← hsameFaults]
    exact hfaults

/-- Two statements share a line, the second of which breaks off behind its label. -/
theorem parse_accounts_broken :
    let text := LineMap.ofString "RTS\nINX b:LDA #\nRTS"
    let before : List Lexeme :=
      [⟨.identifier "RTS", "RTS", ⟨0, 3⟩⟩, ⟨.mark .newline, "\n", ⟨3, 4⟩⟩]
    let w : List Lexeme := [⟨.identifier "INX", "INX", ⟨4, 7⟩⟩, ⟨.identifier "b", "b", ⟨8, 9⟩⟩,
      ⟨.mark .colon, ":", ⟨9, 10⟩⟩, ⟨.identifier "LDA", "LDA", ⟨10, 13⟩⟩,
      ⟨.mark .hash, "#", ⟨14, 15⟩⟩]
    let after : List Lexeme :=
      [⟨.mark .newline, "\n", ⟨15, 16⟩⟩, ⟨.identifier "RTS", "RTS", ⟨16, 19⟩⟩]
    let lexemes := before ++ (w ++ after)
    PhysicalLine lexemes before w after ∧
      (parse text lexemes).lines.length = 4 ∧ (parse text lexemes).faults.length = 1 ∧
      ∃ own fault,
        (parse text lexemes).lines =
            (parse text before).lines ++ (own ++ (parse text after).lines) ∧
          (parse text lexemes).faults =
            (parse text before).faults ++ (fault.toList ++ (parse text after).faults) ∧
          RowRead (.ofPosition text lexemes before.length) w own fault := by
  intro text before w after lexemes
  have hline : PhysicalLine lexemes before w after := by
    refine ⟨rfl, by decide, ?_, ?_⟩
    · rintro x hx
      obtain rfl := Option.some.inj hx
      rfl
    · rintro x hx
      obtain rfl := Option.some.inj hx
      rfl
  exact ⟨hline, by decide +kernel, by decide +kernel,
    (parse_accounts text lexemes).2 before w after hline⟩

end Parser

end CrossAsm
