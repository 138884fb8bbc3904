import Mathlib.Tactic.Common
import CrossAsm.Proofs.InstructionSet
import CrossAsm.Proofs.Parsing.Completeness

/-!
Programs as they may be written: lines that the instruction set knows, each with a physical line to
itself. The syntax of an operand is that of its mode, and the reader, which sees no more than the
syntax, must come to the mode that was meant. Main statement: `parse_written`.
-/

namespace CrossAsm

/-! ### What may be written -/

/-- The tokens are an operand in the syntax of the mode. -/
inductive Mode.Writes : Mode → Option Expr → List Token → Prop
  | implied : Writes .implied none []
  | immediate {e : Expr} {ts : List Token} (he : e.Spelled 1 ts) :
      Writes .immediate (some e) (.mark .hash :: ts)
  | relative {e : Expr} {ts : List Token} (he : e.Spelled 1 ts) : Writes .relative (some e) ts
  | absolute {e : Expr} {ts : List Token} (he : e.Spelled 1 ts) : Writes .absolute (some e) ts
  | indexedX {e : Expr} {ts : List Token} {x : String} (he : e.Spelled 1 ts)
      (hx : x.toUpper = "X") : Writes .indexedX (some e) (ts ++ [.mark .comma, .identifier x])
  | indexedY {e : Expr} {ts : List Token} {y : String} (he : e.Spelled 1 ts)
      (hy : y.toUpper = "Y") : Writes .indexedY (some e) (ts ++ [.mark .comma, .identifier y])
  | indirect {e : Expr} {ts : List Token} (he : e.Spelled 1 ts) :
      Writes .indirect (some e) (.mark .leftBracket :: (ts ++ [.mark .rightBracket]))
  | indexedIndirect {e : Expr} {ts : List Token} {x : String} (he : e.Spelled 1 ts)
      (hx : x.toUpper = "X") : Writes .indexedIndirect (some e)
        (.mark .leftBracket :: (ts ++ [.mark .comma, .identifier x, .mark .rightBracket]))
  | indirectIndexed {e : Expr} {ts : List Token} {y : String} (he : e.Spelled 1 ts)
      (hy : y.toUpper = "Y") : Writes .indirectIndexed (some e)
        (.mark .leftBracket :: (ts ++ [.mark .rightBracket, .mark .comma, .identifier y]))

/-- Modes whose operand starts with the expression itself, behind a mnemonic that may have other
modes. -/
def Mode.isBare : Mode → Bool
  | absolute | indexedX | indexedY => true
  | _ => false

/-- The tokens are the body of a line, in any letter case. -/
inductive Body.Written : Body → List Token → Prop
  | directive {d : Directive} {ts : List Token} (h : Body.Spelled (.directive d) ts) :
      Written (.directive d) ts
  | statement {mnemonic word : String} {mode : Mode} {e : Option Expr} {ts : List Token}
      (loc : Location) (hword : word.toUpper = mnemonic)
      (hmode : Instruction.supports mnemonic mode = true) (he : mode.Writes e ts)
      (hopen : mode.isBare = true → Instruction.OpensAddress mnemonic ts) :
      Written (.statement ⟨mnemonic, mode, e, loc⟩) (.identifier word :: ts)
  /-- The accumulator may be named where an operand would be possible. -/
  | accumulator {mnemonic word name : String} (loc : Location) (hword : word.toUpper = mnemonic)
      (hmode : Instruction.supports mnemonic .implied = true)
      (hother : Instruction.isImpliedOnly mnemonic = false) (hname : name.toUpper = "A") :
      Written (.statement ⟨mnemonic, .implied, none, loc⟩) [.identifier word, .identifier name]

/-- The tokens are the line: a label, a body, or both. -/
inductive Line.Written : Line → List Token → Prop
  | bare {l : Line} {label : Label} (hlabel : l.label = some label) (hbody : l.body = none) :
      Written l l.labelTokens
  | body {l : Line} {b : Body} {ts : List Token} (hbody : l.body = some b) (hb : b.Written ts) :
      Written l (l.labelTokens ++ ts)

/-- The tokens are the lines, with an end of line behind each of them, and maybe more. The last one
needs none. -/
inductive Line.WrittenAll : List Line → List Token → Prop
  | nil : WrittenAll [] []
  | last {l : Line} {ts : List Token} (hl : l.Written ts) : WrittenAll [l] ts
  | newline {lines : List Line} {ts : List Token} (h : WrittenAll lines ts) :
      WrittenAll lines (.mark .newline :: ts)
  | cons {l : Line} {lines : List Line} {ts us : List Token} (hl : l.Written ts)
      (h : WrittenAll lines us) : WrittenAll (l :: lines) (ts ++ .mark .newline :: us)

/-! ### Everything written is spelled -/

namespace Instruction

variable {mnemonic : String} {mode : Mode} {e : Option Expr} {ts us : List Token}

lemma OpensAddress.of_append (h : OpensAddress mnemonic (ts ++ us)) : OpensAddress mnemonic ts := by
  rintro name rest rfl
  exact h name (rest ++ us) rfl

/-- What is neither implied nor relative takes an operand. -/
lemma takesOperand_of_supports (h : supports mnemonic mode = true) (himplied : mode ≠ .implied)
    (hrelative : mode ≠ .relative) : TakesOperand mnemonic := by
  constructor
  · rw [← Bool.not_eq_true, isBranch_iff h]
    exact hrelative
  · rw [← Bool.not_eq_true]
    exact fun hm => himplied (mode_of_isImpliedOnly hm h)

/-- The syntax of the mode spells the operand of each mnemonic that supports it. -/
lemma operandSpelled_of_writes (hmode : supports mnemonic mode = true) (h : mode.Writes e ts)
    (hopen : mode.isBare = true → OpensAddress mnemonic ts) :
    OperandSpelled mnemonic mode e ts := by
  have htakes := takesOperand_of_supports hmode
  cases h with
  | implied => exact .implied (by simpa using mt (isBranch_iff hmode).mp (by simp))
  | relative he => exact .relative ((isBranch_iff hmode).mpr rfl) he
  | immediate he => exact .immediate (htakes (by simp) (by simp)) he
  | absolute he => exact .absolute (htakes (by simp) (by simp)) he (hopen rfl)
  | indexedX he hx => exact .indexedX (htakes (by simp) (by simp)) he (hopen rfl).of_append hx
  | indexedY he hy => exact .indexedY (htakes (by simp) (by simp)) he (hopen rfl).of_append hy
  | indirect he => exact .indirect (htakes (by simp) (by simp)) he
  | indexedIndirect he hx => exact .indexedIndirect (htakes (by simp) (by simp)) he hx
  | indirectIndexed he hy => exact .indirectIndexed (htakes (by simp) (by simp)) he hy

end Instruction

lemma Body.Written.spelled {b : Body} {ts : List Token} (h : b.Written ts) : b.Spelled ts := by
  cases h with
  | directive h => exact h
  | statement loc hword hmode he hopen =>
    subst hword
    exact .statement loc (Instruction.isMnemonic_of_supports hmode)
      (Instruction.operandSpelled_of_writes hmode he hopen) hmode
  | accumulator loc hword hmode hother hname =>
    subst hword
    have hbranch := mt (Instruction.isBranch_iff hmode).mp (by simp)
    exact .statement loc (Instruction.isMnemonic_of_supports hmode)
      (.accumulator ⟨by simpa using hbranch, hother⟩ hmode hname) hmode

lemma Line.Written.spelled {l : Line} {ts : List Token} (h : l.Written ts) :
    l.Spelled ts ∧ ts ≠ [] := by
  cases h with
  | bare hlabel hbody =>
    exact ⟨⟨[], by simp, .inl ⟨hbody, rfl⟩⟩, by simp [labelTokens, hlabel, Label.tokens]⟩
  | body hbody hb =>
    exact ⟨⟨_, rfl, .inr ⟨_, hbody, hb.spelled⟩⟩, by simp [hb.spelled.ne_nil]⟩

/-! ### Nothing spelled ends a line -/

lemma DataItem.Spelled.inLine {i : DataItem} {ts : List Token} (h : i.Spelled ts) :
    .mark .newline ∉ ts := by
  cases h with
  | expr he => exact he.inLine
  | string text loc => simp

lemma DataItem.SpelledAfter.inLine {items : List DataItem} {ts : List Token}
    (h : SpelledAfter items ts) : .mark .newline ∉ ts := by
  induction h with
  | nil => simp
  | cons hi _ ih => simp [hi.inLine, ih]

lemma Body.Spelled.inLine {b : Body} {ts : List Token} (h : b.Spelled ts) :
    .mark .newline ∉ ts := by
  cases h with
  | origin loc _ he => simp [he.inLine]
  | data loc _ hi hrest => simp [hi.inLine, hrest.inLine]
  | assign loc he => simp [he.inLine]
  | statement loc _ he _ => simpa using Parser.operand_not_mem he (.inl rfl)

lemma Line.Spelled.inLine {l : Line} {ts : List Token} (h : l.Spelled ts) :
    .mark .newline ∉ ts := by
  obtain ⟨us, rfl, hbody⟩ := h
  have hlabel : .mark .newline ∉ l.labelTokens := by
    rw [labelTokens]
    cases l.label <;> simp [Label.tokens]
  rcases hbody with ⟨-, rfl⟩ | ⟨b, -, hb⟩
  · simpa using hlabel
  · simp [hlabel, hb.inLine]

/-! ### Reading it back -/

namespace Parser

open Cursor

variable {c : Cursor}

/-- What is written on one line is read from it, and reading goes on behind it. -/
lemma program_of_written_line {l : Line} {ts : List Token} {w after : List Lexeme}
    (h : l.Written ts) (hahead : c.ahead = w ++ after) (hw : w.map (·.token) = ts)
    (hafter : ∀ x, after.head? = some x → x.token = .mark .newline) :
    ∃ l' d, d.ahead = after ∧ l.Same l' ∧ (program c).1.faults = (program d).1.faults ∧
      (program c).1.lines = l' :: (program d).1.lines := by
  subst hw
  obtain ⟨hspelled, hne⟩ := h.spelled
  obtain ⟨d, hpass, -, hd⟩ := passes_of_ahead hahead fun x hx hnewline =>
    hspelled.inLine (hnewline ▸ List.mem_map_of_mem hx)
  have hend : d.atLineEnd = true := by
    rw [atLineEnd_iff]
    cases after with
    | nil => exact .inl (peek_eq_none.mpr hd)
    | cons n rest => exact .inr (peek_eq_some.mpr ⟨n, rest, hd, hafter n rfl⟩)
  obtain ⟨hline, l', hok, hsame⟩ := line_of_spelled hspelled hne hpass hend
  refine ⟨l', d, hd, hsame, ?_⟩
  rw [program_of_ok hline hok]
  exact ⟨by simp, rfl⟩

lemma program_of_written {lines : List Line} {ts : List Token} (h : Line.WrittenAll lines ts)
    (hc : c.ahead.map (·.token) = ts) : (program c).1.faults = [] ∧
      List.Forall₂ Line.Same lines (program c).1.lines := by
  induction h generalizing c with
  | nil =>
    rw [program_of_end (List.map_eq_nil_iff.mp hc)]
    exact ⟨rfl, .nil⟩
  | last hl =>
    obtain ⟨l', d, hd, hsame, hfaults, hlines⟩ :=
      program_of_written_line hl (List.append_nil _).symm hc (by simp)
    rw [program_of_end hd] at hfaults hlines
    rw [hfaults, hlines]
    exact ⟨rfl, .cons hsame .nil⟩
  | newline _ ih =>
    obtain ⟨n, rest, hahead, hn, hrest⟩ := List.map_eq_cons_iff.mp hc
    rw [program_of_newline (peek_eq_some.mpr ⟨n, rest, hahead, hn⟩)]
    exact ih (by rw [advance_of_ahead hahead, hrest])
  | @cons l lines ts us hl _ ih =>
    obtain ⟨w, tail, hahead, hw, htail⟩ := List.map_eq_append_iff.mp hc
    obtain ⟨n, rest, rfl, hn, hrest⟩ := List.map_eq_cons_iff.mp htail
    obtain ⟨l', d, hd, hsame, hfaults, hlines⟩ := program_of_written_line hl hahead hw
      fun x hx => Option.some.inj hx ▸ hn
    rw [program_of_newline (peek_eq_some.mpr ⟨n, rest, hd, hn⟩)] at hfaults hlines
    obtain ⟨hclean, hall⟩ := ih (c := d.advance) (by rw [advance_of_ahead hd, hrest])
    rw [hfaults, hlines]
    exact ⟨hclean, .cons hsame hall⟩

/-- **Everything that may be written is read**, without a fault and as it was meant. -/
theorem parse_written (map : LineMap) (lexemes : List Lexeme) (lines : List Line)
    (h : Line.WrittenAll lines (lexemes.map (·.token))) :
    (parse map lexemes).faults = [] ∧
      List.Forall₂ Line.Same lines (parse map lexemes).lines :=
  program_of_written h rfl

/-- An indexed operand behind a label, and an assignment to the name of a mnemonic. -/
theorem parse_written_mixed_case :
    let map := LineMap.ofString "loop:sTa [p],y\nLDA=1+2*'A'\n"
    let loc : Location := ⟨1, 1, ⟨0, 0⟩⟩
    let lexemes : List Lexeme := [⟨.identifier "loop", "loop", ⟨0, 4⟩⟩,
      ⟨.mark .colon, ":", ⟨4, 5⟩⟩, ⟨.identifier "sTa", "sTa", ⟨5, 8⟩⟩,
      ⟨.mark .leftBracket, "[", ⟨9, 10⟩⟩, ⟨.identifier "p", "p", ⟨10, 11⟩⟩,
      ⟨.mark .rightBracket, "]", ⟨11, 12⟩⟩, ⟨.mark .comma, ",", ⟨12, 13⟩⟩,
      ⟨.identifier "y", "y", ⟨13, 14⟩⟩, ⟨.mark .newline, "\n", ⟨14, 15⟩⟩,
      ⟨.identifier "LDA", "LDA", ⟨15, 18⟩⟩, ⟨.mark .equal, "=", ⟨18, 19⟩⟩,
      ⟨.number 1, "1", ⟨19, 20⟩⟩, ⟨.mark .plus, "+", ⟨20, 21⟩⟩, ⟨.number 2, "2", ⟨21, 22⟩⟩,
      ⟨.mark .star, "*", ⟨22, 23⟩⟩, ⟨.char 65, "'A'", ⟨23, 26⟩⟩,
      ⟨.mark .newline, "\n", ⟨26, 27⟩⟩]
    let store : Statement := ⟨"STA", .indirectIndexed, some (.symbol "p" loc), loc⟩
    let value : Expr :=
      .binary .add (.number 1 loc) (.binary .mul (.number 2 loc) (.number 'A'.val loc) loc) loc
    let lines : List Line := [⟨some ⟨"loop", loc⟩, some (.statement store), [], loc⟩,
      ⟨none, some (.directive (.assign "LDA" value loc)), [], loc⟩]
    Line.WrittenAll lines (lexemes.map (·.token)) ∧ (parse map lexemes).faults = [] ∧
      List.Forall₂ Line.Same lines (parse map lexemes).lines := by
  intro map loc lexemes store value lines
  have hstore : (Body.statement store).Written [.identifier "sTa", .mark .leftBracket,
      .identifier "p", .mark .rightBracket, .mark .comma, .identifier "y"] :=
    .statement loc (by decide +kernel) (by decide +kernel)
      (.indirectIndexed (.tighter (.tighter (.symbol "p" loc))) (by decide +kernel))
      (by simp [Mode.isBare])
  have hvalue : value.Spelled 1 [.number 1, .mark .plus, .number 2, .mark .star, .char 65] :=
    @Expr.Spelled.binary 1 .add _ _ _ _ loc rfl (.tighter (.tighter (.number 1 loc)))
      (@Expr.Spelled.binary 2 .mul _ _ _ _ loc rfl (.tighter (.number 2 loc)) (.char 65 loc))
  have hwritten : Line.WrittenAll lines (lexemes.map (·.token)) :=
    .cons (.body rfl hstore) (.cons (.body rfl (.directive (.assign loc hvalue))) .nil)
  exact ⟨hwritten, parse_written map lexemes lines hwritten⟩

end Parser

end CrossAsm
