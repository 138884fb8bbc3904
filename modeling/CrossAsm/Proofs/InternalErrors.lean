import Mathlib.Tactic.Common
import CrossAsm.Proofs.Faults
import CrossAsm.Proofs.Scanning
import CrossAsm.Proofs.Sorting

/-!
The assembler's own errors cannot be reached from a source text: scanning, reading and assembling
report faults of the text only.
-/

namespace CrossAsm

namespace Assembly.State

/-- What is reported on the way through a program comes after the faults of its reading. -/
lemma extends_walk (file : String) {program : Program} (hl : ∀ l ∈ program.lines, l.Sound) :
    (walk (.init file) program.lines program.faults).Extends program.faults := by
  have h0 : ({ State.init file with
      faults := (State.init file).faults ++ program.faults }.log
      (.walking program.lines.length)).Extends program.faults :=
    ⟨[], by simp [log, init], by simp⟩
  exact (h0.run_lines rfl hl).resolveDeferred.resolveBranches

end Assembly.State

namespace Assembly

lemma code_of_ofNamedSource {source file : String} {faults : List Diagnostic}
    (h : (ofNamedSource source file).value = .error faults) :
    ∀ d ∈ faults, d.code ≠ .internalError := by
  simp only [ofNamedSource] at h
  split at h
  · next lexical ht =>
    obtain rfl : lexical.map (·.inFile file) = faults := by simpa using h
    intro d hd
    obtain ⟨e, he, rfl⟩ := List.mem_map.mp hd
    exact code_of_tokenize ht e he
  · next lexemes ht =>
    obtain ⟨hsound, -, hcode⟩ := Parser.parse_of (LineMap.ofString source) lexemes
    obtain ⟨added, hadded, htext⟩ := State.extends_walk file hsound
    simp only [finish] at h
    split at h
    · simp at h
    · obtain rfl := Except.error.inj h
      intro d hd
      obtain ⟨e, he, rfl⟩ := List.mem_map.mp hd
      have hmem := mem_stableSort.mp he
      rw [hadded] at hmem
      rcases List.mem_append.mp hmem with hmem | hmem
      · exact hcode e hmem
      · exact htext e hmem

/-- **Internal errors cannot be reached from source text.** No diagnostic of a source is one.
Whatever lexemes are read, a statement has an opcode in its mode and an operand just where the mode
has one. And whatever lines come before it, the body of a line finds its own operands on the stack,
the last one on top, and nothing else. -/
theorem internal_errors_unreachable :
    (∀ (source file : String) (faults : List Diagnostic),
      (ofNamedSource source file).value = .error faults →
        ∀ d ∈ faults, d.code ≠ .internalError) ∧
    (∀ (map : LineMap) (lexemes : List Lexeme), ∀ l ∈ (Parser.parse map lexemes).lines,
      ∀ s : Statement, l.body = some (.statement s) →
        Instruction.supports s.mnemonic s.mode = true ∧ s.operand.isSome = s.mode.hasOperand) ∧
    (∀ (map : LineMap) (lexemes : List Lexeme) (done rest : List Line) (l : Line) (b : Body),
      (Parser.parse map lexemes).lines = done ++ l :: rest → l.body = some b →
        ∀ (file : String) (faults : Array Diagnostic) (events : Array Event),
          (({ State.init file with faults := faults, events := events } : State).run
            (done.flatMap Line.visits ++ l.labelVisits ++ b.leaves)).operands =
              b.operands.reverse) := by
  refine ⟨fun source file faults h => code_of_ofNamedSource h, ?_, ?_⟩
  · intro map lexemes l hl s hs
    have hsound : s.Sound := (Parser.parse_of map lexemes).sound l hl _ hs
    exact ⟨hsound.supported, hsound.operand⟩
  · intro map lexemes done rest l b hlines hb file faults events
    exact State.operands_at_root _ rfl done l b

/-- A line that cannot be read, a branch that goes too far and a name that is missing. -/
theorem internal_errors_unreachable_faults :
    ∃ faults, (ofNamedSource "LDA #\nBNE 300\nJMP nowhere" "a.asm").value = .error faults ∧
      faults.length = 3 ∧ ∀ d ∈ faults, d.code ≠ .internalError := by
  have hcount : ((ofNamedSource "LDA #\nBNE 300\nJMP nowhere" "a.asm").value.mapError
      List.length).map (fun _ => ()) = .error 3 := by
    decide +kernel
  rcases h : (ofNamedSource "LDA #\nBNE 300\nJMP nowhere" "a.asm").value with faults | a
  · rw [h] at hcount
    exact ⟨faults, rfl, Except.error.inj hcount, internal_errors_unreachable.1 _ _ faults h⟩
  · rw [h] at hcount
    exact absurd hcount (by simp [Except.mapError, Except.map])

end Assembly

end CrossAsm
