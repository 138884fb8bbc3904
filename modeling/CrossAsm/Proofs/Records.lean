import Mathlib.Tactic.Common
import CrossAsm.Proofs.Outcome

/-!
The records of lines, the log of lines that overwrite, and the file name. However a walk ends, its
records carry the labels and the texts of the lines of the program, in their order: the end of a
line adds its record and may log that the line overwrites. No other step touches any of the three.
-/

namespace CrossAsm

/-- The label and the text of a line, as its record has them. -/
def Line.heading (l : Line) : Option String × String :=
  (l.label.map (·.name), Listing.join l.terminals)

def CodeLine.heading (l : CodeLine) : Option String × String := (l.label, l.text)

namespace Assembly.State

variable (s : State)

/-! ### Steps within a line -/

/-- What no step but the end of a line touches is the same. -/
structure Keeps (s t : State) : Prop where
  file : t.file = s.file
  codeLines : t.codeLines = s.codeLines
  overwritings : Event.overwritings t.events.toList = Event.overwritings s.events.toList

namespace Keeps

variable {s t u : State}

lemma refl (s : State) : s.Keeps s := ⟨rfl, rfl, rfl⟩

lemma trans (h : s.Keeps t) (ht : t.Keeps u) : s.Keeps u :=
  ⟨ht.file.trans h.file, ht.codeLines.trans h.codeLines, ht.overwritings.trans h.overwritings⟩

lemma of_notes {ready : Prop} (h : s.Notes t ready) : s.Keeps t :=
  ⟨h.file, h.codeLines, h.overwritings⟩

lemma log (h : s.Keeps t) {e : Event} (he : e.isOverwriting = false) : s.Keeps (t.log e) :=
  { h with overwritings := (Event.overwritings_push t.events he).trans h.overwritings }

lemma emit (h : s.Keeps t) (bytes : List UInt8) : s.Keeps (t.emit bytes) :=
  ⟨by rw [emit_file, h.file], by rw [emit_codeLines, h.codeLines],
    by rw [emit_events, h.overwritings]⟩

/-- What is filled in later leaves them alone, too. -/
lemma resolve (h : s.Keeps t) : s.Keeps t.resolveDeferred.resolveBranches := by
  have hdeferred : s.Keeps t.resolveDeferred := by
    rw [resolveDeferred_eq_settle]
    exact { h.log (e := .resolvingOperands t.deferred.size) rfl with }
  rw [resolveBranches_eq_settle]
  exact { hdeferred.log (e := .resolvingBranches t.resolveDeferred.branches.size) rfl with }

end Keeps

variable {s} in
lemma Does.keeps {t : State} {v : Visit} (h : s.Does v t) (hv : v.endsLine = false) :
    s.Keeps t := by
  cases h with
  | emits hnotes _ => exact (Keeps.of_notes hnotes).emit _
  | @defers _ _ _ u _ width operand hnotes _ _ =>
    have hroom := (Keeps.of_notes hnotes).emit (List.replicate width unmappedByte)
    exact { hroom.log (e := .operandDeferred operand.text width u.counter) rfl with }
  | @branches mnemonic _ _ u opcode target hnotes _ =>
    have hroom := ((Keeps.of_notes hnotes).emit [opcode]).emit [unmappedByte]
    exact { hroom.log (e := .branchRegistered mnemonic target.text (u.counter + 1)) rfl with }
  | moves hnotes _ => exact { Keeps.of_notes hnotes with }
  | ends => cases hv

/-! ### Lines -/

lemma keeps_perform (body : Option Body) : s.Keeps (s.perform body) := by
  cases body with
  | none => exact Keeps.refl s
  | some b =>
    exact (Keeps.of_notes (s.notes_pushAll b.operands)).trans
      ((does_step _ b.root).keeps b.endsLine_root)

/-- Everything of a line but its end. -/
lemma keeps_body (l : Line) : s.Keeps ((s.enter l).perform l.body) :=
  (Keeps.of_notes (s.notes_enter l)).trans (keeps_perform _ l.body)

lemma endLine_headings (label : Option String) (terminals : List String) (loc : Location) :
    (s.endLine label terminals loc).codeLines.toList.map CodeLine.heading =
      s.codeLines.toList.map CodeLine.heading ++ [(label, Listing.join terminals)] := by
  obtain ⟨faults, events, heq⟩ := endLine_eq label terminals loc s
  simp [heq, CodeLine.heading, codeLine]

lemma run_lines_headings (lines : List Line) :
    (s.run (lines.flatMap Line.visits)).codeLines.toList.map CodeLine.heading =
      s.codeLines.toList.map CodeLine.heading ++ lines.map Line.heading := by
  induction lines generalizing s with
  | nil => simp
  | cons l rest ih =>
    rw [run_lines_cons, ih, run_line, endLine_headings, (s.keeps_body l).codeLines,
      List.append_assoc]
    rfl

lemma run_lines_file (lines : List Line) : (s.run (lines.flatMap Line.visits)).file = s.file := by
  induction lines generalizing s with
  | nil => rfl
  | cons l rest ih =>
    obtain ⟨faults, events, hend⟩ := endLine_eq (l.label.map (·.name)) l.terminals l.loc
      ((s.enter l).perform l.body)
    rw [run_lines_cons, ih, run_line, hend]
    exact (s.keeps_body l).file

end Assembly.State

namespace Assembly

/-- The records of a walk are those of the program's lines. -/
lemma walk_headings (file : String) (lines : List Line) (faults : List Diagnostic) :
    (walk (.init file) lines faults).codeLines.toList.map CodeLine.heading =
      lines.map Line.heading := by
  rw [State.walk_eq, (State.Keeps.refl _).resolve.codeLines, State.run_lines_headings]
  rfl

lemma walk_file (file : String) (lines : List Line) (faults : List Diagnostic) :
    (walk (.init file) lines faults).file = file := by
  rw [State.walk_eq, (State.Keeps.refl _).resolve.file, State.run_lines_file]
  rfl

end Assembly

end CrossAsm
