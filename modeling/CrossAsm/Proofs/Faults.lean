import Mathlib.Tactic.Common
import CrossAsm.Assembly
import CrossAsm.Proofs.Reading
import CrossAsm.Proofs.Settling
import CrossAsm.Proofs.Steps

/-!
Faults only get more on the way through a program, and those that sound lines add are about the
text: a body finds its operands on the stack, because the visits of its line have put them there,
and a statement finds an opcode, because reading lets no other statement through.
-/

namespace CrossAsm

lemma DeferredPatch.faults_settle (p : DeferredPatch) (t : SymbolTable) :
    ∀ d ∈ (p.settle t).faults, d.code ≠ .internalError := by
  unfold settle
  split
  · split
    · simp [Fault.diagnose, Fault.code]
    · simp
  · simp [Fault.diagnose, Fault.code]
  · simp [Fault.diagnose, ZeroDivision.fault, Fault.code]

lemma BranchPatch.faults_settle (p : BranchPatch) (t : SymbolTable) :
    ∀ d ∈ (p.settle t).faults, d.code ≠ .internalError := by
  unfold settle
  split
  · split
    · simp
    · simp [Fault.diagnose, Fault.code]
  · simp [Fault.diagnose, Fault.code]
  · simp [Fault.diagnose, ZeroDivision.fault, Fault.code]

namespace Assembly.State

variable {base : List Diagnostic} {s t : State} {v : Visit}

/-! ### Lines -/

lemma Extends.endLine (h : s.Extends base) (label : Option String) (terminals : List String)
    (loc : Location) : (s.endLine label terminals loc).Extends base := by
  simp only [State.endLine]
  split
  · split
    · exact (h.report (f := .lineOutOfRange (s.codeLine label terminals loc).start)
        (by simp [Fault.code]) loc).of_faults rfl
    · exact (h.report (f := .lineOutOfRange (s.codeLine label terminals loc).start)
        (by simp [Fault.code]) loc).of_faults rfl
  · split
    · exact h.of_faults rfl
    · exact h.of_faults rfl

/-- A visit that finds what it needs adds no internal error. -/
lemma Extends.does (h : s.Extends base) (hdoes : s.Does v t) (hready : s.Ready v) :
    t.Extends base := by
  cases hdoes with
  | emits hnotes _ => exact (h.trans (hnotes.faults hready)).of_faults (emit_faults _ _)
  | defers hnotes _ _ => exact (h.trans (hnotes.faults hready)).of_faults (reserve_faults _ _)
  | branches hnotes _ =>
    refine (h.trans (hnotes.faults hready)).of_faults ?_
    simp [encodeBranch, log]
  | moves hnotes _ => exact (h.trans (hnotes.faults hready)).of_faults rfl
  | ends => exact h.endLine _ _ _

/-- The visit of a body finds what it needs when the stack is empty before the line. -/
lemma ready_root (hs : s.operands = []) {b : Body} (hb : b.Sound) :
    (s.pushAll b.operands).Ready b.root := by
  rcases b with (⟨e, loc⟩ | ⟨kind, items, loc⟩ | ⟨name, e, loc⟩) | st
  · simp [Ready, Body.root, pushAll, Body.operands]
  · trivial
  · simp [Ready, Body.root, pushAll, Body.operands]
  · obtain ⟨hsupported, hoperand⟩ : st.Sound := hb
    refine ⟨hsupported, fun hmode => ?_⟩
    obtain ⟨e, he⟩ := Option.isSome_iff_exists.mp (hoperand.trans hmode)
    simp [pushAll, Body.operands, he, hs]

lemma Extends.perform (h : s.Extends base) (hs : s.operands = []) {body : Option Body}
    (hb : ∀ b ∈ body, b.Sound) : (s.perform body).Extends base := by
  cases body with
  | none => exact h
  | some b =>
    have hpush := h.trans ((s.notes_pushAll b.operands).faults trivial)
    exact hpush.does (does_step _ b.root) (ready_root hs (hb b rfl))

lemma Extends.enter (h : s.Extends base) (l : Line) : (s.enter l).Extends base :=
  h.trans ((s.notes_enter l).faults trivial)

lemma Extends.run_lines (h : s.Extends base) (hs : s.operands = []) {lines : List Line}
    (hl : ∀ l ∈ lines, l.Sound) : (s.run (lines.flatMap Line.visits)).Extends base := by
  induction lines generalizing s with
  | nil => exact h
  | cons l rest ih =>
    rw [run_lines_cons]
    refine ih ?_ (by rw [run_line, endLine_operands]) fun m hm => hl m (List.mem_cons_of_mem l hm)
    rw [run_line]
    have henter : (s.enter l).operands = [] := by rw [enter_operands, hs]
    exact ((h.enter l).perform henter (hl l List.mem_cons_self)).endLine _ _ _

/-! ### What is filled in later -/

lemma Extends.resolveDeferred (h : s.Extends base) : s.resolveDeferred.Extends base := by
  refine h.trans ⟨_, by rw [resolveDeferred_eq_settle, Array.toList_appendList], ?_⟩
  rw [List.flatMap_map]
  intro d hd
  obtain ⟨p, -, hd⟩ := List.mem_flatMap.mp hd
  exact p.faults_settle s.symbols d hd

lemma Extends.resolveBranches (h : s.Extends base) : s.resolveBranches.Extends base := by
  refine h.trans ⟨_, by rw [resolveBranches_eq_settle, Array.toList_appendList], ?_⟩
  rw [List.flatMap_map]
  intro d hd
  obtain ⟨p, -, hd⟩ := List.mem_flatMap.mp hd
  exact p.faults_settle s.symbols d hd

end Assembly.State

end CrossAsm
