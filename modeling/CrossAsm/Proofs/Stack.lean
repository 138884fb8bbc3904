import Mathlib.Tactic.Common
import CrossAsm.Assembly.Step
import CrossAsm.Proofs.Meaning

/-!
The operand stack over the visits of a line. The visits of an expression push it, without its
parentheses, and change nothing else; so when the visit of a body comes, the stack holds the
operands of that body and no others. Main statement: `walk_rebuilds_tree`.
-/

namespace CrossAsm

namespace Body

/-- The operands of a body, in the order they are written. -/
def operands : Body → List Operand
  | directive (.origin e _) => [e.toOperand]
  | directive (.data _ items _) => items.flatMap DataItem.operands
  | directive (.assign _ e _) => [e.toOperand]
  | statement s => (s.operand.map Expr.toOperand).toList

/-- The visits of the operands. -/
def leaves : Body → List Visit
  | directive (.origin e _) => e.visits
  | directive (.data _ items _) => items.flatMap DataItem.visits
  | directive (.assign _ e _) => e.visits
  | statement s => s.operand.elim [] Expr.visits

/-- The visit of the body itself, which takes the operands. -/
def root : Body → Visit
  | directive (.origin _ loc) => .origin loc
  | directive (.data kind _ loc) => .data kind loc
  | directive (.assign name _ loc) => .assign name loc
  | statement s => .statement s.mnemonic s.mode s.loc

lemma visits_eq (b : Body) : b.visits = b.leaves ++ [b.root] := by
  rcases b with (_ | _ | _) | s <;> rfl

end Body

namespace Operand

/-- The visits of an operand, what it is made of before the operand itself. -/
def visits : Operand → List Visit
  | number v l => [.number v l]
  | symbol name l => [.symbol name l]
  | binary op l r loc => l.visits ++ r.visits ++ [.binary op loc]

lemma visits_toOperand (e : Expr) : e.toOperand.visits = e.visits := by
  induction e with
  | number v l => rfl
  | symbol name l => rfl
  | binary op l r loc ihl ihr => rw [Expr.toOperand, visits, ihl, ihr, Expr.visits]
  | group e l ih => exact ih

end Operand

/-- The visit of a line's label. -/
def Line.labelVisits (l : Line) : List Visit := (l.label.map Label.visit).toList

namespace Assembly.State

variable (s : State)

@[simp] lemma run_nil : s.run [] = s := rfl

lemma run_append (u v : List Visit) : s.run (u ++ v) = (s.run u).run v := by
  simp [run, List.foldl_append]

/-- Puts operands on the stack, the last one on top. -/
def pushAll (os : List Operand) : State := { s with operands := os.reverse ++ s.operands }

lemma pushAll_pushAll (os ps : List Operand) :
    (s.pushAll os).pushAll ps = s.pushAll (os ++ ps) := by
  simp [pushAll]

/-- The visits of an operand leave it on the stack. -/
lemma run_operand (o : Operand) : s.run o.visits = s.pushAll [o] := by
  induction o generalizing s with
  | number v l => rfl
  | symbol name l => rfl
  | binary op l r loc ihl ihr =>
    -- the right side is on top of the left one when the operation takes them
    rw [Operand.visits, run_append, run_append, ihl, ihr]
    rfl

/-- The visits of an expression leave it on the stack. -/
lemma run_expr (e : Expr) : s.run e.visits = s.pushAll [e.toOperand] := by
  rw [← Operand.visits_toOperand, run_operand]

lemma pushString_eq (text : String) (loc : Location) :
    s.pushString text loc = s.pushAll (text.toList.map fun c => .number c.val loc) := by
  unfold pushString
  induction text.toList generalizing s with
  | nil => rfl
  | cons c rest ih => rw [List.foldl_cons, ih]; simp [pushAll, push]

lemma run_item (i : DataItem) : s.run i.visits = s.pushAll i.operands := by
  cases i with
  | expr e => exact run_expr s e
  | string text loc => exact pushString_eq s text loc

lemma run_items (items : List DataItem) :
    s.run (items.flatMap DataItem.visits) = s.pushAll (items.flatMap DataItem.operands) := by
  induction items generalizing s with
  | nil => rfl
  | cons i rest ih =>
    rw [List.flatMap_cons, List.flatMap_cons, run_append, run_item, ih, pushAll_pushAll]

lemma run_leaves (b : Body) : s.run b.leaves = s.pushAll b.operands := by
  rcases b with (⟨e, loc⟩ | ⟨kind, items, loc⟩ | ⟨name, e, loc⟩) | ⟨mnemonic, mode, operand, loc⟩
  · exact run_expr s e
  · exact run_items s items
  · exact run_expr s e
  · cases operand with
    | none => rfl
    | some e => exact run_expr s e

/-- The state in which the body of a line is met: its label is defined. -/
def enter (l : Line) : State :=
  l.label.elim s fun label => s.define label.name s.counter label.loc

/-- The state after the body of a line. -/
def perform : Option Body → State
  | none => s
  | some b => (s.pushAll b.operands).step b.root

lemma run_labelVisits (l : Line) : s.run l.labelVisits = s.enter l := by
  unfold Line.labelVisits enter
  cases l.label <;> rfl

/-- A line is its label, its body and its end. -/
lemma run_line (l : Line) :
    s.run l.visits =
      ((s.enter l).perform l.body).endLine (l.label.map (·.name)) l.terminals l.loc := by
  have hb : (s.enter l).run (l.body.elim [] Body.visits) = (s.enter l).perform l.body := by
    cases l.body with
    | none => rfl
    | some b => simp only [Option.elim, b.visits_eq, run_append, run_leaves]; rfl
  rw [← hb, ← run_labelVisits]
  simp only [Line.visits, run_append]
  rfl

lemma run_lines_cons (l : Line) (rest : List Line) :
    s.run ((l :: rest).flatMap Line.visits) = (s.run l.visits).run (rest.flatMap Line.visits) := by
  rw [List.flatMap_cons, run_append]

@[simp] lemma endLine_operands (label : Option String) (terminals : List String)
    (loc : Location) : (s.endLine label terminals loc).operands = [] := rfl

/-- Between lines the stack is empty. -/
lemma run_lines_operands (hs : s.operands = []) (lines : List Line) :
    (s.run (lines.flatMap Line.visits)).operands = [] := by
  induction lines generalizing s with
  | nil => exact hs
  | cons l rest ih =>
    rw [run_lines_cons]
    exact ih _ (by rw [run_line, endLine_operands])

@[simp] lemma define_operands (name : String) (value : UInt32) (loc : Location) :
    (s.define name value loc).operands = s.operands := by
  simp only [define]
  split <;> rfl

lemma enter_operands (l : Line) : (s.enter l).operands = s.operands := by
  unfold enter
  cases l.label with
  | none => rfl
  | some label => exact define_operands s _ _ _

/-- When the body of a line is visited, the stack holds its operands, the last one on top. -/
lemma operands_at_root (hs : s.operands = []) (done : List Line) (l : Line) (b : Body) :
    (s.run (done.flatMap Line.visits ++ l.labelVisits ++ b.leaves)).operands =
      b.operands.reverse := by
  rw [run_append, run_append, run_labelVisits, run_leaves]
  simp [pushAll, enter_operands, run_lines_operands s hs]

/-! ### The tree in the visits -/

/-- No two operands have the same visits: running them tells which one it was. -/
lemma eq_of_visits_eq {o o' : Operand} (h : o.visits = o'.visits) : o = o' := by
  have hrun : (State.init "").pushAll [o] = (State.init "").pushAll [o'] := by
    rw [← run_operand, ← run_operand, h]
  exact (List.cons.inj (congrArg State.operands hrun)).1

/-- **The walk rebuilds the tree** on top of any stack. An expression becomes the one operand with
the same visits, that is with the same operators, sides and places, and without the groups. The
entries of a data directive become operands in the order they are written, one for an expression
and one for each character of a string. Nothing else changes, and nothing is reported. -/
theorem walk_rebuilds_tree (s : State) :
    (∀ e : Expr, s.run e.visits = { s with operands := e.toOperand :: s.operands } ∧
      ∀ o : Operand, o.visits = e.visits ↔ o = e.toOperand) ∧
    ∀ (kind : DataKind) (items : List DataItem) (loc : Location),
      (Directive.data kind items loc).visits = items.flatMap DataItem.visits ++ [.data kind loc] ∧
      s.run (items.flatMap DataItem.visits) =
        { s with operands := (items.flatMap DataItem.operands).reverse ++ s.operands } := by
  refine ⟨fun e => ⟨s.run_expr e, fun o => ⟨fun h => ?_, ?_⟩⟩, fun kind items loc =>
    ⟨rfl, s.run_items items⟩⟩
  · exact eq_of_visits_eq (h.trans (Operand.visits_toOperand e).symm)
  · rintro rfl
    exact Operand.visits_toOperand e

end Assembly.State

end CrossAsm
