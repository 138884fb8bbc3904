import Mathlib.Data.List.Forall2
import Mathlib.Tactic.Common
import CrossAsm.Assembly
import CrossAsm.Proofs.Definitions
import CrossAsm.Proofs.Likeness
import CrossAsm.Proofs.Outcome

/-!
Programs that are alike assemble alike. Two states agree if they differ only in places, in the
wording of faults and in the log; every step of the assembler takes states that agree to states
that agree, faults included.
-/

namespace CrossAsm

variable (k : Likeness)

/-! ### What is alike in a state -/

inductive Operand.Alike : Operand → Operand → Prop
  | number {v : UInt32} {l l' : Location} (hl : k.place l l') :
      Alike (.number v l) (.number v l')
  | symbol {name : String} {l l' : Location} (hl : k.place l l') :
      Alike (.symbol name l) (.symbol name l')
  | binary {op : BinaryOp} {a a' b b' : Operand} {l l' : Location} (ha : Alike a a')
      (hb : Alike b b') (hl : k.place l l') : Alike (.binary op a b l) (.binary op a' b' l')

structure DeferredPatch.Alike (p p' : DeferredPatch) : Prop where
  opcode : p.opcode = p'.opcode
  width : p.width = p'.width
  operand : p.operand.Alike k p'.operand
  address : p.address = p'.address
  loc : k.place p.loc p'.loc

structure BranchPatch.Alike (p p' : BranchPatch) : Prop where
  address : p.address = p'.address
  target : p.target.Alike k p'.target

structure CodeLine.Alike (l l' : CodeLine) : Prop where
  start : l.start = l'.start
  length : l.length = l'.length
  label : l.label = l'.label
  text : ∃ ts ts', List.Forall₂ k.text ts ts' ∧ l.text = Listing.join ts ∧
    l'.text = Listing.join ts'

/-- Faults of one class at places that are alike; how they are worded may differ. -/
def Diagnostic.Akin (d d' : Diagnostic) : Prop :=
  ∃ (f f' : Fault) (l l' : Location), f.code = f'.code ∧ k.place l l' ∧
    d = f.diagnose l ∧ d' = f'.diagnose l'

/-- The outcomes of an evaluation: the same value, or two divisions by zero. -/
inductive ZeroDivision.Alike :
    Except ZeroDivision (Option UInt32) → Except ZeroDivision (Option UInt32) → Prop
  | ok (v : Option UInt32) : Alike (.ok v) (.ok v)
  | error {z z' : ZeroDivision} (hz : k.place z.loc z'.loc) : Alike (.error z) (.error z')

inductive Visit.Alike : Visit → Visit → Prop
  | number {v : UInt32} {l l' : Location} (hl : k.place l l') :
      Alike (.number v l) (.number v l')
  | symbol {name : String} {l l' : Location} (hl : k.place l l') :
      Alike (.symbol name l) (.symbol name l')
  | binary {op : BinaryOp} {l l' : Location} (hl : k.place l l') :
      Alike (.binary op l) (.binary op l')
  | string {text : String} {l l' : Location} (hl : k.place l l') :
      Alike (.string text l) (.string text l')
  | label {name : String} {l l' : Location} (hl : k.place l l') :
      Alike (.label name l) (.label name l')
  | origin {l l' : Location} (hl : k.place l l') : Alike (.origin l) (.origin l')
  | data {kind : DataKind} {l l' : Location} (hl : k.place l l') :
      Alike (.data kind l) (.data kind l')
  | assign {name : String} {l l' : Location} (hl : k.place l l') :
      Alike (.assign name l) (.assign name l')
  | statement {mnemonic : String} {mode : Mode} {l l' : Location} (hl : k.place l l') :
      Alike (.statement mnemonic mode l) (.statement mnemonic mode l')
  | line {label : Option String} {ts ts' : List String} {l l' : Location}
      (hts : List.Forall₂ k.text ts ts') (hl : k.place l l') :
      Alike (.line label ts l) (.line label ts' l')

variable {k}

lemma Operand.Alike.loc {o o' : Operand} (h : o.Alike k o') : k.place o.loc o'.loc := by
  cases h <;> assumption

lemma Operand.Alike.eval {o o' : Operand} {t t' : SymbolTable} (h : o.Alike k o')
    (ht : t.value? = t'.value?) : ZeroDivision.Alike k (o.eval t) (o'.eval t') := by
  induction h with
  | number hl => exact .ok _
  | symbol hl =>
    simp only [Operand.eval, ht]
    exact .ok _
  | @binary op a a' b b' l l' _ _ hl iha ihb =>
    simp only [Operand.eval]
    generalize a.eval t = x at iha ⊢
    generalize a'.eval t' = x' at iha ⊢
    generalize b.eval t = y at ihb ⊢
    generalize b'.eval t' = y' at ihb ⊢
    cases iha with
    | error hz => exact .error hz
    | ok v =>
      cases ihb with
      | error hz => exact .error hz
      | ok w =>
        rcases v with _ | v <;> rcases w with _ | w
        · exact .ok none
        · exact .ok none
        · exact .ok none
        · simp only
          cases op.apply? v w with
          | none => exact .error hl
          | some u => exact .ok (some u)

/-! ### Visits -/

lemma Expr.Alike.visits {e e' : Expr} (h : e.Alike k e') :
    List.Forall₂ (Visit.Alike k) e.visits e'.visits := by
  induction h with
  | number hl => exact .cons (.number hl) .nil
  | symbol hl => exact .cons (.symbol hl) .nil
  | binary _ _ hl iha ihb =>
    exact List.rel_append (List.rel_append iha ihb) (.cons (.binary hl) .nil)
  | group _ _ ih => exact ih

lemma DataItem.Alike.visits {i i' : DataItem} (h : i.Alike k i') :
    List.Forall₂ (Visit.Alike k) i.visits i'.visits := by
  cases h with
  | expr he => exact he.visits
  | string hl => exact .cons (.string hl) .nil

lemma Body.Alike.visits {b b' : Body} (h : b.Alike k b') :
    List.Forall₂ (Visit.Alike k) b.visits b'.visits := by
  cases h with
  | origin he hl => exact List.rel_append he.visits (.cons (.origin hl) .nil)
  | data hi hl =>
    refine List.rel_append ?_ (.cons (.data hl) .nil)
    exact List.rel_flatMap hi fun i i' hii => hii.visits
  | assign he hl => exact List.rel_append he.visits (.cons (.assign hl) .nil)
  | statement he hl =>
    refine List.rel_append ?_ (.cons (.statement hl) .nil)
    cases he with
    | none => exact .nil
    | some he => exact he.visits

lemma Line.Alike.visits {l l' : Line} (h : l.Alike k l') :
    List.Forall₂ (Visit.Alike k) l.visits l'.visits := by
  obtain ⟨label, body, terminals, loc⟩ := l
  obtain ⟨label', body', terminals', loc'⟩ := l'
  obtain ⟨hlabel, hbody, hterm, hloc⟩ := h
  have hname : label.map (·.name) = label'.map (·.name) := by
    cases hlabel with
    | none => rfl
    | some hl => exact congrArg some hl.name
  simp only [Line.visits, hname]
  refine List.rel_append (List.rel_append ?_ ?_) (.cons (.line hterm hloc) .nil)
  · cases hlabel with
    | none => exact .nil
    | @some a a' hl =>
      obtain ⟨name, loc⟩ := a
      obtain ⟨rfl, hplace⟩ := hl
      exact .cons (.label hplace) .nil
  · cases hbody with
    | none => exact .nil
    | some hb => exact hb.visits

/-! ### States -/

namespace Assembly.State

/-- The states differ in places, in the wording of faults and in the log only. -/
structure Alike (k : Likeness) (s s' : State) : Prop where
  symbols : s.symbols.value? = s'.symbols.value?
  payload : s.payload = s'.payload
  codeLines : List.Forall₂ (CodeLine.Alike k) s.codeLines.toList s'.codeLines.toList
  operands : List.Forall₂ (Operand.Alike k) s.operands s'.operands
  counter : s.counter = s'.counter
  lineStart : s.lineStart = s'.lineStart
  overwrites : s.overwrites = s'.overwrites
  deferred : List.Forall₂ (DeferredPatch.Alike k) s.deferred.toList s'.deferred.toList
  branches : List.Forall₂ (BranchPatch.Alike k) s.branches.toList s'.branches.toList
  faults : List.Forall₂ (Diagnostic.Akin k) s.faults.toList s'.faults.toList

variable {s s' : State}

lemma forall₂_push {α : Type} {R : α → α → Prop} {u v : Array α} {a b : α}
    (h : List.Forall₂ R u.toList v.toList) (hab : R a b) :
    List.Forall₂ R (u.push a).toList (v.push b).toList := by
  simp only [Array.toList_push]
  exact List.rel_append h (.cons hab .nil)

namespace Alike

lemma log (h : s.Alike k s') (e e' : Event) : (s.log e).Alike k (s'.log e') := { h with }

lemma report (h : s.Alike k s') {f f' : Fault} {l l' : Location} (hf : f.code = f'.code)
    (hl : k.place l l') : (s.report f l).Alike k (s'.report f' l') :=
  { h with faults := forall₂_push h.faults ⟨f, f', l, l', hf, hl, rfl, rfl⟩ }

lemma reportZero (h : s.Alike k s') {z z' : ZeroDivision} (hz : k.place z.loc z'.loc) :
    (s.reportZero z).Alike k (s'.reportZero z') :=
  h.report rfl hz

lemma push (h : s.Alike k s') {o o' : Operand} (ho : o.Alike k o') :
    (s.push o).Alike k (s'.push o') :=
  { h with operands := .cons ho h.operands }

lemma withOperands (h : s.Alike k s') {os os' : List Operand}
    (ho : List.Forall₂ (Operand.Alike k) os os') :
    ({ s with operands := os } : State).Alike k { s' with operands := os' } :=
  { h with operands := ho }

lemma withSymbols (h : s.Alike k s') {t t' : SymbolTable} (ht : t.value? = t'.value?) :
    ({ s with symbols := t } : State).Alike k { s' with symbols := t' } :=
  { h with symbols := ht }

lemma ite {p : Prop} [Decidable p] {t t' : State} (ht : t.Alike k t') (hs : s.Alike k s') :
    (if p then t else s).Alike k (if p then t' else s') := by
  split
  · exact ht
  · exact hs

lemma emitByte (h : s.Alike k s') (byte : UInt8) :
    (s.emitByte byte).Alike k (s'.emitByte byte) where
  symbols := h.symbols
  payload := by simp only [State.emitByte, h.payload, h.counter]
  codeLines := h.codeLines
  operands := h.operands
  counter := by simp only [State.emitByte, h.counter]
  lineStart := by simp only [State.emitByte, h.lineStart, h.counter]
  overwrites := by simp only [State.emitByte, h.overwrites, h.payload, h.counter]
  deferred := h.deferred
  branches := h.branches
  faults := h.faults

lemma emit (h : s.Alike k s') (bytes : List UInt8) :
    (s.emit bytes).Alike k (s'.emit bytes) := by
  induction bytes generalizing s s' with
  | nil => exact h
  | cons byte rest ih => exact ih (h.emitByte byte)

lemma reserve (h : s.Alike k s') (width : Nat) : (s.reserve width).Alike k (s'.reserve width) :=
  h.emit _

lemma patch (h : s.Alike k s') (address : UInt32) (byte : UInt8) :
    (s.patch address byte).Alike k (s'.patch address byte) :=
  { h with payload := by simp only [State.patch, h.payload] }

lemma define (h : s.Alike k s') (name : String) (value : UInt32) {l l' : Location}
    (hl : k.place l l') : (s.define name value l).Alike k (s'.define name value l') := by
  have hvalue : s.symbols.value? name = s'.symbols.value? name := by rw [h.symbols]
  rcases hs : s.symbols.resolve name with _ | old
  · have hnew := SymbolTable.value?_eq_none.mpr hs
    have hnew' := hvalue ▸ hnew
    rw [define_of_fresh name value l hnew, define_of_fresh name value l' hnew']
    refine (h.withSymbols ?_).log _ _
    rw [SymbolTable.value?_insert_fresh (s := ⟨name, value, l.line, l.column⟩) hnew,
      SymbolTable.value?_insert_fresh (s := ⟨name, value, l'.line, l'.column⟩) hnew', h.symbols]
  · rcases hs' : s'.symbols.resolve name with _ | old'
    · rw [SymbolTable.value?_eq_none.mpr hs', SymbolTable.value?_eq_none, hs] at hvalue
      simp at hvalue
    · simp only [State.define, SymbolTable.define, hs, hs']
      exact h.report (by rfl) hl

/-! ### Encoding -/

lemma defer (h : s.Alike k s') (opcode : UInt8) (width : Nat) {o o' : Operand} {l l' : Location}
    (ho : o.Alike k o') (hl : k.place l l') :
    (s.defer opcode width o l).Alike k (s'.defer opcode width o' l') := by
  have hr := (h.reserve width).log (.operandDeferred o.text width s.counter)
    (.operandDeferred o'.text width s'.counter)
  exact { hr with deferred := forall₂_push hr.deferred ⟨rfl, rfl, ho, h.counter, hl⟩ }

lemma encodeBranch (h : s.Alike k s') (opcode : UInt8) (mnemonic : String) {o o' : Operand}
    (ho : o.Alike k o') :
    (s.encodeBranch opcode mnemonic o).Alike k (s'.encodeBranch opcode mnemonic o') := by
  have hr := ((h.emit [opcode]).reserve 1).log
    (.branchRegistered mnemonic o.text (s.counter + 1))
    (.branchRegistered mnemonic o'.text (s'.counter + 1))
  exact { hr with branches := forall₂_push hr.branches ⟨by rw [h.counter], ho⟩ }

lemma encodeByte (h : s.Alike k s') (opcode : UInt8) {o o' : Operand} {l l' : Location}
    (ho : o.Alike k o') (hl : k.place l l') :
    (s.encodeByte opcode o l).Alike k (s'.encodeByte opcode o' l') := by
  have he := ho.eval h.symbols
  unfold State.encodeByte
  generalize o.eval s.symbols = r at he ⊢
  generalize o'.eval s'.symbols = r' at he ⊢
  cases he with
  | error hz => exact (h.reportZero hz).reserve 2
  | ok v =>
    rcases v with _ | value
    · exact h.defer opcode 2 ho hl
    · simp only
      split
      · exact (h.report (by rfl) hl).emit _
      · exact h.emit _

lemma encodeWide (h : s.Alike k s') (opcode : UInt8) (o o' : Operand) (value : UInt32)
    {l l' : Location} (hl : k.place l l') :
    (s.encodeWide opcode o value l).Alike k (s'.encodeWide opcode o' value l') := by
  unfold State.encodeWide
  split
  · exact (h.report (by rfl) hl).reserve 3
  · exact h.emit _

lemma encodeNarrow (h : s.Alike k s') (opcode : UInt8) (o o' : Operand) (value : UInt32)
    {l l' : Location} (hl : k.place l l') :
    (s.encodeNarrow opcode o value l).Alike k (s'.encodeNarrow opcode o' value l') := by
  unfold State.encodeNarrow
  split
  · exact (h.report (by rfl) hl).reserve 2
  · exact h.emit _

lemma encodeKnown (h : s.Alike k s') (codes : Instruction.Opcodes) (mnemonic : String)
    (o o' : Operand) (value : UInt32) {l l' : Location} (hl : k.place l l') :
    (s.encodeKnown codes mnemonic o value l).Alike k
      (s'.encodeKnown codes mnemonic o' value l') := by
  unfold State.encodeKnown
  split
  · split
    · exact h.emit _
    · exact h.encodeWide _ o o' value hl
  · exact h.encodeWide _ o o' value hl
  · exact h.encodeNarrow _ o o' value hl
  · exact h.report rfl hl

lemma encodeAddress (h : s.Alike k s') (codes : Instruction.Opcodes) (mnemonic : String)
    {o o' : Operand} {l l' : Location} (ho : o.Alike k o') (hl : k.place l l') :
    (s.encodeAddress codes mnemonic o l).Alike k (s'.encodeAddress codes mnemonic o' l') := by
  have he := ho.eval h.symbols
  unfold State.encodeAddress
  generalize o.eval s.symbols = r at he ⊢
  generalize o'.eval s'.symbols = r' at he ⊢
  cases he with
  | error hz => exact (h.reportZero hz).reserve _
  | ok v =>
    rcases v with _ | value
    · simp only
      split
      · exact h.defer _ 3 ho hl
      · exact h.defer _ 2 ho hl
      · exact h.report rfl hl
    · exact h.encodeKnown codes mnemonic o o' value hl

lemma withOperand (h : s.Alike k s') (mnemonic : String) {l l' : Location} (hl : k.place l l')
    {f f' : State → Operand → State}
    (hf : ∀ {t t' : State} {o o' : Operand}, t.Alike k t' → o.Alike k o' →
      (f t o).Alike k (f' t' o')) :
    (s.withOperand mnemonic l f).Alike k (s'.withOperand mnemonic l' f') := by
  have hop := h.operands
  unfold State.withOperand
  generalize s.operands = os at hop ⊢
  generalize s'.operands = os' at hop ⊢
  cases hop with
  | nil => exact h.report rfl hl
  | cons ho hrest => exact hf (h.withOperands hrest) ho

lemma encode (h : s.Alike k s') (mnemonic : String) (mode : Mode) {l l' : Location}
    (hl : k.place l l') : (s.encode mnemonic mode l).Alike k (s'.encode mnemonic mode l') := by
  unfold State.encode
  simp only
  split
  · split
    · exact h.emit _
    · exact h.withOperand mnemonic hl fun ht ho => ht.encodeBranch _ mnemonic ho
    · exact h.withOperand mnemonic hl fun ht ho => ht.encodeByte _ ho hl
    · exact h.withOperand mnemonic hl fun ht ho => ht.encodeAddress _ mnemonic ho hl
    · exact h
  · exact h.report rfl hl

/-! ### Steps -/

lemma combine (h : s.Alike k s') (op : BinaryOp) {l l' : Location} (hl : k.place l l') :
    (s.combine op l).Alike k (s'.combine op l') := by
  have hop := h.operands
  have hnil : (({ s with operands := [] } : State).report (.missingOperands op) l).Alike k
      (({ s' with operands := [] } : State).report (.missingOperands op) l') :=
    (h.withOperands .nil).report rfl hl
  unfold State.combine
  generalize s.operands = os at hop ⊢
  generalize s'.operands = os' at hop ⊢
  cases hop with
  | nil => exact hnil
  | cons hr hop =>
    cases hop with
    | nil => exact hnil
    | cons hleft hrest => exact h.withOperands (.cons (.binary hleft hr hl) hrest)

lemma pushString (h : s.Alike k s') (text : String) {l l' : Location} (hl : k.place l l') :
    (s.pushString text l).Alike k (s'.pushString text l') := by
  unfold State.pushString
  induction text.toList generalizing s s' with
  | nil => exact h
  | cons c rest ih => exact ih (h.push (.number hl))

lemma setOrigin (h : s.Alike k s') {l l' : Location} (hl : k.place l l') :
    (s.setOrigin l).Alike k (s'.setOrigin l') := by
  have hop := h.operands
  unfold State.setOrigin
  generalize s.operands = os at hop ⊢
  generalize s'.operands = os' at hop ⊢
  cases hop with
  | nil => exact h.report rfl hl
  | @cons o o' rest rest' ho hrest =>
    have ht := h.withOperands hrest
    have he := ho.eval h.symbols
    simp only
    generalize o.eval s.symbols = r at he ⊢
    generalize o'.eval s'.symbols = r' at he ⊢
    cases he with
    | error hz => exact ht.reportZero hz
    | ok v =>
      rcases v with _ | address
      · exact ht.log _ _
      · simp only
        split
        · exact ht.report (by rfl) ho.loc
        · exact { ht with counter := rfl, lineStart := rfl }

lemma emitItem (h : s.Alike k s') (kind : DataKind) {o o' : Operand} (ho : o.Alike k o') :
    (State.emitItem kind s o).Alike k (State.emitItem kind s' o') := by
  have he := ho.eval h.symbols
  unfold State.emitItem
  generalize o.eval s.symbols = r at he ⊢
  generalize o'.eval s'.symbols = r' at he ⊢
  cases he with
  | error hz => exact h.reportZero hz
  | ok v =>
    rcases v with _ | value
    · exact h.log _ _
    · simp only
      split
      · exact h.report (by rfl) ho.loc
      · exact h.emit _

/-- Steps for things that are alike, one after the other. -/
lemma foldl {α : Type} {R : α → α → Prop} {f f' : State → α → State} {as as' : List α}
    (hf : ∀ {t t' : State} {a a' : α}, t.Alike k t' → R a a' → (f t a).Alike k (f' t' a'))
    (has : List.Forall₂ R as as') (h : s.Alike k s') :
    (as.foldl f s).Alike k (as'.foldl f' s') := by
  induction has generalizing s s' with
  | nil => exact h
  | cons ha _ ih => exact ih (hf h ha)

lemma emitData (h : s.Alike k s') (kind : DataKind) :
    (s.emitData kind).Alike k (s'.emitData kind) :=
  foldl (fun ht ho => ht.emitItem kind ho) (List.rel_reverse h.operands) (h.withOperands .nil)

lemma assign (h : s.Alike k s') (name : String) {l l' : Location} (hl : k.place l l') :
    (s.assign name l).Alike k (s'.assign name l') := by
  have hop := h.operands
  unfold State.assign
  generalize s.operands = os at hop ⊢
  generalize s'.operands = os' at hop ⊢
  cases hop with
  | nil => exact h.report rfl hl
  | @cons o o' rest rest' ho hrest =>
    have ht := h.withOperands hrest
    have he := ho.eval h.symbols
    simp only
    generalize o.eval s.symbols = r at he ⊢
    generalize o'.eval s'.symbols = r' at he ⊢
    cases he with
    | error hz => exact ht.reportZero hz
    | ok v =>
      rcases v with _ | value
      · exact ht.report (by rfl) hl
      · exact ht.define name value hl

lemma codeLine (h : s.Alike k s') (label : Option String) {ts ts' : List String}
    {l l' : Location} (hts : List.Forall₂ k.text ts ts') :
    (s.codeLine label ts l).Alike k (s'.codeLine label ts' l') := by
  refine ⟨?_, ?_, rfl, ts, ts', hts, rfl, rfl⟩
  · simp only [State.codeLine, h.lineStart, h.counter]
  · simp only [State.codeLine, h.lineStart, h.counter]

lemma endLine (h : s.Alike k s') (label : Option String) {ts ts' : List String}
    {l l' : Location} (hts : List.Forall₂ k.text ts ts') (hl : k.place l l') :
    (s.endLine label ts l).Alike k (s'.endLine label ts' l') := by
  have hline : (s.codeLine label ts l).Alike k (s'.codeLine label ts' l') := h.codeLine label hts
  -- the two checks of a line come out the same
  obtain ⟨t, t', ht, hs, hs'⟩ : ∃ t t' : State, t.Alike k t' ∧
      s.endLine label ts l = { t with
        codeLines := t.codeLines.push (s.codeLine label ts l)
        operands := []
        lineStart := none
        overwrites := false } ∧
      s'.endLine label ts' l' = { t' with
        codeLines := t'.codeLines.push (s'.codeLine label ts' l')
        operands := []
        lineStart := none
        overwrites := false } := by
    refine ⟨_, _, ?_, rfl, rfl⟩
    rw [← hline.start, ← hline.length, ← h.counter]
    have hfault := h.report (f := .lineOutOfRange (s.codeLine label ts l).start) rfl hl
    have hroom := ite (p := ((s.codeLine label ts l).length > 0 &&
      s.counter > maxAddress + 1) = true) hfault h
    rw [← hroom.overwrites]
    exact ite (hroom.log _ _) hroom
  rw [hs, hs']
  exact { ht with
    codeLines := forall₂_push ht.codeLines hline
    operands := .nil
    lineStart := rfl
    overwrites := rfl }

lemma step (h : s.Alike k s') {v v' : Visit} (hv : v.Alike k v') :
    (s.step v).Alike k (s'.step v') := by
  cases hv with
  | number hl => exact h.push (.number hl)
  | symbol hl => exact h.push (.symbol hl)
  | binary hl => exact h.combine _ hl
  | string hl => exact h.pushString _ hl
  | label hl =>
    simp only [State.step, h.counter]
    exact h.define _ _ hl
  | origin hl => exact h.setOrigin hl
  | data hl => exact h.emitData _
  | assign hl => exact h.assign _ hl
  | statement hl => exact h.encode _ _ hl
  | line hts hl => exact h.endLine _ hts hl

lemma run (h : s.Alike k s') {vs vs' : List Visit} (hvs : List.Forall₂ (Visit.Alike k) vs vs') :
    (s.run vs).Alike k (s'.run vs') :=
  foldl (fun ht hv => ht.step hv) hvs h

/-! ### What had to wait -/

lemma applyDeferred (h : s.Alike k s') {p p' : DeferredPatch} (hp : p.Alike k p') :
    (s.applyDeferred p).Alike k (s'.applyDeferred p') := by
  have he := hp.operand.eval h.symbols
  unfold State.applyDeferred
  rw [← hp.opcode, ← hp.width, ← hp.address]
  generalize p.operand.eval s.symbols = r at he ⊢
  generalize p'.operand.eval s'.symbols = r' at he ⊢
  cases he with
  | error hz => exact h.reportZero hz
  | ok v =>
    rcases v with _ | value
    · exact h.report (by rfl) hp.loc
    · have ht := h.patch p.address p.opcode
      simp only
      split
      · exact ht.report (by rfl) hp.loc
      · split
        · exact (ht.patch _ _).patch _ _
        · exact ht.patch _ _

lemma resolveDeferred (h : s.Alike k s') : s.resolveDeferred.Alike k s'.resolveDeferred := by
  have hstart : ({ s with deferred := #[] } : State).Alike k { s' with deferred := #[] } :=
    { h with deferred := .nil }
  unfold State.resolveDeferred
  simp only [← Array.foldl_toList]
  exact foldl (fun ht hp => ht.applyDeferred hp) h.deferred (hstart.log _ _)

lemma applyBranch (h : s.Alike k s') {p p' : BranchPatch} (hp : p.Alike k p') :
    (s.applyBranch p).Alike k (s'.applyBranch p') := by
  have he := hp.target.eval h.symbols
  have hoffset : ∀ target, branchOffset p target = branchOffset p' target := by
    intro target
    simp only [branchOffset, hp.address]
  unfold State.applyBranch
  simp only [hoffset, hp.address]
  generalize p.target.eval s.symbols = r at he ⊢
  generalize p'.target.eval s'.symbols = r' at he ⊢
  cases he with
  | error hz => exact h.reportZero hz
  | ok v =>
    rcases v with _ | target
    · exact h.report (by rfl) hp.target.loc
    · simp only
      split
      · exact h.patch _ _
      · exact h.report (by rfl) hp.target.loc

lemma resolveBranches (h : s.Alike k s') : s.resolveBranches.Alike k s'.resolveBranches := by
  have hstart : ({ s with branches := #[] } : State).Alike k { s' with branches := #[] } :=
    { h with branches := .nil }
  unfold State.resolveBranches
  simp only [← Array.foldl_toList]
  exact foldl (fun ht hp => ht.applyBranch hp) h.branches (hstart.log _ _)

end Alike

end Assembly.State

/-! ### Blocks -/

namespace Memory

variable {payload : Payload}

/-- Drafts of the same blocks, whose last lines stop at the same address. -/
structure Draft.Alike (d d' : Draft) : Prop where
  blocks : d.blocks = d'.blocks
  current : d.current = d'.current
  start : d.start = d'.start
  previous : d.previous.map CodeLine.stop = d'.previous.map CodeLine.stop

lemma Draft.Alike.add {d d' : Draft} (h : d.Alike d') {l l' : CodeLine} (hl : l.Alike k l') :
    (d.add payload l).Alike (d'.add payload l') := by
  have hstop : l.stop = l'.stop := by rw [CodeLine.stop, CodeLine.stop, hl.start, hl.length]
  have haddresses : l.addresses = l'.addresses := by
    rw [CodeLine.addresses, CodeLine.addresses, hl.start, hl.length]
  have hgoes : d.previous.any (·.stop = l.start) = d'.previous.any (·.stop = l'.start) := by
    have hany (o : Option CodeLine) (a : UInt32) :
        o.any (·.stop = a) = (o.map CodeLine.stop).any (· = a) := by cases o <;> rfl
    rw [hany, hany, h.previous, hl.start]
  have hclose : d.close = d'.close := by
    rw [Draft.close, Draft.close, h.blocks, h.current, h.start]
  simp only [Draft.add, hgoes, haddresses]
  split
  · exact ⟨h.blocks, by rw [h.current], h.start, congrArg some hstop⟩
  · exact ⟨hclose, rfl, hl.start, congrArg some hstop⟩

/-- Where lines start and how long they are is all that blocks are made from. -/
lemma build_alike (payload : Payload) {lines lines' : List CodeLine}
    (h : List.Forall₂ (CodeLine.Alike k) lines lines') :
    build lines payload = build lines' payload := by
  have hfold : ∀ d d' : Draft, d.Alike d' →
      (lines.foldl (Draft.add payload) d).close = (lines'.foldl (Draft.add payload) d').close := by
    induction h with
    | nil =>
      intro d d' hd
      rw [List.foldl_nil, List.foldl_nil, Draft.close, Draft.close, hd.blocks, hd.current, hd.start]
    | cons hl _ ih => exact fun d d' hd => ih _ _ (hd.add hl)
  rw [build, build, hfold .empty .empty ⟨rfl, rfl, rfl, rfl⟩]

end Memory

/-! ### Results -/

namespace Assembly

/-- The same memory and the same symbols, and lines that are alike. -/
structure Alike (k : Likeness) (a a' : Assembly) : Prop where
  blocks : a.blocks = a'.blocks
  codeLines : List.Forall₂ (CodeLine.Alike k) a.codeLines a'.codeLines
  symbols : a.symbols.value? = a'.symbols.value?

lemma walk_alike (file file' : String) {lines lines' : List Line}
    {faults faults' : List Diagnostic} (hlines : List.Forall₂ (Line.Alike k) lines lines')
    (hfaults : List.Forall₂ (Diagnostic.Akin k) faults faults') :
    (walk (.init file) lines faults).Alike k (walk (.init file') lines' faults') := by
  have hstart :
      ({ State.init file with faults := (State.init file).faults ++ faults } : State).Alike k
        { State.init file' with faults := (State.init file').faults ++ faults' } :=
    ⟨rfl, rfl, .nil, .nil, rfl, rfl, rfl, .nil, .nil, by simpa [State.init] using hfaults⟩
  have hvisits : List.Forall₂ (Visit.Alike k) (lines.flatMap Line.visits)
      (lines'.flatMap Line.visits) := List.rel_flatMap hlines fun l l' hl => hl.visits
  exact ((hstart.log _ _).run hvisits).resolveDeferred.resolveBranches

lemma State.Alike.clean_iff {s s' : State} (h : s.Alike k s') : s.Clean ↔ s'.Clean := by
  rw [State.Clean, State.Clean, ← Array.toList_eq_nil_iff, ← Array.toList_eq_nil_iff,
    ← List.length_eq_zero_iff, ← List.length_eq_zero_iff, h.faults.length_eq]

lemma finish_alike {s s' : State} (h : s.Alike k s') {a : Assembly}
    (ha : (finish s).value = .ok a) : ∃ a', (finish s').value = .ok a' ∧ a.Alike k a' := by
  obtain ⟨hclean, rfl⟩ := finish_eq_ok.mp ha
  refine ⟨_, finish_eq_ok.mpr ⟨h.clean_iff.mp hclean, rfl⟩, ?_, h.codeLines, h.symbols⟩
  simp only [h.payload]
  exact Memory.build_alike s'.payload h.codeLines

end Assembly

end CrossAsm
