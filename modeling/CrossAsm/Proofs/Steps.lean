import Mathlib.Tactic.Common
import CrossAsm.Proofs.Emission
import CrossAsm.Proofs.Stack

/-!
What a visit can do. First it may note something, which stores no byte: it takes operands or puts
them on the stack, defines a symbol, reports a fault or logs an event. Then it emits bytes, leaves
an operand or a branch for later, moves the counter or ends the line. Main statement: `does_step`,
for every visit in every state. What the visits of a program keep follows from it.
-/

namespace CrossAsm

namespace Event

def isOverwriting : Event → Bool
  | lineOverwrites .. => true
  | _ => false

/-- The lines that were logged to overwrite something, in order. -/
def overwritings (events : List Event) : List Event := events.filter isOverwriting

lemma overwritings_push (events : Array Event) {e : Event} (he : e.isOverwriting = false) :
    overwritings (events.push e).toList = overwritings events.toList := by
  simp [overwritings, he]

end Event

def Visit.endsLine : Visit → Bool
  | .line .. => true
  | _ => false

lemma Body.endsLine_root (b : Body) : b.root.endsLine = false := by
  rcases b with (_ | _ | _) | s <;> rfl

lemma DataKind.length_bytes_le (kind : DataKind) (value : UInt32) :
    (kind.bytes value).length ≤ 2 := by
  cases kind <;> simp [bytes, wordBytes]

lemma Mode.hasOperand_of_shape {mode : Mode} (h : mode.shape ≠ .empty) :
    mode.hasOperand = true := by
  cases mode <;> first | rfl | exact absurd rfl h

namespace Assembly.State

/-- The faults are those of `base` and then some, and what was added is about the text. -/
def Extends (base : List Diagnostic) (s : State) : Prop :=
  ∃ added : List Diagnostic, s.faults.toList = base ++ added ∧
    ∀ d ∈ added, d.code ≠ .internalError

/-- From `s` to `t` something is noted: nothing is stored or left for later, the counter stays
where it is, and no line ends. Whoever is ready reports only what is about the text. -/
structure Notes (s t : State) (ready : Prop) : Prop where
  file : t.file = s.file
  payload : t.payload = s.payload
  codeLines : t.codeLines = s.codeLines
  counter : t.counter = s.counter
  lineStart : t.lineStart = s.lineStart
  deferred : t.deferred = s.deferred
  branches : t.branches = s.branches
  overwritings : Event.overwritings t.events.toList = Event.overwritings s.events.toList
  faults : ready → t.Extends s.faults.toList

/-- The visit finds what it needs: its operands on the stack, and an opcode. -/
def Ready (s : State) : Visit → Prop
  | .binary .. => 2 ≤ s.operands.length
  | .origin _ | .assign .. => s.operands ≠ []
  | .statement mnemonic mode _ =>
    Instruction.supports mnemonic mode = true ∧ (mode.hasOperand = true → s.operands ≠ [])
  | _ => True

/-- The most bytes that the visit may store: two for each operand, and the opcode. -/
def mostBytes (s : State) : Visit → Nat
  | .data .. => 2 * s.operands.length
  | .statement .. => 1 + 2 * s.operands.length
  | _ => 0

/-- What a visit can make of a state. -/
inductive Does (s : State) : Visit → State → Prop
  | emits {v : Visit} {t : State} {bytes : List UInt8} (h : s.Notes t (s.Ready v))
      (hroom : bytes.length ≤ s.mostBytes v) : Does s v (t.emit bytes)
  | defers {mnemonic : String} {mode : Mode} {loc : Location} {t : State} {opcode : UInt8}
      {width : Nat} {operand : Operand} (h : s.Notes t (s.Ready (.statement mnemonic mode loc)))
      (hwidth : width = 2 ∨ width = 3)
      (hroom : width ≤ s.mostBytes (.statement mnemonic mode loc)) :
      Does s (.statement mnemonic mode loc) (t.defer opcode width operand loc)
  | branches {mnemonic : String} {mode : Mode} {loc : Location} {t : State} {opcode : UInt8}
      {target : Operand} (h : s.Notes t (s.Ready (.statement mnemonic mode loc)))
      (hroom : 2 ≤ s.mostBytes (.statement mnemonic mode loc)) :
      Does s (.statement mnemonic mode loc) (t.encodeBranch opcode mnemonic target)
  | moves {loc : Location} {t : State} {address : UInt32} (h : s.Notes t (s.Ready (.origin loc)))
      (haddress : address ≤ maxAddress) :
      Does s (.origin loc) { t with counter := address, lineStart := some address }
  | ends {label : Option String} {terminals : List String} {loc : Location} :
      Does s (.line label terminals loc) (s.endLine label terminals loc)

/-! ### Notes -/

section Extends

variable {base : List Diagnostic} {s t : State}

lemma extends_self (s : State) : s.Extends s.faults.toList := ⟨[], by simp, by simp⟩

lemma Extends.of_faults (h : s.Extends base) (ht : t.faults = s.faults) : t.Extends base := by
  unfold Extends
  rw [ht]
  exact h

lemma Extends.trans (h : s.Extends base) (ht : t.Extends s.faults.toList) : t.Extends base := by
  obtain ⟨added, hfaults, hcode⟩ := h
  obtain ⟨more, hmore, hcode'⟩ := ht
  refine ⟨added ++ more, by rw [hmore, hfaults, List.append_assoc], ?_⟩
  intro d hd
  exact (List.mem_append.mp hd).elim (hcode d) (hcode' d)

lemma Extends.report (h : s.Extends base) {f : Fault} (hf : f.code ≠ .internalError)
    (loc : Location) : (s.report f loc).Extends base := by
  refine h.trans ⟨[f.diagnose loc], by simp [State.report], ?_⟩
  intro d hd
  rw [List.mem_singleton.mp hd]
  exact hf

lemma Extends.reportZero (h : s.Extends base) (z : ZeroDivision) : (s.reportZero z).Extends base :=
  h.report (by simp [ZeroDivision.fault, Fault.code]) z.loc

end Extends

namespace Notes

variable {s t : State} {ready : Prop}

lemma refl (s : State) : s.Notes s ready :=
  ⟨rfl, rfl, rfl, rfl, rfl, rfl, rfl, rfl, fun _ => extends_self s⟩

lemma log (h : s.Notes t ready) {e : Event} (he : e.isOverwriting = false) :
    s.Notes (t.log e) ready :=
  { h with overwritings := (Event.overwritings_push t.events he).trans h.overwritings }

lemma report (h : s.Notes t ready) {f : Fault} (hf : ready → f.code ≠ .internalError)
    (loc : Location) : s.Notes (t.report f loc) ready :=
  { h with faults := fun hr => (h.faults hr).report (hf hr) loc }

/-- Most faults are about the text, whatever the visit finds. -/
lemma reportText (h : s.Notes t ready) {f : Fault} (hf : f.code ≠ .internalError)
    (loc : Location) : s.Notes (t.report f loc) ready :=
  h.report (fun _ => hf) loc

lemma reportZero (h : s.Notes t ready) (z : ZeroDivision) : s.Notes (t.reportZero z) ready :=
  { h with faults := fun hr => (h.faults hr).reportZero z }

lemma withOperands (h : s.Notes t ready) (os : List Operand) :
    s.Notes { t with operands := os } ready := { h with }

lemma define (h : s.Notes t ready) (name : String) (value : UInt32) (loc : Location) :
    s.Notes (t.define name value loc) ready := by
  simp only [State.define]
  split
  · next symbols _ =>
    have hsymbols : s.Notes { t with symbols := symbols } ready := { h with }
    exact hsymbols.log rfl
  · exact h.reportText (by simp [Fault.code]) loc

/-- To note something is all that a visit may do. -/
lemma does {v : Visit} (h : s.Notes t (s.Ready v)) : s.Does v t :=
  @Does.emits s v t [] h (Nat.zero_le _)

end Notes

/-! ### Instructions -/

section Instructions

variable {s t : State} {mnemonic : String} {mode : Mode} {loc : Location}

lemma Notes.does_emit (h : s.Notes t (s.Ready (.statement mnemonic mode loc)))
    (hroom : 3 ≤ s.mostBytes (.statement mnemonic mode loc)) {bytes : List UInt8}
    (hbytes : bytes.length ≤ 3) : s.Does (.statement mnemonic mode loc) (t.emit bytes) :=
  .emits h (Nat.le_trans hbytes hroom)

variable (h : s.Notes t (s.Ready (.statement mnemonic mode loc)))
  (hroom : 3 ≤ s.mostBytes (.statement mnemonic mode loc))

include h hroom

lemma does_encodeByte (opcode : UInt8) (operand : Operand) :
    s.Does (.statement mnemonic mode loc) (t.encodeByte opcode operand loc) := by
  unfold encodeByte
  split
  · next value _ =>
    simp only
    split
    · exact (h.reportText (by simp [Fault.code]) loc).does_emit hroom (by simp)
    · exact h.does_emit hroom (by simp)
  · exact .defers h (.inl rfl) (by omega)
  · exact (h.reportZero _).does_emit hroom (by simp)

lemma does_encodeWide (opcode : UInt8) (operand : Operand) (value : UInt32) :
    s.Does (.statement mnemonic mode loc) (t.encodeWide opcode operand value loc) := by
  unfold encodeWide
  split
  · exact (h.reportText (by simp [Fault.code]) loc).does_emit hroom (by simp)
  · exact h.does_emit hroom (by simp [wordBytes])

lemma does_encodeNarrow (opcode : UInt8) (operand : Operand) (value : UInt32) :
    s.Does (.statement mnemonic mode loc) (t.encodeNarrow opcode operand value loc) := by
  unfold encodeNarrow
  split
  · exact (h.reportText (by simp [Fault.code]) loc).does_emit hroom (by simp)
  · exact h.does_emit hroom (by simp)

variable {codes : Instruction.Opcodes} (hcodes : codes.full.isSome || codes.zeroPage.isSome)

include hcodes

lemma does_encodeKnown (operand : Operand) (value : UInt32) :
    s.Does (.statement mnemonic mode loc) (t.encodeKnown codes mnemonic operand value loc) := by
  unfold encodeKnown
  split
  · split
    · exact h.does_emit hroom (by simp)
    · exact does_encodeWide h hroom _ _ _
  · exact does_encodeWide h hroom _ _ _
  · exact does_encodeNarrow h hroom _ _ _
  · next hfull hzeroPage => simp [hfull, hzeroPage] at hcodes

lemma does_encodeAddress (operand : Operand) :
    s.Does (.statement mnemonic mode loc) (t.encodeAddress codes mnemonic operand loc) := by
  unfold encodeAddress
  split
  · exact does_encodeKnown h hroom hcodes _ _
  · split
    · exact .defers h (.inr rfl) (by omega)
    · exact .defers h (.inl rfl) (by omega)
    · next hfull hzeroPage => simp [hfull, hzeroPage] at hcodes
  · refine (h.reportZero _).does_emit hroom ?_
    split <;> simp

end Instructions

variable (s : State)

/-- An operand pays for two bytes, and the opcode for the third. -/
lemma does_withOperand {mnemonic : String} {mode : Mode} {loc : Location}
    (hmode : mode.hasOperand = true) {f : State → Operand → State}
    (hf : ∀ t o, s.Notes t (s.Ready (.statement mnemonic mode loc)) →
      3 ≤ s.mostBytes (.statement mnemonic mode loc) →
      s.Does (.statement mnemonic mode loc) (f t o)) :
    s.Does (.statement mnemonic mode loc) (s.withOperand mnemonic loc f) := by
  unfold withOperand
  split
  · next hnil => exact ((Notes.refl s).report (fun hr => absurd hnil (hr.2 hmode)) loc).does
  · next operand rest hoperands =>
    refine hf _ operand ((Notes.refl s).withOperands rest) ?_
    simp only [mostBytes, hoperands, List.length_cons]
    omega

lemma does_encode (mnemonic : String) (mode : Mode) (loc : Location) :
    s.Does (.statement mnemonic mode loc) (s.encode mnemonic mode loc) := by
  simp only [encode]
  split
  · next hsupported =>
    split
    · exact .emits (Notes.refl s) (by simp [mostBytes])
    · next hshape _ =>
      exact s.does_withOperand (Mode.hasOperand_of_shape (by simp [hshape])) fun t o h hroom =>
        .branches h (by omega)
    · next hshape _ =>
      exact s.does_withOperand (Mode.hasOperand_of_shape (by simp [hshape])) fun t o h hroom =>
        does_encodeByte h hroom _ _
    · next hshape =>
      exact s.does_withOperand (Mode.hasOperand_of_shape (by simp [hshape])) fun t o h hroom =>
        does_encodeAddress h hroom hsupported _
    · exact (Notes.refl s).does
  · next hsupported => exact ((Notes.refl s).report (fun hr => absurd hr.1 hsupported) loc).does

/-! ### Directives -/

lemma does_setOrigin (loc : Location) : s.Does (.origin loc) (s.setOrigin loc) := by
  unfold setOrigin
  split
  · next hnil => exact ((Notes.refl s).report (fun hr => absurd hnil hr) loc).does
  · next origin rest _ =>
    have hrest : s.Notes { s with operands := rest } (s.Ready (.origin loc)) :=
      (Notes.refl s).withOperands rest
    simp only
    split
    · split
      · exact (hrest.reportText (by simp [Fault.code]) _).does
      · next hle => exact .moves (hrest.log rfl) (UInt32.not_lt.mp hle)
    · exact (hrest.log rfl).does
    · exact (hrest.reportZero _).does

lemma does_assign (name : String) (loc : Location) :
    s.Does (.assign name loc) (s.assign name loc) := by
  unfold assign
  split
  · next hnil => exact ((Notes.refl s).report (fun hr => absurd hnil hr) loc).does
  · next operand rest _ =>
    have hrest : s.Notes { s with operands := rest } (s.Ready (.assign name loc)) :=
      (Notes.refl s).withOperands rest
    simp only
    split
    · exact (hrest.define _ _ _).does
    · exact (hrest.reportText (by simp [Fault.code]) _).does
    · exact (hrest.reportZero _).does

lemma emit_report (bytes : List UInt8) (f : Fault) (loc : Location) :
    (s.emit bytes).report f loc = (s.report f loc).emit bytes := by
  simp only [emit_eq, report]

lemma emit_log (bytes : List UInt8) (e : Event) : (s.emit bytes).log e = (s.log e).emit bytes := by
  simp only [emit_eq, log]

variable {s}

/-- Behind bytes that are emitted already, an item notes something or emits some more. -/
lemma exists_emitItem {t : State} {ready : Prop} (h : s.Notes t ready) (kind : DataKind)
    (bytes : List UInt8) (item : Operand) :
    ∃ u more, s.Notes u ready ∧ more.length ≤ 2 ∧
      (t.emit bytes).emitItem kind item = u.emit (bytes ++ more) := by
  unfold emitItem
  split
  · split
    · refine ⟨_, [], ?_, by simp, by rw [List.append_nil, emit_report]⟩
      exact h.reportText (by simp [Fault.code]) _
    · exact ⟨_, _, h, kind.length_bytes_le _, (emit_append t bytes _).symm⟩
  · exact ⟨_, [], h.log rfl, by simp, by rw [List.append_nil, emit_log]⟩
  · exact ⟨_, [], h.reportZero _, by simp, by rw [List.append_nil, reportZero, emit_report]; rfl⟩

lemma exists_emitItems {t : State} {ready : Prop} (h : s.Notes t ready) (kind : DataKind)
    (bytes : List UInt8) (items : List Operand) :
    ∃ u more, s.Notes u ready ∧ more.length ≤ 2 * items.length ∧
      items.foldl (emitItem kind) (t.emit bytes) = u.emit (bytes ++ more) := by
  induction items generalizing t bytes with
  | nil => exact ⟨t, [], h, by simp, by rw [List.append_nil]; rfl⟩
  | cons item rest ih =>
    obtain ⟨u, first, hu, hfirst, hitem⟩ := exists_emitItem h kind bytes item
    obtain ⟨w, more, hw, hmore, hrest⟩ := ih hu (bytes ++ first)
    refine ⟨w, first ++ more, hw, ?_, ?_⟩
    · rw [List.length_append, List.length_cons]
      omega
    · rw [List.foldl_cons, hitem, hrest, List.append_assoc]

variable (s)

lemma does_emitData (kind : DataKind) (loc : Location) :
    s.Does (.data kind loc) (s.emitData kind) := by
  obtain ⟨t, bytes, h, hlength, heq⟩ :=
    exists_emitItems ((Notes.refl s).withOperands []) kind [] s.operands.reverse
  rw [List.length_reverse] at hlength
  rw [emitData, ← emit_nil { s with operands := [] }, heq]
  exact .emits h hlength

/-- **What a visit does**, in every state. -/
lemma does_step (v : Visit) : s.Does v (s.step v) := by
  cases v with
  | number value loc => exact ((Notes.refl s).withOperands _).does
  | symbol name loc => exact ((Notes.refl s).withOperands _).does
  | binary op loc =>
    have hmissing (hshort : ¬2 ≤ s.operands.length) : s.Does (.binary op loc)
        ({ s with operands := [] }.report (.missingOperands op) loc) :=
      (((Notes.refl s).withOperands []).report (fun hr => absurd hr hshort) loc).does
    rw [step, combine]
    rcases hoperands : s.operands with _ | ⟨right, _ | ⟨left, rest⟩⟩
    · exact hmissing (by simp [hoperands])
    · exact hmissing (by simp [hoperands])
    · exact ((Notes.refl s).withOperands _).does
  | string text loc =>
    rw [step, pushString_eq]
    exact ((Notes.refl s).withOperands _).does
  | label name loc => exact ((Notes.refl s).define _ _ _).does
  | origin loc => exact s.does_setOrigin loc
  | data kind loc => exact s.does_emitData kind loc
  | assign name loc => exact s.does_assign name loc
  | statement mnemonic mode loc => exact s.does_encode mnemonic mode loc
  | line label terminals loc => exact .ends

/-! ### Before the body of a line -/

lemma notes_pushAll (os : List Operand) : s.Notes (s.pushAll os) True :=
  (Notes.refl s).withOperands _

lemma notes_enter (l : Line) : s.Notes (s.enter l) True := by
  unfold enter
  cases l.label with
  | none => exact Notes.refl s
  | some label => exact (Notes.refl s).define _ _ _

end Assembly.State

end CrossAsm
