import Mathlib.Tactic.Common
import CrossAsm.Proofs.Encoding

/-!
What the body of a line does to a state that agrees with the first pass, and when it does so
without a fault: data, origins and assignments next to statements.
-/

namespace CrossAsm

namespace Assembly.State

open TwoPass

variable {s : State} {t : Progress} {p : Placed}

/-! ### Data -/

/-- The state without its log. -/
def quiet (s : State) : State := { s with events := #[] }

lemma quiet_emit (s : State) (bytes : List UInt8) : (s.emit bytes).quiet = s.quiet.emit bytes := by
  induction bytes generalizing s with
  | nil => rfl
  | cons x rest ih => rw [emit_cons, emit_cons, ih]; rfl

lemma Performs.of_quiet {s₁ s₂ : State} {names : Names} (h : Performs s s₁ p names)
    (hq : s₂.quiet = s₁.quiet) : Performs s s₂ p names where
  names := by rw [← h.names]; exact congrArg (·.symbols.value?) hq
  payload := by rw [← h.payload]; exact congrArg (·.payload) hq
  deferred := by rw [← h.deferred]; exact congrArg (·.deferred.toList) hq
  branches := by rw [← h.branches]; exact congrArg (·.branches.toList) hq
  codeLines := by rw [← h.codeLines]; exact congrArg (·.codeLines) hq
  counter := by rw [← h.counter]; exact congrArg (·.counter) hq
  start := by rw [← h.start]; exact congrArg (fun u => u.lineStart.getD u.counter) hq
  overwrites := by rw [← h.overwrites]; exact congrArg (·.overwrites) hq

/-- The bytes of one value of a data directive. -/
def itemBytes (kind : DataKind) : Meaning → List UInt8
  | .value v => kind.bytes v
  | _ => []

variable (kind : DataKind)

lemma emitItem_symbols (o : Operand) : (s.emitItem kind o).symbols = s.symbols := by
  unfold emitItem
  split
  · split
    · rfl
    · exact emit_symbols s _
  · rfl
  · rfl

lemma clean_emitItem (o : Operand) : (s.emitItem kind o).Clean ↔
    s.Clean ∧ (o.meaning s.symbols).mayFit kind.maxValue = true := by
  rcases hm : o.meaning s.symbols with v | _ | _
  · simp only [emitItem, Operand.eval_of_value hm, Meaning.mayFit]
    by_cases hv : v.toNat ≤ kind.maxValue
    · rw [if_neg (by omega)]
      simp [hv]
    · rw [if_pos (by omega)]
      simp [hv, not_clean_report]
  · simp [emitItem, Operand.eval_of_unknown hm, Meaning.mayFit]
  · obtain ⟨z, hz⟩ := Operand.eval_of_undefined hm
    simp [emitItem, hz, Meaning.mayFit, not_clean_reportZero]

lemma quiet_emitItem {o : Operand} (h : (o.meaning s.symbols).mayFit kind.maxValue = true) :
    (s.emitItem kind o).quiet = s.quiet.emit (itemBytes kind (o.meaning s.symbols)) := by
  rcases hm : o.meaning s.symbols with v | _ | _
  · have hv : ¬v.toNat > kind.maxValue := by simpa [hm, Meaning.mayFit] using h
    simp only [emitItem, Operand.eval_of_value hm, if_neg hv]
    exact quiet_emit s _
  · simp only [emitItem, Operand.eval_of_unknown hm]
    rfl
  · simp [hm, Meaning.mayFit] at h

lemma clean_emitItems (os : List Operand) : (os.foldl (emitItem kind) s).Clean ↔
    s.Clean ∧ ∀ o ∈ os, (o.meaning s.symbols).mayFit kind.maxValue = true :=
  clean_foldl (P := fun t o => (o.meaning t).mayFit kind.maxValue = true)
    (fun _ o => emitItem_symbols kind o) (fun _ o => clean_emitItem kind o) os

lemma quiet_emitItems {os : List Operand}
    (h : ∀ o ∈ os, (o.meaning s.symbols).mayFit kind.maxValue = true) :
    (os.foldl (emitItem kind) s).quiet =
      s.quiet.emit (os.flatMap fun o => itemBytes kind (o.meaning s.symbols)) := by
  induction os generalizing s with
  | nil => rfl
  | cons o rest ih =>
    obtain ⟨ho, hrest⟩ := List.forall_mem_cons.mp h
    rw [List.foldl_cons, ih (by rwa [emitItem_symbols]), quiet_emitItem kind ho, emitItem_symbols,
      List.flatMap_cons, emit_append]

lemma perform_data (hs : s.operands = []) (items : List DataItem) (loc : Location) :
    s.perform (some (.directive (.data kind items loc))) =
      (items.flatMap DataItem.operands).foldl (emitItem kind) s := by
  simp only [perform, step, Body.root, Body.operands, emitData]
  rw [pushAll_nil_of_empty hs]
  simp [pushAll, hs]

end Assembly.State

/-- The bytes of an entry, from its operands and from the values it contributes. -/
lemma DataItem.itemBytes_operands (kind : DataKind) (t : SymbolTable) (i : DataItem) :
    (i.operands.flatMap fun o => Assembly.State.itemBytes kind (o.meaning t)) =
      (i.values t.value? t.value?).flatMap kind.encode := by
  cases i with
  | expr e =>
    simp only [operands, values, List.flatMap_cons, List.flatMap_nil, List.append_nil,
      e.meaning_toOperand]
    rcases e.meaning t.value? with v | _ | _ <;>
      simp [Assembly.State.itemBytes, Meaning.isKnown, DataKind.encode_toNat]
  | string text loc =>
    simp only [operands, values, List.flatMap_map, Operand.meaning_number, DataKind.encode_toNat,
      Assembly.State.itemBytes]

namespace Assembly.State

open TwoPass

variable {s : State} {t : Progress} {p : Placed} (kind : DataKind)

lemma forall_operands_iff (h : s.Meets t) (items : List DataItem) (P : Meaning → Prop) :
    (∀ o ∈ items.flatMap DataItem.operands, P (o.meaning s.symbols)) ↔
      ∀ m ∈ items.flatMap (·.meanings t.names), P m := by
  have hmap : (items.flatMap DataItem.operands).map (·.meaning s.symbols) =
      items.flatMap (·.meanings t.names) := by
    simp only [List.map_flatMap, DataItem.map_meaning_operands, h.names]
  rw [← hmap, List.forall_mem_map]

lemma clean_data (h : s.Meets t) (items : List DataItem) (loc : Location) :
    (s.perform (some (.directive (.data kind items loc)))).Clean ↔
      s.Clean ∧ ∀ m ∈ items.flatMap (·.meanings t.names), m.mayFit kind.maxValue = true := by
  rw [perform_data kind h.operands, clean_emitItems,
    forall_operands_iff h items fun m => m.mayFit kind.maxValue = true]

lemma performs_data (h : s.Meets t) (hp : p.start = t.counter) (hk : p.known = t.names)
    {items : List DataItem} {loc : Location}
    (hbody : p.line.body = some (.directive (.data kind items loc)))
    (hfit : ∀ m ∈ items.flatMap (·.meanings t.names), m.mayFit kind.maxValue = true) :
    Performs s (s.perform (some (.directive (.data kind items loc)))) p t.names := by
  have hw : p.walked = (items.flatMap DataItem.operands).flatMap
      fun o => itemBytes kind (o.meaning s.symbols) := by
    simp only [Placed.walked, hbody, Body.bytes, hk, ← h.names, List.flatMap_assoc,
      DataItem.itemBytes_operands]
  refine (performs_emit h hp (by simp [Placed.deferred, hbody])
    (by simp [Placed.branches, hbody])).of_quiet ?_
  rw [perform_data kind h.operands, quiet_emit, hw]
  exact quiet_emitItems kind
    ((forall_operands_iff h items fun m => m.mayFit kind.maxValue = true).mpr hfit)

/-! ### Origins and assignments -/

/-- A body that stores nothing, and leaves the start of the line where the counter is. -/
lemma performs_empty {s' : State} {names : Names} (hw : p.walked = []) (hsize : p.size = 0)
    (hd : p.deferred = []) (hb : p.branches = []) (hn : s'.symbols.value? = names)
    (hpay : s'.payload = s.payload) (hdef : s'.deferred = s.deferred)
    (hbr : s'.branches = s.branches) (hcode : s'.codeLines = s.codeLines)
    (hcounter : s'.counter = UInt32.ofNat p.start)
    (hstart : s'.lineStart.getD s'.counter = s'.counter)
    (hover : s'.overwrites = s.overwrites) : Performs s s' p names where
  names := hn
  payload := by rw [hw, hpay, Payload.fill_nil]
  deferred := by rw [hd, hdef, List.append_nil]
  branches := by rw [hb, hbr, List.append_nil]
  codeLines := hcode
  counter := by rw [hsize, hcounter, Nat.add_zero]
  start := by rw [hstart, hcounter]
  overwrites := by rw [hw, hover, Payload.hits, Bool.or_false]

section Directive

variable {e : Expr} {loc : Location} {name : String}

lemma perform_origin (hs : s.operands = []) :
    s.perform (some (.directive (.origin e loc))) =
      match e.toOperand.eval s.symbols with
      | .ok (some address) =>
        if address > maxAddress then s.report (.originOutOfRange address) e.toOperand.loc
        else { s.log (.originSet address) with counter := address, lineStart := some address }
      | .ok none => s.log (.originIgnored loc.line e.toOperand.text)
      | .error z => s.reportZero z := by
  have hop : (s.pushAll [e.toOperand]).operands = [e.toOperand] := by simp [pushAll, hs]
  simp only [perform, step, Body.root, Body.operands, setOrigin, hop]
  rw [pushAll_nil_of_empty hs]
  rfl

lemma clean_origin (h : s.Meets t) :
    (s.perform (some (.directive (.origin e loc)))).Clean ↔
      s.Clean ∧ (e.meaning t.names).mayFit 0xFFFF = true := by
  rw [perform_origin h.operands, ← h.meaning e]
  rcases hm : e.toOperand.meaning s.symbols with v | _ | _
  · simp only [Operand.eval_of_value hm, Meaning.mayFit, maxAddress, gt_word_iff]
    split
    · next hv => simp [not_clean_report, Nat.not_le.mpr hv]
    · next hv => simp [Clean, log, Nat.not_lt.mp hv]
  · simp [Operand.eval_of_unknown hm, Meaning.mayFit]
  · obtain ⟨z, hz⟩ := Operand.eval_of_undefined hm
    simp [hz, Meaning.mayFit, not_clean_reportZero]

lemma performs_origin (h : s.Meets t)
    (hp : p.start = (t.direct (some (.directive (.origin e loc)))).counter)
    (hbody : p.line.body = some (.directive (.origin e loc)))
    (hfit : (e.meaning t.names).mayFit 0xFFFF = true) :
    Performs s (s.perform (some (.directive (.origin e loc)))) p t.names := by
  have hw : p.walked = [] := by simp [Placed.walked, hbody, Body.bytes]
  have hsize : p.size = 0 := by simp [Placed.size, hbody, Body.size]
  have hd : p.deferred = [] := by simp [Placed.deferred, hbody]
  have hb : p.branches = [] := by simp [Placed.branches, hbody]
  rw [perform_origin h.operands]
  have hmean := h.meaning e
  rcases hm : e.meaning t.names with v | _ | _
  · rw [hm] at hmean
    have hv : ¬v > maxAddress := by
      simpa [hm, Meaning.mayFit, maxAddress, gt_word_iff] using hfit
    have hstart : p.start = v.toNat := by simp [hp, Progress.direct, hm]
    simp only [Operand.eval_of_value hmean, if_neg hv]
    exact performs_empty hw hsize hd hb h.names rfl rfl rfl rfl (by simp [hstart]) rfl rfl
  · rw [hm] at hmean
    have hstart : p.start = t.counter := by simp [hp, Progress.direct, hm]
    simp only [Operand.eval_of_unknown hmean]
    refine performs_empty hw hsize hd hb h.names rfl rfl rfl rfl ?_ ?_ rfl
    · rw [hstart]
      exact h.counter
    · simp [log, h.lineStart]
  · simp [hm, Meaning.mayFit] at hfit

lemma perform_assign (hs : s.operands = []) :
    s.perform (some (.directive (.assign name e loc))) =
      match e.toOperand.eval s.symbols with
      | .ok (some value) => s.define name value loc
      | .ok none => s.report (.unresolvedAssignment e.toOperand.text) loc
      | .error z => s.reportZero z := by
  have hop : (s.pushAll [e.toOperand]).operands = [e.toOperand] := by simp [pushAll, hs]
  simp only [perform, step, Body.root, Body.operands, assign, hop]
  rw [pushAll_nil_of_empty hs]
  rfl

lemma clean_assign (h : s.Meets t) :
    (s.perform (some (.directive (.assign name e loc)))).Clean ↔
      s.Clean ∧ (e.meaning t.names).isKnown = true ∧ t.names name = none := by
  rw [perform_assign h.operands, ← h.meaning e, ← h.names]
  rcases hm : e.toOperand.meaning s.symbols with v | _ | _
  · simp [Operand.eval_of_value hm, Meaning.isKnown, clean_define]
  · simp [Operand.eval_of_unknown hm, Meaning.isKnown, not_clean_report]
  · obtain ⟨z, hz⟩ := Operand.eval_of_undefined hm
    simp [hz, Meaning.isKnown, not_clean_reportZero]

lemma performs_assign (h : s.Meets t)
    (hp : p.start = (t.direct (some (.directive (.assign name e loc)))).counter)
    (hbody : p.line.body = some (.directive (.assign name e loc)))
    (hknown : (e.meaning t.names).isKnown = true) (hfresh : t.names name = none) :
    Performs s (s.perform (some (.directive (.assign name e loc)))) p
      (t.direct (some (.directive (.assign name e loc)))).names := by
  rcases hm : e.meaning t.names with v | _ | _
  · have hfr : s.symbols.value? name = none := by rw [h.names, hfresh]
    have hstart : p.start = t.counter := by simp [hp, Progress.direct, hm, Progress.define]
    have hmean : e.toOperand.meaning s.symbols = .value v := (h.meaning e).trans hm
    rw [perform_assign h.operands]
    simp only [Operand.eval_of_value hmean]
    refine performs_empty (by simp [Placed.walked, hbody, Body.bytes])
      (by simp [Placed.size, hbody, Body.size]) (by simp [Placed.deferred, hbody])
      (by simp [Placed.branches, hbody]) ?_ ?_ ?_ ?_ ?_ ?_ ?_ ?_
    · rw [names_define_of_fresh name v loc hfr, h.names]
      simp [Progress.direct, hm, Progress.define]
    all_goals rw [define_of_fresh name v loc hfr]
    all_goals simp [log, hstart, h.counter, h.lineStart]
  · simp [hm, Meaning.isKnown] at hknown
  · simp [hm, Meaning.isKnown] at hknown

end Directive

end Assembly.State

/-! ### All bodies -/

namespace TwoPass.Placed

/-- The line goes through when it is met. -/
def Walks (p : Placed) : Prop :=
  match p.line.body with
  | none => True
  | some (.directive (.origin e _)) => (e.meaning p.known).mayFit 0xFFFF = true
  | some (.directive (.data kind items _)) =>
    ∀ m ∈ items.flatMap (·.meanings p.known), m.mayFit kind.maxValue = true
  | some (.directive (.assign name e _)) =>
    (e.meaning p.known).isKnown = true ∧ p.known name = none
  | some (.statement s) => s.mode = .relative ∨ (s.meaning p.known).mayFit s.limit = true

end TwoPass.Placed

namespace Assembly.State

open TwoPass

variable {s : State} {t : Progress} {l : Line}

/-- The body of a line is without a fault just if the first pass says so. -/
lemma clean_perform (h : s.Meets t) (hl : l.Sound) :
    (s.perform l.body).Clean ↔
      s.Clean ∧ Placed.Walks ⟨l, (t.direct l.body).counter, t.names⟩ := by
  unfold Placed.Walks
  simp only
  split
  · next hb => simp [hb, perform]
  · next hb => rw [hb]; exact clean_origin h
  · next hb => rw [hb]; exact clean_data _ h _ _
  · next hb => rw [hb]; exact clean_assign h
  · next st hb => rw [hb]; exact clean_statement h (hl _ hb)

/-- The body of a line that goes through does what the first pass says. -/
lemma performs_perform (h : s.Meets t) (hl : l.Sound)
    (hw : Placed.Walks ⟨l, (t.direct l.body).counter, t.names⟩) :
    Performs s (s.perform l.body) ⟨l, (t.direct l.body).counter, t.names⟩
      (t.direct l.body).names := by
  unfold Placed.Walks at hw
  simp only at hw
  split at hw
  · next hb =>
    refine performs_empty (by simp [Placed.walked, hb]) (by simp [Placed.size, hb])
      (by simp [Placed.deferred, hb]) (by simp [Placed.branches, hb]) ?_ ?_ ?_ ?_ ?_ ?_ ?_ ?_
    all_goals simp [hb, perform, Progress.direct, h.names, h.counter, h.lineStart]
  · next e loc hb =>
    have hn : (t.direct l.body).names = t.names := by
      simp only [hb, Progress.direct]
      split <;> rfl
    rw [hn]
    simp only [hb]
    exact performs_origin h rfl hb hw
  · next kind items loc hb =>
    simp only [hb]
    exact performs_data kind h rfl rfl hb hw
  · next name e loc hb =>
    simp only [hb]
    exact performs_assign h rfl hb hw.1 hw.2
  · next st hb =>
    simp only [hb]
    exact performs_statement h (hl _ hb) rfl rfl hb hw

end Assembly.State

end CrossAsm
