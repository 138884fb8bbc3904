import Mathlib.Tactic.Common
import CrossAsm.Proofs.Emission
import CrossAsm.Proofs.Meaning

/-!
Definitions of symbols. A table gives what the first definition of a name said, and a second one is
a fault. A state is clean as long as nothing was reported.
-/

namespace CrossAsm

namespace SymbolTable

lemma value?_empty : SymbolTable.empty.value? = Names.empty := by
  funext n
  simp [value?, resolve, empty, Names.empty]

lemma resolve_insert (t : SymbolTable) (s : Symbol) (n : String) :
    (⟨t.entries.insert s.name s⟩ : SymbolTable).resolve n =
      if n = s.name then some s else t.resolve n := by
  simp only [resolve, Std.TreeMap.getElem?_insert, Std.compare_eq_iff_eq]
  by_cases h : n = s.name
  · subst h
    simp
  · rw [if_neg h, if_neg fun e => h e.symm]

lemma value?_eq_none {t : SymbolTable} {n : String} : t.value? n = none ↔ t.resolve n = none := by
  simp [value?]

lemma define_fresh {t : SymbolTable} {s : Symbol} (h : t.value? s.name = none) :
    t.define s = .ok ⟨t.entries.insert s.name s⟩ := by
  rw [value?_eq_none] at h
  simp [define, h]

lemma value?_insert_fresh {t : SymbolTable} {s : Symbol} (h : t.value? s.name = none) :
    (⟨t.entries.insert s.name s⟩ : SymbolTable).value? = Names.define t.value? s.name s.value := by
  funext n
  rw [Names.define_of_fresh s.value h]
  simp only [value?, resolve_insert]
  split <;> rfl

end SymbolTable

namespace Assembly.State

variable (s : State)

/-- Nothing was reported so far. -/
def Clean : Prop := s.faults = #[]

variable {s}

lemma not_clean_report (f : Fault) (loc : Location) : ¬(s.report f loc).Clean := by
  simp [Clean, report]

lemma not_clean_reportZero (z : ZeroDivision) : ¬(s.reportZero z).Clean :=
  not_clean_report z.fault z.loc

lemma clean_of_faults {t : State} (h : t.faults = s.faults) : t.Clean ↔ s.Clean := by
  unfold Clean
  rw [h]

@[simp] lemma clean_log (e : Event) : (s.log e).Clean ↔ s.Clean := clean_of_faults rfl

@[simp] lemma clean_emit (bytes : List UInt8) : (s.emit bytes).Clean ↔ s.Clean :=
  clean_of_faults (emit_faults s bytes)

@[simp] lemma clean_reserve (width : Nat) : (s.reserve width).Clean ↔ s.Clean :=
  clean_of_faults (reserve_faults s width)

/-- Steps that check something against the symbols, and leave these alone. -/
lemma clean_foldl {α : Type} {f : State → α → State} {P : SymbolTable → α → Prop}
    (hsymbols : ∀ (t : State) (a : α), (f t a).symbols = t.symbols)
    (hclean : ∀ (t : State) (a : α), (f t a).Clean ↔ t.Clean ∧ P t.symbols a) (l : List α) :
    (l.foldl f s).Clean ↔ s.Clean ∧ ∀ a ∈ l, P s.symbols a := by
  induction l generalizing s with
  | nil => simp
  | cons a rest ih =>
    rw [List.foldl_cons, ih, hclean, hsymbols, List.forall_mem_cons, and_assoc]

section Define

variable (name : String) (value : UInt32) (loc : Location)

/-- A definition that is no repetition changes the table and the log, and nothing else. -/
lemma define_of_fresh (h : s.symbols.value? name = none) : s.define name value loc =
    { s with
      symbols := ⟨s.symbols.entries.insert name ⟨name, value, loc.line, loc.column⟩⟩ }.log
        (.symbolDefined name value loc.line) := by
  simp only [define]
  rw [SymbolTable.define_fresh (s := ⟨name, value, loc.line, loc.column⟩) h]
  rfl

lemma names_define_of_fresh (h : s.symbols.value? name = none) :
    (s.define name value loc).symbols.value? = Names.define s.symbols.value? name value := by
  rw [define_of_fresh name value loc h]
  exact SymbolTable.value?_insert_fresh (s := ⟨name, value, loc.line, loc.column⟩) h

lemma clean_define : (s.define name value loc).Clean ↔
    s.Clean ∧ s.symbols.value? name = none := by
  rcases h : s.symbols.resolve name with _ | previous
  · have hv : s.symbols.value? name = none := SymbolTable.value?_eq_none.mpr h
    rw [define_of_fresh name value loc hv]
    exact ⟨fun hc => ⟨hc, hv⟩, fun hc => hc.1⟩
  · have hdef : s.define name value loc =
        s.report (.redefinition name s.file previous.line previous.column) loc := by
      simp only [define, SymbolTable.define, h]
    rw [hdef]
    simp [not_clean_report, SymbolTable.value?, h]

end Define

end Assembly.State

end CrossAsm
