import Mathlib.Tactic.Common
import CrossAsm.Proofs.Bodies
import CrossAsm.Proofs.Faults

/-!
The walk over the lines of a program follows the first pass: after every line the counter and the
symbols are those of the first pass, the payload holds what the lines so far stored, and the two
lists hold what they left for the end. It does so as long as nothing is reported, and a fault is
reported as soon as a line does not pass.
-/

namespace CrossAsm

/-! ### Sizes -/

lemma Statement.size_le {s : Statement} (h : s.Sound) (known : Names) :
    s.size known ≤ 2 * s.weight := by
  by_cases hi : s.mode = .implied
  · simp only [size, hi, weight]
    omega
  · obtain ⟨e, he⟩ := h.operand_of_hasOperand hi
    have hw : s.weight = 2 := by simp [weight, he]
    rw [hw]
    cases hm : s.mode <;> simp only [size, hm]
    all_goals first | omega | (split <;> omega)

lemma DataItem.totalCount_le (known : Names) (items : List DataItem) :
    DataItem.totalCount known items ≤ DataItem.totalWeight items := by
  induction items with
  | nil => exact Nat.le_refl 0
  | cons i rest ih =>
    have hi : i.count known ≤ i.weight := by
      cases i with
      | expr e => simp only [count, weight]; split <;> omega
      | string text loc => exact Nat.le_refl _
    simp only [totalCount, totalWeight]
    omega

namespace TwoPass

namespace Placed

/-- What is stored when the line is met. -/
def stored (p : Placed) : Write := ⟨p.start, p.walked⟩

/-- A line takes at most two bytes for each value and word in it. -/
lemma size_le {p : Placed} (h : p.line.Sound) : p.size ≤ 2 * p.line.weight := by
  unfold size Line.weight
  rcases hb : p.line.body with _ | (⟨e, loc⟩ | ⟨kind, items, loc⟩ | ⟨name, e, loc⟩) | s
  · exact Nat.zero_le _
  · exact Nat.zero_le _
  · have hcount := DataItem.totalCount_le p.known items
    cases kind <;> simp only [Option.elim, Body.size, Body.weight, DataKind.width] <;> omega
  · exact Nat.zero_le _
  · exact Statement.size_le (h _ hb) p.known

end Placed

namespace Progress

/-- The line can be met now: its label is new, it goes through, and its bytes have room. -/
structure Passes (t : Progress) (l : Line) : Prop where
  label : ∀ label ∈ l.label, t.names label.name = none
  walks : (t.placed l).Walks
  room : 0 < (t.placed l).size → (t.placed l).start + (t.placed l).size ≤ 0x10000

lemma enter_counter (t : Progress) (l : Line) : (t.enter l).counter = t.counter := by
  unfold enter
  cases l.label <;> rfl

/-- A line starts where the counter stands or where its origin says. -/
lemma start_le {t : Progress} {l : Line} (ht : t.counter ≤ 0x10000) (hw : (t.placed l).Walks) :
    (t.placed l).start ≤ 0x10000 := by
  have hc := t.enter_counter l
  simp only [placed, Placed.Walks] at hw ⊢
  rcases hb : l.body with _ | (⟨e, loc⟩ | ⟨kind, items, loc⟩ | ⟨name, e, loc⟩) | s
  · simp only [direct]
    omega
  · rw [hb] at hw
    simp only [direct]
    split
    · next v hm =>
      have : v.toNat ≤ 0xFFFF := by simpa [hm, Meaning.mayFit] using hw
      simp only
      omega
    · omega
  · simp only [direct]
    omega
  · simp only [direct]
    split
    · simp only [define]
      omega
    · omega
  · simp only [direct]
    omega

lemma after_counter (t : Progress) (l : Line) :
    (t.after l).counter = (t.placed l).start + (t.placed l).size := rfl

lemma Passes.after_le {t : Progress} {l : Line} (h : t.Passes l) (ht : t.counter ≤ 0x10000) :
    (t.after l).counter ≤ 0x10000 := by
  rw [after_counter]
  rcases Nat.eq_zero_or_pos (t.placed l).size with h0 | hpos
  · have := start_le ht h.walks
    omega
  · exact h.room hpos

end Progress

/-- All lines can be met one after the other. -/
def PassesAll : Progress → List Line → Prop
  | _, [] => True
  | t, l :: rest => t.Passes l ∧ PassesAll (t.after l) rest

end TwoPass

/-! ### One line -/

namespace Assembly.State

open TwoPass

variable {s : State} {t : Progress} {l : Line} {done : List Placed}

/-- The state between two lines, when `done` are the lines so far. -/
structure Follows (s : State) (t : Progress) (done : List Placed) : Prop where
  meets : s.Meets t
  inRange : t.counter ≤ 0x10000
  payload : s.payload = (done.map Placed.stored).foldl .store .empty
  codeLines : s.codeLines.toList = done.map Placed.codeLine
  deferred : s.deferred.toList = done.flatMap Placed.deferred
  branches : s.branches.toList = done.flatMap Placed.branches

/-- What is clean in the end was clean before. -/
lemma Extends.clean {s s' : State} (h : s'.Extends s.faults.toList) (hs : s'.Clean) : s.Clean := by
  obtain ⟨added, hfaults, -⟩ := h
  rw [Clean] at hs
  rw [hs] at hfaults
  have hnil : s.faults.toList = [] := (List.append_eq_nil_iff.mp hfaults.symm).1
  exact Array.toList_eq_nil_iff.mp hnil

lemma clean_enter (h : s.Meets t) :
    (s.enter l).Clean ↔ s.Clean ∧ ∀ label ∈ l.label, t.names label.name = none := by
  unfold enter
  rcases hl : l.label with _ | label
  · simp
  · simp [clean_define, h.names]

/-- A new label changes the table and the log, and nothing else. -/
lemma enter_eq (h : s.Meets t) (hfresh : ∀ label ∈ l.label, t.names label.name = none) :
    ∃ symbols events, s.enter l = { s with symbols := symbols, events := events } ∧
      symbols.value? = (t.enter l).names := by
  unfold enter Progress.enter
  rcases hl : l.label with _ | label
  · exact ⟨s.symbols, s.events, rfl, h.names⟩
  · have hf : s.symbols.value? label.name = none := by
      rw [h.names]
      exact hfresh label hl
    have hdef := define_of_fresh label.name s.counter label.loc hf
    have hnames := names_define_of_fresh label.name s.counter label.loc hf
    refine ⟨(s.define label.name s.counter label.loc).symbols,
      (s.define label.name s.counter label.loc).events, ?_, ?_⟩
    · simp only [Option.elim]
      rw [hdef]
      rfl
    · rw [hnames, h.names, h.counter]
      rfl

lemma Meets.enter (h : s.Meets t) (hfresh : ∀ label ∈ l.label, t.names label.name = none) :
    (s.enter l).Meets (t.enter l) := by
  obtain ⟨symbols, events, he, hnames⟩ := enter_eq h hfresh
  rw [he]
  exact ⟨by rw [t.enter_counter]; exact h.counter, hnames, h.operands, h.lineStart⟩

section EndLine

variable (label : Option String) (terminals : List String) (loc : Location)

/-- The end of a line adds its record. A fault or a log entry apart, nothing else changes. -/
lemma endLine_eq (s : State) : ∃ faults events,
    s.endLine label terminals loc =
      { s with
        codeLines := s.codeLines.push (s.codeLine label terminals loc)
        operands := []
        lineStart := none
        overwrites := false
        faults := faults
        events := events } := by
  simp only [endLine]
  split <;> split <;> exact ⟨_, _, rfl⟩

lemma clean_endLine : (s.endLine label terminals loc).Clean ↔
    s.Clean ∧ ((s.codeLine label terminals loc).length > 0 → ¬s.counter > maxAddress + 1) := by
  have hc : (s.endLine label terminals loc).Clean ↔
      (if (s.codeLine label terminals loc).length > 0 && s.counter > maxAddress + 1 then
        s.report (.lineOutOfRange (s.codeLine label terminals loc).start) loc else s).Clean := by
    apply clean_of_faults
    simp only [endLine]
    split <;> split <;> rfl
  rw [hc]
  by_cases h1 : (s.codeLine label terminals loc).length > 0
  · by_cases h2 : s.counter > maxAddress + 1 <;> simp [h1, h2, not_clean_report]
  · simp [h1]

end EndLine

lemma ofNat_pos_iff {n : Nat} (h : n < 0x100000000) : UInt32.ofNat n > 0 ↔ 0 < n := by
  rw [gt_iff_lt, UInt32.lt_iff_toNat_lt, UInt32.toNat_ofNat_of_lt' h]
  rfl

lemma ofNat_gt_iff {n : Nat} (h : n < 0x100000000) :
    UInt32.ofNat n > maxAddress + 1 ↔ 0x10000 < n := by
  rw [gt_iff_lt, UInt32.lt_iff_toNat_lt, UInt32.toNat_ofNat_of_lt' h]
  rfl

lemma Performs.codeLine {s' : State} {p : Placed} {names : Names} (h : Performs s s' p names) :
    s'.codeLine (p.line.label.map (·.name)) p.line.terminals p.line.loc = p.codeLine := by
  have hlen : s'.counter - UInt32.ofNat p.start = UInt32.ofNat p.size := by
    rw [h.counter, UInt32.ofNat_add, UInt32.add_comm, UInt32.add_sub_cancel]
  simp only [State.codeLine, Placed.codeLine, h.start, hlen]

section Line

variable (h : s.Follows t done) (hl : l.Sound) (hsize : 2 * l.weight ≤ 0x80000000)

include h hl

lemma clean_enter_of_line (hc : (s.run l.visits).Clean) : (s.enter l).Clean := by
  have hop : (s.enter l).operands = [] := by rw [enter_operands, h.meets.operands]
  rw [run_line] at hc
  exact (((extends_self (s.enter l)).perform hop hl).endLine _ _ _).clean hc

include hsize

/-- A line is without a fault just if it passes. -/
lemma clean_line : (s.run l.visits).Clean ↔ s.Clean ∧ t.Passes l := by
  by_cases hlabel : ∀ label ∈ l.label, t.names label.name = none
  · have hmeets := h.meets.enter hlabel
    rw [run_line, clean_endLine, clean_perform hmeets hl, clean_enter h.meets]
    by_cases hwalks : (t.placed l).Walks
    · have hp := performs_perform hmeets hl hwalks
      have hstart := Progress.start_le h.inRange hwalks
      have hle : (t.placed l).size ≤ 2 * l.weight := Placed.size_le hl
      have hroom : (UInt32.ofNat (t.placed l).size > 0 →
          ¬UInt32.ofNat ((t.placed l).start + (t.placed l).size) > maxAddress + 1) ↔
          (0 < (t.placed l).size → (t.placed l).start + (t.placed l).size ≤ 0x10000) := by
        rw [ofNat_pos_iff (by omega), ofNat_gt_iff (by omega), Nat.not_lt]
      rw [hp.codeLine, hp.counter]
      refine ⟨?_, ?_⟩
      · rintro ⟨⟨⟨hs, -⟩, -⟩, hr⟩
        exact ⟨hs, hlabel, hwalks, hroom.mp hr⟩
      · rintro ⟨hs, -, -, hr⟩
        exact ⟨⟨⟨hs, hlabel⟩, hwalks⟩, hroom.mpr hr⟩
    · refine ⟨?_, ?_⟩
      · rintro ⟨⟨-, hw⟩, -⟩
        exact absurd hw hwalks
      · rintro ⟨-, hpass⟩
        exact absurd hpass.walks hwalks
  · -- a label that is known already is a fault before the body is met
    refine ⟨?_, ?_⟩
    · intro hc
      exact absurd ((clean_enter h.meets).mp (clean_enter_of_line h hl hc)).2 hlabel
    · rintro ⟨-, hpass⟩
      exact absurd hpass.label hlabel

omit hsize in
/-- A line that passes takes the state one line further. -/
lemma follows_line (hpass : t.Passes l) :
    (s.run l.visits).Follows (t.after l) (done ++ [t.placed l]) := by
  have hp := performs_perform (h.meets.enter hpass.label) hl hpass.walks
  obtain ⟨symbols, events, henter, -⟩ := enter_eq h.meets hpass.label
  have hpay : (s.enter l).payload = s.payload := by rw [henter]
  have hcode : (s.enter l).codeLines = s.codeLines := by rw [henter]
  have hdef : (s.enter l).deferred = s.deferred := by rw [henter]
  have hbr : (s.enter l).branches = s.branches := by rw [henter]
  rw [run_line]
  obtain ⟨faults, events', hend⟩ := endLine_eq (l.label.map (·.name)) l.terminals l.loc
    ((s.enter l).perform l.body)
  rw [hend]
  refine ⟨?_, ?_, ?_, ?_, ?_, ?_⟩
  · exact ⟨hp.counter, hp.names, rfl, rfl⟩
  · exact hpass.after_le h.inRange
  · simp only [List.map_append, List.foldl_append, ← h.payload, ← hpay]
    exact hp.payload
  · simp only [Array.toList_push, List.map_append, ← h.codeLines, ← hcode, hp.codeLines]
    rw [hp.codeLine]
    rfl
  · simp only [List.flatMap_append, ← h.deferred, ← hdef, hp.deferred]
    simp [Progress.placed]
  · simp only [List.flatMap_append, ← h.branches, ← hbr, hp.branches]
    simp [Progress.placed]

end Line

/-! ### All lines -/

section Lines

variable {lines : List Line}

lemma follows_lines (h : s.Follows t done) (hl : ∀ l ∈ lines, l.Sound) (hpass : PassesAll t lines) :
    (s.run (lines.flatMap Line.visits)).Follows (final t lines) (done ++ layout t lines) := by
  induction lines generalizing s t done with
  | nil => simpa [final, layout] using h
  | cons l rest ih =>
    obtain ⟨hpl, hprest⟩ := hpass
    have hrest := ih (follows_line h (hl l List.mem_cons_self) hpl)
      (fun m hm => hl m (List.mem_cons_of_mem l hm)) hprest
    rw [run_lines_cons]
    simpa [final, layout] using hrest

/-- The walk is without a fault just if all lines pass. -/
lemma clean_lines (h : s.Follows t done) (hl : ∀ l ∈ lines, l.Sound)
    (hsize : 2 * Line.totalWeight lines ≤ 0x80000000) :
    (s.run (lines.flatMap Line.visits)).Clean ↔ s.Clean ∧ PassesAll t lines := by
  induction lines generalizing s t done with
  | nil => simp [PassesAll]
  | cons l rest ih =>
    have hl0 : l.Sound := hl l List.mem_cons_self
    have hlrest : ∀ m ∈ rest, m.Sound := fun m hm => hl m (List.mem_cons_of_mem l hm)
    simp only [Line.totalWeight] at hsize
    have hline := clean_line h hl0 (by omega)
    rw [run_lines_cons]
    by_cases hpass : t.Passes l
    · rw [ih (follows_line h hl0 hpass) hlrest (by omega), hline, PassesAll, and_assoc]
    · -- faults stay, so what follows cannot make up for this line
      refine ⟨?_, ?_⟩
      · intro hc
        have hop : (s.run l.visits).operands = [] := by rw [run_line, endLine_operands]
        have hfirst := ((extends_self (s.run l.visits)).run_lines hop hlrest).clean hc
        exact absurd (hline.mp hfirst).2 hpass
      · rintro ⟨-, hall⟩
        exact absurd hall.1 hpass

end Lines

/-- Nothing is done before the first line. -/
lemma follows_start (file : String) (faults : Array Diagnostic) (events : Array Event) :
    ({ State.init file with faults := faults, events := events } : State).Follows .init [] where
  meets := ⟨rfl, SymbolTable.value?_empty, rfl, rfl⟩
  inRange := Nat.zero_le _
  payload := rfl
  codeLines := rfl
  deferred := rfl
  branches := rfl

end Assembly.State

end CrossAsm
