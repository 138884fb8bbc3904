import Mathlib.Tactic.Common
import CrossAsm.Proofs.Outcome

/-!
Which programs are assembled. The conditions are those of the two passes: names are defined once,
assignments and origins are judged by the names known before them, and operands and branch targets
by all names. It makes no difference when an operand is looked at, because a meaning that does not
wait for names stays what it is.
-/

namespace CrossAsm

/-! ### Names on the way -/

namespace Names

lemma define_eq_none {names : Names} {name n : String} {value : UInt32} :
    names.define name value n = none ↔ names n = none ∧ n ≠ name := by
  simp only [define, Option.or_eq_none_iff, ite_eq_right_iff, reduceCtorEq, imp_false, ne_eq]

/-- The list has no name twice and none that is known. -/
def AreNew (names : Names) (l : List String) : Prop := l.Nodup ∧ ∀ n ∈ l, names n = none

lemma areNew_append {names : Names} {l m : List String} : names.AreNew (l ++ m) ↔
    names.AreNew l ∧ m.Nodup ∧ ∀ n ∈ m, names n = none ∧ n ∉ l := by
  simp only [AreNew, List.nodup_append, List.mem_append]
  refine ⟨?_, ?_⟩
  · rintro ⟨⟨hl, hm, hne⟩, hnone⟩
    exact ⟨⟨hl, fun n hn => hnone n (.inl hn)⟩, hm,
      fun n hn => ⟨hnone n (.inr hn), fun hmem => hne n hmem n hn rfl⟩⟩
  · rintro ⟨⟨hl, hnone⟩, hm, hrest⟩
    refine ⟨⟨hl, hm, ?_⟩, ?_⟩
    · rintro a ha b hb rfl
      exact (hrest a hb).2 ha
    · rintro n (hn | hn)
      · exact hnone n hn
      · exact (hrest n hn).1

end Names

namespace TwoPass

variable {t : Progress} {l : Line} {lines : List Line}

namespace Progress

/-- The line defines names that are new, its label before its assignment. -/
def Fresh (t : Progress) (l : Line) : Prop :=
  (∀ n ∈ l.labelName, t.names n = none) ∧ ∀ n ∈ l.assigned, (t.enter l).names n = none

lemma names_within_enter (t : Progress) (l : Line) : t.names.Within (t.enter l).names := by
  unfold enter
  cases l.label with
  | none => exact Names.Within.refl _
  | some label => exact t.names.within_define _ _

lemma enter_within_after (t : Progress) (l : Line) :
    (t.enter l).names.Within (t.after l).names := by
  simp only [after, direct]
  split
  · split
    · exact Names.Within.refl _
    · exact Names.Within.refl _
  · split
    · exact (t.enter l).names.within_define _ _
    · exact Names.Within.refl _
  · exact Names.Within.refl _

lemma enter_eq_none {n : String} :
    (t.enter l).names n = none ↔ t.names n = none ∧ n ∉ l.labelName := by
  unfold enter Line.labelName
  cases l.label with
  | none => simp
  | some label => simp [define, Names.define_eq_none]

/-- A line whose assignment is known defines its names and no others. -/
lemma after_eq_none {n : String} (hknown : ∀ name e loc,
    l.body = some (.directive (.assign name e loc)) →
      (e.meaning (t.enter l).names).isKnown = true) :
    (t.after l).names n = none ↔ t.names n = none ∧ n ∉ l.definitions := by
  have hassigned : (t.after l).names n = none ↔
      (t.enter l).names n = none ∧ n ∉ l.assigned := by
    rcases hb : l.body with _ | (⟨e, loc⟩ | ⟨kind, items, loc⟩ | ⟨name, e, loc⟩) | s
    · simp [after, direct, Line.assigned, hb]
    · have hsame : (t.after l).names = (t.enter l).names := by
        simp only [after, direct, hb]
        split <;> rfl
      simp [hsame, Line.assigned, hb]
    · simp [after, direct, Line.assigned, hb]
    · have hk := hknown name e loc hb
      rcases hm : e.meaning (t.enter l).names with v | _ | _
      · have hdef : (t.after l).names = (t.enter l).names.define name v := by
          simp only [after, direct, hb, hm]
          rfl
        simp [hdef, Names.define_eq_none, Line.assigned, hb]
      · simp [hm, Meaning.isKnown] at hk
      · simp [hm, Meaning.isKnown] at hk
    · simp [after, direct, Line.assigned, hb]
  rw [hassigned, enter_eq_none, Line.definitions, List.mem_append, not_or, and_assoc]

lemma fresh_iff : t.Fresh l ↔ t.names.AreNew l.definitions := by
  have hlabel : l.labelName.Nodup := by
    unfold Line.labelName
    cases l.label <;> simp
  have hassigned : l.assigned.Nodup := by
    unfold Line.assigned
    split <;> simp
  rw [Line.definitions, Names.areNew_append]
  simp only [Fresh, enter_eq_none, Names.AreNew, hlabel, hassigned, true_and]

end Progress

/-- Every line defines new names. -/
def FreshAll : Progress → List Line → Prop
  | _, [] => True
  | t, l :: rest => t.Fresh l ∧ FreshAll (t.after l) rest

/-- The assignments of a layout are known when they are met. -/
def Assigned (placed : List Placed) : Prop := ∀ p ∈ placed, ∀ name e loc,
  p.line.body = some (.directive (.assign name e loc)) → (e.meaning p.known).isKnown = true

/-- Names are new each time just if they are all different and were unknown before. -/
lemma freshAll_iff (h : Assigned (layout t lines)) :
    FreshAll t lines ↔ t.names.AreNew (lines.flatMap Line.definitions) := by
  induction lines generalizing t with
  | nil => simp [FreshAll, Names.AreNew]
  | cons l rest ih =>
    obtain ⟨hl, hrest⟩ := List.forall_mem_cons.mp h
    have hafter (n : String) : (t.after l).names n = none ↔ t.names n = none ∧ n ∉ l.definitions :=
      Progress.after_eq_none hl
    rw [FreshAll, Progress.fresh_iff, ih hrest, List.flatMap_cons, Names.areNew_append]
    simp only [Names.AreNew, hafter]

lemma names_within_final (t : Progress) (lines : List Line) :
    t.names.Within (final t lines).names := by
  induction lines generalizing t with
  | nil => exact Names.Within.refl _
  | cons l rest ih =>
    exact ((t.names_within_enter l).trans (t.enter_within_after l)).trans (ih (t.after l))

/-- What is known when a line is met is known in the end. -/
lemma known_within_final {p : Placed} (hp : p ∈ layout t lines) :
    p.known.Within (final t lines).names := by
  induction lines generalizing t with
  | nil => simp [layout] at hp
  | cons l rest ih =>
    rcases List.mem_cons.mp hp with rfl | hp
    · exact (t.enter_within_after l).trans (names_within_final (t.after l) rest)
    · exact ih hp

/-! ### One line -/

namespace Placed

variable {p : Placed} {all : Names}

/-- What is asked of a line when it is met, apart from its names. -/
structure Allowed (p : Placed) : Prop where
  assignment : ∀ name e loc, p.line.body = some (.directive (.assign name e loc)) →
    (e.meaning p.known).isKnown = true
  origin : ∀ e loc, p.line.body = some (.directive (.origin e loc)) →
    (e.meaning p.known).mayFit 0xFFFF = true
  entries : ∀ kind items loc, p.line.body = some (.directive (.data kind items loc)) →
    ∀ m ∈ items.flatMap (·.meanings p.known), m.mayFit kind.maxValue = true
  operand : ∀ s, p.line.body = some (.statement s) → s.mode ≠ .relative →
    (s.meaning p.known).mayFit s.limit = true

lemma walks_iff : p.Walks ↔ (∀ n ∈ p.line.assigned, p.known n = none) ∧ p.Allowed := by
  unfold Walks Line.assigned
  rcases hb : p.line.body with _ | (⟨e, loc⟩ | ⟨kind, items, loc⟩ | ⟨name, e, loc⟩) | s
  · refine ⟨?_, ?_⟩
    · intro _
      exact ⟨by simp, by simp [hb], by simp [hb], by simp [hb], by simp [hb]⟩
    · exact fun _ => trivial
  · refine ⟨?_, ?_⟩
    · intro h
      exact ⟨by simp, by simp [hb], by simpa [hb] using h, by simp [hb], by simp [hb]⟩
    · intro h
      exact h.2.origin e loc hb
  · refine ⟨?_, ?_⟩
    · intro h
      refine ⟨by simp, by simp [hb], by simp [hb], ?_, by simp [hb]⟩
      intro kind' items' loc' hb'
      obtain ⟨rfl, rfl, -⟩ : kind = kind' ∧ items = items' ∧ loc = loc' := by simpa [hb] using hb'
      exact h
    · intro h
      exact h.2.entries kind items loc hb
  · refine ⟨?_, ?_⟩
    · rintro ⟨hk, hn⟩
      refine ⟨by simpa using hn, ?_, by simp [hb], by simp [hb], by simp [hb]⟩
      intro name' e' loc' hb'
      obtain ⟨rfl, rfl, -⟩ : name = name' ∧ e = e' ∧ loc = loc' := by simpa [hb] using hb'
      exact hk
    · intro h
      exact ⟨h.2.assignment name e loc hb, h.1 name (by simp)⟩
  · refine ⟨?_, ?_⟩
    · intro h
      refine ⟨by simp, by simp [hb], by simp [hb], by simp [hb], ?_⟩
      intro s' hb' hr
      obtain rfl : s = s' := by simpa [hb] using hb'
      exact h.resolve_left hr
    · intro h
      by_cases hr : s.mode = .relative
      · exact .inl hr
      · exact .inr (h.2.operand s hb hr)

/-- An operand may be looked at when it is met, and again in the end if it was unknown then; or
only in the end. -/
lemma operand_iff (hw : p.known.Within all) {s : Statement} (hs : s.Sound)
    (hi : s.mode ≠ .implied) :
    ((s.meaning p.known).mayFit s.limit = true ∧
      (s.meaning p.known = .unknown → (s.meaning all).fits s.limit = true)) ↔
      (s.meaning all).fits s.limit = true := by
  obtain ⟨e, he⟩ := hs.operand_of_hasOperand hi
  rw [s.meaning_of_operand he, s.meaning_of_operand he]
  rcases hm : e.meaning p.known with v | _ | _
  · simp [Expr.meaning_value_within hw hm, Meaning.mayFit, Meaning.fits]
  · simp [Meaning.mayFit]
  · simp [Expr.meaning_undefined_within hw hm, Meaning.mayFit, Meaning.fits]

end Placed

lemma passes_iff : t.Passes l ↔ t.Fresh l ∧ (t.placed l).Allowed ∧
    (0 < (t.placed l).size → (t.placed l).start + (t.placed l).size ≤ 0x10000) := by
  have hlabel : (∀ label ∈ l.label, t.names label.name = none) ↔
      ∀ n ∈ l.labelName, t.names n = none := by
    unfold Line.labelName
    cases l.label with
    | none => simp
    | some label => simp
  refine ⟨?_, ?_⟩
  · rintro ⟨hnew, hwalks, hroom⟩
    obtain ⟨hassigned, hallowed⟩ := Placed.walks_iff.mp hwalks
    exact ⟨⟨hlabel.mp hnew, hassigned⟩, hallowed, hroom⟩
  · rintro ⟨⟨hnew, hassigned⟩, hallowed, hroom⟩
    exact ⟨hlabel.mpr hnew, Placed.walks_iff.mpr ⟨hassigned, hallowed⟩, hroom⟩

lemma passesAll_iff : PassesAll t lines ↔ FreshAll t lines ∧
    ∀ p ∈ layout t lines, p.Allowed ∧ (0 < p.size → p.start + p.size ≤ 0x10000) := by
  induction lines generalizing t with
  | nil => simp [PassesAll, FreshAll, layout]
  | cons l rest ih =>
    rw [PassesAll, FreshAll, layout, List.forall_mem_cons, passes_iff, ih]
    tauto

/-! ### Programs -/

/-- The conditions of the two passes are those of the walk and the later rounds. -/
lemma acceptable_iff (hl : ∀ l ∈ lines, l.Sound) : Acceptable lines ↔ PassesAll .init lines ∧
    ∀ p ∈ layout .init lines, p.Resolves (final .init lines).names := by
  have hop {p : Placed} (hp : p ∈ layout .init lines) {s : Statement}
      (hb : p.line.body = some (.statement s)) (hi : s.mode ≠ .implied) :=
    Placed.operand_iff (known_within_final hp) (hl _ (line_mem_of_layout hp) _ hb) hi
  have hnew (h : Assigned (layout .init lines)) :
      FreshAll .init lines ↔ (lines.flatMap Line.definitions).Nodup := by
    rw [freshAll_iff h]
    exact ⟨fun hn => hn.1, fun hn => ⟨hn, fun _ _ => rfl⟩⟩
  rw [passesAll_iff]
  refine ⟨?_, ?_⟩
  · intro h
    refine ⟨⟨(hnew h.assignments).mpr h.distinct, ?_⟩, ?_⟩
    · intro p hp
      refine ⟨⟨h.assignments p hp, h.origins p hp, h.entries p hp, ?_⟩, h.room p hp⟩
      intro s hb hr
      by_cases hi : s.mode = .implied
      · -- without an operand there is nothing to fit
        have hs : s.Sound := hl _ (line_mem_of_layout hp) _ hb
        simp [Statement.meaning, hs.operand_of_implied hi, Meaning.mayFit]
      · exact ((hop hp hb hi).mpr (h.operands p hp s hb hi hr)).1
    · intro p hp
      refine ⟨?_, h.branches p hp⟩
      intro s hb hr hm
      have hi := Placed.not_implied_of_unknown (hl _ (line_mem_of_layout hp) _ hb) hm
      exact h.operands p hp s hb hi hr
  · rintro ⟨⟨hfresh, hlines⟩, hres⟩
    have hassigned : Assigned (layout .init lines) := fun p hp => (hlines p hp).1.assignment
    exact {
      distinct := (hnew hassigned).mp hfresh
      assignments := hassigned
      origins := fun p hp => (hlines p hp).1.origin
      entries := fun p hp => (hlines p hp).1.entries
      operands := fun p hp s hb hi hr => (hop hp hb hi).mp
        ⟨(hlines p hp).1.operand s hb hr, (hres p hp).operand s hb hr⟩
      branches := fun p hp => (hres p hp).target
      room := fun p hp => (hlines p hp).2 }

end TwoPass

namespace Assembly

/-- **Exact acceptance**: a source that is scanned and read without a fault assembles just if its
program satisfies the conditions of the two passes. -/
theorem ofSource_ok_iff_acceptable (source : String) (lexemes : List Lexeme)
    (hlen : source.utf8ByteSize < 0x40000000) (ht : tokenize source = .ok lexemes)
    (hparse : (Parser.parse (LineMap.ofString source) lexemes).faults = []) :
    (∃ a, ofSource source = .ok a) ↔
      TwoPass.Acceptable (Parser.parse (LineMap.ofString source) lexemes).lines := by
  have hsound := (Parser.parse_of (LineMap.ofString source) lexemes).sound
  rw [ofSource_ok_iff_passes hlen ht, TwoPass.acceptable_iff hsound]
  simp only [hparse, true_and]

/-- A loop with an operand that has to wait is accepted; an operand that turns out too large in the
end is not. -/
theorem ofSource_ok_iff_acceptable_waiting :
    (∃ lexemes, tokenize "loop: LDA #low\nBNE loop\nlow = 3" = .ok lexemes ∧
      TwoPass.Acceptable
        (Parser.parse (LineMap.ofString "loop: LDA #low\nBNE loop\nlow = 3") lexemes).lines) ∧
    ∃ lexemes, tokenize "LDA #low\nlow = 256" = .ok lexemes ∧
      ¬TwoPass.Acceptable
        (Parser.parse (LineMap.ofString "LDA #low\nlow = 256") lexemes).lines := by
  have hscan₁ : tokenize "loop: LDA #low\nBNE loop\nlow = 3" =
      .ok ((tokenize "loop: LDA #low\nBNE loop\nlow = 3").toOption.getD []) := by
    decide +kernel
  have hscan₂ : tokenize "LDA #low\nlow = 256" =
      .ok ((tokenize "LDA #low\nlow = 256").toOption.getD []) := by
    decide +kernel
  refine ⟨⟨_, hscan₁, ?_⟩, _, hscan₂, ?_⟩
  · rw [← ofSource_ok_iff_acceptable _ _ (by decide +kernel) hscan₁ (by decide +kernel)]
    have hsome : (ofSource "loop: LDA #low\nBNE loop\nlow = 3").toOption.any
        (fun _ => true) = true := by
      decide +kernel
    obtain ⟨a, ha, -⟩ := exists_ok_iff.mpr hsome
    exact ⟨a, ha⟩
  · rw [← ofSource_ok_iff_acceptable _ _ (by decide +kernel) hscan₂ (by decide +kernel)]
    rintro ⟨a, ha⟩
    have hnone : (ofSource "LDA #low\nlow = 256").toOption.isSome = false := by decide +kernel
    simp [ha, Except.toOption] at hnone

end Assembly

end CrossAsm
