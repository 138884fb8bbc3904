import Mathlib.Tactic.Common
import CrossAsm.Assembly
import CrossAsm.Proofs.Rounds
import CrossAsm.Proofs.Scanning

/-!
What a source comes to, in terms of the first pass: it assembles just if every line passes when it
is met and goes through in the later rounds, and then lines, symbols and memory are what the first
pass and the three rounds of writes say.
-/

namespace CrossAsm

/-! ### Layouts -/

namespace TwoPass

variable {t : Progress} {lines : List Line}

lemma line_mem_of_layout {p : Placed} (h : p ∈ layout t lines) : p.line ∈ lines := by
  induction lines generalizing t with
  | nil => simp [layout] at h
  | cons l rest ih =>
    rcases List.mem_cons.mp h with rfl | h
    · exact List.mem_cons_self
    · exact List.mem_cons_of_mem l (ih h)

/-- What holds of every line as it is met holds of every line in the layout. -/
lemma forall_layout_of_passesAll {P : Placed → Prop}
    (hstep : ∀ (u : Progress) (l : Line), u.counter ≤ 0x10000 → u.Passes l → P (u.placed l))
    (ht : t.counter ≤ 0x10000) (hpass : PassesAll t lines) : ∀ p ∈ layout t lines, P p := by
  induction lines generalizing t with
  | nil => simp [layout]
  | cons l rest ih =>
    obtain ⟨hl, hrest⟩ := hpass
    intro p hp
    rcases List.mem_cons.mp hp with rfl | hp
    · exact hstep t l ht hl
    · exact ih (hl.after_le ht) hrest p hp

lemma start_le_of_passesAll (ht : t.counter ≤ 0x10000) (hpass : PassesAll t lines) :
    ∀ p ∈ layout t lines, p.start ≤ 0x10000 :=
  forall_layout_of_passesAll (fun _ _ hu hl => Progress.start_le hu hl.walks) ht hpass

lemma stop_le_of_passesAll (ht : t.counter ≤ 0x10000) (hpass : PassesAll t lines) :
    ∀ p ∈ layout t lines, p.start + p.size ≤ 0x10000 :=
  forall_layout_of_passesAll (fun _ _ hu hl => hl.after_le hu) ht hpass

end TwoPass

/-! ### The walk and its result -/

namespace Assembly

open TwoPass

namespace State

variable {lines : List Line} (hl : ∀ l ∈ lines, l.Sound)

/-- The state before the first line, with the faults of reading. -/
def start (file : String) (count : Nat) (faults : List Diagnostic) : State :=
  { State.init file with faults := (State.init file).faults ++ faults }.log (.walking count)

lemma walk_eq (file : String) (faults : List Diagnostic) :
    walk (.init file) lines faults =
      ((start file lines.length faults).run
        (lines.flatMap Line.visits)).resolveDeferred.resolveBranches := rfl

lemma start_follows (file : String) (count : Nat) (faults : List Diagnostic) :
    (start file count faults).Follows .init [] := follows_start file _ _

lemma clean_start (file : String) (count : Nat) (faults : List Diagnostic) :
    (start file count faults).Clean ↔ faults = [] := by
  simp [start, Clean, init, log]

include hl

lemma follows_walk (file : String) (faults : List Diagnostic) (hpass : PassesAll .init lines) :
    ((start file lines.length faults).run (lines.flatMap Line.visits)).Follows
      (final .init lines) (layout .init lines) :=
  follows_lines (start_follows file _ faults) hl hpass

/-- **A walk without a fault**: nothing was wrong before, every line passes when it is met, and
every line goes through in the later rounds. -/
theorem clean_walk (hsize : 2 * Line.totalWeight lines ≤ 0x80000000) (file : String)
    (faults : List Diagnostic) :
    (walk (.init file) lines faults).Clean ↔
      faults = [] ∧ PassesAll .init lines ∧
        ∀ p ∈ layout .init lines, p.Resolves (final .init lines).names := by
  have hlines := clean_lines (start_follows file lines.length faults) hl hsize
  rw [clean_start] at hlines
  rw [walk_eq]
  by_cases hpass : PassesAll .init lines
  · rw [clean_resolve (follows_walk hl file faults hpass)
      (fun p hp => hl _ (line_mem_of_layout hp))
      (start_le_of_passesAll (Nat.zero_le _) hpass), hlines, and_assoc]
  · -- what was reported while the lines were met is still there after the later rounds
    refine ⟨?_, ?_⟩
    · intro hc
      have hrun := ((extends_self _).resolveDeferred.resolveBranches).clean hc
      exact absurd (hlines.mp hrun).2 hpass
    · rintro ⟨-, hall, -⟩
      exact absurd hall hpass

/-- What a walk without a fault leaves in the state. -/
lemma walk_of_resolves (file : String) (faults : List Diagnostic) (hpass : PassesAll .init lines)
    (hres : ∀ p ∈ layout .init lines, p.Resolves (final .init lines).names) :
    (walk (.init file) lines faults).symbols.value? = (final .init lines).names ∧
    (walk (.init file) lines faults).codeLines.toList =
      (layout .init lines).map Placed.codeLine ∧
    (walk (.init file) lines faults).payload =
      (writes (final .init lines).names (layout .init lines)).foldl .store .empty := by
  have hf := follows_walk hl file faults hpass
  obtain ⟨events, he⟩ := resolve_eq hf (fun p hp => hl _ (line_mem_of_layout hp))
    (start_le_of_passesAll (Nat.zero_le _) hpass) hres
  rw [walk_eq, he]
  exact ⟨hf.meets.names, hf.codeLines, rfl⟩

end State

/-- A result with some property can be found by computing. -/
lemma exists_ok_iff {ε α : Type} {e : Except ε α} {p : α → Bool} :
    (∃ x, e = .ok x ∧ p x = true) ↔ e.toOption.any p = true := by
  cases e <;> simp [Except.toOption]

lemma finish_eq_ok {s : State} {a : Assembly} :
    (finish s).value = .ok a ↔ s.Clean ∧
      a = ⟨Memory.build s.codeLines.toList s.payload, s.codeLines.toList, s.symbols⟩ := by
  unfold finish
  split
  · next h =>
    have hc : s.Clean := by simpa [State.Clean] using h
    refine ⟨?_, ?_⟩
    · intro ha
      exact ⟨hc, (Except.ok.inj ha).symm⟩
    · rintro ⟨-, rfl⟩
      rfl
  · next h =>
    have hc : ¬s.Clean := by simpa [State.Clean] using h
    simp [hc]

lemma finish_eq_error {s : State} {faults : List Diagnostic} :
    (finish s).value = .error faults ↔ ¬s.Clean ∧
      faults = (stableSort isBefore s.faults.toList).map (·.inFile s.file) := by
  unfold finish
  split
  · next h =>
    have hc : s.Clean := by simpa [State.Clean] using h
    simp [hc]
  · next h =>
    have hc : ¬s.Clean := by simpa [State.Clean] using h
    simp [hc, eq_comm]

/-! ### Sources -/

/-- What a program and its result have to do with each other. -/
structure Realizes (a : Assembly) (lines : List Line) : Prop where
  sound : ∀ l ∈ lines, l.Sound
  passes : PassesAll .init lines
  resolves : ∀ p ∈ layout .init lines, p.Resolves (final .init lines).names
  codeLines : a.codeLines = (layout .init lines).map Placed.codeLine
  names : a.symbols.value? = (final .init lines).names
  blocks : a.blocks = Memory.build a.codeLines
    ((writes (final .init lines).names (layout .init lines)).foldl .store .empty)

section Source

variable {source : String} {lexemes : List Lexeme} (hlen : source.utf8ByteSize < 0x40000000)

lemma ofNamedSource_eq (ht : tokenize source = .ok lexemes) (file : String) :
    (ofNamedSource source file).value = (finish (walk (.init file)
      (Parser.parse (LineMap.ofString source) lexemes).lines
      (Parser.parse (LineMap.ofString source) lexemes).faults)).value := by
  simp [ofNamedSource, ht]

lemma ofSource_eq (ht : tokenize source = .ok lexemes) :
    ofSource source = (finish (walk (.init unnamedFile)
      (Parser.parse (LineMap.ofString source) lexemes).lines
      (Parser.parse (LineMap.ofString source) lexemes).faults)).value :=
  ofNamedSource_eq ht unnamedFile

include hlen

/-- A source of this length cannot ask for as many bytes as there are addresses. -/
lemma totalWeight_parse_le (ht : tokenize source = .ok lexemes) :
    2 * Line.totalWeight (Parser.parse (LineMap.ofString source) lexemes).lines ≤ 0x80000000 := by
  have hread := (Parser.parse_of (LineMap.ofString source) lexemes).weight
  have hscan := totalWeight_of_tokenize ht
  omega

theorem ofSource_ok_iff_passes (ht : tokenize source = .ok lexemes) :
    (∃ a, ofSource source = .ok a) ↔
      (Parser.parse (LineMap.ofString source) lexemes).faults = [] ∧
      PassesAll .init (Parser.parse (LineMap.ofString source) lexemes).lines ∧
      ∀ p ∈ layout .init (Parser.parse (LineMap.ofString source) lexemes).lines,
        p.Resolves (final .init (Parser.parse (LineMap.ofString source) lexemes).lines).names := by
  have hsound := (Parser.parse_of (LineMap.ofString source) lexemes).sound
  rw [← State.clean_walk hsound (totalWeight_parse_le hlen ht) unnamedFile, ofSource_eq ht]
  refine ⟨?_, ?_⟩
  · rintro ⟨a, ha⟩
    exact (finish_eq_ok.mp ha).1
  · intro hc
    exact ⟨_, finish_eq_ok.mpr ⟨hc, rfl⟩⟩

/-- **A source that assembles** is scanned and read, and its result is that of its program. -/
theorem realizes_of_ok {a : Assembly} (h : ofSource source = .ok a) :
    ∃ lexemes, tokenize source = .ok lexemes ∧
      a.Realizes (Parser.parse (LineMap.ofString source) lexemes).lines := by
  rcases ht : tokenize source with faults | lexemes
  · simp [ofSource, ofNamedSource, ht] at h
  · refine ⟨lexemes, rfl, ?_⟩
    have hsound := (Parser.parse_of (LineMap.ofString source) lexemes).sound
    obtain ⟨-, hpass, hres⟩ := (ofSource_ok_iff_passes hlen ht).mp ⟨a, h⟩
    rw [ofSource_eq ht] at h
    obtain ⟨-, rfl⟩ := finish_eq_ok.mp h
    obtain ⟨hnames, hcode, hpay⟩ := State.walk_of_resolves hsound unnamedFile
      (Parser.parse (LineMap.ofString source) lexemes).faults hpass hres
    exact ⟨hsound, hpass, hres, hcode, hnames, by rw [hpay]⟩

end Source

end Assembly

end CrossAsm
