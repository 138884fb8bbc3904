import Mathlib.Data.List.Forall2
import Mathlib.Tactic.Common
import CrossAsm.Proofs.Agreement
import CrossAsm.Proofs.Parsing.Locality
import CrossAsm.Proofs.Pointing

/-!
The layout of a source does not matter: blanks, comments and the spelling of literals have no effect
but on places and texts. Main statement: two sources of the same tokens both assemble, to the same
memory, or are both at fault in the same way, in the same order.

Every place that reading writes down is where some token starts or where the last one ends. These
anchors are ordered alike in both sources, so faults at them are sorted alike.
-/

namespace CrossAsm

variable {text text' : List Char} {n : Nat} {w w' : List Lexeme}

/-! ### Anchors -/

/-- Where lexemes start and, at last, where they end. -/
def Lexeme.anchors : Nat → List Lexeme → List Nat
  | n, [] => [n]
  | _, l :: rest => l.span.start :: anchors l.span.stop rest

lemma Lexeme.Stand.mem_anchors (h : Lexeme.Stand text n w) (hn : Boundary text n) :
    ∀ m ∈ Lexeme.anchors n w, n ≤ m ∧ Boundary text m := by
  induction h with
  | nil =>
    intro m hm
    obtain rfl := List.mem_singleton.mp hm
    exact ⟨Nat.le_refl _, hn⟩
  | cons hle hlt hstart hstop _ ih =>
    intro m hm
    rcases List.mem_cons.mp hm with rfl | hm
    · exact ⟨hle, hstart⟩
    · obtain ⟨hm, hb⟩ := ih hstop m hm
      exact ⟨by omega, hb⟩

lemma Lexeme.Stand.anchors_sorted (h : Lexeme.Stand text n w) :
    (Lexeme.anchors n w).Pairwise (· < ·) := by
  induction h with
  | nil => exact List.pairwise_singleton _ _
  | cons _ hlt _ hstop hrest ih =>
    refine List.pairwise_cons.mpr ⟨fun m hm => ?_, ih⟩
    have := (hrest.mem_anchors hstop m hm).1
    omega

/-- The location has the line and the column of an offset. -/
def Location.StartsAt (lines : LineMap) (n : Nat) (l : Location) : Prop :=
  l.line = (lines.locate ⟨n, n⟩).line ∧ l.column = (lines.locate ⟨n, n⟩).column

lemma LineMap.locate_startsAt (lines : LineMap) (span : Span) :
    (lines.locate span).StartsAt lines span.start := by
  have hstart : (⟨span.start, span.start⟩ : Span).start = span.start := rfl
  rw [lines.locate_congr hstart]
  exact ⟨rfl, rfl⟩

/-! ### Places of the same rank -/

/-- Alike is what starts at the same one of two rows of anchors, whatever the texts are. -/
def Likeness.ranked (lines lines' : LineMap) (anchors anchors' : List Nat) : Likeness where
  place l l' := ∃ (i m m' : Nat), anchors[i]? = some m ∧ anchors'[i]? = some m' ∧
    l.StartsAt lines m ∧ l'.StartsAt lines' m'
  text _ _ := True

lemma Likeness.closed_ranked (lines lines' : LineMap) (anchors anchors' : List Nat) :
    (Likeness.ranked lines lines' anchors anchors').Closed where
  through hl _ := hl
  append _ _ := trivial

/-- Anchors that stand in a text, in order. -/
structure Anchored (text : List Char) (anchors : List Nat) : Prop where
  boundary : ∀ m ∈ anchors, Boundary text m
  sorted : anchors.Pairwise (· < ·)

lemma anchored_of_stand (h : Lexeme.Stand text 0 w) : Anchored text (Lexeme.anchors 0 w) where
  boundary m hm := (h.mem_anchors (boundary_append [] text) m hm).2
  sorted := h.anchors_sorted

lemma Anchored.before {anchors : List Nat} (h : Anchored text anchors) {i j m n : Nat}
    (hi : anchors[i]? = some m) (hj : anchors[j]? = some n) (hlt : i < j) {l l' : Location}
    (hl : l.StartsAt (.ofChars text) m) (hl' : l'.StartsAt (.ofChars text) n) : l.Before l' := by
  obtain ⟨hi', rfl⟩ := List.getElem?_eq_some_iff.mp hi
  obtain ⟨hj', rfl⟩ := List.getElem?_eq_some_iff.mp hj
  have hmn := List.pairwise_iff_getElem.mp h.sorted i j hi' hj' hlt
  have hbefore : ((LineMap.ofChars text).locate ⟨anchors[i], anchors[i]⟩).Before
      ((LineMap.ofChars text).locate ⟨anchors[j], anchors[j]⟩) :=
    LineMap.locate_before (h.boundary _ (List.getElem_mem hi'))
      (h.boundary _ (List.getElem_mem hj')) hmn
  simpa only [Location.Before, hl.1, hl.2, hl'.1, hl'.2] using hbefore

/-- Places of the same rank are ordered alike. -/
lemma before_iff_of_ranked {anchors anchors' : List Nat} (h : Anchored text anchors)
    (h' : Anchored text' anchors') {l l' m m' : Location}
    (hl : (Likeness.ranked (.ofChars text) (.ofChars text') anchors anchors').place l l')
    (hm : (Likeness.ranked (.ofChars text) (.ofChars text') anchors anchors').place m m') :
    l.Before m ↔ l'.Before m' := by
  obtain ⟨i, a, a', hi, hi', hla, hla'⟩ := hl
  obtain ⟨j, b, b', hj, hj', hmb, hmb'⟩ := hm
  rcases Nat.lt_trichotomy i j with hij | rfl | hij
  · exact iff_of_true (h.before hi hj hij hla hmb) (h'.before hi' hj' hij hla' hmb')
  · -- both start at one anchor, so neither comes first
    obtain rfl := Option.some.inj (hi.symm.trans hj)
    obtain rfl := Option.some.inj (hi'.symm.trans hj')
    refine iff_of_false ?_ ?_
    · simp [Location.Before, hla.1, hla.2, hmb.1, hmb.2]
    · simp [Location.Before, hla'.1, hla'.2, hmb'.1, hmb'.2]
  · have hml := h.before hj hi hij hmb hla
    have hml' := h'.before hj' hi' hij hmb' hla'
    simp only [Location.Before] at hml hml' ⊢
    omega

/-! ### Two readers -/

lemma Lexeme.AllAlike.cons {p : Pairing} {l l' : Lexeme} (hl : l.Alike p l')
    (hstop : w = [] → l.StopAlike p l') (h : Lexeme.AllAlike p w w') :
    Lexeme.AllAlike p (l :: w) (l' :: w') := by
  obtain ⟨heach, hlast⟩ := h
  refine ⟨.cons hl heach, ?_⟩
  cases heach with
  | nil => exact .some (hstop rfl)
  | cons _ _ => simpa only [List.getLast?_cons_cons] using hlast

/-- Readers of two sources with the same tokens. -/
def Pairing.ranked (lines lines' : LineMap) (w w' : List Lexeme) : Pairing where
  like := .ranked lines lines' (Lexeme.anchors 0 w) (Lexeme.anchors 0 w')
  closed := Likeness.closed_ranked _ _ _ _
  lines := lines
  lines' := lines'
  shift := 0
  tail := []

/-- Lexemes with the same tokens are alike, from any place on. -/
lemma allAlike_ranked {lines lines' : LineMap} {all all' : List Lexeme} {k n n' : Nat}
    (htokens : w.map (·.token) = w'.map (·.token))
    (h : (Lexeme.anchors 0 all).drop k = Lexeme.anchors n w)
    (h' : (Lexeme.anchors 0 all').drop k = Lexeme.anchors n' w') :
    Lexeme.AllAlike (.ranked lines lines' all all') w w' := by
  induction w generalizing w' k n n' with
  | nil =>
    obtain rfl : w' = [] := by simpa using htokens.symm
    exact ⟨.nil, .none⟩
  | cons l rest ih =>
    rcases w' with _ | ⟨l', rest'⟩
    · simp at htokens
    obtain ⟨htoken, hrest⟩ := List.cons.inj htokens
    have hat (i : Nat) : (Lexeme.anchors 0 all)[k + i]? = (Lexeme.anchors n (l :: rest))[i]? := by
      rw [← h, List.getElem?_drop]
    have hat' (i : Nat) :
        (Lexeme.anchors 0 all')[k + i]? = (Lexeme.anchors n' (l' :: rest'))[i]? := by
      rw [← h', List.getElem?_drop]
    have hdrop : (Lexeme.anchors 0 all).drop (k + 1) = Lexeme.anchors l.span.stop rest := by
      rw [← List.drop_drop, h]
      rfl
    have hdrop' : (Lexeme.anchors 0 all').drop (k + 1) = Lexeme.anchors l'.span.stop rest' := by
      rw [← List.drop_drop, h']
      rfl
    refine .cons ⟨htoken, trivial, ?_⟩ ?_ (ih hrest hdrop hdrop')
    · exact ⟨k, _, _, hat 0, hat' 0, lines.locate_startsAt _, lines'.locate_startsAt _⟩
    · rintro rfl
      obtain rfl : rest' = [] := by simpa using hrest.symm
      exact ⟨k + 1, _, _, hat 1, hat' 1, ⟨rfl, rfl⟩, ⟨rfl, rfl⟩⟩

lemma alike_start (lines lines' : LineMap) (htokens : w.map (·.token) = w'.map (·.token)) :
    (Cursor.start lines w).Alike (.ranked lines lines' w w') (Cursor.start lines' w') := by
  refine ⟨⟨w', by simp [Cursor.start, Pairing.ranked], ?_⟩, rfl, rfl, rfl, ?_⟩
  · exact allAlike_ranked (k := 0) htokens rfl rfl
  · rintro hnil -
    obtain rfl : w = [] := hnil
    obtain rfl : w' = [] := by simpa using htokens.symm
    exact ⟨0, 0, 0, rfl, rfl, ⟨rfl, rfl⟩, ⟨rfl, rfl⟩⟩

/-- Programs that are read from the same tokens are alike. -/
lemma parse_ranked (lines lines' : LineMap) (htokens : w.map (·.token) = w'.map (·.token)) :
    List.Forall₂ (Line.Alike (Pairing.ranked lines lines' w w').like)
        (Parser.parse lines w).lines (Parser.parse lines' w').lines ∧
      List.Forall₂ (Diagnostic.Alike (Pairing.ranked lines lines' w w').like)
        (Parser.parse lines w).faults (Parser.parse lines' w').faults := by
  obtain ⟨e, hahead, -, hcont⟩ :=
    Parser.program_continues (alike_start lines lines' htokens) (.inl rfl)
  obtain ⟨⟨ls, hlines, hlikes⟩, ⟨fs, hfaults, hfaultlikes⟩⟩ := hcont
  rw [Parser.program_of_end hahead, List.append_nil] at hlines hfaults
  exact ⟨hlines ▸ hlikes, hfaults ▸ hfaultlikes⟩

lemma map_eq_of_forall₂ {α β : Type} {R : α → α → Prop} {f : α → β}
    (hf : ∀ a a', R a a' → f a = f a') {u v : List α} (h : List.Forall₂ R u v) :
    u.map f = v.map f := by
  induction h with
  | nil => rfl
  | cons ha _ ih => rw [List.map_cons, List.map_cons, hf _ _ ha, ih]

namespace Assembly

/-! ### Sorting -/

lemma isBefore_iff_not_before {d e : Diagnostic} :
    isBefore d e = true ↔ ¬e.location.Before d.location := by
  rw [isBefore_iff]
  simp only [Diagnostic.NotAfter, Location.Before, Diagnostic.location]
  omega

/-- Faults at places of the same rank are sorted alike. -/
lemma map_code_sorted {anchors anchors' : List Nat} (h : Anchored text anchors)
    (h' : Anchored text' anchors') {faults faults' : List Diagnostic}
    (hfaults : List.Forall₂
      (Diagnostic.Akin (.ranked (.ofChars text) (.ofChars text') anchors anchors'))
      faults faults') :
    (stableSort isBefore faults).map (·.code) = (stableSort isBefore faults').map (·.code) := by
  let akin := Diagnostic.Akin (.ranked (.ofChars text) (.ofChars text') anchors anchors')
  have hle : ∀ d d' e e', akin d d' → akin e e' → isBefore d e = isBefore d' e' := by
    rintro d d' e e' ⟨f, f', l, l', -, hl, rfl, rfl⟩ ⟨g, g', m, m', -, hm, rfl, rfl⟩
    rw [Bool.eq_iff_iff, isBefore_iff_not_before, isBefore_iff_not_before]
    exact not_congr (before_iff_of_ranked h h' hm hl)
  refine map_eq_of_forall₂ ?_ (forall₂_stableSort hle hfaults)
  rintro d d' ⟨f, f', l, l', hcode, -, rfl, rfl⟩
  exact hcode

/-! ### Results -/

/-- **The layout of a source does not matter.** Two sources that are scanned to the same tokens both
assemble, to the same memory, the same lines and the same symbols, or both are at fault, with the
same classes of faults in the same order. -/
theorem same_tokens_assemble_alike {source source' : String} {lexemes lexemes' : List Lexeme}
    (h : tokenize source = .ok lexemes) (h' : tokenize source' = .ok lexemes')
    (htokens : lexemes.map (·.token) = lexemes'.map (·.token)) :
    (∃ a a', ofSource source = .ok a ∧ ofSource source' = .ok a' ∧ a.blocks = a'.blocks ∧
      a.codeLines.map (fun l => (l.start, l.length, l.label)) =
        a'.codeLines.map (fun l => (l.start, l.length, l.label)) ∧
      ∀ name, a.symbols.value? name = a'.symbols.value? name) ∨
    ∃ faults faults', ofSource source = .error faults ∧ ofSource source' = .error faults' ∧
      faults.map (·.code) = faults'.map (·.code) := by
  obtain ⟨hlines, hfaults⟩ :=
    parse_ranked (LineMap.ofString source) (LineMap.ofString source') htokens
  have hwalk := walk_alike unnamedFile unnamedFile hlines (hfaults.imp fun _ _ hd => hd.akin)
  have hanchored := anchored_of_stand (stand_of_tokenize h)
  have hanchored' := anchored_of_stand (stand_of_tokenize h')
  rw [ofSource_eq h, ofSource_eq h']
  generalize walk (.init unnamedFile) (Parser.parse (.ofString source) lexemes).lines
    (Parser.parse (.ofString source) lexemes).faults = s at hwalk ⊢
  generalize walk (.init unnamedFile) (Parser.parse (.ofString source') lexemes').lines
    (Parser.parse (.ofString source') lexemes').faults = s' at hwalk ⊢
  by_cases hclean : s.Clean
  · obtain ⟨a', ha', hblocks, hcode, hsymbols⟩ :=
      finish_alike hwalk (finish_eq_ok.mpr ⟨hclean, rfl⟩)
    refine .inl ⟨_, a', finish_eq_ok.mpr ⟨hclean, rfl⟩, ha', hblocks, ?_, congrFun hsymbols⟩
    refine map_eq_of_forall₂ (fun l l' hl => ?_) hcode
    rw [hl.start, hl.length, hl.label]
  · have hclean' : ¬s'.Clean := mt hwalk.clean_iff.mpr hclean
    refine .inr ⟨_, _, finish_eq_error.mpr ⟨hclean, rfl⟩, finish_eq_error.mpr ⟨hclean', rfl⟩, ?_⟩
    simpa [Function.comp_def, Diagnostic.inFile] using
      map_code_sorted hanchored hanchored' hwalk.faults

/-- Faults of four stages, two of them on one line, under two layouts. -/
theorem same_tokens_assemble_alike_faulty :
    let source := "BNE 300 LDA nosuch\nx=1/0\n.byte 300,'A'"
    let source' := "  BNE $12C\tLDA nosuch ; two\n x = %1 / 0;\r\n.byte  $012c,'A'"
    ∃ lexemes lexemes', tokenize source = .ok lexemes ∧ tokenize source' = .ok lexemes' ∧
      lexemes.map (·.token) = lexemes'.map (·.token) ∧
      ∃ faults faults', ofSource source = .error faults ∧ ofSource source' = .error faults' ∧
        faults.length = 4 ∧ faults.map (·.code) = faults'.map (·.code) := by
  intro source source'
  have htokens : (tokenize source).map (·.map (·.token)) =
      (tokenize source').map (·.map (·.token)) ∧ (tokenize source).isOk = true := by
    decide +kernel
  have hfaulty : ((ofSource source).mapError List.length).map (fun _ => ()) = .error 4 := by
    decide +kernel
  obtain ⟨hsame, hok⟩ := htokens
  rcases h : tokenize source with _ | lexemes
  · simp [h, Except.isOk, Except.toBool] at hok
  rcases h' : tokenize source' with _ | lexemes'
  · simp [h, h', Except.map] at hsame
  have heq : lexemes.map (·.token) = lexemes'.map (·.token) := by
    simpa [h, h', Except.map] using hsame
  refine ⟨lexemes, lexemes', rfl, rfl, heq, ?_⟩
  rcases same_tokens_assemble_alike h h' heq with
    ⟨a, a', ha, -⟩ | ⟨faults, faults', hf, hf', hcodes⟩
  · simp [ha, Except.mapError, Except.map] at hfaulty
  · rw [hf] at hfaulty
    exact ⟨faults, faults', hf, hf', Except.error.inj hfaulty, hcodes⟩

end Assembly

end CrossAsm
