import Mathlib.Tactic.Common
import CrossAsm.Proofs.Agreement
import CrossAsm.Proofs.Parsing.Placing
import CrossAsm.Proofs.Records
import CrossAsm.Proofs.Sorting

/-!
Diagnostics point at real places. Main statement: the faults of a source come in the order of their
places, under the name of the file, and each of them points at a part of the source.
-/

namespace CrossAsm

variable {text : List Char}

/-! ### Places in a string -/

namespace Diagnostic

variable {source : String} {d e : Diagnostic}

/-- The diagnostic stands at a place of the source. Its span cuts the source between characters, its
line counts the line ends before the span, and its column the bytes since the last of them. -/
structure StandsIn (source : String) (d : Diagnostic) : Prop where
  start_le_stop : d.span.start ≤ d.span.stop
  stop_le : d.span.stop ≤ source.utf8ByteSize
  start_valid : String.Pos.Raw.IsValid source ⟨d.span.start⟩
  stop_valid : String.Pos.Raw.IsValid source ⟨d.span.stop⟩
  place : ∃ before after : String, source = before ++ after ∧
    before.utf8ByteSize = d.span.start ∧
    d.line = 1 + before.toList.count '\n' ∧
    d.column = 1 + byteLength (lastLine before.toList)

lemma PointsInto.standsIn (h : d.PointsInto source.toList) : d.StandsIn source := by
  obtain ⟨before, part, after, htext, hloc⟩ := h
  obtain rfl : source = String.ofList before ++ String.ofList part ++ String.ofList after := by
    rw [← String.ofList_append, ← String.ofList_append, ← htext, String.ofList_toList]
  have hstart : d.span.start = (String.ofList before).utf8ByteSize := by
    rw [← byteLength_eq_utf8ByteSize]
    exact congrArg (·.span.start) hloc
  have hstop : d.span.stop = (String.ofList before ++ String.ofList part).utf8ByteSize := by
    rw [← String.ofList_append, ← byteLength_eq_utf8ByteSize]
    exact congrArg (·.span.stop) hloc
  refine ⟨?_, ?_, ?_, ?_, String.ofList before, String.ofList part ++ String.ofList after,
    String.append_assoc, hstart.symm, ?_, ?_⟩
  · rw [hstart, hstop, String.utf8ByteSize_append]
    exact Nat.le_add_right _ _
  · simp only [hstop, String.utf8ByteSize_append]
    omega
  · rw [hstart]
    exact String.Pos.Raw.isValid_iff_exists_append.mpr ⟨_, _, String.append_assoc, rfl⟩
  · rw [hstop]
    exact String.Pos.Raw.isValid_iff_exists_append.mpr ⟨_, _, rfl, rfl⟩
  · rw [String.toList_ofList]
    exact congrArg Location.line hloc
  · rw [String.toList_ofList]
    exact congrArg Location.column hloc

/-- The diagnostic comes no later than the other one, by line and then by column. -/
def NotAfter (d e : Diagnostic) : Prop := d.line < e.line ∨ d.line = e.line ∧ d.column ≤ e.column

lemma PointsInto.notAfter (hd : d.PointsInto text) (he : e.PointsInto text)
    (hlt : d.span.start < e.span.start) : d.NotAfter e :=
  (Location.PointsInto.before hd he hlt).imp_right fun h => ⟨h.1, Nat.le_of_lt h.2⟩

lemma Alike.akin {k : Likeness} (h : d.Alike k e) : d.Akin k e := by
  obtain ⟨f, l, l', hl, hd, he⟩ := h
  exact ⟨f, f, l, l', rfl, hl, hd, he⟩

lemma Akin.pointsInto (h : d.Akin (.into text) d) : d.PointsInto text := by
  obtain ⟨f, f', l, l', -, ⟨-, hl⟩, rfl, -⟩ := h
  exact hl

end Diagnostic

namespace Assembly

lemma isBefore_iff {d e : Diagnostic} : isBefore d e = true ↔ d.NotAfter e := by
  simp [isBefore, Diagnostic.NotAfter]

lemma pairwise_sorted (faults : List Diagnostic) :
    (stableSort isBefore faults).Pairwise Diagnostic.NotAfter := by
  refine (pairwise_stableSort ?_ ?_ faults).imp isBefore_iff.mp
  · intro d e
    simp only [isBefore_iff, Diagnostic.NotAfter]
    omega
  · intro d e f
    simp only [isBefore_iff, Diagnostic.NotAfter]
    omega

/-- The faults that a walk leaves point into the text. -/
lemma walk_pointsInto (file : String) {p : Program} (h : Parser.ProgramPlaced text p) :
    ∀ d ∈ (walk (.init file) p.lines p.faults).faults.toList, d.PointsInto text := by
  have hwalk := walk_alike file file h.lines (h.faults.imp fun _ _ hd => hd.akin)
  intro d hd
  exact (List.forall₂_same.mp hwalk.faults d hd).pointsInto

/-- Whichever stage finds the faults, they are in order and point into the source. -/
lemma found_of_error {source file : String} {faults : List Diagnostic}
    (h : (ofNamedSource source file).value = .error faults) :
    ∃ found : List Diagnostic, faults = found.map (·.inFile file) ∧ found ≠ [] ∧
      found.Pairwise Diagnostic.NotAfter ∧ ∀ d ∈ found, d.PointsInto source.toList := by
  rcases ht : tokenize source with found | lexemes
  · obtain ⟨hne, hpoint, hsorted⟩ := faults_of_tokenize ht
    have hfound : found.map (·.inFile file) = faults := by simpa [ofNamedSource, ht] using h
    refine ⟨found, hfound.symm, hne, ?_, hpoint⟩
    exact hsorted.imp_of_mem fun hd he hlt => (hpoint _ hd).notAfter (hpoint _ he) hlt
  · have hplaced : Parser.ProgramPlaced source.toList
        (Parser.parse (LineMap.ofString source) lexemes) :=
      Parser.parse_placed (stand_of_tokenize ht)
    rw [ofNamedSource_eq ht] at h
    generalize Parser.parse (LineMap.ofString source) lexemes = program at h hplaced
    obtain ⟨hfaulty, rfl⟩ := finish_eq_error.mp h
    refine ⟨_, by rw [walk_file], ?_, pairwise_sorted _, fun d hd =>
      walk_pointsInto file hplaced d (mem_stableSort.mp hd)⟩
    intro hnil
    have hperm := (perm_stableSort isBefore
      (walk (.init file) program.lines program.faults).faults.toList).symm
    rw [hnil] at hperm
    exact hfaulty (Array.toList_eq_nil_iff.mp hperm.eq_nil)

/-- **Every diagnostic points at a real place.** If a source is at fault there are diagnostics, in
the order of their lines and columns, and each of them stands at a place of the source, under the
name of the file. -/
theorem diagnostics_point_into_source {source file : String} {faults : List Diagnostic}
    (h : (ofNamedSource source file).value = .error faults) :
    faults ≠ [] ∧
      faults.Pairwise (fun d e => d.line < e.line ∨ d.line = e.line ∧ d.column ≤ e.column) ∧
      ∀ d ∈ faults, d.file = file ∧ d.StandsIn source := by
  obtain ⟨found, rfl, hne, hsorted, hpoint⟩ := found_of_error h
  refine ⟨by simpa using hne, List.pairwise_map.mpr hsorted, ?_⟩
  intro d hd
  obtain ⟨e, he, rfl⟩ := List.mem_map.mp hd
  have hinto : (e.inFile file).PointsInto source.toList := hpoint e he
  exact ⟨rfl, hinto.standsIn⟩

/-- Faults of four stages, the first of them behind a character of two bytes. -/
theorem diagnostics_point_into_source_bytes :
    let source := "\t.byte \"né\",1/0+2\n  .org $FFFFF ; ü\nx = (y)\n  LDA #(1+\n"
    ∃ faults, (ofNamedSource source "a.asm").value = .error faults ∧
      faults.map (fun d => (d.line, d.column, d.span)) =
        [(1, 14, ⟨13, 16⟩), (2, 8, ⟨26, 32⟩), (3, 1, ⟨38, 39⟩), (4, 11, ⟨56, 57⟩)] ∧
      ∀ d ∈ faults, d.file = "a.asm" ∧ d.StandsIn source := by
  intro source
  have hplaces : ((ofNamedSource source "a.asm").value.mapError
      (·.map fun d => (d.line, d.column, d.span))).map (fun _ => ()) =
      .error [(1, 14, ⟨13, 16⟩), (2, 8, ⟨26, 32⟩), (3, 1, ⟨38, 39⟩), (4, 11, ⟨56, 57⟩)] := by
    decide +kernel
  rcases h : (ofNamedSource source "a.asm").value with faults | a
  · rw [h] at hplaces
    exact ⟨faults, rfl, Except.error.inj hplaces, (diagnostics_point_into_source h).2.2⟩
  · rw [h] at hplaces
    exact absurd hplaces (by simp [Except.mapError, Except.map])

end Assembly

end CrossAsm
