import Mathlib.Tactic.Common
import CrossAsm.Proofs.Places
import CrossAsm.Proofs.Utf8

/-!
Lines and columns by the bytes of a source. An offset need not stand between two characters: its
line is told by the line feeds before it, and its column by the bytes since the last of them. Main
statement: `LineMap.locate_counts_line_feeds`.
-/

namespace CrossAsm

/-- Where line feeds stand among the bytes before an offset. -/
def lineFeeds (bytes : List UInt8) (offset : Nat) : List Nat :=
  (List.range offset).filter fun i => bytes[i]? = some lineFeed

/-- Where the line of an offset starts: right behind the last line feed before it, or at 0. -/
def lineStart (bytes : List UInt8) (offset : Nat) : Nat :=
  (lineFeeds bytes offset).getLast?.elim 0 (· + 1)

lemma lt_of_mem_lineFeeds {bytes : List UInt8} {n i : Nat} (h : i ∈ lineFeeds bytes n) : i < n :=
  List.mem_range.mp (List.mem_of_mem_filter h)

/-- The line feeds before a later offset are those before an earlier one and those in between. -/
lemma lineFeeds_add (bytes : List UInt8) (m n : Nat) : lineFeeds bytes (m + n) =
    lineFeeds bytes m ++ (lineFeeds (bytes.drop m) n).map (m + ·) := by
  simp only [lineFeeds, List.range_add, List.filter_append, List.filter_map, Function.comp_def,
    List.getElem?_drop]

lemma lineStart_le (bytes : List UInt8) (n : Nat) : lineStart bytes n ≤ n := by
  unfold lineStart
  rcases h : (lineFeeds bytes n).getLast? with _ | i
  · exact Nat.zero_le n
  · exact lt_of_mem_lineFeeds (List.mem_of_getLast? h)

/-- The line of an offset is the last one that starts behind a line feed before it. -/
lemma lineStart_eq (bytes : List UInt8) (n : Nat) :
    ((lineFeeds bytes n).map (· + 1)).getLast?.getD 0 = lineStart bytes n := by
  rw [List.getLast?_map, lineStart]
  cases (lineFeeds bytes n).getLast? <;> rfl

/-- A later offset is on a later line, or further right on the same one. -/
lemma later_of_lt (bytes : List UInt8) {m n : Nat} (h : m < n) :
    (lineFeeds bytes m).length < (lineFeeds bytes n).length ∨
      (lineFeeds bytes m).length = (lineFeeds bytes n).length ∧
        m - lineStart bytes m < n - lineStart bytes n := by
  obtain ⟨k, rfl⟩ := Nat.exists_eq_add_of_lt h
  rw [Nat.add_assoc] at h ⊢
  have hfeeds := lineFeeds_add bytes m (k + 1)
  rcases hlater : lineFeeds (bytes.drop m) (k + 1) with _ | ⟨i, later⟩
  · rw [hlater, List.map_nil, List.append_nil] at hfeeds
    have hle := lineStart_le bytes m
    have hstart : lineStart bytes (m + (k + 1)) = lineStart bytes m := by
      rw [lineStart, hfeeds, lineStart]
    refine .inr ⟨by rw [hfeeds], ?_⟩
    omega
  · refine .inl ?_
    rw [hfeeds, hlater, List.length_append, List.length_map, List.length_cons]
    omega

namespace LineMap

/-- The bytes of one character have a line feed only if it is one. -/
lemma lineFeeds_utf8EncodeChar (c : Char) (rest : List UInt8) :
    lineFeeds (String.utf8EncodeChar c ++ rest) c.utf8Size = if c = '\n' then [0] else [] := by
  split
  · next hc =>
    subst hc
    rfl
  · next hc =>
    refine List.filter_eq_nil_iff.mpr fun i hi hfeed => lineFeed_not_mem hc ?_
    rw [List.mem_range, ← String.length_utf8EncodeChar] at hi
    rw [List.getElem?_append_left hi, decide_eq_true_eq] at hfeed
    exact List.mem_of_getElem? hfeed

/-- A line starts behind each line feed. -/
lemma startsAfter_eq (offset : Nat) (text : List Char) : startsAfter offset text =
    (lineFeeds (encode text) (byteLength text)).map fun i => offset + i + 1 := by
  induction text generalizing offset with
  | nil => rfl
  | cons c rest ih =>
    have hdrop : (String.utf8EncodeChar c ++ encode rest).drop c.utf8Size = encode rest := by
      rw [← String.length_utf8EncodeChar, List.drop_left]
    rw [encode_cons, byteLength, lineFeeds_add, hdrop, lineFeeds_utf8EncodeChar, startsAfter, ih,
      List.map_append, List.map_map]
    split
    · next hc =>
      have hsize : c.utf8Size = 1 := by
        rw [hc]
        rfl
      simp [Function.comp_def, Nat.add_assoc, hsize]
    · simp [Function.comp_def, Nat.add_assoc]

variable {text : List Char} {offset : Nat}

/-- The starts up to an offset are 0 and those behind the line feeds before it. -/
lemma exists_starts_eq (h : offset ≤ byteLength text) : ∃ later, (ofChars text).starts.toList =
    0 :: (lineFeeds (encode text) offset).map (· + 1) ++ later ∧ ∀ n ∈ later, offset < n := by
  obtain ⟨k, hk⟩ := Nat.exists_eq_add_of_le h
  refine ⟨((lineFeeds ((encode text).drop offset) k).map (offset + ·)).map (· + 1), ?_, ?_⟩
  · rw [List.cons_append, ← List.map_append, ← lineFeeds_add, ← hk, ofChars, startsAfter_eq]
    simp only [Nat.zero_add]
  · simp only [List.map_map, List.forall_mem_map, Function.comp_apply]
    intro i _
    omega

lemma le_of_mem_starts {n : Nat} (h : n ∈ (lineFeeds (encode text) offset).map (· + 1)) :
    n ≤ offset := by
  obtain ⟨i, hi, rfl⟩ := List.mem_map.mp h
  exact lt_of_mem_lineFeeds hi

/-- **Where an offset is**, whether it stands between two characters or within one. -/
lemma locate_eq_bytes (span : Span) (h : offset = min span.start (byteLength text)) :
    (ofChars text).locate span = ⟨1 + (lineFeeds (encode text) offset).length,
      1 + (offset - lineStart (encode text) offset), span⟩ := by
  have hle : offset ≤ byteLength text := h ▸ Nat.min_le_right _ _
  obtain ⟨later, hstarts, hlater⟩ := exists_starts_eq hle
  rw [locate_of_starts (pairwise_starts text) h.symm hstarts (Nat.zero_le _)
    (fun _ => le_of_mem_starts) hlater, List.length_map, lineStart_eq, Nat.add_comm 1,
    Nat.add_comm 1]

/-- The start of the line is found among all starts. -/
lemma getElem?_starts (h : offset ≤ byteLength text) :
    (ofChars text).starts.toList[(lineFeeds (encode text) offset).length]? =
      some (lineStart (encode text) offset) := by
  obtain ⟨later, hstarts, -⟩ := exists_starts_eq h
  rw [hstarts, ← lineStart_eq, ← List.getLast?_cons, List.getElem?_append_left (by simp),
    List.getLast?_eq_getElem?]
  simp

/-- The lines that start up to an offset are the first one and one for each line feed before it. -/
lemma countP_starts (h : offset ≤ byteLength text) :
    (ofChars text).starts.toList.countP (· ≤ offset) =
      1 + (lineFeeds (encode text) offset).length := by
  obtain ⟨later, hstarts, hlater⟩ := exists_starts_eq h
  have hfirst : ((lineFeeds (encode text) offset).map (· + 1)).countP (· ≤ offset) =
      (lineFeeds (encode text) offset).length := by
    rw [List.countP_eq_length.mpr, List.length_map]
    exact fun n hn => decide_eq_true (le_of_mem_starts hn)
  have hrest : later.countP (· ≤ offset) = 0 := by
    rw [List.countP_eq_zero]
    intro n hn
    simpa using hlater n hn
  rw [hstarts, List.countP_append, List.countP_cons_of_pos (by simp), hfirst, hrest]
  omega

/-- **Lines and columns count bytes.** The line of a span is that of its first byte, or of the end
of the source if it starts behind that: it counts the line feeds before this offset, and the column
counts the bytes since the last of them, both from 1 on. The line starts are in order; as many of
them as the line says are at or before the offset, and the last of these starts the line. A later
offset has a later place. -/
theorem locate_counts_line_feeds (source : String) (span : Span) :
    let bytes := source.toUTF8.data.toList
    let offset := min span.start bytes.length
    let l := (ofString source).locate span
    l = ⟨1 + (lineFeeds bytes offset).length, 1 + (offset - lineStart bytes offset), span⟩ ∧
    (ofString source).starts.toList.Pairwise (· < ·) ∧
    (ofString source).starts.toList.countP (· ≤ offset) = l.line ∧
    (ofString source).starts.toList[l.line - 1]? = some (lineStart bytes offset) ∧
    lineStart bytes offset ≤ offset ∧
    ∀ span' : Span, span.start < span'.start → span'.start ≤ bytes.length →
      l.Before ((ofString source).locate span') := by
  intro bytes offset l
  have hbytes : bytes = encode source.toList := toUTF8_eq_encode source
  have hlength : bytes.length = byteLength source.toList := by rw [hbytes, length_encode]
  have hl : l = ⟨1 + (lineFeeds bytes offset).length,
      1 + (offset - lineStart bytes offset), span⟩ := by
    rw [hbytes]
    exact locate_eq_bytes span (by rw [← hlength])
  have hle : offset ≤ byteLength source.toList := hlength ▸ Nat.min_le_right _ _
  refine ⟨hl, pairwise_starts _, ?_, ?_, lineStart_le bytes offset, fun span' hlt hle => ?_⟩
  · rw [hl, hbytes]
    exact countP_starts hle
  · rw [hl, hbytes, Nat.add_sub_cancel_left]
    exact getElem?_starts hle
  · have hoffset : offset = span.start := Nat.min_eq_left (by omega)
    have hl' : (ofString source).locate span' = _ :=
      locate_eq_bytes span' (Nat.min_eq_left (hlength ▸ hle)).symm
    rw [hl, hl', hoffset, hbytes]
    have hbefore := later_of_lt (encode source.toList) hlt
    simp only [Location.Before]
    omega

/-- Offsets within a character, on a line feed, at a line start and behind the end. -/
theorem locate_counts_line_feeds_within :
    let m := ofString "aé\n\nb"
    [m.locate ⟨2, 3⟩, m.locate ⟨3, 4⟩, m.locate ⟨4, 5⟩, m.locate ⟨5, 6⟩, m.locate ⟨9, 9⟩] =
      [⟨1, 3, ⟨2, 3⟩⟩, ⟨1, 4, ⟨3, 4⟩⟩, ⟨2, 1, ⟨4, 5⟩⟩, ⟨3, 1, ⟨5, 6⟩⟩, ⟨3, 2, ⟨9, 9⟩⟩] ∧
    "aé\n\nb".toUTF8.data.toList.length = 6 ∧ (m.locate ⟨3, 4⟩).Before (m.locate ⟨6, 6⟩) := by
  intro m
  have hlength : "aé\n\nb".toUTF8.data.toList.length = 6 := by decide +kernel
  obtain ⟨-, -, -, -, -, hbefore⟩ := locate_counts_line_feeds "aé\n\nb" ⟨3, 4⟩
  exact ⟨by decide +kernel, hlength, hbefore ⟨6, 6⟩ (by decide) (by rw [hlength])⟩

end LineMap

end CrossAsm
