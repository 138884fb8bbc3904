import Mathlib.Data.List.DropRight
import Mathlib.Data.List.GetD
import Mathlib.Tactic.Common
import CrossAsm.Proofs.Scanning

/-!
Places in a text. An offset is a boundary if it stands between two characters, and what is located
there has as its line the number of line ends before it and as its column the bytes since the last
of them, both counted from 1. The order of lines and columns is that of the offsets.
-/

namespace CrossAsm

variable {text : List Char}

/-! ### Boundaries -/

@[simp] lemma byteLength_append (u v : List Char) :
    byteLength (u ++ v) = byteLength u + byteLength v := by
  induction u with
  | nil => simp [byteLength]
  | cons c rest ih => rw [List.cons_append, byteLength, byteLength, ih, Nat.add_assoc]

lemma byteLength_pos {u : List Char} (h : u ≠ []) : 0 < byteLength u := by
  have hlength := List.length_pos_iff.mpr h
  have hbytes := length_le_byteLength u
  omega

/-- The offset stands between two characters of the text, or at one of its ends. -/
def Boundary (text : List Char) (offset : Nat) : Prop :=
  ∃ before after, text = before ++ after ∧ offset = byteLength before

lemma boundary_append (before after : List Char) : Boundary (before ++ after) (byteLength before) :=
  ⟨before, after, rfl, rfl⟩

/-- Two boundaries cut a text in three. -/
lemma Boundary.split {m n : Nat} (hm : Boundary text m) (hn : Boundary text n) (h : m ≤ n) :
    ∃ before part after, text = before ++ part ++ after ∧ m = byteLength before ∧
      n = byteLength (before ++ part) := by
  obtain ⟨u, v, rfl, rfl⟩ := hm
  obtain ⟨u', v', huv, rfl⟩ := hn
  rcases List.append_eq_append_iff.mp huv with ⟨part, rfl, rfl⟩ | ⟨part, rfl, rfl⟩
  · exact ⟨u, part, v', by simp, rfl, rfl⟩
  · -- the other way round there is nothing between the two
    have hpart : part = [] := by
      by_contra hne
      have := byteLength_pos hne
      simp only [byteLength_append] at h
      omega
    subst hpart
    exact ⟨u', [], v, by simp, by simp, by simp⟩

/-! ### Line starts -/

/-- What stands behind the last line end of a text. -/
def lastLine (text : List Char) : List Char := text.rtakeWhile (· != '\n')

lemma lastLine_append_of_not_mem {before part : List Char} (h : '\n' ∉ part) :
    lastLine (before ++ part) = lastLine before ++ part := by
  induction part using List.reverseRecOn with
  | nil => simp
  | append_singleton part c ih =>
    obtain ⟨hpart, hc⟩ : '\n' ∉ part ∧ c ≠ '\n' := by simpa [eq_comm] using h
    rw [lastLine, ← List.append_assoc, List.rtakeWhile_concat_pos _ _ _ (by simpa using hc),
      ← lastLine, ih hpart, List.append_assoc]

namespace LineMap

lemma startsAfter_append (offset : Nat) (u v : List Char) :
    startsAfter offset (u ++ v) =
      startsAfter offset u ++ startsAfter (offset + byteLength u) v := by
  induction u generalizing offset with
  | nil => rfl
  | cons c rest ih =>
    simp only [List.cons_append, startsAfter, byteLength, ih, Nat.add_assoc]
    split <;> rfl

/-- A line starts behind some character of the text. -/
lemma mem_startsAfter {offset n : Nat} (h : n ∈ startsAfter offset text) :
    offset < n ∧ n ≤ offset + byteLength text := by
  induction text generalizing offset with
  | nil => simp [startsAfter] at h
  | cons c rest ih =>
    have hc := c.utf8Size_pos
    have hn : n = offset + c.utf8Size ∨ n ∈ startsAfter (offset + c.utf8Size) rest := by
      simp only [startsAfter] at h
      split at h
      · exact List.mem_cons.mp h
      · exact .inr h
    simp only [byteLength]
    rcases hn with rfl | hn
    · omega
    · have := ih hn
      omega

/-- There are as many line starts as line ends. -/
lemma length_startsAfter (offset : Nat) (text : List Char) :
    (startsAfter offset text).length = text.count '\n' := by
  induction text generalizing offset with
  | nil => rfl
  | cons c rest ih =>
    simp only [startsAfter, List.count_cons]
    split
    · next hc => simp [hc, ih]
    · next hc => simp [hc, ih]

/-- From the last line start on there is the last line. -/
lemma getLast?_startsAfter (offset : Nat) (text : List Char) :
    (startsAfter offset text).getLast?.getD offset + byteLength (lastLine text) =
      offset + byteLength text := by
  induction text using List.reverseRecOn with
  | nil => rfl
  | append_singleton text c ih =>
    rw [startsAfter_append, byteLength_append]
    by_cases hc : c = '\n'
    · have hlast : lastLine (text ++ [c]) = [] :=
        List.rtakeWhile_concat_neg _ _ _ (by simpa using hc)
      rw [hlast]
      simp [startsAfter, byteLength, hc, Nat.add_assoc]
    · have hlast : lastLine (text ++ [c]) = lastLine text ++ [c] :=
        lastLine_append_of_not_mem (by simpa [eq_comm] using hc)
      rw [hlast, byteLength_append]
      simp only [startsAfter, if_neg hc, List.append_nil]
      omega

lemma pairwise_startsAfter (offset : Nat) (text : List Char) :
    (startsAfter offset text).Pairwise (· < ·) := by
  induction text generalizing offset with
  | nil => exact .nil
  | cons c rest ih =>
    simp only [startsAfter]
    split
    · exact .cons (fun n hn => (mem_startsAfter hn).1) (ih _)
    · exact ih _

/-- The line starts are in order. -/
lemma pairwise_starts (text : List Char) : (ofChars text).starts.toList.Pairwise (· < ·) :=
  .cons (fun _ hn => (mem_startsAfter hn).1) (pairwise_startsAfter 0 text)

/-- The search keeps between its bounds how many starts are at or before the offset, and ends with
the last of these. -/
lemma line_search {starts : Array Nat} {offset lo hi k : Nat} (hlo : lo ≤ k) (hhi : k ≤ hi)
    (horder : ∀ i j, i < j → j < k → starts.getD i 0 < starts.getD j 0)
    (hbefore : ∀ j < k, starts.getD j 0 ≤ offset)
    (hafter : ∀ j < hi, k ≤ j → offset < starts.getD j 0) :
    (search starts offset lo hi).line = k - 1 := by
  fun_induction search starts offset lo hi with
  | case1 lo hi hlt mid hcompare =>
    -- a later start before the offset would be behind the one that is equal to it
    have heq : starts.getD mid 0 = offset := Nat.compare_eq_eq.mp hcompare
    have hmid : mid < k := by
      by_contra hge
      have := hafter mid (by omega) (by omega)
      omega
    have hlast : ¬ mid + 1 < k := by
      intro hnext
      have := horder mid (mid + 1) (by omega) hnext
      have := hbefore (mid + 1) hnext
      omega
    simp only [Found.line]
    omega
  | case2 lo hi hlt mid hcompare ih =>
    have hless : starts.getD mid 0 < offset := Nat.compare_eq_lt.mp hcompare
    refine ih ?_ hhi hafter
    by_contra hge
    have := hafter mid (by omega) (by omega)
    omega
  | case3 lo hi hlt mid hcompare ih =>
    have hgreater : offset < starts.getD mid 0 := Nat.compare_eq_gt.mp hcompare
    have hle : k ≤ mid := by
      by_contra hge
      have := hbefore mid (by omega)
      omega
    exact ih hlo hle fun j hj => hafter j (by omega)
  | case4 lo hi hge =>
    simp only [Found.line]
    omega

/-- The line of an offset is the last one that starts at or before it. -/
lemma locate_of_starts {m : LineMap} {span : Span} {offset first : Nat} {front later : List Nat}
    (horder : m.starts.toList.Pairwise (· < ·)) (hoffset : min span.start m.length = offset)
    (hstarts : m.starts.toList = first :: front ++ later) (hfirst : first ≤ offset)
    (hfront : ∀ n ∈ front, n ≤ offset) (hlater : ∀ n ∈ later, offset < n) :
    m.locate span = ⟨front.length + 1, offset - front.getLast?.getD first + 1, span⟩ := by
  have hget (j : Nat) : m.starts.getD j 0 = (first :: front ++ later).getD j 0 := by
    rw [← hstarts, Array.getD_eq_getD_getElem?, List.getD_eq_getElem?_getD, Array.getElem?_toList]
  have hsize : m.starts.size = (first :: front).length + later.length := by
    rw [← Array.length_toList, hstarts, List.length_append]
  have hline : (search m.starts offset 0 m.starts.size).line = front.length := by
    refine line_search (k := (first :: front).length) (Nat.zero_le _) (by omega) ?_ ?_ ?_
    · intro i j hij hj
      rw [hstarts] at horder
      have hlength : j < (first :: front ++ later).length := by rw [List.length_append]; omega
      rw [hget, hget, List.getD_eq_getElem _ _ (by omega), List.getD_eq_getElem _ _ hlength]
      exact List.pairwise_iff_getElem.mp horder i j (by omega) hlength hij
    · intro j hj
      rw [hget, List.getD_append _ _ _ _ hj, List.getD_eq_getElem _ _ hj]
      rcases List.mem_cons.mp (List.getElem_mem hj) with hn | hn
      · rwa [hn]
      · exact hfront _ hn
    · intro j hj hle
      rw [hget, List.getD_append_right _ _ _ _ hle, List.getD_eq_getElem _ _ (by omega)]
      exact hlater _ (List.getElem_mem _)
  have hstart : m.starts.getD front.length 0 = front.getLast?.getD first := by
    rw [hget, List.getD_append _ _ _ _ (by simp), List.getD_eq_getElem?_getD,
      ← Option.getD_some (a := front.getLast?.getD first) (b := 0), ← List.getLast?_cons,
      List.getLast?_eq_getElem?]
    rfl
  simp only [locate, hoffset, hline, hstart]

/-- **Where a boundary is**: its line counts the line ends before it, its column the bytes since. -/
lemma locate_eq {span : Span} {before after : List Char} (h : span.start = byteLength before) :
    (ofChars (before ++ after)).locate span =
      ⟨1 + before.count '\n', 1 + byteLength (lastLine before), span⟩ := by
  have hmin : min span.start (byteLength (before ++ after)) = byteLength before := by
    rw [byteLength_append]
    omega
  have hstarts : (ofChars (before ++ after)).starts.toList =
      (0 :: startsAfter 0 before) ++ startsAfter (byteLength before) after := by
    rw [ofChars, startsAfter_append, Nat.zero_add]
    rfl
  have hfront : ∀ n ∈ startsAfter 0 before, n ≤ byteLength before := fun n hn => by
    have := mem_startsAfter hn
    omega
  have hlast := getLast?_startsAfter 0 before
  have hcolumn : byteLength before - (startsAfter 0 before).getLast?.getD 0 + 1 =
      1 + byteLength (lastLine before) := by omega
  rw [locate_of_starts (pairwise_starts _) hmin hstarts (Nat.zero_le _) hfront
    fun n hn => (mem_startsAfter hn).1, length_startsAfter, hcolumn, Nat.add_comm]

/-- Only the start of a span decides on line and column. -/
lemma locate_congr (m : LineMap) {span span' : Span} (h : span.start = span'.start) :
    m.locate span' = { m.locate span with span := span' } := by
  simp only [locate, h]

end LineMap

/-! ### Locations -/

/-- The location comes before the other one, by line and then by column. -/
def Location.Before (l m : Location) : Prop :=
  l.line < m.line ∨ l.line = m.line ∧ l.column < m.column

/-- A later boundary has a later place. -/
lemma LineMap.locate_before {span span' : Span} (h : Boundary text span.start)
    (h' : Boundary text span'.start) (hlt : span.start < span'.start) :
    ((ofChars text).locate span).Before ((ofChars text).locate span') := by
  obtain ⟨before, part, after, rfl, hstart, hstart'⟩ := h.split h' (Nat.le_of_lt hlt)
  rw [locate_eq hstart', List.append_assoc, locate_eq hstart]
  by_cases hpart : '\n' ∈ part
  · refine .inl ?_
    have := List.count_pos_iff.mpr hpart
    simp only [List.count_append]
    omega
  · refine .inr ⟨?_, ?_⟩
    · simp [List.count_eq_zero.mpr hpart]
    · rw [byteLength_append] at hstart'
      simp only [lastLine_append_of_not_mem hpart, byteLength_append]
      omega

/-- The location is that of a part of the text. Its span covers the part, and its line and column
are those of the part's first byte, from 1 on. -/
def Location.PointsInto (text : List Char) (l : Location) : Prop :=
  ∃ before part after, text = before ++ part ++ after ∧
    l = ⟨1 + before.count '\n', 1 + byteLength (lastLine before),
      ⟨byteLength before, byteLength (before ++ part)⟩⟩

namespace Location

variable {l m : Location} {span : Span}

lemma pointsInto_locate (hstart : Boundary text span.start) (hstop : Boundary text span.stop)
    (h : span.start ≤ span.stop) : ((LineMap.ofChars text).locate span).PointsInto text := by
  obtain ⟨before, part, after, rfl, hb, hp⟩ := hstart.split hstop h
  refine ⟨before, part, after, rfl, ?_⟩
  rw [List.append_assoc, LineMap.locate_eq hb, ← hb, ← hp]

namespace PointsInto

lemma start (h : l.PointsInto text) : Boundary text l.span.start := by
  obtain ⟨before, part, after, rfl, rfl⟩ := h
  exact ⟨before, part ++ after, by simp, rfl⟩

lemma stop (h : l.PointsInto text) : Boundary text l.span.stop := by
  obtain ⟨before, part, after, rfl, rfl⟩ := h
  exact boundary_append _ _

lemma start_le (h : l.PointsInto text) : l.span.start ≤ l.span.stop := by
  obtain ⟨before, part, after, rfl, rfl⟩ := h
  simp

/-- Such a location is found again from its span. -/
lemma locate (h : l.PointsInto text) : (LineMap.ofChars text).locate l.span = l := by
  obtain ⟨before, part, after, rfl, rfl⟩ := h
  rw [List.append_assoc, LineMap.locate_eq rfl]

lemma before (h : l.PointsInto text) (hm : m.PointsInto text) (hlt : l.span.start < m.span.start) :
    l.Before m := by
  rw [← h.locate, ← hm.locate]
  exact LineMap.locate_before h.start hm.start hlt

/-- Stretching a location to one that starts no earlier leaves its start alone. -/
lemma through (h : l.PointsInto text) (hm : m.PointsInto text)
    (hle : l.span.start ≤ m.span.start) : (l.through m).PointsInto text := by
  have hstart : (l.through m).span.start = l.span.start := Nat.min_eq_left hle
  have hstop : Boundary text (l.through m).span.stop := by
    rcases Nat.le_total l.span.stop m.span.stop with hs | hs
    · rw [show (l.through m).span.stop = m.span.stop from Nat.max_eq_right hs]
      exact hm.stop
    · rw [show (l.through m).span.stop = l.span.stop from Nat.max_eq_left hs]
      exact h.stop
  have hlocate : (LineMap.ofChars text).locate (l.through m).span = l.through m := by
    rw [LineMap.locate_congr _ hstart.symm, h.locate]
    rfl
  rw [← hlocate]
  refine pointsInto_locate (by rw [hstart]; exact h.start) hstop ?_
  rw [hstart]
  exact Nat.le_trans h.start_le (Nat.le_max_left _ _)

end PointsInto

end Location

end CrossAsm
