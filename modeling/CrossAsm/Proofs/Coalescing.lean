import Mathlib.Tactic.Common
import CrossAsm.Proofs.Blocks

/-!
Blocks against the lines they are made of. Lines fall into rows, in one way only: within a row
every line starts where the one before it stops, and no row goes on in the next one. Each row with
a byte is a block, so no byte of a line is lost and none comes twice. Main statement:
`blocks_faithful`.
-/

namespace CrossAsm

namespace CodeLine

/-- The address is one of the line. -/
def Covers (l : CodeLine) (a : UInt32) : Prop :=
  l.start.toNat ≤ a.toNat ∧ a.toNat < l.start.toNat + l.length.toNat

lemma exists_covers_iff {lines : List CodeLine} (hfits : ∀ l ∈ lines, l.Fits) (a : UInt32) :
    (∃ l ∈ lines, l.Covers a) ↔ ∃ l ∈ lines, a ∈ l.addresses :=
  exists_congr fun l => and_congr_right fun hl => (mem_consecutive (hfits l hl)).symm

lemma totalLength_append (front back : List CodeLine) :
    totalLength (front ++ back) = totalLength front + totalLength back := by
  induction front with
  | nil => simp [totalLength]
  | cons l rest ih =>
    rw [List.cons_append, totalLength, totalLength, ih]
    omega

end CodeLine

namespace Memory

variable {payload : Payload} {lines : List CodeLine} {rows : List (List CodeLine)}

/-! ### Rows -/

/-- The second row does not go on where the first one stops. -/
def Parted (row next : List CodeLine) : Prop :=
  ∀ l ∈ row.getLast?, ∀ m ∈ next.head?, l.stop ≠ m.start

/-- The lines in rows that are as long as can be. -/
structure Rows (lines : List CodeLine) (rows : List (List CodeLine)) : Prop where
  all : rows.flatten = lines
  nonempty : [] ∉ rows
  adjoining : ∀ row ∈ rows, row.IsChain fun l m => l.stop = m.start
  parted : rows.IsChain Parted

/-- There is one way to put lines into rows. -/
lemma rows_iff : Rows lines rows ↔ rows = lines.splitBy fun l m => l.stop = m.start := by
  rw [eq_comm, List.splitBy_eq_iff]
  simp only [decide_eq_true_eq, decide_eq_false_iff_not]
  refine ⟨?_, ?_⟩
  · rintro ⟨hall, hne, hadjoin, hparted⟩
    refine ⟨hall.symm, hne, hadjoin, hparted.imp_of_mem_imp fun row next hrow hnext h => ?_⟩
    have hrow : row ≠ [] := fun hnil => hne (hnil ▸ hrow)
    have hnext : next ≠ [] := fun hnil => hne (hnil ▸ hnext)
    exact ⟨hrow, hnext, h _ (List.getLast_mem_getLast? hrow) _ (List.head_mem_head? hnext)⟩
  · rintro ⟨hall, hne, hadjoin, hparted⟩
    refine ⟨hall.symm, hne, hadjoin, hparted.imp fun row next => ?_⟩
    rintro ⟨hrow, hnext, h⟩ l hl m hm
    obtain ⟨-, rfl⟩ := List.mem_getLast?_eq_getLast hl
    rw [← List.head_of_mem_head? hm]
    exact h

/-! ### Blocks -/

/-- The block of a row: it starts where the first line does, and holds what the payload has for all
the lines. -/
def rowBlock (payload : Payload) (row : List CodeLine) : Block :=
  blockAt payload ((row.head?.map (·.start)).getD 0) (CodeLine.totalLength row)

/-- How many bytes blocks have together. -/
def totalSize : List Block → Nat
  | [] => 0
  | b :: rest => b.size + totalSize rest

lemma totalSize_perm {blocks other : List Block} (h : blocks.Perm other) :
    totalSize blocks = totalSize other := by
  induction h with
  | nil => rfl
  | cons b _ ih => rw [totalSize, totalSize, ih]
  | swap b c rest =>
    simp only [totalSize]
    omega
  | trans _ _ ih ih' => rw [ih, ih']

/-- A row is a block, unless it has no byte. -/
lemma blockOf?_row {row : List CodeLine} (hne : row ≠ [])
    (hchain : row.IsChain fun l m => l.stop = m.start) :
    blockOf? payload row =
      if 0 < CodeLine.totalLength row then some (rowBlock payload row) else none := by
  obtain ⟨l, rest, rfl⟩ := List.exists_cons_of_ne_nil hne
  rcases hb : blockOf? payload (l :: rest) with _ | b
  · rw [blockOf?_eq_none, CodeLine.flatMap_addresses hchain] at hb
    have hzero : CodeLine.totalLength (l :: rest) = 0 := by
      simpa [consecutive] using hb
    rw [if_neg (by omega)]
  · obtain ⟨rfl, hpos⟩ := eq_blockAt hchain hb
    rw [if_pos hpos]
    rfl

section Rows

variable (hrows : Rows lines rows)

include hrows

/-- The blocks are those of the rows that have a byte. -/
lemma build_perm (payload : Payload) : (build lines payload).Perm
    ((rows.filter fun row => 0 < CodeLine.totalLength row).map (rowBlock payload)) := by
  have hblocks : (rows.filter fun row => 0 < CodeLine.totalLength row).map (rowBlock payload) =
      rows.filterMap (blockOf? payload) := by
    rw [← List.filterMap_eq_map, List.filterMap_filter]
    refine List.filterMap_congr fun row hrow => ?_
    have hne : row ≠ [] := fun hnil => hrows.nonempty (hnil ▸ hrow)
    rw [blockOf?_row hne (hrows.adjoining row hrow)]
    simp
  rw [hblocks, rows_iff.mp hrows, build_eq]
  exact perm_stableSort _ _

omit hrows in
lemma totalSize_rows (rows : List (List CodeLine)) :
    totalSize ((rows.filter fun row => 0 < CodeLine.totalLength row).map (rowBlock payload)) =
      CodeLine.totalLength rows.flatten := by
  induction rows with
  | nil => rfl
  | cons row rest ih =>
    rw [List.flatten_cons, CodeLine.totalLength_append, ← ih]
    by_cases hpos : 0 < CodeLine.totalLength row
    · simp [hpos, totalSize, rowBlock, size_blockAt]
    · have hzero : CodeLine.totalLength row = 0 := by omega
      simp [hzero]

lemma totalSize_build (payload : Payload) :
    totalSize (build lines payload) = CodeLine.totalLength lines := by
  rw [totalSize_perm (build_perm hrows payload), totalSize_rows, hrows.all]

end Rows

/-- **Blocks are faithful to the lines**: they are in the order of their addresses, none is empty,
and together they have as many bytes as the lines. The lines fall into rows in one way, and the
blocks are those of the rows with a byte. At an address that a line covers memory has what the
payload has, and at any other it is unmapped. -/
theorem blocks_faithful (payload : Payload) (lines : List CodeLine)
    (hfits : ∀ l ∈ lines, l.Fits) :
    (build lines payload).Pairwise (fun b c => b.start ≤ c.start) ∧
      (∀ b ∈ build lines payload, 0 < b.size) ∧
      totalSize (build lines payload) = CodeLine.totalLength lines ∧
      (∃! rows, Rows lines rows) ∧
      (∀ rows, Rows lines rows → (build lines payload).Perm
        ((rows.filter fun row => 0 < CodeLine.totalLength row).map (rowBlock payload))) ∧
      ∀ a, ((∃ l ∈ lines, l.Covers a) →
          byteAt (build lines payload) a = (payload.get? a).getD unmappedByte) ∧
        ((¬∃ l ∈ lines, l.Covers a) → byteAt (build lines payload) a = unmappedByte) := by
  have hrows : Rows lines (lines.splitBy fun l m => l.stop = m.start) := rows_iff.mpr rfl
  refine ⟨sorted_build payload lines, ?_, totalSize_build hrows payload,
    ⟨_, hrows, fun rows h => rows_iff.mp h⟩, fun rows h => build_perm h payload, fun a => ?_⟩
  · intro b hb
    have hmem := (build_perm hrows payload).mem_iff.mp hb
    obtain ⟨row, hrow, rfl⟩ := List.mem_map.mp hmem
    rw [rowBlock, size_blockAt]
    exact of_decide_eq_true (List.mem_filter.mp hrow).2
  · rw [CodeLine.exists_covers_iff hfits]
    exact ⟨byteAt_build_of_mem hfits, byteAt_build_of_not_mem hfits⟩

/-- Three lines in a row, one of them empty, and a later line that starts before them. -/
def crossing : List CodeLine :=
  [⟨0x1001, 2, none, "", 1⟩, ⟨0x1003, 0, none, "", 2⟩, ⟨0x1003, 1, none, "", 3⟩,
    ⟨0x1000, 2, none, "", 4⟩]

/-- Their bytes, but for the one at 0x1002. -/
def gapped : Payload := (Payload.empty.fill 0x1000 [1, 2]).insert 0x1003 4

theorem blocks_faithful_crossing :
    (∀ l ∈ crossing, l.Fits) ∧
      build crossing gapped = [⟨0x1000, #[1, 2]⟩, ⟨0x1001, #[2, 0xFF, 4]⟩] ∧
      totalSize (build crossing gapped) = 5 ∧
      Rows crossing [crossing.take 3, crossing.drop 3] ∧
      byteAt (build crossing gapped) 0x1001 = 2 ∧
      byteAt (build crossing gapped) 0x1002 = 0xFF := by
  have hfits : ∀ l ∈ crossing, l.Fits := by
    unfold CodeLine.Fits
    decide +kernel
  have hrows : Rows crossing [crossing.take 3, crossing.drop 3] :=
    rows_iff.mpr (by decide +kernel)
  obtain ⟨-, -, htotal, -, -, hbytes⟩ := blocks_faithful gapped crossing hfits
  have hcovers (a : UInt32) (ha : ∃ l ∈ crossing, a ∈ l.addresses) :
      byteAt (build crossing gapped) a = (gapped.get? a).getD unmappedByte :=
    (hbytes a).1 ((CodeLine.exists_covers_iff hfits a).mpr ha)
  refine ⟨hfits, by decide +kernel, htotal, hrows, ?_, ?_⟩
  · rw [hcovers 0x1001 (by decide +kernel)]
    decide +kernel
  · rw [hcovers 0x1002 (by decide +kernel)]
    decide +kernel

end Memory

end CrossAsm
