import Mathlib.Data.List.SplitBy
import Mathlib.Tactic.Common
import CrossAsm.Memory
import CrossAsm.Proofs.Sorting

/-!
The memory that code lines make up. Lines in a row, each starting where the one before it stops,
have consecutive addresses, so the block made of them holds the payload at these addresses; and
every line is in one of the rows. The blocks are built line by line, and come to one for each row
that has a byte.
-/

namespace CrossAsm

/-- Addresses in a row. -/
def consecutive (a : UInt32) (n : Nat) : List UInt32 :=
  (List.range n).map fun i => a + UInt32.ofNat i

lemma consecutive_add (a : UInt32) (m n : Nat) :
    consecutive a (m + n) = consecutive a m ++ consecutive (a + UInt32.ofNat m) n := by
  simp only [consecutive, List.range_add, List.map_append, List.map_map, Function.comp_def,
    UInt32.ofNat_add, UInt32.add_assoc]

lemma consecutive_succ (a : UInt32) (n : Nat) :
    consecutive a (n + 1) = a :: consecutive (a + 1) n := by
  rw [Nat.add_comm, consecutive_add]
  simp [consecutive]

lemma toNat_add_ofNat {a : UInt32} {n : Nat} (h : a.toNat + n < 0x100000000) :
    (a + UInt32.ofNat n).toNat = a.toNat + n := by
  have hn : n < UInt32.size := Nat.lt_of_le_of_lt (Nat.le_add_left n _) h
  rw [UInt32.toNat_add, UInt32.toNat_ofNat_of_lt' hn]
  exact Nat.mod_eq_of_lt h

lemma mem_consecutive {a b : UInt32} {n : Nat} (h : a.toNat + n < 0x100000000) :
    b ∈ consecutive a n ↔ a.toNat ≤ b.toNat ∧ b.toNat < a.toNat + n := by
  simp only [consecutive, List.mem_map, List.mem_range]
  refine ⟨?_, ?_⟩
  · rintro ⟨i, hi, rfl⟩
    rw [toNat_add_ofNat (by omega)]
    omega
  · rintro ⟨hlow, hhigh⟩
    refine ⟨b.toNat - a.toNat, by omega, ?_⟩
    apply UInt32.toNat_inj.mp
    rw [toNat_add_ofNat (by omega)]
    omega

namespace CodeLine

/-- The line stops within the addresses there are. -/
def Fits (l : CodeLine) : Prop := l.start.toNat + l.length.toNat < 0x100000000

/-- How many bytes lines have together. -/
def totalLength : List CodeLine → Nat
  | [] => 0
  | l :: rest => l.length.toNat + totalLength rest

lemma addresses_eq (l : CodeLine) : l.addresses = consecutive l.start l.length.toNat := rfl

lemma Fits.toNat_stop {l : CodeLine} (h : l.Fits) :
    l.stop.toNat = l.start.toNat + l.length.toNat := by
  unfold Fits at h
  rw [stop, UInt32.toNat_add]
  omega

section Row

variable {l : CodeLine} {rest : List CodeLine}
  (hchain : (l :: rest).IsChain fun l m => l.stop = m.start) (hfits : ∀ m ∈ l :: rest, m.Fits)

include hchain hfits

/-- A row stops where its last line does, so it keeps within any bound that its lines keep. -/
lemma totalLength_le {bound : Nat}
    (hbound : ∀ m ∈ l :: rest, m.start.toNat + m.length.toNat ≤ bound) :
    l.start.toNat + totalLength (l :: rest) ≤ bound := by
  induction rest generalizing l with
  | nil => exact hbound l List.mem_cons_self
  | cons m rest ih =>
    obtain ⟨hl, hrest⟩ := List.forall_mem_cons.mp hfits
    rw [List.isChain_cons_cons] at hchain
    have hnext := ih hchain.2 hrest (List.forall_mem_cons.mp hbound).2
    have hstop : m.start.toNat = l.start.toNat + l.length.toNat := by
      rw [← hl.toNat_stop, hchain.1]
    simp only [totalLength] at hnext ⊢
    omega

lemma totalLength_lt : l.start.toNat + totalLength (l :: rest) < 0x100000000 :=
  Nat.lt_succ_of_le (totalLength_le hchain hfits fun m hm => Nat.le_of_lt_succ (hfits m hm))

omit hfits in
lemma flatMap_addresses :
    (l :: rest).flatMap addresses = consecutive l.start (totalLength (l :: rest)) := by
  induction rest generalizing l with
  | nil => simp [totalLength, addresses_eq]
  | cons m rest ih =>
    rw [List.isChain_cons_cons] at hchain
    have hstop : l.start + UInt32.ofNat l.length.toNat = m.start := by
      rw [UInt32.ofNat_toNat]
      exact hchain.1
    have htotal : totalLength (l :: m :: rest) = l.length.toNat + totalLength (m :: rest) := rfl
    rw [List.flatMap_cons, ih hchain.2, htotal, consecutive_add, addresses_eq, hstop]

end Row

end CodeLine

namespace Memory

variable {payload : Payload}

/-- What the memory holds at an address that is covered. -/
def held (payload : Payload) (a : UInt32) : UInt8 := (payload.get? a).getD unmappedByte

/-- The block of a row has the addresses of its lines, and at each of them what is held there. -/
structure Shows (payload : Payload) (row : List CodeLine) (b : Block) : Prop where
  contains : ∀ a, b.contains a = true ↔ a ∈ row.flatMap CodeLine.addresses
  byte : ∀ a, b.contains a = true → b.bytes.getD (a - b.start).toNat unmappedByte = held payload a

/-- The block that holds a number of consecutive addresses. -/
def blockAt (payload : Payload) (start : UInt32) (n : Nat) : Block :=
  ⟨start, ((consecutive start n).map (held payload)).toArray⟩

lemma size_blockAt (start : UInt32) (n : Nat) : (blockAt payload start n).size = n := by
  simp [blockAt, Block.size, consecutive]

lemma contains_blockAt {start : UInt32} {n : Nat} (h : start.toNat + n < 0x100000000)
    (a : UInt32) : (blockAt payload start n).contains a = true ↔ a ∈ consecutive start n := by
  have hstop : (blockAt payload start n).stop.toNat = start.toNat + n := by
    rw [Block.stop, size_blockAt]
    exact toNat_add_ofNat h
  rw [mem_consecutive h, ← hstop, ← UInt32.le_iff_toNat_le, ← UInt32.lt_iff_toNat_lt,
    Block.contains, Bool.and_eq_true, decide_eq_true_eq, decide_eq_true_eq]
  rfl

lemma byte_blockAt {start : UInt32} {n : Nat} (h : start.toNat + n < 0x100000000) {a : UInt32}
    (ha : a ∈ consecutive start n) :
    (blockAt payload start n).bytes.getD (a - start).toNat unmappedByte = held payload a := by
  obtain ⟨hlow, hhigh⟩ := (mem_consecutive h).mp ha
  have hsub : (a - start).toNat = a.toNat - start.toNat :=
    UInt32.toNat_sub_of_le _ _ (UInt32.le_iff_toNat_le.mpr hlow)
  have hback : start + UInt32.ofNat (a.toNat - start.toNat) = a := by
    apply UInt32.toNat_inj.mp
    rw [toNat_add_ofNat (by omega)]
    omega
  have hlt : a.toNat - start.toNat < n := by omega
  simp [blockAt, consecutive, hsub, hlt, hback]

/-- The bytes of a row, as a block unless there are none. -/
def blockOf? (payload : Payload) (row : List CodeLine) : Option Block :=
  match row.flatMap CodeLine.addresses with
  | [] => none
  | addresses =>
    some ⟨(row.head?.map (·.start)).getD 0, (addresses.map (held payload)).toArray⟩

lemma blockOf?_eq_none {row : List CodeLine} :
    blockOf? payload row = none ↔ row.flatMap CodeLine.addresses = [] := by
  unfold blockOf?
  split
  · next h => simp [h]
  · next h => simpa using h

/-- A row with an address has a block. -/
lemma exists_blockOf? (payload : Payload) {row : List CodeLine} {a : UInt32}
    (ha : a ∈ row.flatMap CodeLine.addresses) : ∃ b, blockOf? payload row = some b := by
  refine Option.ne_none_iff_exists'.mp fun hnone => ?_
  rw [blockOf?_eq_none.mp hnone] at ha
  exact List.not_mem_nil ha

/-- The block of a row is that of its addresses, if there are any. -/
lemma eq_blockAt {l : CodeLine} {rest : List CodeLine}
    (hchain : (l :: rest).IsChain fun l m => l.stop = m.start) {b : Block}
    (hb : blockOf? payload (l :: rest) = some b) :
    b = blockAt payload l.start (CodeLine.totalLength (l :: rest)) ∧
      0 < CodeLine.totalLength (l :: rest) := by
  have haddr := CodeLine.flatMap_addresses hchain
  unfold blockOf? at hb
  split at hb
  · simp at hb
  · next hne =>
    rw [haddr] at hb hne
    refine ⟨(Option.some.inj hb).symm, Nat.pos_of_ne_zero fun hzero => hne ?_⟩
    rw [hzero]
    rfl

lemma shows_blockOf? {row : List CodeLine} (hrow : row ≠ [])
    (hchain : row.IsChain fun l m => l.stop = m.start) (hfits : ∀ l ∈ row, l.Fits) {b : Block}
    (hb : blockOf? payload row = some b) : Shows payload row b := by
  obtain ⟨l, rest, rfl⟩ := List.exists_cons_of_ne_nil hrow
  have hlt := CodeLine.totalLength_lt hchain hfits
  have haddr := CodeLine.flatMap_addresses hchain
  obtain ⟨rfl, -⟩ := eq_blockAt hchain hb
  refine ⟨?_, ?_⟩
  · intro a
    rw [haddr]
    exact contains_blockAt hlt a
  · intro a ha
    exact byte_blockAt hlt ((contains_blockAt hlt a).mp ha)

/-! ### Line by line -/

/-- The draft has the blocks of some rows behind it, and those lines of a row that came so far. -/
structure Draft.Of (payload : Payload) (rows : List (List CodeLine)) (row : List CodeLine)
    (d : Draft) : Prop where
  blocks : d.blocks.toList = rows.filterMap (blockOf? payload)
  current : d.current.toList = (row.flatMap CodeLine.addresses).map (held payload)
  start : d.start = (row.head?.map (·.start)).getD 0
  previous : d.previous = row.getLast?

namespace Draft.Of

variable {rows : List (List CodeLine)} {row : List CodeLine} {d : Draft}
  (h : d.Of payload rows row) (l : CodeLine)

include h

lemma close : d.close.toList = (rows ++ [row]).filterMap (blockOf? payload) := by
  have hcurrent : d.current = ((row.flatMap CodeLine.addresses).map (held payload)).toArray :=
    Array.toList_inj.mp h.current
  rw [List.filterMap_append, Draft.close, hcurrent, h.start]
  cases haddresses : row.flatMap CodeLine.addresses with
  | nil => simp [haddresses, h.blocks, blockOf?]
  | cons a rest => simp [haddresses, h.blocks, blockOf?]

/-- A line that starts where the row stops goes on with it. -/
lemma add_adjoining {a : CodeLine} (ha : row.getLast? = some a) (hstop : a.stop = l.start) :
    (d.add payload l).Of payload rows (row ++ [l]) := by
  have hgoes : d.previous.any (·.stop = l.start) = true := by simp [h.previous, ha, hstop]
  obtain ⟨init, rfl⟩ := List.getLast?_eq_some_iff.mp ha
  rw [Draft.add, if_pos hgoes]
  refine ⟨h.blocks, ?_, ?_, ?_⟩
  · simp [h.current, held]
  · simp [h.start]
  · simp

/-- Any other line opens a row. -/
lemma add_parted (hstop : ∀ a, row.getLast? = some a → a.stop ≠ l.start) :
    (d.add payload l).Of payload (rows ++ [row]) [l] := by
  have hopens : d.previous.any (·.stop = l.start) = false := by
    rw [h.previous]
    cases hlast : row.getLast? with
    | none => rfl
    | some a => simpa using hstop a hlast
  rw [Draft.add, if_neg (by simp [hopens])]
  refine ⟨h.close, ?_, rfl, rfl⟩
  simp [held]

end Draft.Of

/-- Line by line, the rows are found that the lines are cut into. -/
lemma Draft.Of.foldl_add {rows : List (List CodeLine)} {front : List CodeLine} {a : CodeLine}
    {d : Draft} (h : d.Of payload rows.reverse (a :: front).reverse) (lines : List CodeLine) :
    (lines.foldl (Draft.add payload) d).close.toList =
      (List.splitBy.loop (fun l m => l.stop = m.start) lines a front rows).filterMap
        (blockOf? payload) := by
  have hlast : (a :: front).reverse.getLast? = some a := by simp
  induction lines generalizing d a front rows with
  | nil =>
    rw [List.foldl_nil, h.close, List.splitBy.loop, ← List.reverse_cons]
  | cons l rest ih =>
    rw [List.foldl_cons, List.splitBy.loop]
    by_cases hstop : a.stop = l.start
    · have hnext := h.add_adjoining l hlast hstop
      rw [← List.reverse_cons] at hnext
      simpa [hstop] using ih hnext (by simp)
    · have hparted : ∀ b, (a :: front).reverse.getLast? = some b → b.stop ≠ l.start := by
        intro b hb
        obtain rfl := Option.some.inj (hlast.symm.trans hb)
        exact hstop
      have hnext := h.add_parted l hparted
      rw [← List.reverse_cons] at hnext
      simpa [hstop] using @ih _ [] _ _ hnext (by simp)

/-- **One block for each row** that has a byte, in the order of their addresses. -/
lemma build_eq (payload : Payload) (lines : List CodeLine) :
    build lines payload = stableSort (fun a b => a.start ≤ b.start)
      ((lines.splitBy fun l m => l.stop = m.start).filterMap (blockOf? payload)) := by
  cases lines with
  | nil => rfl
  | cons l rest =>
    have hfirst : (Draft.empty.add payload l).Of payload [] [l] := by
      refine ⟨rfl, ?_, rfl, rfl⟩
      simp [Draft.add, Draft.empty, held]
    have hrest := @Draft.Of.foldl_add payload [] [] l _ hfirst rest
    rw [build, List.foldl_cons, hrest, List.splitBy]

lemma sorted_build (payload : Payload) (lines : List CodeLine) :
    (build lines payload).Pairwise fun b c => b.start ≤ c.start := by
  have hsorted : (build lines payload).Pairwise fun b c => decide (b.start ≤ c.start) = true :=
    pairwise_stableSort (fun b c => by simpa using UInt32.le_total _ _)
      (fun b c d => by simpa using fun h h' => UInt32.le_trans h h') _
  exact hsorted.imp fun h => of_decide_eq_true h

section Build

variable {lines : List CodeLine} (hfits : ∀ l ∈ lines, l.Fits)

include hfits

omit hfits in
/-- What a row is: some of the lines, each starting where the one before it stops. -/
lemma of_mem_rows {row : List CodeLine} (hrow : row ∈ lines.splitBy fun l m => l.stop = m.start) :
    row ≠ [] ∧ row.IsChain (fun l m => l.stop = m.start) ∧ ∀ l ∈ row, l ∈ lines := by
  refine ⟨List.ne_nil_of_mem_splitBy hrow, ?_, ?_⟩
  · exact (List.isChain_of_mem_splitBy hrow).imp fun l m h => of_decide_eq_true h
  · intro l hl
    rw [← lines.flatten_splitBy fun l m => l.stop = m.start]
    exact List.mem_flatten.mpr ⟨row, hrow, hl⟩

lemma shows_of_row {row : List CodeLine} (hrow : row ∈ lines.splitBy fun l m => l.stop = m.start)
    {b : Block} (hb : blockOf? payload row = some b) : Shows payload row b := by
  obtain ⟨hne, hchain, hmem⟩ := of_mem_rows hrow
  exact shows_blockOf? hne hchain (fun l hl => hfits l (hmem l hl)) hb

omit hfits in
lemma mem_build {b : Block} : b ∈ build lines payload ↔
    ∃ row ∈ lines.splitBy fun l m => l.stop = m.start, blockOf? payload row = some b := by
  rw [build_eq, mem_stableSort, List.mem_filterMap]

/-- The memory has the addresses of the lines. -/
lemma exists_contains_iff (a : UInt32) :
    (∃ b ∈ build lines payload, b.contains a = true) ↔ ∃ l ∈ lines, a ∈ l.addresses := by
  have hflat : (∃ l ∈ lines, a ∈ l.addresses) ↔
      ∃ row ∈ lines.splitBy fun l m => l.stop = m.start, a ∈ row.flatMap CodeLine.addresses := by
    conv_lhs => rw [← lines.flatten_splitBy fun l m => l.stop = m.start]
    simp only [List.mem_flatten, List.mem_flatMap]
    tauto
  rw [hflat]
  refine ⟨?_, ?_⟩
  · rintro ⟨b, hb, ha⟩
    obtain ⟨row, hrow, hblock⟩ := mem_build.mp hb
    exact ⟨row, hrow, ((shows_of_row hfits hrow hblock).contains a).mp ha⟩
  · rintro ⟨row, hrow, ha⟩
    obtain ⟨b, hblock⟩ := exists_blockOf? payload ha
    exact ⟨b, mem_build.mpr ⟨row, hrow, hblock⟩,
      ((shows_of_row hfits hrow hblock).contains a).mpr ha⟩

/-- Where a line is, memory reads as the payload. -/
theorem byteAt_build_of_mem {a : UInt32} (h : ∃ l ∈ lines, a ∈ l.addresses) :
    byteAt (build lines payload) a = held payload a := by
  unfold byteAt
  split
  · next b hfind =>
    obtain ⟨row, hrow, hblock⟩ := mem_build.mp (List.mem_of_find?_eq_some hfind)
    have ha : b.contains a = true := List.find?_some (p := fun b : Block => b.contains a) hfind
    exact (shows_of_row hfits hrow hblock).byte a ha
  · next hnone =>
    obtain ⟨b, hb, ha⟩ := (exists_contains_iff hfits a).mpr h
    exact absurd ha (List.find?_eq_none.mp hnone b hb)

/-- Where no line is, memory is unmapped. -/
theorem byteAt_build_of_not_mem {a : UInt32} (h : ¬∃ l ∈ lines, a ∈ l.addresses) :
    byteAt (build lines payload) a = unmappedByte := by
  have hnone : (build lines payload).find? (·.contains a) = none := by
    rw [List.find?_eq_none]
    intro b hb ha
    exact h ((exists_contains_iff hfits a).mp ⟨b, hb, ha⟩)
  rw [byteAt, hnone]

end Build

end Memory

end CrossAsm
