import Mathlib.Tactic.Common
import CrossAsm.Output
import CrossAsm.Proofs.Spacing

/-!
Program files keep bytes at their addresses. A file says where it goes, and the bytes behind that
are those of memory from there on, the gaps between blocks included. Main statement: this holds of
all blocks in order that are apart, and so of a source without lines that overlap.
-/

namespace CrossAsm

namespace Memory

/-! ### What the blocks in front have to do with an address -/

variable {b : Block} {blocks : List Block} {a : UInt32}

lemma byteAt_cons_of_contains (h : b.contains a = true) :
    byteAt (b :: blocks) a = b.bytes.getD (a - b.start).toNat unmappedByte := by
  simp [byteAt, h]

lemma byteAt_cons_of_not_contains (h : b.contains a = false) :
    byteAt (b :: blocks) a = byteAt blocks a := by
  simp [byteAt, h]

/-- At its own addresses a block in front gives its own bytes. -/
lemma map_byteAt_own (hb : b.Proper) :
    (consecutive b.start b.size).map (byteAt (b :: blocks)) = b.bytes.toList := by
  have hfits := hb.inMemory
  apply List.ext_getElem
  · simp [consecutive, Block.size]
  · intro i hi hi'
    rw [Array.length_toList] at hi'
    have hi : i < b.size := hi'
    have hat : (b.start + UInt32.ofNat i).toNat = b.start.toNat + i := toNat_add_ofNat (by omega)
    have hin : b.contains (b.start + UInt32.ofNat i) = true := by
      rw [hb.contains_iff]
      omega
    have hoffset : (b.start + UInt32.ofNat i - b.start).toNat = i := by
      rw [UInt32.toNat_sub_of_le _ _ (by rw [UInt32.le_iff_toNat_le]; omega)]
      omega
    simp only [consecutive, List.getElem_map, List.getElem_range]
    rw [byteAt_cons_of_contains hin, hoffset]
    simp [Array.getD, hi']

/-- Behind a block memory is that of the other blocks. -/
lemma map_byteAt_behind (hb : b.Proper) {n : Nat} (ha : b.stop ≤ a)
    (hn : a.toNat + n < 0x100000000) :
    (consecutive a n).map (byteAt (b :: blocks)) = (consecutive a n).map (byteAt blocks) := by
  refine List.map_congr_left fun x hx => byteAt_cons_of_not_contains ?_
  rw [mem_consecutive hn] at hx
  rw [UInt32.le_iff_toNat_le, hb.toNat_stop] at ha
  rw [← Bool.not_eq_true, hb.contains_iff]
  omega

/-- Before the first block there is nothing. -/
lemma map_byteAt_gap (h : InOrder (b :: blocks)) {n : Nat} (hn : a.toNat + n ≤ b.start.toNat) :
    (consecutive a n).map (byteAt (b :: blocks)) = List.replicate n unmappedByte := by
  have hb := (h.proper b List.mem_cons_self).inMemory
  rw [List.eq_replicate_iff]
  refine ⟨by simp [consecutive], ?_⟩
  simp only [List.mem_map, forall_exists_index, and_imp]
  rintro _ x hx rfl
  rw [mem_consecutive (by omega)] at hx
  have hnone : (b :: blocks).find? (·.contains x) = none := by
    rw [List.find?_eq_none]
    intro c hc
    have hle : b.start.toNat ≤ c.start.toNat := h.start_le hc
    rw [(h.proper c hc).contains_iff]
    omega
  rw [byteAt, hnone]

/-- Memory from where a block starts: its bytes, the gap behind it, and what is from where the next
block starts. -/
lemma map_byteAt_cons {next : Block} (h : InOrder (b :: next :: blocks)) (hle : b.stop ≤ next.start)
    {n : Nat} (hn : next.start.toNat + n < 0x100000000) :
    (consecutive b.start (b.size + ((next.start - b.stop).toNat + n))).map
        (byteAt (b :: next :: blocks)) =
      b.bytes.toList ++ List.replicate (next.start - b.stop).toNat unmappedByte ++
        (consecutive next.start n).map (byteAt (next :: blocks)) := by
  have hb := h.proper b List.mem_cons_self
  have hgap : b.stop.toNat + (next.start - b.stop).toNat = next.start.toNat := by
    rw [UInt32.toNat_sub_of_le _ _ hle]
    exact Nat.add_sub_cancel' (UInt32.le_iff_toNat_le.mp hle)
  have hstop : b.start + UInt32.ofNat b.size = b.stop := rfl
  have hnext : b.stop + UInt32.ofNat (next.start - b.stop).toNat = next.start := by
    apply UInt32.toNat_inj.mp
    rw [toNat_add_ofNat (by omega), hgap]
  rw [consecutive_add, consecutive_add, List.map_append, List.map_append, hstop, hnext,
    map_byteAt_own hb, map_byteAt_behind hb (UInt32.le_refl _) (by omega),
    map_byteAt_behind hb hle hn, map_byteAt_gap h.tail (Nat.le_of_eq hgap), List.append_assoc]

/-! ### The program file -/

/-- The last block stops behind where the first one starts, in the memory there is. -/
lemma InOrder.getLast_stop (h : InOrder (b :: blocks)) :
    b.start.toNat < ((b :: blocks).getLast (List.cons_ne_nil _ _)).stop.toNat ∧
      ((b :: blocks).getLast (List.cons_ne_nil _ _)).stop.toNat ≤ 0x10000 := by
  have hmem := List.getLast_mem (List.cons_ne_nil b blocks)
  have hproper := h.proper _ hmem
  have hpos := hproper.nonempty
  have hstart := h.start_le hmem
  rw [hproper.toNat_stop]
  exact ⟨by omega, hproper.inMemory⟩

/-- The body is memory from where the first block starts to where the last one stops. -/
lemma body_eq (h : InOrder blocks) (hchain : blocks.IsChain Block.Ahead) (hne : blocks ≠ []) :
    body blocks = (consecutive (blocks.head hne).start
      ((blocks.getLast hne).stop.toNat - (blocks.head hne).start.toNat)).map (byteAt blocks) := by
  fun_induction body blocks with
  | case1 => exact absurd rfl hne
  | case2 b =>
    have hb := h.proper b List.mem_cons_self
    have hsize : b.stop.toNat - b.start.toNat = b.size := by
      rw [hb.toNat_stop]
      omega
    simp only [List.head_cons, List.getLast_singleton, hsize, map_byteAt_own hb]
  | case3 b next rest gap ih =>
    have hb := h.proper b List.mem_cons_self
    rw [List.isChain_cons_cons, hb.ahead_iff] at hchain
    obtain ⟨hle, hchain⟩ := hchain
    have hgap : gap = (next.start - b.stop).toNat := if_pos hle
    rw [ih h.tail hchain (List.cons_ne_nil _ _)]
    simp only [List.head_cons, List.getLast_cons_cons]
    obtain ⟨hlow, hhigh⟩ := h.tail.getLast_stop
    generalize (next :: rest).getLast _ = last at hlow hhigh ⊢
    have hspan : last.stop.toNat - b.start.toNat =
        b.size + ((next.start - b.stop).toNat + (last.stop.toNat - next.start.toNat)) := by
      have hstop := hb.toNat_stop
      have hle' := UInt32.le_iff_toNat_le.mp hle
      rw [UInt32.toNat_sub_of_le _ _ hle]
      omega
    rw [hspan, map_byteAt_cons h hle (by omega), hgap]

/-- What a loader finds in a program file of blocks: the address of the first one, and then what is
in memory up to the last one, with a zero behind it. -/
structure Loads (blocks : List Block) (hne : blocks ≠ []) (address : UInt16) (bytes : List UInt8) :
    Prop where
  address : address.toNat = (blocks.head hne).start.toNat
  length : bytes.length = (blocks.getLast hne).stop.toNat - (blocks.head hne).start.toNat + 1
  byte : ∀ i, i + 1 < bytes.length →
    bytes[i]? = some (byteAt blocks ((blocks.head hne).start + UInt32.ofNat i))
  zero : bytes.getLast? = some 0

lemma toNat_low_high {a : UInt32} (h : a.toNat < 0x10000) :
    (a.toUInt8.toUInt16 + (256 : UInt16) * (a >>> 8).toUInt8.toUInt16).toNat = a.toNat := by
  have hlow : a.toUInt8.toUInt16.toNat = a.toNat % 256 := by simp
  have hhigh : (a >>> 8).toUInt8.toUInt16.toNat = a.toNat / 256 % 256 := by
    rw [UInt8.toNat_toUInt16, toNat_highByte]
  have hword : (256 : UInt16).toNat = 256 := rfl
  rw [UInt16.toNat_add, UInt16.toNat_mul, hlow, hhigh, hword]
  omega

lemma loads_image (h : InOrder blocks) (hapart : blocks.Pairwise Block.Apart) (hne : blocks ≠ []) :
    ∃ address bytes, Output.split (image blocks) = .ok (address, bytes) ∧
      Loads blocks hne address bytes := by
  have hbody := body_eq h (h.apart_iff_isChain.mp hapart) hne
  obtain ⟨b, rest, rfl⟩ := List.exists_cons_of_ne_nil hne
  have hb := h.proper b List.mem_cons_self
  have hlength : (body (b :: rest)).length =
      ((b :: rest).getLast hne).stop.toNat - b.start.toNat := by
    rw [hbody]
    simp [consecutive]
  refine ⟨_, body (b :: rest) ++ [0], rfl, ?_, ?_, ?_, ?_⟩
  · have hin := hb.inMemory
    have hpos := hb.nonempty
    have hlow : b.start.toNat < 0x10000 := by omega
    exact toNat_low_high hlow
  · simp [hlength]
  · intro i hi
    rw [List.length_append, List.length_singleton] at hi
    rw [List.getElem?_append_left (by omega), hbody, List.getElem?_map, consecutive,
      List.getElem?_map, List.getElem?_range (by simp only [List.head_cons]; omega)]
    rfl
  · simp

end Memory

namespace Assembly

/-- **Program files keep bytes at their addresses**: a loader that puts a file of blocks where it
says finds every byte where memory has it. This is so for all blocks in order that are apart, and
such are the blocks of a source that has a byte and no lines that overlap. -/
theorem program_files_keep_addresses :
    (∀ (blocks : List Block) (hne : blocks ≠ []), Memory.InOrder blocks →
      blocks.Pairwise Block.Apart →
      ∃ address bytes, Output.split (Memory.image blocks) = .ok (address, bytes) ∧
        Memory.Loads blocks hne address bytes) ∧
    ∀ (source : String) (a : Assembly), source.utf8ByteSize < 0x40000000 →
      ofSource source = .ok a → (∃ l ∈ a.codeLines, 0 < l.length) →
      a.codeLines.Pairwise CodeLine.Apart →
      a.blocks ≠ [] ∧ Memory.InOrder a.blocks ∧ a.blocks.Pairwise Block.Apart := by
  refine ⟨fun blocks hne horder hapart => Memory.loads_image horder hapart hne, ?_⟩
  rintro source a hlen hok ⟨l, hl, hpos⟩ hapart
  exact ⟨blocks_ne_nil hlen hok hl hpos, inOrder_of_ok hlen hok,
    (blocks_apart_iff hlen hok).mpr hapart⟩

/-- Three pieces from high to low addresses: the last two touch, the first one ends memory. -/
def topDown : String :=
  ".ORG $FFFE\n.WORD $1234\n.ORG $FFF3\n.BYTE 3\n.ORG $FFF0\n.BYTE 1,2\nNOP"

theorem program_files_keep_addresses_top :
    let blocks : List Block :=
      [⟨0xFFF0, #[1, 2, 0xEA]⟩, ⟨0xFFF3, #[3]⟩, ⟨0xFFFE, #[0x34, 0x12]⟩]
    ∃ a, ofSource topDown = .ok a ∧ (∃ l ∈ a.codeLines, 0 < l.length) ∧
      a.codeLines.Pairwise CodeLine.Apart ∧ a.blocks = blocks ∧ Memory.InOrder blocks ∧
      blocks.Pairwise Block.Apart ∧
      ∃ address bytes, Output.split (Memory.image blocks) = .ok (address, bytes) ∧
        address = 0xFFF0 ∧ bytes.length = 17 ∧ bytes[3]? = some 3 ∧ bytes[4]? = some 0xFF ∧
        bytes[15]? = some 0x12 ∧ bytes.getLast? = some 0 := by
  intro blocks
  have hrun : (ofSource topDown).toOption.any (fun a =>
      (a.codeLines.any (0 < ·.length) && a.codeLines.Pairwise CodeLine.Apart) &&
        a.blocks == blocks) = true := by
    decide +kernel
  obtain ⟨a, hok, hp⟩ := exists_ok_iff.mpr hrun
  simp only [Bool.and_eq_true, decide_eq_true_eq, beq_iff_eq, List.any_eq_true] at hp
  obtain ⟨⟨hbyte, hapart⟩, hblocks⟩ := hp
  obtain ⟨-, horder, hblocksApart⟩ :=
    program_files_keep_addresses.2 topDown a (by decide +kernel) hok hbyte hapart
  rw [hblocks] at horder hblocksApart
  obtain ⟨address, bytes, hsplit, h⟩ :=
    program_files_keep_addresses.1 blocks (by decide) horder hblocksApart
  have hlength : bytes.length = 17 := h.length.trans (by decide)
  exact ⟨a, hok, hbyte, hapart, hblocks, horder, hblocksApart, address, bytes, hsplit,
    UInt16.toNat_inj.mp h.address, hlength, (h.byte 3 (by omega)).trans (by decide),
    (h.byte 4 (by omega)).trans (by decide), (h.byte 15 (by omega)).trans (by decide), h.zero⟩

end Assembly

end CrossAsm
