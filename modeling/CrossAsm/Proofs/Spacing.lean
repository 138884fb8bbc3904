import Mathlib.Tactic.Common
import CrossAsm.Proofs.Blocks
import CrossAsm.Proofs.Refinement

/-!
Blocks in the order of their addresses. Whether any two of them overlap shows in neighbours alone,
and it is settled by the lines: a row of lines does not overlap itself, so blocks are apart just if
the lines that they were made of are.
-/

namespace CrossAsm

/-! ### Two lines, two blocks -/

namespace CodeLine

/-- The line stops where the other one starts, or before that. -/
def Ahead (l m : CodeLine) : Prop := l.start.toNat + l.length.toNat ≤ m.start.toNat

instance : Trans Ahead Ahead Ahead where
  trans {l m n} hlm hmn := by
    unfold Ahead at *
    omega

lemma Ahead.apart {l m : CodeLine} (h : l.Ahead m) (hl : l.Fits) (hm : m.Fits) : l.Apart m := by
  intro x hx hx'
  rw [addresses_eq, mem_consecutive hl] at hx
  rw [addresses_eq, mem_consecutive hm] at hx'
  unfold Ahead at h
  omega

end CodeLine

namespace Block

variable {b c : Block}

/-- The block has a byte, and all its bytes are in the memory there is. -/
structure Proper (b : Block) : Prop where
  nonempty : 0 < b.size
  inMemory : b.start.toNat + b.size ≤ 0x10000

/-- The blocks share no address. -/
def Apart (b c : Block) : Prop := ∀ a, b.contains a = true → c.contains a = false

/-- The block stops where the other one starts, or before that. -/
def Ahead (b c : Block) : Prop := b.start.toNat + b.size ≤ c.start.toNat

instance : Trans Ahead Ahead Ahead where
  trans {b c d} hbc hcd := by
    unfold Ahead at *
    omega

lemma Apart.symm (h : b.Apart c) : c.Apart b := by
  intro a hc
  by_contra hb
  rw [Bool.not_eq_false] at hb
  simp [h a hb] at hc

lemma Proper.toNat_stop (h : b.Proper) : b.stop.toNat = b.start.toNat + b.size :=
  toNat_add_ofNat (Nat.lt_of_le_of_lt h.inMemory (by decide))

lemma Proper.contains_iff (h : b.Proper) (a : UInt32) :
    b.contains a = true ↔ b.start.toNat ≤ a.toNat ∧ a.toNat < b.start.toNat + b.size := by
  rw [contains, Bool.and_eq_true, decide_eq_true_eq, decide_eq_true_eq, UInt32.le_iff_toNat_le,
    UInt32.lt_iff_toNat_lt, h.toNat_stop]

lemma Proper.ahead_iff (h : b.Proper) : b.Ahead c ↔ b.stop ≤ c.start := by
  rw [UInt32.le_iff_toNat_le, h.toNat_stop]
  rfl

lemma Ahead.apart (h : b.Ahead c) (hb : b.Proper) (hc : c.Proper) : b.Apart c := by
  intro a ha
  rw [← Bool.not_eq_true, hc.contains_iff]
  rw [hb.contains_iff] at ha
  unfold Ahead at h
  omega

/-- Of two blocks that are apart, the one that starts first is ahead of the other. -/
lemma Apart.ahead (h : b.Apart c) (hb : b.Proper) (hc : c.Proper) (hle : b.start ≤ c.start) :
    b.Ahead c := by
  have hstart : c.contains c.start = true := by
    have := hc.nonempty
    rw [hc.contains_iff]
    omega
  have hnot : ¬b.contains c.start = true := by
    rw [Bool.not_eq_true]
    exact h.symm _ hstart
  rw [hb.contains_iff] at hnot
  rw [UInt32.le_iff_toNat_le] at hle
  unfold Ahead
  omega

end Block

/-! ### Blocks in order -/

namespace Memory

variable {blocks : List Block}

/-- Blocks with a byte at least, in the memory there is and in the order of their addresses. -/
structure InOrder (blocks : List Block) : Prop where
  proper : ∀ b ∈ blocks, b.Proper
  sorted : blocks.Pairwise fun b c => b.start ≤ c.start

lemma InOrder.tail {b : Block} (h : InOrder (b :: blocks)) : InOrder blocks where
  proper := (List.forall_mem_cons.mp h.proper).2
  sorted := (List.pairwise_cons.mp h.sorted).2

lemma InOrder.start_le {b c : Block} (h : InOrder (b :: blocks)) (hc : c ∈ b :: blocks) :
    b.start.toNat ≤ c.start.toNat := by
  rcases List.mem_cons.mp hc with rfl | hc
  · exact Nat.le_refl _
  · exact UInt32.le_iff_toNat_le.mp ((List.pairwise_cons.mp h.sorted).1 c hc)

/-- It is enough to look at neighbours. -/
lemma InOrder.apart_iff_isChain (h : InOrder blocks) :
    blocks.Pairwise Block.Apart ↔ blocks.IsChain Block.Ahead := by
  rw [List.isChain_iff_pairwise]
  refine ⟨?_, ?_⟩
  · intro hapart
    refine (h.sorted.and hapart).imp_of_mem ?_
    rintro b c hb hc ⟨hle, hbc⟩
    exact hbc.ahead (h.proper b hb) (h.proper c hc) hle
  · intro hahead
    exact hahead.imp_of_mem fun hb hc hbc => hbc.apart (h.proper _ hb) (h.proper _ hc)

/-- The image logs an overlap for every two neighbours of which one is not ahead of the other. -/
lemma InOrder.imageEvents_eq_nil (h : InOrder blocks) :
    imageEvents blocks = [] ↔ blocks.IsChain Block.Ahead := by
  fun_induction imageEvents blocks with
  | case1 => simp
  | case2 b => simp
  | case3 b next rest events hle ih =>
    have hb := h.proper b List.mem_cons_self
    rw [List.isChain_cons_cons, hb.ahead_iff, and_iff_right hle]
    exact ih h.tail
  | case4 b next rest events hle ih =>
    have hb := h.proper b List.mem_cons_self
    simp [List.isChain_cons_cons, hb.ahead_iff, hle]

/-- Nothing else is logged. -/
lemma exists_blocksOverlap :
    (∃ x y, Event.blocksOverlap x y ∈ imageEvents blocks) ↔ imageEvents blocks ≠ [] := by
  fun_induction imageEvents blocks with
  | case1 => simp
  | case2 b => simp
  | case3 b next rest events hle ih => exact ih
  | case4 b next rest events hle ih =>
    exact iff_of_true ⟨b.start, next.start, List.mem_cons_self⟩ (List.cons_ne_nil _ _)

/-! ### Blocks of lines -/

section Build

variable {payload : Payload} {lines : List CodeLine}
  (hbound : ∀ l ∈ lines, l.start.toNat + l.length.toNat ≤ 0x10000)

include hbound

lemma fits_of_bound : ∀ l ∈ lines, l.Fits := fun l hl =>
  Nat.lt_of_le_of_lt (hbound l hl) (by decide)

lemma proper_of_row {row : List CodeLine} (hrow : row ∈ lines.splitBy fun l m => l.stop = m.start)
    {b : Block} (hb : blockOf? payload row = some b) : b.Proper := by
  obtain ⟨hne, hchain, hmem⟩ := of_mem_rows hrow
  obtain ⟨l, rest, rfl⟩ := List.exists_cons_of_ne_nil hne
  obtain ⟨rfl, hpos⟩ := eq_blockAt hchain hb
  refine ⟨by rwa [size_blockAt], ?_⟩
  rw [size_blockAt]
  exact CodeLine.totalLength_le hchain (fun m hm => fits_of_bound hbound m (hmem m hm))
    fun m hm => hbound m (hmem m hm)

lemma inOrder_build : InOrder (build lines payload) where
  proper b hb := by
    obtain ⟨row, hrow, hblock⟩ := mem_build.mp hb
    exact proper_of_row hbound hrow hblock
  sorted := sorted_build payload lines

/-- In a row every line stops before all later ones start. -/
lemma apart_of_row {row : List CodeLine} (hrow : row ∈ lines.splitBy fun l m => l.stop = m.start) :
    row.Pairwise CodeLine.Apart := by
  obtain ⟨-, hchain, hmem⟩ := of_mem_rows hrow
  have hfits : ∀ l ∈ row, l.Fits := fun l hl => fits_of_bound hbound l (hmem l hl)
  have hahead : row.IsChain CodeLine.Ahead := by
    refine hchain.imp_of_mem_imp fun l m hl _ hlm => ?_
    rw [CodeLine.Ahead, ← (hfits l hl).toNat_stop, hlm]
  exact hahead.pairwise.imp_of_mem fun hl hm hlm => hlm.apart (hfits _ hl) (hfits _ hm)

/-- Blocks are apart just if the lines are. -/
lemma pairwise_build_iff :
    (build lines payload).Pairwise Block.Apart ↔ lines.Pairwise CodeLine.Apart := by
  have hrows : lines.Pairwise CodeLine.Apart ↔ (lines.splitBy fun l m => l.stop = m.start).Pairwise
      fun row row' => ∀ l ∈ row, ∀ m ∈ row', l.Apart m := by
    conv_lhs => rw [← lines.flatten_splitBy fun l m => l.stop = m.start]
    rw [List.pairwise_flatten, and_iff_right fun row hrow => apart_of_row hbound hrow]
  have hfits := fits_of_bound hbound
  rw [build_eq, (perm_stableSort _ _).pairwise_iff fun h => h.symm, List.pairwise_filterMap, hrows]
  refine List.Pairwise.iff_of_mem fun {row row'} hrow hrow' => ⟨?_, ?_⟩
  · intro h l hl m hm x hx hx'
    -- an address of both lines is one of both blocks
    have hin : x ∈ row.flatMap CodeLine.addresses := List.mem_flatMap.mpr ⟨l, hl, hx⟩
    have hin' : x ∈ row'.flatMap CodeLine.addresses := List.mem_flatMap.mpr ⟨m, hm, hx'⟩
    obtain ⟨b, hb⟩ := exists_blockOf? payload hin
    obtain ⟨c, hc⟩ := exists_blockOf? payload hin'
    have hnot := h b hb c hc x (((shows_of_row hfits hrow hb).contains x).mpr hin)
    rw [((shows_of_row hfits hrow' hc).contains x).mpr hin'] at hnot
    exact Bool.noConfusion hnot
  · intro h b hb c hc x hx
    rw [← Bool.not_eq_true]
    intro hx'
    obtain ⟨l, hl, hxl⟩ :=
      List.mem_flatMap.mp (((shows_of_row hfits hrow hb).contains x).mp hx)
    obtain ⟨m, hm, hxm⟩ :=
      List.mem_flatMap.mp (((shows_of_row hfits hrow' hc).contains x).mp hx')
    exact h l hl m hm x hxl hxm

end Build

end Memory

/-! ### Blocks of sources -/

namespace Assembly

open TwoPass

lemma Realizes.length_le {a : Assembly} {lines : List Line} (h : a.Realizes lines) :
    ∀ l ∈ a.codeLines, l.start.toNat + l.length.toNat ≤ 0x10000 := by
  rw [h.codeLines]
  intro l hl
  obtain ⟨p, hp, rfl⟩ := List.mem_map.mp hl
  have hstop := h.stop_le p hp
  obtain ⟨hstart, hlength⟩ := Placed.toNat_codeLine hstop
  omega

section Source

variable {source : String} {a : Assembly} (hlen : source.utf8ByteSize < 0x40000000)
  (hok : ofSource source = .ok a)

include hlen hok

lemma length_le_of_ok : ∀ l ∈ a.codeLines, l.start.toNat + l.length.toNat ≤ 0x10000 := by
  obtain ⟨lexemes, -, h⟩ := realizes_of_ok hlen hok
  exact h.length_le

lemma inOrder_of_ok : Memory.InOrder a.blocks := by
  obtain ⟨lexemes, -, h⟩ := realizes_of_ok hlen hok
  rw [h.blocks]
  exact Memory.inOrder_build (length_le_of_ok hlen hok)

lemma blocks_apart_iff :
    a.blocks.Pairwise Block.Apart ↔ a.codeLines.Pairwise CodeLine.Apart := by
  obtain ⟨lexemes, -, h⟩ := realizes_of_ok hlen hok
  rw [h.blocks]
  exact Memory.pairwise_build_iff (length_le_of_ok hlen hok)

/-- A source with a byte has a block. -/
lemma blocks_ne_nil {l : CodeLine} (hl : l ∈ a.codeLines) (hpos : 0 < l.length) :
    a.blocks ≠ [] := by
  obtain ⟨lexemes, -, h⟩ := realizes_of_ok hlen hok
  have hfits := Memory.fits_of_bound (length_le_of_ok hlen hok)
  have hstart : l.start ∈ l.addresses := by
    rw [UInt32.lt_iff_toNat_lt, UInt32.toNat_zero] at hpos
    rw [CodeLine.addresses_eq, mem_consecutive (hfits l hl)]
    omega
  rw [h.blocks]
  obtain ⟨b, hb, -⟩ := (Memory.exists_contains_iff hfits l.start).mpr ⟨l, hl, hstart⟩
  exact List.ne_nil_of_mem hb

end Source

end Assembly

end CrossAsm
