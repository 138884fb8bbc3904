import Mathlib.Tactic.Common
import CrossAsm.Listing
import CrossAsm.Proofs.Spacing
import CrossAsm.Proofs.TextRows

/-!
Memory from a listing of bytes. A reader takes the rows of such a listing for what they say, an
address and the bytes from there on, and stores them one after the other. It ends up with the memory
that the listing was made from, in whatever order it takes the rows: where rows overlap, they have
the same byte. Main statement: `listing_determines_memory`.
-/

namespace CrossAsm

/-- What is stored at consecutive addresses by a rule is found there by the rule. -/
lemma Payload.get?_fill_map (p : Payload) (f : UInt32 → UInt8) {a : UInt32} {n : Nat}
    (h : a.toNat + n < 0x100000000) (b : UInt32) :
    (p.fill a ((consecutive a n).map f)).get? b =
      if b ∈ consecutive a n then some (f b) else p.get? b := by
  have hlength : ((consecutive a n).map f).length = n := by simp [consecutive]
  rw [get?_fill p a b _ (by omega), hlength]
  simp only [mem_consecutive h]
  split
  · next hin =>
    have hback : a + UInt32.ofNat (b.toNat - a.toNat) = b := by
      apply UInt32.toNat_inj.mp
      rw [toNat_add_ofNat (by omega)]
      omega
    have hlt : b.toNat - a.toNat < n := by omega
    simp [consecutive, hlt, hback]
  · rfl

namespace Listing

/-! ### Reading a row -/

/-- A row of a listing of bytes: an address, and the bytes from there on. -/
structure DumpRow where
  start : UInt32
  bytes : List UInt8

/-- The number behind `0x`, which has to have so many digits. -/
def hexNumber? (width : Nat) (text : List Char) : Option Nat :=
  let digits := text.drop 2
  if text.take 2 = ['0', 'x'] && digits.length = width && digits.all Numeral.isHexDigit then
    some (Numeral.read 16 digits)
  else none

/-- A row with an address of four digits, a colon, and bytes of two digits with commas between
them. -/
def readDump? (row : List Char) : Option DumpRow :=
  (hexNumber? 4 (row.takeWhile (· ≠ ':'))).bind fun start =>
    ((fields ((row.dropWhile (· ≠ ':')).drop 1)).mapM (hexNumber? 2)).map fun bytes =>
      ⟨UInt32.ofNat start, bytes.map UInt8.ofNat⟩

lemma hexNumber?_hex {width n : Nat} (h : (Nat.toDigits 16 n).length ≤ width) :
    hexNumber? width (['0', 'x'] ++ (Numeral.hex width n).toList) = some n := by
  have hall : (Numeral.hex width n).toList.all Numeral.isHexDigit = true :=
    List.all_eq_true.mpr fun c hc => Numeral.isHexDigit_of_mem_hex hc
  simp [hexNumber?, Numeral.length_hex h, Numeral.read_hex, hall]

/-- Only digits and the letter x stand between the marks of a row. -/
lemma not_mem_hex {c : Char} (hx : c ≠ 'x') (hdigit : Numeral.isHexDigit c = false)
    (width n : Nat) : c ∉ ['0', 'x'] ++ (Numeral.hex width n).toList := by
  intro hmem
  have hzero : c ≠ '0' := by
    rintro rfl
    exact Bool.noConfusion hdigit
  simp only [List.mem_append, List.mem_cons, List.not_mem_nil, or_false] at hmem
  rcases hmem with (h | h) | h
  · exact hzero h
  · exact hx h
  · rw [Numeral.isHexDigit_of_mem_hex h] at hdigit
    exact Bool.noConfusion hdigit

lemma toList_byteText (b : UInt8) :
    (byteText b).toList = ['0', 'x'] ++ (Numeral.hex 2 b.toNat).toList := by
  simp [byteText]

/-- Bytes with commas between them are read back. -/
lemma mapM_byteTexts {bytes : List UInt8} (hne : bytes ≠ []) :
    (fields ([','].intercalate (bytes.map fun b => (byteText b).toList))).mapM (hexNumber? 2) =
      some (bytes.map UInt8.toNat) := by
  have hcomma : ∀ part ∈ bytes.map fun b => (byteText b).toList, ',' ∉ part := by
    intro part hpart
    obtain ⟨b, -, rfl⟩ := List.mem_map.mp hpart
    rw [toList_byteText]
    exact not_mem_hex (by decide) (by decide) 2 _
  rw [fields_intercalate hcomma (by simpa using hne)]
  refine mapM_of_forall₂ ?_
  rw [List.forall₂_map_left_iff, List.forall₂_map_right_iff, List.forall₂_same]
  intro b _
  rw [toList_byteText]
  exact hexNumber?_hex ((Nat.length_toDigits_le_iff (by decide) (by decide)).mpr b.toNat_lt)

/-- The row of a line: its address, and what memory has at its addresses. -/
def rowOf (blocks : List Block) (l : CodeLine) : DumpRow :=
  ⟨l.start, l.addresses.map (Memory.byteAt blocks)⟩

variable {l : CodeLine} {lines : List CodeLine} {blocks : List Block}

lemma toList_dumpText : (dumpText l blocks).toList =
    (['0', 'x'] ++ (Numeral.hex 4 l.start.toNat).toList) ++ ':' ::
      [','].intercalate ((rowOf blocks l).bytes.map fun b => (byteText b).toList) := by
  simp [dumpText, rowOf, Function.comp_def]

/-- Neither blanks nor ends of lines are among the characters of a dump. -/
lemma not_mem_dumpText {c : Char} (hx : c ≠ 'x') (hdigit : Numeral.isHexDigit c = false)
    (hcolon : c ≠ ':') (hcomma : c ≠ ',') : c ∉ (dumpText l blocks).toList := by
  rw [toList_dumpText, List.mem_append, List.mem_cons]
  rintro (h | h | h)
  · exact not_mem_hex hx hdigit 4 _ h
  · exact hcolon h
  · rcases mem_intercalate_comma h with h | ⟨part, hpart, h⟩
    · exact hcomma h
    · obtain ⟨b, -, rfl⟩ := List.mem_map.mp hpart
      rw [toList_byteText] at h
      exact not_mem_hex hx hdigit 2 _ h

lemma toNat_length_ne_zero (hne : l.length ≠ 0) : l.length.toNat ≠ 0 :=
  fun hzero => hne (UInt32.toNat_inj.mp hzero)

/-- The row of a line with bytes is read as it is meant. -/
lemma readDump?_dumpText (hstart : l.start.toNat < 0x10000) (hne : l.length ≠ 0) :
    readDump? (dumpText l blocks).toList = some (rowOf blocks l) := by
  have hcolon : ':' ∉ ['0', 'x'] ++ (Numeral.hex 4 l.start.toNat).toList :=
    not_mem_hex (by decide) (by decide) 4 _
  have hbefore := ne_of_not_mem hcolon
  have haddress : hexNumber? 4 (['0', 'x'] ++ (Numeral.hex 4 l.start.toNat).toList) =
      some l.start.toNat :=
    hexNumber?_hex ((Nat.length_toDigits_le_iff (by decide) (by decide)).mpr hstart)
  have hbytes : (rowOf blocks l).bytes ≠ [] := by
    simpa [rowOf, CodeLine.addresses] using toNat_length_ne_zero hne
  rw [readDump?, toList_dumpText, List.takeWhile_append_of_pos hbefore,
    List.dropWhile_append_of_pos hbefore, List.takeWhile_cons_of_neg (by decide),
    List.dropWhile_cons_of_neg (by decide), List.append_nil, haddress, Option.bind_some,
    List.drop_one, List.tail_cons, mapM_byteTexts hbytes]
  simp [rowOf, Function.comp_def]

lemma textLines_machine : textLines (machine lines blocks) =
    (lines.filter (·.length ≠ 0)).map fun l => (dumpText l blocks).toList := by
  have hrows : ∀ row ∈ (lines.filter (·.length ≠ 0)).map fun l => dumpText l blocks,
      '\n' ∉ row.toList := by
    intro row hrow
    obtain ⟨l, -, rfl⟩ := List.mem_map.mp hrow
    exact not_mem_dumpText (by decide) (by decide) (by decide) (by decide)
  have htext := textLines_join hrows
  rw [List.map_map, List.map_map] at htext
  exact htext

lemma mapM_machine (h : ∀ l ∈ lines, l.start.toNat + l.length.toNat ≤ 0x10000) :
    (textLines (machine lines blocks)).mapM readDump? =
      some ((lines.filter (·.length ≠ 0)).map (rowOf blocks)) := by
  rw [textLines_machine]
  refine mapM_of_forall₂ ?_
  rw [List.forall₂_map_left_iff, List.forall₂_map_right_iff, List.forall₂_same]
  intro l hl
  obtain ⟨hmem, hne⟩ := List.mem_filter.mp hl
  have hne : l.length ≠ 0 := by simpa using hne
  have hpos := toNat_length_ne_zero hne
  have hbound := h l hmem
  exact readDump?_dumpText (by omega) hne

/-! ### Storing rows -/

namespace DumpRow

def addresses (r : DumpRow) : List UInt32 := consecutive r.start r.bytes.length

def store (p : Payload) (r : DumpRow) : Payload := p.fill r.start r.bytes

/-- The row shows what memory has at its addresses. -/
structure Shows (blocks : List Block) (r : DumpRow) : Prop where
  fits : r.start.toNat + r.bytes.length < 0x100000000
  bytes : r.bytes = r.addresses.map (Memory.byteAt blocks)

lemma length_rowOf : (rowOf blocks l).bytes.length = l.length.toNat := by
  simp [rowOf, CodeLine.addresses]

lemma addresses_rowOf : (rowOf blocks l).addresses = l.addresses := by
  rw [addresses, length_rowOf]
  rfl

lemma shows_rowOf (h : l.Fits) : (rowOf blocks l).Shows blocks where
  fits := by rwa [length_rowOf]
  bytes := by rw [addresses_rowOf]; rfl

/-- A row that is stored is seen at its addresses. -/
lemma Shows.held_store {r : DumpRow} (h : r.Shows blocks) (p : Payload) (a : UInt32) :
    Memory.held (store p r) a =
      if a ∈ r.addresses then Memory.byteAt blocks a else Memory.held p a := by
  rw [Memory.held, store, h.bytes, addresses, Payload.get?_fill_map p _ h.fits]
  split <;> rfl

/-- After some rows are stored, an address has what memory has there, or else none of them has the
address and nothing has changed. -/
lemma held_foldl_store {rows : List DumpRow} (h : ∀ r ∈ rows, r.Shows blocks) (p : Payload)
    (a : UInt32) :
    Memory.held (rows.foldl store p) a = Memory.byteAt blocks a ∨
      (∀ r ∈ rows, a ∉ r.addresses) ∧ Memory.held (rows.foldl store p) a = Memory.held p a := by
  induction rows generalizing p with
  | nil => exact .inr ⟨by simp, rfl⟩
  | cons r rest ih =>
    obtain ⟨hr, hrest⟩ := List.forall_mem_cons.mp h
    rw [List.foldl_cons]
    rcases ih hrest (store p r) with hbyte | ⟨hout, hsame⟩
    · exact .inl hbyte
    · rw [hsame, hr.held_store]
      by_cases ha : a ∈ r.addresses
      · exact .inl (if_pos ha)
      · exact .inr ⟨List.forall_mem_cons.mpr ⟨ha, hout⟩, if_neg ha⟩

end DumpRow

end Listing

/-! ### Sources -/

namespace Assembly

variable {source : String} {a : Assembly}

/-- **A listing of bytes determines memory**: it has a row for each line with bytes, in order, and
whoever stores the rows, in whatever order, has the memory of the source. -/
theorem listing_determines_memory (hlen : source.utf8ByteSize < 0x40000000)
    (hok : ofSource source = .ok a) :
    ∃ rows : List Listing.DumpRow,
      (textLines (Listing.machine a.codeLines a.blocks)).mapM Listing.readDump? = some rows ∧
      rows.map (fun r => (r.start, r.bytes.length)) =
        (a.codeLines.filter (·.length ≠ 0)).map (fun l => (l.start, l.length.toNat)) ∧
      ∀ order : List Listing.DumpRow, order.Perm rows → ∀ address,
        Memory.held (order.foldl Listing.DumpRow.store .empty) address =
          Memory.byteAt a.blocks address := by
  have hbound := length_le_of_ok hlen hok
  have hfits := Memory.fits_of_bound hbound
  refine ⟨_, Listing.mapM_machine hbound, ?_, fun order horder address => ?_⟩
  · rw [List.map_map]
    exact List.map_congr_left fun l _ => Prod.ext rfl Listing.DumpRow.length_rowOf
  · have hshows : ∀ r ∈ order, r.Shows a.blocks := by
      intro r hr
      obtain ⟨l, hl, rfl⟩ := List.mem_map.mp (horder.mem_iff.mp hr)
      exact Listing.DumpRow.shows_rowOf (hfits l (List.mem_filter.mp hl).1)
    rcases Listing.DumpRow.held_foldl_store hshows .empty address with hbyte | ⟨hout, hempty⟩
    · exact hbyte
    · have hnone : ¬∃ l ∈ a.codeLines, address ∈ l.addresses := by
        rintro ⟨l, hl, haddress⟩
        have hne : l.length ≠ 0 := by
          intro hzero
          simp [CodeLine.addresses, hzero] at haddress
        have hrow : Listing.rowOf a.blocks l ∈ order :=
          horder.mem_iff.mpr (List.mem_map_of_mem (List.mem_filter.mpr ⟨hl, by simpa using hne⟩))
        exact hout _ hrow (by rwa [Listing.DumpRow.addresses_rowOf])
      obtain ⟨lexemes, -, h⟩ := realizes_of_ok hlen hok
      rw [hempty, h.blocks, Memory.byteAt_build_of_not_mem hfits hnone]
      rfl

/-- The second line lies within the first one. -/
theorem listing_determines_memory_within :
    ∃ (a : Assembly) (rows : List Listing.DumpRow),
      ofSource ".ORG $1000\n.BYTE 1,2,3\n.ORG $1001\n.BYTE 9" = .ok a ∧
      Listing.machine a.codeLines a.blocks = "0x1000:0x01,0x09,0x03\n0x1001:0x09\n" ∧
      (textLines (Listing.machine a.codeLines a.blocks)).mapM Listing.readDump? = some rows ∧
      rows.map (fun r => (r.start, r.bytes.length)) = [(0x1000, 3), (0x1001, 1)] ∧
      ∀ address, Memory.held (rows.reverse.foldl Listing.DumpRow.store .empty) address =
        Memory.byteAt a.blocks address := by
  have hrun : (ofSource ".ORG $1000\n.BYTE 1,2,3\n.ORG $1001\n.BYTE 9").toOption.any (fun a =>
      (a.codeLines.filter (·.length ≠ 0)).map (fun l => (l.start, l.length.toNat)) ==
        [(0x1000, 3), (0x1001, 1)] &&
      Listing.machine a.codeLines a.blocks == "0x1000:0x01,0x09,0x03\n0x1001:0x09\n") = true := by
    decide +kernel
  obtain ⟨a, hok, hp⟩ := exists_ok_iff.mpr hrun
  rw [Bool.and_eq_true, beq_iff_eq, beq_iff_eq] at hp
  obtain ⟨rows, hread, hplaces, hstored⟩ := listing_determines_memory (by decide +kernel) hok
  exact ⟨a, rows, hok, hp.2, hread, hplaces.trans hp.1, hstored _ rows.reverse_perm⟩

end Assembly

end CrossAsm
