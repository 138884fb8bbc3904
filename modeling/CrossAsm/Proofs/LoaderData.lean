import Mathlib.Tactic.Common
import CrossAsm.Loader
import CrossAsm.Proofs.Chunks
import CrossAsm.Proofs.TextRows

/-!
The numbers in a loader. A reader that knows only where numbers stand, which is behind the word
`data` and with commas between them, finds the blocks there: how many they are, and of each its
address, its size and its bytes. Main statement: `data_reads_back`.
-/

namespace CrossAsm.Loader

/-! ### Reading -/

/-- The number in a field, which may have blanks in front of it. -/
def number? (field : List Char) : Option Nat :=
  let digits := field.dropWhile (· = ' ')
  if digits ≠ [] && digits.all Char.isDigit then some (Numeral.read 10 digits) else none

/-- The number that a line has up to its first blank. -/
def lineNumber? (line : List Char) : Option Nat := number? (line.takeWhile (· ≠ ' '))

/-- The numbers between commas. An empty field has none, so there is no answer if a comma comes
first, last or right behind another one. -/
def numbers? (list : List Char) : Option (List Nat) := (fields list).mapM number?

/-- The word that numbers stand behind. -/
def data : List Char := ['d', 'a', 't', 'a']

/-- What stands behind a word in a line that has it. -/
def behind? (word : List Char) : List Char → Option (List Char)
  | [] => none
  | c :: rest =>
    if word.isPrefixOf (c :: rest) then some ((c :: rest).drop word.length) else behind? word rest

/-- What the lines with the word `data` have behind it. -/
def dataLists (text : String) : List (List Char) :=
  (textLines text).filterMap (behind? data)

/-- All that the numbers have to say about blocks. -/
def numbers (blocks : List Block) : List Nat :=
  blocks.length ::
    blocks.flatMap fun b => b.start.toNat :: b.size :: b.bytes.toList.map UInt8.toNat

/-! ### Numbers in fields -/

/-- The field has the number, with blanks in front of it or none. -/
def Holds (n : Nat) (field : List Char) : Prop :=
  ∃ blanks, field = List.replicate blanks ' ' ++ Nat.toDigits 10 n

lemma holds_decimal (n : Nat) : Holds n (Numeral.decimal n).toList :=
  ⟨0, by rw [Numeral.toList_decimal, List.replicate_zero, List.nil_append]⟩

lemma holds_decimalRight (width n : Nat) : Holds n (Numeral.decimalRight width n).toList := by
  rw [Numeral.decimalRight, String.toList_ofList,
    Numeral.write_eq_toDigits (by decide) (by decide)]
  exact ⟨_, rfl⟩

namespace Holds

variable {n : Nat} {field : List Char} (h : Holds n field)

include h

lemma blank : Holds n (' ' :: field) := by
  obtain ⟨blanks, rfl⟩ := h
  exact ⟨blanks + 1, rfl⟩

lemma char {c : Char} (hc : c ∈ field) : c = ' ' ∨ c.isDigit = true := by
  obtain ⟨blanks, rfl⟩ := h
  rcases List.mem_append.mp hc with hc | hc
  · exact .inl (List.eq_of_mem_replicate hc)
  · exact .inr (Numeral.isDigit_toDigits hc)

lemma not_mem {c : Char} (hblank : c ≠ ' ') (hdigit : c.isDigit = false) : c ∉ field := by
  intro hc
  rcases h.char hc with rfl | hc
  · exact hblank rfl
  · simp [hdigit] at hc

lemma number : number? field = some n := by
  obtain ⟨blanks, rfl⟩ := h
  obtain ⟨c, rest, hcons⟩ := List.exists_cons_of_ne_nil (Nat.toDigits_ne_nil (b := 10) (n := n))
  have hdigit : ∀ d ∈ c :: rest, d.isDigit = true := fun d hd =>
    Numeral.isDigit_toDigits (hcons ▸ hd)
  have hblank : c ≠ ' ' := by
    rintro rfl
    simpa using hdigit ' ' List.mem_cons_self
  have hdigits : (List.replicate blanks ' ' ++ c :: rest).dropWhile (· = ' ') = c :: rest := by
    simp [hblank]
  have hread : Numeral.read 10 (c :: rest) = n := by
    rw [← hcons, Numeral.read_toDigits (by decide) (by decide)]
  rw [hcons, number?, hdigits, List.all_eq_true.mpr hdigit, hread]
  simp

end Holds

/-- Fields with numbers are read as these numbers. -/
lemma numbers?_intercalate {ns : List Nat} {parts : List (List Char)} (hne : parts ≠ [])
    (h : List.Forall₂ Holds ns parts) : numbers? ([','].intercalate parts) = some ns := by
  have hcomma : List.Forall₂ (fun part n => ',' ∉ part ∧ Holds n part) parts ns :=
    h.flip.imp fun part n (hn : Holds n part) => ⟨hn.not_mem (by decide) (by decide), hn⟩
  rw [numbers?, fields_intercalate ((List.forall₂_and_left _ _).mp hcomma).1 hne]
  exact mapM_of_forall₂ (h.imp fun n part hn => hn.number)

example : numbers? [' ', '1', '2', ',', ' ', ' ', '0'] = some [12, 0] := by decide

example : numbers? [' ', '1', '2', ',', ',', '0'] = none := by decide

/-! ### The lines of a listing -/

/-- The program without its line numbers. -/
def statements : List String :=
  ["read nb", "for bi = 1 to nb", "read addr", "read nby", "for byi = 1 to nby", "read byvl",
    "poke addr+byi-1, byvl", "next byi", "next bi", "end"]

def byteLine (bytes : List UInt8) : String :=
  "data " ++ ",".intercalate (bytes.map fun b => Numeral.decimalRight 3 b.toNat)

def blockLines (b : Block) : List String :=
  ["rem block start number bytes",
    "data " ++ Numeral.decimal b.start.toNat ++ ", " ++ Numeral.decimal b.size]
    ++ (chunks 4 b.bytes.toList).map byteLine

/-- All lines, without their numbers. -/
def lines (blocks : List Block) : List String :=
  statements ++ ["rem number of mem blocks", "data " ++ Numeral.decimal blocks.length]
    ++ blocks.flatMap blockLines

/-- The lines, numbered from `number` on in steps of ten. -/
def numbered : Nat → List String → List String
  | _, [] => []
  | number, line :: rest => (Numeral.decimal number ++ " " ++ line) :: numbered (number + 10) rest

namespace Draft

variable (d : Draft)

/-- Puts whole lines. -/
def putLines (ls : List String) : Draft :=
  ⟨d.text ++ String.join ((numbered d.number ls).map (· ++ "\n")), d.number + 10 * ls.length⟩

lemma put_put (u v : String) : (d.put u).put v = d.put (u ++ v) := by
  simp [put, String.append_assoc]

lemma putLines_nil : d.putLines [] = d := by
  simp [putLines, numbered]

lemma putLines_cons (line : String) (rest : List String) :
    d.putLines (line :: rest) = (d.newLine.put (line ++ "\n")).putLines rest := by
  simp only [putLines, numbered, newLine, put, lineStep, List.map_cons, List.length_cons,
    String.join_cons, String.append_assoc]
  congr 1
  omega

lemma putLines_append (u v : List String) : d.putLines (u ++ v) = (d.putLines u).putLines v := by
  induction u generalizing d with
  | nil => rw [putLines_nil, List.nil_append]
  | cons line rest ih => rw [List.cons_append, putLines_cons, putLines_cons, ih]

/-! ### Bytes in lines -/

lemma intercalate_comma (u v : String) (rest : List String) :
    ",".intercalate (u :: v :: rest) = u ++ ("," ++ ",".intercalate (v :: rest)) := by
  rw [String.intercalate_cons_cons, String.append_assoc]

/-- The bytes of one line, if they fill it or are the last ones. -/
lemma putBytes_line {count i : Nat} {byte : UInt8} {more rest : List UInt8}
    (hline : i % 4 + more.length < 4) (hcount : i + 1 + more.length ≤ count)
    (hlast : i % 4 + more.length = 3 ∨ i + 1 + more.length = count) :
    putBytes count (d.putByte count i byte) (i + 1) (more ++ rest) =
      putBytes count (d.put (",".intercalate
        ((byte :: more).map fun b => Numeral.decimalRight 3 b.toNat)))
        (i + 1 + more.length) rest := by
  induction more generalizing d i byte with
  | nil =>
    -- no comma at the end
    rw [List.length_nil] at hlast
    have hcomma : ¬(i % bytesPerLine ≠ bytesPerLine - 1 ∧ i + 1 < count) := by
      simp only [bytesPerLine]
      omega
    rw [putByte, if_neg hcomma, List.nil_append, List.map_singleton, String.intercalate_singleton,
      List.length_nil, Nat.add_zero]
  | cons next more ih =>
    rw [List.length_cons] at hline hcount hlast
    have hcomma : i % bytesPerLine ≠ bytesPerLine - 1 ∧ i + 1 < count := by
      simp only [bytesPerLine]
      omega
    have hsame : ¬(i + 1) % bytesPerLine = 0 := by
      simp only [bytesPerLine]
      omega
    have hput : d.putByte count i byte = d.put (Numeral.decimalRight 3 byte.toNat ++ ",") := by
      rw [putByte, if_pos hcomma, put_put]
    rw [hput, List.cons_append, putBytes, if_neg hsame, ih _ (by omega) (by omega) (by omega),
      put_put, List.map_cons, List.map_cons, List.map_cons, intercalate_comma,
      String.append_assoc, List.length_cons]
    congr 1
    omega

/-- All bytes of a block, line by line. -/
lemma putBytes_pieces {count i : Nat} {pieces : List (List UInt8)} (hcut : Cut 4 pieces)
    (hi : pieces ≠ [] → i % 4 = 0) (hcount : i + pieces.flatten.length = count) :
    (putBytes count d i pieces.flatten).put "\n" =
      (d.put "\n").putLines (pieces.map byteLine) := by
  induction pieces generalizing d i with
  | nil => rw [List.map_nil, putLines_nil]; rfl
  | cons piece rest ih =>
    have hstart := hi (List.cons_ne_nil _ _)
    have hpos := hcut.length_pos (by decide) piece List.mem_cons_self
    have hle := hcut.length_le piece List.mem_cons_self
    obtain ⟨byte, more, rfl⟩ := List.exists_cons_of_length_pos hpos
    rw [List.flatten_cons, List.length_append, List.length_cons] at hcount
    rw [List.length_cons] at hle
    have hfull : rest ≠ [] → more.length = 3 := by
      intro hrest
      obtain ⟨next, rest, rfl⟩ := List.exists_cons_of_ne_nil hrest
      have hlength := hcut.1
      rw [List.length_cons] at hlength
      omega
    have hlast : i % 4 + more.length = 3 ∨ i + 1 + more.length = count := by
      by_cases hrest : rest = []
      · rw [hrest, List.flatten_nil, List.length_nil] at hcount
        omega
      · have := hfull hrest
        omega
    have hnext : rest ≠ [] → (i + 1 + more.length) % 4 = 0 := by
      intro hrest
      have := hfull hrest
      omega
    have hbegin : i % bytesPerLine = 0 := hstart
    rw [List.flatten_cons, List.cons_append, putBytes, if_pos hbegin,
      putBytes_line _ (by omega) (by omega) hlast, ih _ hcut.tail hnext (by omega),
      List.map_cons (f := byteLine), putLines_cons]
    simp only [put_put, byteLine, String.append_assoc]

lemma putBlock_eq (b : Block) : d.putBlock b = d.putLines (blockLines b) := by
  have hcut : Cut 4 (chunks 4 b.bytes.toList) := cut_chunks (by decide) _
  have hbytes : (chunks 4 b.bytes.toList).flatten = b.bytes.toList := flatten_chunks (by decide) _
  have hcount : 0 + (chunks 4 b.bytes.toList).flatten.length = b.size := by
    rw [hbytes, Nat.zero_add, Array.length_toList]
    rfl
  have hpieces := fun d : Draft => d.putBytes_pieces hcut (fun _ => rfl) hcount
  rw [hbytes] at hpieces
  simp only [putBlock, hpieces, blockLines, List.cons_append, List.nil_append, putLines_cons,
    put_put]
  rfl

end Draft

/-- **A listing is its lines**, numbered from a hundred on. -/
lemma text_eq (blocks : List Block) :
    text blocks = String.join ((numbered 100 (lines blocks)).map (· ++ "\n")) := by
  have hblocks (d : Draft) : blocks.foldl Draft.putBlock d =
      d.putLines (blocks.flatMap blockLines) := by
    induction blocks generalizing d with
    | nil => exact d.putLines_nil.symm
    | cons b rest ih =>
      rw [List.foldl_cons, ih, d.putBlock_eq, List.flatMap_cons, Draft.putLines_append]
  have hnumbers : program = numbered 100 statements := by decide +kernel
  have hprogram : (⟨String.join (program.map (· ++ "\n")), firstDataLine⟩ : Draft) =
      (⟨"", 100⟩ : Draft).putLines statements := by
    rw [Draft.putLines, String.empty_append, hnumbers]
    rfl
  have htext : text blocks = ((⟨"", 100⟩ : Draft).putLines (lines blocks)).text := by
    rw [lines, Draft.putLines_append, Draft.putLines_append, ← hprogram]
    simp only [text, hblocks, Draft.putLines_cons, Draft.putLines_nil]
    rfl
  rw [htext, Draft.putLines, String.empty_append]

/-! ### Numbered lines -/

lemma numbered_eq (n : Nat) (ls : List String) :
    numbered n ls = ((List.range' n ls.length 10).zip ls).map fun p =>
      Numeral.decimal p.1 ++ " " ++ p.2 := by
  induction ls generalizing n with
  | nil => rfl
  | cons line rest ih => rw [numbered, ih, List.length_cons, List.range'_succ]; rfl

lemma toList_numbered (n : Nat) (line : String) :
    (Numeral.decimal n ++ " " ++ line).toList = Nat.toDigits 10 n ++ ' ' :: line.toList := by
  simp [Numeral.toList_decimal]

lemma lineNumber?_numbered (n : Nat) (line : List Char) :
    lineNumber? (Nat.toDigits 10 n ++ ' ' :: line) = some n := by
  have hblank : ' ' ∉ Nat.toDigits 10 n := fun h => by simpa using Numeral.isDigit_toDigits h
  have hdigits : (Nat.toDigits 10 n ++ ' ' :: line).takeWhile (· ≠ ' ') = Nat.toDigits 10 n := by
    rw [List.takeWhile_append_of_pos (ne_of_not_mem hblank), List.takeWhile_cons_of_neg (by decide),
      List.append_nil]
  have hholds : Holds n (Nat.toDigits 10 n) := ⟨0, rfl⟩
  rw [lineNumber?, hdigits, hholds.number]

lemma behind?_append {front rest : List Char} (h : 'd' ∉ front) :
    behind? data (front ++ rest) = behind? data rest := by
  induction front with
  | nil => rfl
  | cons c front ih =>
    rw [List.mem_cons, not_or] at h
    rw [List.cons_append, behind?, ih h.2, if_neg]
    simp [data, h.1]

/-! ### The lines of a loader -/

/-- What a line of bytes has behind the word `data`. -/
def byteList (bytes : List UInt8) : List Char :=
  ' ' :: [','].intercalate (bytes.map fun b => (Numeral.decimalRight 3 b.toNat).toList)

lemma toList_byteLine (bytes : List UInt8) :
    (byteLine bytes).toList = data ++ byteList bytes := by
  simp [byteLine, byteList, data, Function.comp_def]

/-- Nothing in a loader breaks a line. -/
lemma newline_not_mem_lines (blocks : List Block) :
    ∀ line ∈ lines blocks, '\n' ∉ line.toList := by
  have hdecimal (n : Nat) : '\n' ∉ (Numeral.decimal n).toList :=
    (holds_decimal n).not_mem (by decide) (by decide)
  have hbyteLine (bytes : List UInt8) : '\n' ∉ (byteLine bytes).toList := by
    rw [toList_byteLine, byteList, List.append_cons, List.mem_append, not_or]
    refine ⟨by decide, fun hmem => ?_⟩
    rcases mem_intercalate_comma hmem with hcomma | ⟨part, hpart, hc⟩
    · exact absurd hcomma (by decide)
    · obtain ⟨b, -, rfl⟩ := List.mem_map.mp hpart
      exact (holds_decimalRight 3 b.toNat).not_mem (by decide) (by decide) hc
  have hprogram : ∀ line ∈ statements, '\n' ∉ line.toList := by decide
  intro line hline
  simp only [lines, List.mem_append, List.mem_cons, List.not_mem_nil, or_false, List.mem_flatMap,
    blockLines, List.mem_map] at hline
  rcases hline with (hline | rfl | rfl) | ⟨b, -, (rfl | rfl) | ⟨bytes, -, rfl⟩⟩
  · exact hprogram line hline
  · decide
  · simp [hdecimal]
  · decide
  · simp [hdecimal]
  · exact hbyteLine bytes

lemma textLines_text (blocks : List Block) :
    textLines (text blocks) = ((List.range' 100 (lines blocks).length 10).zip (lines blocks)).map
      fun p => Nat.toDigits 10 p.1 ++ ' ' :: p.2.toList := by
  have hrows : ∀ row ∈ numbered 100 (lines blocks), '\n' ∉ row.toList := by
    rw [numbered_eq]
    intro row hrow
    obtain ⟨p, hp, rfl⟩ := List.mem_map.mp hrow
    have hline := newline_not_mem_lines blocks p.2 (List.of_mem_zip hp).2
    have hnumber : '\n' ∉ (Numeral.decimal p.1).toList :=
      (holds_decimal p.1).not_mem (by decide) (by decide)
    simp [hline, hnumber]
  rw [text_eq, textLines_join hrows, numbered_eq, List.map_map]
  exact List.map_congr_left fun p _ => toList_numbered p.1 p.2

/-! ### Data -/

/-- What stands there for the address and the size of a block. -/
def headList (b : Block) : List Char :=
  [','].intercalate [' ' :: (Numeral.decimal b.start.toNat).toList,
    ' ' :: (Numeral.decimal b.size).toList]

def blockLists (b : Block) : List (List Char) :=
  headList b :: (chunks 4 b.bytes.toList).map byteList

lemma behind?_data (list : List Char) : behind? data (data ++ list) = some list := by
  simp [behind?, data]

lemma filterMap_blockLines (b : Block) :
    (blockLines b).filterMap (fun line => behind? data line.toList) = blockLists b := by
  have hremark : behind? data "rem block start number bytes".toList = none := by decide
  have hhead : ("data " ++ Numeral.decimal b.start.toNat ++ ", " ++
      Numeral.decimal b.size).toList = data ++ headList b := by
    simp [headList, data]
  simp only [blockLines, List.filterMap_append, List.filterMap_cons, List.filterMap_nil, hremark,
    hhead, behind?_data, List.filterMap_map, Function.comp_def, toList_byteLine, blockLists]
  simp

lemma dataLists_text (blocks : List Block) : dataLists (text blocks) =
    (' ' :: (Numeral.decimal blocks.length).toList) :: blocks.flatMap blockLists := by
  have hnumber (p : Nat × String) :
      behind? data (Nat.toDigits 10 p.1 ++ ' ' :: p.2.toList) = behind? data p.2.toList := by
    rw [List.append_cons, behind?_append]
    intro hmem
    have hholds : Holds p.1 (Nat.toDigits 10 p.1) := ⟨0, rfl⟩
    rcases List.mem_append.mp hmem with hmem | hmem
    · exact hholds.not_mem (by decide) (by decide) hmem
    · exact absurd (List.mem_singleton.mp hmem) (by decide)
  have hprogram : statements.filterMap (fun line => behind? data line.toList) = [] := by decide
  have hremark : behind? data "rem number of mem blocks".toList = none := by decide
  have hcount : ("data " ++ Numeral.decimal blocks.length).toList =
      data ++ ' ' :: (Numeral.decimal blocks.length).toList := by
    simp [data]
  have hlines : dataLists (text blocks) =
      (lines blocks).filterMap fun line => behind? data line.toList := by
    have hsnd : ((List.range' 100 (lines blocks).length 10).zip (lines blocks)).map Prod.snd =
        lines blocks := List.map_snd_zip (by simp)
    conv_rhs => rw [← hsnd, List.filterMap_map]
    rw [dataLists, textLines_text, List.filterMap_map]
    exact List.filterMap_congr fun p _ => hnumber p
  rw [hlines, lines, List.filterMap_append, List.filterMap_append, hprogram, List.filterMap_flatMap]
  simp only [List.filterMap_cons, hremark, hcount, behind?_data, filterMap_blockLines]
  simp

/-! ### Reading back -/

/-- The numbers of a block, line by line. -/
def blockRows (b : Block) : List (List Nat) :=
  [b.start.toNat, b.size] :: (chunks 4 b.bytes.toList).map (·.map UInt8.toNat)

lemma numbers?_headList (b : Block) : numbers? (headList b) = some [b.start.toNat, b.size] :=
  numbers?_intercalate (List.cons_ne_nil _ _)
    (.cons (holds_decimal _).blank (.cons (holds_decimal _).blank .nil))

lemma numbers?_byteList {bytes : List UInt8} (hne : bytes ≠ []) :
    numbers? (byteList bytes) = some (bytes.map UInt8.toNat) := by
  obtain ⟨b, rest, rfl⟩ := List.exists_cons_of_ne_nil hne
  -- the blank in front belongs to the first field
  have hblank : byteList (b :: rest) = [','].intercalate
      ((' ' :: (Numeral.decimalRight 3 b.toNat).toList) ::
        rest.map fun b => (Numeral.decimalRight 3 b.toNat).toList) := by
    cases rest <;> simp [byteList]
  rw [hblank]
  refine numbers?_intercalate (List.cons_ne_nil _ _) (.cons (holds_decimalRight _ _).blank ?_)
  rw [List.forall₂_map_left_iff, List.forall₂_map_right_iff, List.forall₂_same]
  exact fun c _ => holds_decimalRight _ _

lemma mapM_blockLists (b : Block) : (blockLists b).mapM numbers? = some (blockRows b) := by
  refine mapM_of_forall₂ (.cons (numbers?_headList b) ?_)
  rw [List.forall₂_map_left_iff, List.forall₂_map_right_iff, List.forall₂_same]
  intro piece hpiece
  have hpos := (cut_chunks (by decide) b.bytes.toList).length_pos (by decide) piece hpiece
  exact numbers?_byteList (List.ne_nil_of_length_pos hpos)

lemma mapM_dataLists (blocks : List Block) : (dataLists (text blocks)).mapM numbers? =
    some ([blocks.length] :: blocks.flatMap blockRows) := by
  have hcount : numbers? (' ' :: (Numeral.decimal blocks.length).toList) =
      some [blocks.length] := by
    have hone := numbers?_intercalate (List.cons_ne_nil _ _)
      (.cons (holds_decimal blocks.length).blank .nil)
    rwa [List.intercalate_singleton] at hone
  have hblocks (bs : List Block) :
      (bs.flatMap blockLists).mapM numbers? = some (bs.flatMap blockRows) := by
    induction bs with
    | nil => rfl
    | cons b rest ih => simp [mapM_blockLists, ih]
  simp [dataLists_text, hcount, hblocks]

lemma flatten_blockRows (b : Block) :
    (blockRows b).flatten = b.start.toNat :: b.size :: b.bytes.toList.map UInt8.toNat := by
  have hbytes : (chunks 4 b.bytes.toList).flatten = b.bytes.toList := flatten_chunks (by decide) _
  conv_rhs => rw [← hbytes, List.map_flatten]
  rfl

lemma map_lineNumber? (blocks : List Block) : (textLines (text blocks)).map lineNumber? =
    (List.range' 100 (lines blocks).length 10).map some := by
  have hfst : ((List.range' 100 (lines blocks).length 10).zip (lines blocks)).map Prod.fst =
      List.range' 100 (lines blocks).length 10 := List.map_fst_zip (by simp)
  conv_rhs => rw [← hfst, List.map_map]
  rw [textLines_text, List.map_map]
  exact List.map_congr_left fun p _ => lineNumber?_numbered p.1 p.2.toList

/-- **The data of a loader are the blocks**: its lines are numbered in tens from a hundred on, and
the numbers behind `data` are the count of blocks and, block by block, the address, the size and
the bytes. A line has the count, or an address and a size, or from one to four bytes. -/
theorem data_reads_back (blocks : List Block) :
    (textLines (text blocks)).map lineNumber? =
        (List.range' 100 (textLines (text blocks)).length 10).map some ∧
      ∃ (rows : List (List Nat)) (cut : Block → List (List UInt8)),
        (dataLists (text blocks)).mapM numbers? = some rows ∧ rows.flatten = numbers blocks ∧
        rows = [blocks.length] :: blocks.flatMap
          (fun b => [b.start.toNat, b.size] :: (cut b).map (·.map UInt8.toNat)) ∧
        ∀ b, (cut b).flatten = b.bytes.toList ∧
          ∀ piece ∈ cut b, 0 < piece.length ∧ piece.length ≤ 4 := by
  refine ⟨?_, _, fun b => chunks 4 b.bytes.toList, mapM_dataLists blocks, ?_, rfl, ?_⟩
  · have hcount : (textLines (text blocks)).length = (lines blocks).length := by
      simpa using congrArg List.length (map_lineNumber? blocks)
    rw [hcount, map_lineNumber?]
  · have hblocks : (blocks.flatMap blockRows).flatten = blocks.flatMap fun b =>
        b.start.toNat :: b.size :: b.bytes.toList.map UInt8.toNat := by
      rw [← List.flatMap_id, List.flatMap_assoc]
      exact List.flatMap_congr fun b _ => List.flatMap_id.trans (flatten_blockRows b)
    exact congrArg (blocks.length :: ·) hblocks
  · intro b
    have hcut : Cut 4 (chunks 4 b.bytes.toList) := cut_chunks (by decide) _
    exact ⟨flatten_chunks (by decide) _, fun piece hpiece =>
      ⟨hcut.length_pos (by decide) piece hpiece, hcut.length_le piece hpiece⟩⟩

end CrossAsm.Loader
