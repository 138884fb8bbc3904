import Mathlib.Tactic.Common
import CrossAsm.Proofs.MachineListing
import CrossAsm.Proofs.Relisting

/-!
The rows of a full listing. There is always a space between the bytes of a line and its label, but
there is one between the label and the text only if the label ends before the column of the text.
Main statement: `row_separated_iff`.
-/

namespace CrossAsm

open CrossAsm.Parser CrossAsm.Scan

namespace Listing

variable {l : CodeLine} {blocks : List Block} {label : String}

/-! ### The layout of a row -/

def blanks (n : Nat) : String := String.ofList (List.replicate n ' ')

/-- The dump of a line without the space after it. -/
def bareDump (l : CodeLine) (blocks : List Block) : String :=
  if l.length = 0 then "" else dumpText l blocks

/-- The column behind a label, which has a space in front of it. -/
def labelEnd (dump label : String) : Nat :=
  max labelColumn (dump.utf8ByteSize + 1) + label.utf8ByteSize

/-- A row has its three parts in order, with spaces between them. -/
def Separated (row dump label text : String) : Prop :=
  ∃ n m, row = dump ++ blanks (n + 1) ++ label ++ blanks (m + 1) ++ text

lemma blanks_succ (n : Nat) : blanks (n + 1) = " " ++ blanks n := by
  rw [blanks, List.replicate_succ, String.ofList_cons]
  rfl

lemma utf8ByteSize_blanks (n : Nat) : (blanks n).utf8ByteSize = n := by
  induction n with
  | zero => rfl
  | succ n ih =>
    rw [blanks_succ, String.utf8ByteSize_append, ih]
    exact Nat.add_comm _ n

/-- The dump of a line, filled up to the label: its own space counts as one of those. -/
lemma padTo_dump : padTo labelColumn (dump l blocks) = bareDump l blocks ++
    blanks (labelColumn - ((bareDump l blocks).utf8ByteSize + 1) + 1) := by
  rw [dump, bareDump]
  split
  · rfl
  · have hsize : (dumpText l blocks ++ " ").utf8ByteSize = (dumpText l blocks).utf8ByteSize + 1 :=
      String.utf8ByteSize_append
    rw [padTo, hsize, blanks_succ, String.append_assoc]
    rfl

/-- The parts of a row and the spaces between them. -/
lemma row_eq (hlabel : l.label = some label) : row l blocks = bareDump l blocks ++
    blanks (labelColumn - ((bareDump l blocks).utf8ByteSize + 1) + 1) ++ label ++
    blanks (textColumn - labelEnd (bareDump l blocks) label) ++ l.text := by
  have hsize : (padTo labelColumn (dump l blocks) ++ label).utf8ByteSize =
      labelEnd (bareDump l blocks) label := by
    rw [padTo_dump, String.utf8ByteSize_append, String.utf8ByteSize_append, utf8ByteSize_blanks,
      labelEnd]
    omega
  rw [row, hlabel, Option.getD_some, padTo, hsize, padTo_dump]
  rfl

/-! ### Telling the parts apart -/

/-- What stands in front of the first spaces, and what stands behind them. -/
def cutAtBlanks (row : List Char) : List Char × List Char :=
  (row.takeWhile (· ≠ ' '), (row.dropWhile (· ≠ ' ')).dropWhile (· = ' '))

/-- The parts of a row, for a reader who takes spaces for what is between them. -/
def parts (row : String) : String × String × String :=
  let dump := cutAtBlanks row.toList
  let label := cutAtBlanks dump.2
  (String.ofList dump.1, String.ofList label.1, String.ofList label.2)

lemma cutAtBlanks_append {word rest : List Char} (hword : ' ' ∉ word)
    (hrest : rest.head? ≠ some ' ') (n : Nat) :
    cutAtBlanks (word ++ ((blanks (n + 1)).toList ++ rest)) = (word, rest) := by
  have hall := ne_of_not_mem hword
  have hblanks : ∀ c ∈ List.replicate n ' ', decide (c = ' ') = true := by
    intro c hc
    rw [decide_eq_true_eq]
    exact List.eq_of_mem_replicate hc
  have hdrop : rest.dropWhile (· = ' ') = rest := by
    rcases rest with _ | ⟨c, rest⟩
    · rfl
    · exact List.dropWhile_cons_of_neg (by simpa using hrest)
  rw [cutAtBlanks, List.takeWhile_append_of_pos hall, List.dropWhile_append_of_pos hall, blanks,
    String.toList_ofList, List.replicate_succ, List.cons_append,
    List.takeWhile_cons_of_neg (by decide), List.dropWhile_cons_of_neg (by decide),
    List.dropWhile_cons_of_pos (by decide), List.dropWhile_append_of_pos hblanks, hdrop,
    List.append_nil]

lemma blank_not_mem_bareDump : ' ' ∉ (bareDump l blocks).toList := by
  rw [bareDump]
  split
  · simp
  · exact not_mem_dumpText (by decide) (by decide) (by decide) (by decide)

/-- What a name is made of, as far as it matters in a row. -/
structure Named (label : String) : Prop where
  nonempty : label ≠ ""
  blank_not_mem : ' ' ∉ label.toList

lemma Named.head (h : Named label) (rest : List Char) :
    (label.toList ++ rest).head? ≠ some ' ' := by
  obtain ⟨c, tail, hchars⟩ := List.exists_cons_of_ne_nil
    (fun hnil => h.nonempty (String.toList_eq_nil_iff.mp hnil) : label.toList ≠ [])
  rw [hchars]
  intro hc
  obtain rfl : c = ' ' := Option.some.inj hc
  exact h.blank_not_mem (hchars ▸ List.mem_cons_self)

section Parts

variable {dump text : String} (hdump : ' ' ∉ dump.toList) (hlabel : Named label)
  (htext : text.toList.head? ≠ some ' ')

include hdump hlabel htext

/-- Parts with spaces between them are told apart. -/
lemma parts_of_separated {row : String} (h : Separated row dump label text) :
    parts row = (dump, label, text) := by
  obtain ⟨n, m, rfl⟩ := h
  have hfirst := cutAtBlanks_append hdump
    (hlabel.head ((blanks (m + 1)).toList ++ text.toList)) n
  have hsecond := cutAtBlanks_append hlabel.blank_not_mem htext m
  simp only [parts, String.toList_append, List.append_assoc, hfirst, hsecond, String.ofList_toList]

/-- Without a space between them, the label goes on with the text. -/
lemma parts_ne_of_touching (hne : text ≠ "") (n : Nat) :
    parts (dump ++ blanks (n + 1) ++ label ++ text) ≠ (dump, label, text) := by
  intro h
  have hfirst := cutAtBlanks_append hdump (hlabel.head text.toList) n
  have hword : (cutAtBlanks (label.toList ++ text.toList)).1 = label.toList := by
    have hread := congrArg (·.2.1.toList) h
    simpa only [parts, String.toList_append, List.append_assoc, hfirst, String.toList_ofList]
      using hread
  have hempty : text.toList.takeWhile (· ≠ ' ') = [] := by
    rw [cutAtBlanks, List.takeWhile_append_of_pos (ne_of_not_mem hlabel.blank_not_mem)] at hword
    exact List.append_right_eq_self.mp hword
  obtain ⟨c, tail, hchars⟩ := List.exists_cons_of_ne_nil
    (fun hnil => hne (String.toList_eq_nil_iff.mp hnil) : text.toList ≠ [])
  rw [hchars] at htext hempty
  have hc : c ≠ ' ' := by simpa using htext
  rw [List.takeWhile_cons_of_pos (by simpa using hc)] at hempty
  exact List.cons_ne_nil _ _ hempty

/-- The parts are told apart just if there are spaces in front of the text. -/
lemma parts_eq_iff (hne : text ≠ "") (n k : Nat) :
    parts (dump ++ blanks (n + 1) ++ label ++ blanks k ++ text) = (dump, label, text) ↔
      0 < k := by
  constructor
  · intro hparts
    by_contra hk
    obtain rfl : k = 0 := by omega
    have hnone : blanks 0 = "" := rfl
    rw [hnone, String.append_empty] at hparts
    exact parts_ne_of_touching hdump hlabel htext hne n hparts
  · intro hk
    obtain ⟨m, rfl⟩ := Nat.exists_eq_add_of_lt hk
    exact parts_of_separated hdump hlabel htext ⟨n, m, by rw [Nat.zero_add]⟩

lemma separated_iff (hne : text ≠ "") (n k : Nat) :
    Separated (dump ++ blanks (n + 1) ++ label ++ blanks k ++ text) dump label text ↔ 0 < k := by
  constructor
  · intro h
    exact (parts_eq_iff hdump hlabel htext hne n k).mp (parts_of_separated hdump hlabel htext h)
  · intro hk
    obtain ⟨m, rfl⟩ := Nat.exists_eq_add_of_lt hk
    exact ⟨n, m, by rw [Nat.zero_add]⟩

end Parts

end Listing

/-! ### Sources -/

/-- A line of a program is made of some of its lexemes. -/
lemma exists_from_of_mem {lines : List Line} {ws : List Lexeme} {l : Line}
    (h : LinesFrom lines ws) (hl : l ∈ lines) :
    ∃ w front back, l.From w front back ∧ ∀ x ∈ w, x ∈ ws := by
  induction h with
  | nil => exact absurd hl List.not_mem_nil
  | newline _ _ ih =>
    obtain ⟨w, front, back, hfrom, hsub⟩ := ih hl
    exact ⟨w, front, back, hfrom, fun x hx => List.mem_cons_of_mem _ (hsub x hx)⟩
  | @line _ _ w front back _ hfrom _ _ ih =>
    rcases List.mem_cons.mp hl with rfl | hl
    · exact ⟨w, front, back, hfrom, fun x hx => List.mem_append_left _ hx⟩
    · obtain ⟨w, front, back, hfrom, hsub⟩ := ih hl
      exact ⟨w, front, back, hfrom, fun x hx => List.mem_append_right _ (hsub x hx)⟩

lemma Scan.Spells.named {name : String} {text : List Char} (h : Spells (.identifier name) text) :
    Listing.Named name := by
  cases h with
  | @name c rest hc hrest =>
    refine ⟨fun hnil => ?_, ?_⟩
    · simpa using congrArg String.toList hnil
    · rw [String.toList_ofList]
      intro hmem
      rcases List.mem_cons.mp hmem with rfl | hmem
      · exact absurd hc (by decide)
      · exact absurd (hrest _ hmem) (by decide)

/-- The label of a line is a name, and its text does not start with a blank. -/
lemma Line.From.heading {l : Line} {w front back : List Lexeme} (h : l.From w front back)
    (hw : ∀ x ∈ w, Spells x.token x.text.toList) :
    (∀ name, l.heading.1 = some name → Listing.Named name) ∧
      l.heading.2.toList.head? ≠ some ' ' := by
  obtain ⟨rfl, hfront, -, hterminals, -⟩ := h
  constructor
  · intro name hname
    obtain ⟨label, hlabel, rfl⟩ := Option.map_eq_some_iff.mp hname
    rw [Line.labelTokens, hlabel] at hfront
    obtain ⟨x, rest, rfl, hx, -⟩ := List.map_eq_cons_iff.mp hfront
    have hspells := hw x (List.mem_append_left _ List.mem_cons_self)
    rw [hx] at hspells
    exact hspells.named
  · intro hblank
    have hback : ∀ x ∈ back, Spells x.token x.text.toList :=
      fun x hx => hw x (List.mem_append_right _ hx)
    have hnone : ∀ c, ([] : List Char).head? = some c → isBlank c = false := by simp
    have hhead := Listing.head_terminals (l.body.any Body.isStatement) hback hnone ' '
    rw [List.append_nil, ← hterminals] at hhead
    exact Bool.noConfusion (hhead hblank)

namespace Assembly

variable {source : String} {a : Assembly} {l : CodeLine} {label : String}

lemma heading_of_ok (h : ofSource source = .ok a) (hl : l ∈ a.codeLines) :
    (∀ name, l.label = some name → Listing.Named name) ∧ l.text.toList.head? ≠ some ' ' := by
  obtain ⟨lexemes, lines, ht, hlines, hfinish⟩ := linesFrom_of_ok h
  obtain ⟨-, rfl⟩ := finish_eq_ok.mp hfinish
  have hheading : l.heading ∈ lines.map Line.heading :=
    walk_headings unnamedFile lines [] ▸ List.mem_map_of_mem hl
  obtain ⟨line, hline, heq⟩ := List.mem_map.mp hheading
  obtain ⟨w, front, back, hfrom, hsub⟩ := exists_from_of_mem hlines hline
  have hfacts := hfrom.heading fun x hx => spells_of_tokenize ht x (hsub x hx)
  rw [heq] at hfacts
  exact hfacts

/-- **The rows of a full listing**: the bytes, the label and the text of a line are kept apart by
spaces, and a reader who goes by the spaces finds them, just if the label ends before the column of
the text. Behind the bytes there is a space in any case. -/
theorem row_separated_iff (h : ofSource source = .ok a) (hl : l ∈ a.codeLines)
    (hlabel : l.label = some label) (htext : l.text ≠ "") :
    (∃ n, Listing.row l a.blocks =
      Listing.bareDump l a.blocks ++ Listing.blanks (n + 1) ++ label ++
        Listing.blanks (Listing.textColumn - Listing.labelEnd (Listing.bareDump l a.blocks) label)
        ++ l.text) ∧
    (Listing.Separated (Listing.row l a.blocks) (Listing.bareDump l a.blocks) label l.text ↔
      Listing.labelEnd (Listing.bareDump l a.blocks) label < Listing.textColumn) ∧
    (Listing.parts (Listing.row l a.blocks) = (Listing.bareDump l a.blocks, label, l.text) ↔
      Listing.labelEnd (Listing.bareDump l a.blocks) label < Listing.textColumn) := by
  obtain ⟨hnamed, hhead⟩ := heading_of_ok h hl
  have hdump : ' ' ∉ (Listing.bareDump l a.blocks).toList := Listing.blank_not_mem_bareDump
  rw [Listing.row_eq hlabel, ← Nat.sub_pos_iff_lt]
  exact ⟨⟨_, rfl⟩, Listing.separated_iff hdump (hnamed label hlabel) hhead htext _ _,
    Listing.parts_eq_iff hdump (hnamed label hlabel) hhead htext _ _⟩

/-- Five bytes reach beyond the column of labels, and leave room for three letters. -/
theorem row_separated_iff_crowded :
    ∃ (a : Assembly) (l : CodeLine), ofSource ".ORG $1000\nrow: .BYTE 1,2,3,4,5" = .ok a ∧
      l ∈ a.codeLines ∧ l.label = some "row" ∧ l.text = ".BYTE 1, 2, 3, 4, 5" ∧
      Listing.row l a.blocks = "0x1000:0x01,0x02,0x03,0x04,0x05 row .BYTE 1, 2, 3, 4, 5" ∧
      Listing.labelEnd (Listing.bareDump l a.blocks) "row" < Listing.textColumn ∧
      Listing.Separated (Listing.row l a.blocks) (Listing.bareDump l a.blocks) "row" l.text ∧
      Listing.parts (Listing.row l a.blocks) = (Listing.bareDump l a.blocks, "row", l.text) := by
  have hrun : (ofSource ".ORG $1000\nrow: .BYTE 1,2,3,4,5").toOption.any (fun a =>
      a.codeLines.any fun l => l.label == some "row" && l.text == ".BYTE 1, 2, 3, 4, 5" &&
        Listing.row l a.blocks == "0x1000:0x01,0x02,0x03,0x04,0x05 row .BYTE 1, 2, 3, 4, 5" &&
        decide (Listing.labelEnd (Listing.bareDump l a.blocks) "row" < Listing.textColumn)) =
      true := by decide +kernel
  obtain ⟨a, hok, hlines⟩ := exists_ok_iff.mpr hrun
  obtain ⟨l, hl, hp⟩ := List.any_eq_true.mp hlines
  simp only [Bool.and_eq_true, beq_iff_eq, decide_eq_true_eq] at hp
  obtain ⟨⟨⟨hlabel, htext⟩, hrow⟩, hlt⟩ := hp
  obtain ⟨-, hseparated, hparts⟩ := row_separated_iff hok hl hlabel (by rw [htext]; decide)
  exact ⟨a, l, hok, hl, hlabel, htext, hrow, hlt, hseparated.mpr hlt, hparts.mpr hlt⟩

/-- A label of twelve letters reaches the column of the text, and the row is also the row of
another line: no reader can tell their parts apart. -/
theorem row_of_two_lines :
    ∃ (a b : Assembly) (l m : CodeLine), ofSource "screenmemory: on = 1" = .ok a ∧
      a.codeLines = [l] ∧ l.label = some "screenmemory" ∧ l.text = "on = 1" ∧
      ¬Listing.Separated (Listing.row l a.blocks) (Listing.bareDump l a.blocks) "screenmemory"
        "on = 1" ∧
      ofSource "screenmemoryo: n = 1" = .ok b ∧
      b.codeLines = [m] ∧ m.label = some "screenmemoryo" ∧ m.text = "n = 1" ∧
      Listing.full a.codeLines a.blocks = "                        screenmemoryon = 1\n" ∧
      Listing.full b.codeLines b.blocks = "                        screenmemoryon = 1\n" := by
  have hassemble (source label text : String) (hrun : (ofSource source).toOption.any (fun a =>
      a.codeLines.map CodeLine.heading == [(some label, text)] &&
        Listing.full a.codeLines a.blocks == "                        screenmemoryon = 1\n") =
      true) : ∃ a l, ofSource source = .ok a ∧ a.codeLines = [l] ∧ l.label = some label ∧
      l.text = text ∧
      Listing.full a.codeLines a.blocks = "                        screenmemoryon = 1\n" := by
    obtain ⟨a, hok, hp⟩ := exists_ok_iff.mpr hrun
    rw [Bool.and_eq_true, beq_iff_eq, beq_iff_eq] at hp
    obtain ⟨l, rest, hlines, hheading, hrest⟩ := List.map_eq_cons_iff.mp hp.1
    obtain rfl := List.map_eq_nil_iff.mp hrest
    exact ⟨a, l, hok, hlines, congrArg Prod.fst hheading, congrArg Prod.snd hheading, hp.2⟩
  obtain ⟨a, l, hok, hlines, hlabel, htext, hfull⟩ :=
    hassemble "screenmemory: on = 1" "screenmemory" "on = 1" (by decide +kernel)
  obtain ⟨b, m, hok', hlines', hlabel', htext', hfull'⟩ :=
    hassemble "screenmemoryo: n = 1" "screenmemoryo" "n = 1" (by decide +kernel)
  refine ⟨a, b, l, m, hok, hlines, hlabel, htext, ?_, hok', hlines', hlabel', htext', hfull, hfull'⟩
  obtain ⟨hnamed, hhead⟩ := heading_of_ok hok (hlines ▸ List.mem_cons_self : l ∈ a.codeLines)
  rw [htext] at hhead
  rw [Listing.row_eq hlabel, htext, Listing.separated_iff Listing.blank_not_mem_bareDump
    (hnamed _ hlabel) hhead (by decide)]
  have hsize : "screenmemory".utf8ByteSize = 12 := by decide
  simp only [Listing.labelEnd, Listing.labelColumn, Listing.textColumn, hsize]
  omega

end Assembly

end CrossAsm
