import Mathlib.Tactic.Common
import CrossAsm.Proofs.Evaluation
import CrossAsm.Proofs.ProgramFile
import CrossAsm.Proofs.Records

/-!
Lines one behind the other. A line starts where the one before it stops, unless it sets the origin.
So a program that sets the origin in its first line only, or not at all, has its bytes in one block,
in the order of its lines. The records of the lines say so too, and labels name where they start.
-/

namespace CrossAsm

def Body.isOrigin : Body → Bool
  | directive (.origin ..) => true
  | _ => false

def Line.setsOrigin (l : Line) : Bool := l.body.any Body.isOrigin

namespace TwoPass

/-- The second line starts where the first one stops. -/
def Placed.Adjoins (p q : Placed) : Prop := p.start + p.size = q.start

variable {t : Progress} {l : Line} {lines : List Line}

/-- A line starts where the counter stands, unless it sets an origin that is known. -/
lemma placed_start_of_unset (h : ∀ e loc, l.body = some (.directive (.origin e loc)) →
    (e.meaning (t.enter l).names).value? = none) : (t.placed l).start = t.counter := by
  rw [← t.enter_counter l]
  simp only [Progress.placed]
  rcases hb : l.body with _ | (⟨e, loc⟩ | ⟨kind, items, loc⟩ | ⟨name, e, loc⟩) | s
  · rfl
  · have hnone := h e loc hb
    simp only [Progress.direct]
    split
    · next v hv => simp [hv, Meaning.value?] at hnone
    · rfl
  · rfl
  · simp only [Progress.direct]
    split <;> rfl
  · rfl

lemma placed_start (h : l.setsOrigin = false) : (t.placed l).start = t.counter := by
  refine placed_start_of_unset fun e loc hb => ?_
  simp [Line.setsOrigin, hb, Body.isOrigin] at h

lemma isChain_layout (h : ∀ l ∈ lines, l.setsOrigin = false) {p : Placed}
    (hp : p.start + p.size = t.counter) : (p :: layout t lines).IsChain Placed.Adjoins := by
  induction lines generalizing t p with
  | nil => exact List.isChain_singleton p
  | cons l rest ih =>
    obtain ⟨hl, hrest⟩ := List.forall_mem_cons.mp h
    refine List.isChain_cons_cons.mpr ⟨hp.trans (placed_start hl).symm, ih hrest ?_⟩
    rw [Progress.after_counter]

/-- With no origin behind the first line, the lines adjoin one another. -/
lemma isChain_layout_init (h : ∀ l ∈ lines.tail, l.setsOrigin = false) :
    (layout .init lines).IsChain Placed.Adjoins := by
  cases lines with
  | nil => exact List.isChain_nil
  | cons l rest => exact isChain_layout h (by rw [Progress.after_counter])

lemma map_line_layout (t : Progress) (lines : List Line) :
    (layout t lines).map Placed.line = lines := by
  induction lines generalizing t with
  | nil => rfl
  | cons l rest ih => rw [layout, List.map_cons, ih]; rfl

end TwoPass

namespace Memory

variable {payload : Payload} {lines : List CodeLine}
  (hchain : lines.IsChain fun l m => l.stop = m.start)

include hchain

/-- Lines that adjoin one another are one row. -/
lemma rows_of_chain (hne : lines ≠ []) :
    (lines.splitBy fun l m => l.stop = m.start) = [lines] :=
  List.splitBy_of_isChain hne (hchain.imp fun l m hlm => by simpa using hlm)

/-- They make one block, or none. -/
lemma build_of_chain : build lines payload = (blockOf? payload lines).toList := by
  by_cases hne : lines = []
  · rw [hne]
    rfl
  · rw [build_eq, rows_of_chain hchain hne]
    cases hb : blockOf? payload lines <;> simp [hb, stableSort, insertSorted]

lemma exists_block_of_chain (hne : build lines payload ≠ []) :
    ∃ b, build lines payload = [b] ∧ (∀ l ∈ lines.head?, b.start = l.start) ∧
      consecutive b.start b.size = lines.flatMap CodeLine.addresses := by
  rw [build_of_chain hchain] at hne ⊢
  cases hb : blockOf? payload lines with
  | none => simp [hb] at hne
  | some b =>
    cases lines with
    | nil => simp [blockOf?] at hb
    | cons l rest =>
      obtain ⟨rfl, -⟩ := eq_blockAt hchain hb
      refine ⟨_, rfl, ?_, ?_⟩
      · rintro m hm
        obtain rfl : l = m := Option.some.inj hm
        rfl
      · rw [size_blockAt, CodeLine.flatMap_addresses hchain]
        rfl

end Memory

namespace Assembly

open TwoPass

variable {a : Assembly} {lines : List Line} (h : a.Realizes lines)

include h

/-- A line that shares no address has its own bytes in memory. -/
lemma map_byteAt_codeLine (hapart : a.codeLines.Pairwise CodeLine.Apart) {p : Placed}
    (hp : p ∈ layout .init lines) :
    p.codeLine.addresses.map (Memory.byteAt a.blocks) = p.bytes (final .init lines).names := by
  have hstop := h.stop_le p hp
  obtain ⟨hstart, hlength⟩ := Placed.toNat_codeLine hstop
  apply List.ext_getElem
  · simp [CodeLine.addresses_eq, consecutive, hlength, Placed.length_bytes]
  · intro i hi hi'
    rw [Placed.length_bytes] at hi'
    have hat : (p.codeLine.start + UInt32.ofNat i).toNat = p.start + i := by
      rw [toNat_add_ofNat (by omega), hstart]
    have hcovers : p.Covers (p.codeLine.start + UInt32.ofNat i).toNat := by
      rw [hat]
      exact ⟨by omega, by omega⟩
    have hbyte := byteFor_of_apart h hapart _ hp hcovers
    rw [hat, Placed.byteFor, if_pos (by omega), Nat.add_sub_cancel_left] at hbyte
    simp only [CodeLine.addresses_eq, consecutive, List.getElem_map, List.getElem_range]
    exact (List.getElem_eq_iff _).mpr hbyte |>.symm

section Chain

variable (hchain : (layout .init lines).IsChain Placed.Adjoins)

include hchain

lemma isChain_codeLines : a.codeLines.IsChain fun l m => l.stop = m.start := by
  rw [h.codeLines, List.isChain_map]
  refine hchain.imp fun p q hpq => ?_
  rw [CodeLine.stop, Placed.codeLine, Placed.codeLine, ← UInt32.ofNat_add, hpq]

lemma apart_of_chain : a.codeLines.Pairwise CodeLine.Apart := by
  have hlines := isChain_codeLines h hchain
  by_cases hne : a.codeLines = []
  · rw [hne]
    exact .nil
  · refine Memory.apart_of_row h.length_le ?_
    rw [Memory.rows_of_chain hlines hne]
    exact List.mem_singleton_self _

/-- **One block**: where the lines adjoin one another, their bytes one after the other are the only
block, unless there are none. -/
lemma block_of_chain (hne : a.blocks ≠ []) : ∃ b, a.blocks = [b] ∧
    (∀ p ∈ (layout .init lines).head?, b.start.toNat = p.start) ∧
    b.bytes.toList = (layout .init lines).flatMap (·.bytes (final .init lines).names) := by
  have hblocks := h.blocks
  rw [hblocks] at hne
  obtain ⟨b, hb, hstart, haddresses⟩ :=
    Memory.exists_block_of_chain (isChain_codeLines h hchain) hne
  have hproper : b.Proper :=
    (Memory.inOrder_build h.length_le).proper b (by rw [hb]; exact List.mem_singleton_self b)
  rw [← hblocks] at hb
  refine ⟨b, hb, ?_, ?_⟩
  · intro p hp
    have hmem := List.mem_of_mem_head? hp
    rw [hstart p.codeLine (by rw [h.codeLines, List.head?_map, hp]; rfl)]
    exact (Placed.toNat_codeLine (h.stop_le p hmem)).1
  · have hmap : ∀ p ∈ layout .init lines, p.codeLine.addresses.map (Memory.byteAt a.blocks) =
        p.bytes (final .init lines).names :=
      fun p hp => map_byteAt_codeLine h (apart_of_chain h hchain) hp
    calc b.bytes.toList
        = (consecutive b.start b.size).map (Memory.byteAt a.blocks) := by
          rw [hb, Memory.map_byteAt_own hproper]
      _ = (layout .init lines).flatMap
            fun p => p.codeLine.addresses.map (Memory.byteAt a.blocks) := by
          rw [haddresses, List.map_flatMap, h.codeLines, List.flatMap_map]
      _ = (layout .init lines).flatMap (·.bytes (final .init lines).names) :=
          List.flatMap_congr hmap

end Chain

end Assembly

/-! ### Records -/

/-- The line sets the origin, to an address that is known from the table. -/
def Line.SetsOriginTo (l : Line) (t : SymbolTable) (address : UInt32) : Prop :=
  ∃ e loc, l.body = some (.directive (.origin e loc)) ∧ e.toOperand.eval t = .ok (some address)

/-- The record is that of a line that is met when the table is known and the line before it stops
at an address. -/
structure CodeLine.Continues (c : CodeLine) (l : Line) (t : SymbolTable) (last : Nat) : Prop where
  heading : c.heading = l.heading
  line : c.line = l.loc.line
  origin : ∀ address, l.SetsOriginTo t address → c.start = address ∧ c.length = 0
  start : (∀ address, ¬l.SetsOriginTo t address) → c.start.toNat = last

/-- The label of the line, if it does not set the origin, names the address the record starts at. -/
def CodeLine.NamedBy (t : SymbolTable) (l : Line) (c : CodeLine) : Prop :=
  l.setsOrigin = false → ∀ name ∈ c.label, t.value? name = some c.start

namespace TwoPass

variable {t : Progress} {l : Line} {lines : List Line}

lemma placed_of_origin {e : Expr} {loc : Location} {v : UInt32}
    (hb : l.body = some (.directive (.origin e loc)))
    (hv : e.meaning (t.enter l).names = .value v) :
    (t.placed l).start = v.toNat ∧ (t.placed l).size = 0 := by
  simp [Progress.placed, Placed.size, hb, Progress.direct, hv, Body.size]

/-- A label is known, by the address where the counter stood. -/
lemma enter_label (hfresh : ∀ label ∈ l.label, t.names label.name = none) :
    ∀ label ∈ l.label, (t.enter l).names label.name = some (UInt32.ofNat t.counter) := by
  intro label hlabel
  rw [Progress.enter, Option.mem_def.mp hlabel]
  simp [Progress.define, Names.define_of_fresh _ (hfresh label hlabel)]

/-- The labels keep their places to the end. -/
lemma namedBy_layout {symbols : SymbolTable} (hpass : PassesAll t lines)
    (hnames : symbols.value? = (final t lines).names) :
    List.Forall₂ (CodeLine.NamedBy symbols) lines ((layout t lines).map Placed.codeLine) := by
  induction lines generalizing t with
  | nil => exact .nil
  | cons l rest ih =>
    obtain ⟨hpl, hprest⟩ := hpass
    refine .cons ?_ (ih hprest hnames)
    intro horigin name hname
    obtain ⟨label, hlabel, rfl⟩ := Option.mem_map.mp hname
    have hknown : (t.placed l).known.Within (final t (l :: rest)).names :=
      known_within_final List.mem_cons_self
    rw [hnames, hknown _ _ (enter_label hpl.label label hlabel), Placed.codeLine,
      placed_start horigin]

end TwoPass

namespace Assembly

open TwoPass

namespace State

/-- The records are those of the lines, from a state on whose last record stops at an address: each
starts where the one before it stops, but for an origin that is known when it is met. -/
inductive Chains : State → Nat → List Line → List CodeLine → Prop
  | nil (s : State) (last : Nat) : s.Chains last [] []
  | cons {s : State} {last : Nat} {l : Line} {c : CodeLine} {lines : List Line}
      {records : List CodeLine} (first : c.Continues l (s.enter l).symbols last)
      (rest : (s.run l.visits).Chains (c.start.toNat + c.length.toNat) lines records) :
      s.Chains last (l :: lines) (c :: records)

variable {s : State} {t : Progress} {l : Line} {lines : List Line} {done : List Placed}

lemma setsOriginTo_iff (h : s.Meets t) {address : UInt32} : l.SetsOriginTo s.symbols address ↔
    ∃ e loc, l.body = some (.directive (.origin e loc)) ∧ e.meaning t.names = .value address := by
  simp only [Line.SetsOriginTo, Operand.eval_eq_value_iff, h.meaning]

lemma continues_placed (h : s.Meets t) (hpl : t.Passes l) (ht : t.counter ≤ 0x10000) :
    (t.placed l).codeLine.Continues l (s.enter l).symbols t.counter where
  heading := rfl
  line := rfl
  origin := by
    intro address horigin
    obtain ⟨e, loc, hb, hv⟩ := (setsOriginTo_iff (h.enter hpl.label)).mp horigin
    obtain ⟨hstart, hsize⟩ := placed_of_origin hb hv
    simp [Placed.codeLine, hstart, hsize]
  start := by
    intro hunset
    have hstop : (t.placed l).start + (t.placed l).size ≤ 0x10000 := hpl.after_le ht
    rw [(Placed.toNat_codeLine hstop).1]
    refine placed_start_of_unset fun e loc hb => ?_
    rcases hv : e.meaning (t.enter l).names with v | _ | _
    · exact absurd ((setsOriginTo_iff (h.enter hpl.label)).mpr ⟨e, loc, hb, hv⟩) (hunset v)
    · rfl
    · rfl

/-- Lines that pass are recorded one behind the other. -/
lemma chains_layout (h : s.Follows t done) (hl : ∀ l ∈ lines, l.Sound)
    (hpass : PassesAll t lines) :
    s.Chains t.counter lines ((layout t lines).map Placed.codeLine) := by
  induction lines generalizing s t done with
  | nil => exact .nil s t.counter
  | cons l rest ih =>
    obtain ⟨hpl, hprest⟩ := hpass
    have hstop : (t.placed l).start + (t.placed l).size ≤ 0x10000 := hpl.after_le h.inRange
    obtain ⟨hstart, hlength⟩ := Placed.toNat_codeLine hstop
    have hrest := ih (follows_line h (hl l List.mem_cons_self) hpl)
      (fun m hm => hl m (List.mem_cons_of_mem l hm)) hprest
    refine .cons (continues_placed h.meets hpl h.inRange) ?_
    rw [hstart, hlength]
    exact hrest

end State

variable {a : Assembly} {lines : List Line}

lemma length_blocks_le_one (h : a.Realizes lines)
    (horigin : ∀ l ∈ lines.tail, l.setsOrigin = false) : a.blocks.length ≤ 1 := by
  by_cases hne : a.blocks = []
  · simp [hne]
  · obtain ⟨b, hb, -⟩ := block_of_chain h (isChain_layout_init horigin) hne
    simp [hb]

/-- **Lines are chained**: a source that assembles has a record for each of its lines, in order.
Each starts where the one before it stops and the first at zero, but an origin that is known when
it is met starts where it says and is empty. Labels name the places of their lines, so with no
origin behind the first line there is at most one block. -/
theorem lines_chained {source : String} (hlen : source.utf8ByteSize < 0x40000000)
    (hok : ofSource source = .ok a) :
    ∃ lexemes lines, tokenize source = .ok lexemes ∧
      (Parser.parse (LineMap.ofString source) lexemes).lines = lines ∧
      (State.start unnamedFile lines.length []).Chains 0 lines a.codeLines ∧
      List.Forall₂ (CodeLine.NamedBy a.symbols) lines a.codeLines ∧
      ((∀ l ∈ lines.tail, l.setsOrigin = false) → a.blocks.length ≤ 1) := by
  obtain ⟨lexemes, ht, h⟩ := realizes_of_ok hlen hok
  refine ⟨lexemes, _, ht, rfl, ?_, ?_, length_blocks_le_one h⟩
  · rw [h.codeLines]
    exact State.chains_layout (State.start_follows unnamedFile _ []) h.sound h.passes
  · rw [h.codeLines]
    exact namedBy_layout h.passes h.names

/-- The first origin is not known yet where it is met, the second one is. -/
def twoOrigins : String :=
  "first: .BYTE 1,2\n.ORG later\nmiddle: .BYTE 3\nback: .ORG $10\nlater: RTS"

theorem lines_chained_twoOrigins :
    ∃ a lexemes lines, ofSource twoOrigins = .ok a ∧ tokenize twoOrigins = .ok lexemes ∧
      (Parser.parse (LineMap.ofString twoOrigins) lexemes).lines = lines ∧
      a.codeLines.map (fun c => (c.start, c.length)) = [(0, 2), (2, 0), (2, 1), (16, 0), (16, 1)] ∧
      (State.start unnamedFile lines.length []).Chains 0 lines a.codeLines ∧
      List.Forall₂ (CodeLine.NamedBy a.symbols) lines a.codeLines := by
  have hrun : (ofSource twoOrigins).toOption.any (fun a =>
      a.codeLines.map (fun c => (c.start, c.length)) ==
        [(0, 2), (2, 0), (2, 1), (16, 0), (16, 1)]) = true := by
    decide +kernel
  obtain ⟨a, hok, hplaces⟩ := exists_ok_iff.mpr hrun
  obtain ⟨lexemes, lines, ht, hlines, hchains, hnamed, -⟩ := lines_chained (by decide +kernel) hok
  exact ⟨a, lexemes, lines, hok, ht, hlines, beq_iff_eq.mp hplaces, hchains, hnamed⟩

end Assembly

end CrossAsm
