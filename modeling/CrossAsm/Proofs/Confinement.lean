import Mathlib.Tactic.Common
import CrossAsm.Proofs.ProgramFile
import CrossAsm.Proofs.Records
import CrossAsm.Proofs.Storing

/-!
Addresses stay where they belong. The program counter has 32 bits, so it could come round to the
start of memory; but a line stores two bytes at most for each word that it is written with, and a
source has too few words for that. So no address that is computed on the way wraps, whatever is at
fault, and where nothing is at fault everything lies in the lowest 64 KiB. Main statement:
`addresses_confined`.
-/

namespace CrossAsm

lemma Line.totalWeight_append (front back : List Line) :
    totalWeight (front ++ back) = totalWeight front + totalWeight back := by
  induction front with
  | nil => simp [totalWeight]
  | cons l rest ih =>
    rw [List.cons_append, totalWeight, totalWeight, ih]
    omega

namespace Assembly.State

/-! ### One line -/

/-- A line has stored the bytes: the counter went up by one for each of them, from where it stood or
from an origin on, and the record of the line has their number. -/
structure Advances (s t : State) (start : UInt32) (bytes : List UInt8) : Prop where
  starts : start = s.counter ∨ start ≤ maxAddress
  payload : t.payload = s.payload.fill start bytes
  counter : t.counter.toNat = start.toNat + bytes.length
  record : ∃ r : CodeLine, t.codeLines.toList = s.codeLines.toList ++ [r] ∧ r.start = start ∧
    r.length.toNat = bytes.length

/-- The state between two lines, when no address so far is beyond a bound. -/
structure Below (s : State) (n : Nat) : Prop where
  operands : s.operands = []
  lineStart : s.lineStart = none
  counter : s.counter.toNat ≤ n
  deferred : ∀ p ∈ s.deferred.toList, 2 ≤ p.width ∧ p.address.toNat + p.width ≤ n
  branches : ∀ p ∈ s.branches.toList, p.address.toNat + 1 ≤ n

variable {s t : State} {a : UInt32} {bytes : List UInt8} {n : Nat}

/-- The length of a line is the number of its bytes, as long as there is room for them. -/
lemma Stores.codeLine (h : s.Stores t a bytes) (hroom : a.toNat + bytes.length < 0x100000000)
    (label : Option String) (terminals : List String) (loc : Location) :
    (t.codeLine label terminals loc).start = a ∧
      (t.codeLine label terminals loc).length.toNat = bytes.length := by
  have hcounter := toNat_add_ofNat hroom
  refine ⟨h.lineStart, ?_⟩
  simp only [State.codeLine, h.lineStart]
  rw [UInt32.toNat_sub_of_le _ _ ?_]
  · rw [h.counter, hcounter]
    omega
  · rw [h.counter, UInt32.le_iff_toNat_le, hcounter]
    omega

lemma Stores.endLine (h : s.Stores t a bytes) (hroom : a.toNat + bytes.length < 0x100000000)
    (hlines : t.codeLines = s.codeLines) (label : Option String) (terminals : List String)
    (loc : Location) : s.Advances (t.endLine label terminals loc) a bytes := by
  obtain ⟨hstart, hlength⟩ := h.codeLine hroom label terminals loc
  obtain ⟨faults, events, hend⟩ := endLine_eq label terminals loc t
  rw [hend]
  refine ⟨h.starts, h.payload, ?_, _, ?_, hstart, hlength⟩
  · simp only
    rw [h.counter, toNat_add_ofNat hroom]
  · simp [hlines]

lemma Below.mono {m : Nat} (h : s.Below n) (hm : n ≤ m) : s.Below m where
  operands := h.operands
  lineStart := h.lineStart
  counter := Nat.le_trans h.counter hm
  deferred p hp := by
    have := h.deferred p hp
    omega
  branches p hp := Nat.le_trans (h.branches p hp) hm

/-- The bound moves up with the bytes of the line. -/
lemma Below.endLine (hs : s.Below n) (h : s.Stores t a bytes) (ha : a.toNat ≤ n)
    (hroom : n + bytes.length < 0x100000000) (label : Option String) (terminals : List String)
    (loc : Location) : (t.endLine label terminals loc).Below (n + bytes.length) := by
  obtain ⟨faults, events, hend⟩ := endLine_eq label terminals loc t
  rw [hend]
  refine ⟨rfl, rfl, ?_, ?_, ?_⟩
  · simp only
    rw [h.counter, toNat_add_ofNat (by omega)]
    omega
  · intro p hp
    rcases h.deferred p hp with hp | ⟨haddress, hmin, hmax⟩
    · have := hs.deferred p hp
      omega
    · rw [haddress]
      omega
  · intro p hp
    rcases h.branches p hp with hp | ⟨haddress, hmin⟩
    · have := hs.branches p hp
      omega
    · have hnext : (a + 1).toNat = a.toNat + 1 := by
        rw [UInt32.toNat_add, UInt32.toNat_one]
        omega
      rw [haddress, hnext]
      omega

lemma Below.line (hs : s.Below n) (hn : 0xFFFF ≤ n) (l : Line)
    (hroom : n + 2 * l.weight < 0x100000000) :
    (∃ start bytes, s.Advances (s.run l.visits) start bytes) ∧
      (s.run l.visits).Below (n + 2 * l.weight) := by
  obtain ⟨a, bytes, hlength, hstores⟩ := stores_line hs.operands hs.lineStart l
  have ha : a.toNat ≤ n := by
    rcases hstores.starts with rfl | hmax
    · exact hs.counter
    · exact Nat.le_trans (UInt32.le_iff_toNat_le.mp hmax) hn
  rw [run_line]
  refine ⟨⟨a, bytes, hstores.endLine (by omega) (s.keeps_body l).codeLines _ _ _⟩, ?_⟩
  exact (hs.endLine hstores ha (by omega) _ _ _).mono (by omega)

/-! ### All lines -/

lemma Below.lines (hs : s.Below n) (hn : 0xFFFF ≤ n) (lines : List Line)
    (hroom : n + 2 * Line.totalWeight lines < 0x100000000) :
    (s.run (lines.flatMap Line.visits)).Below (n + 2 * Line.totalWeight lines) := by
  induction lines generalizing s n with
  | nil => exact hs
  | cons l rest ih =>
    rw [Line.totalWeight] at hroom ⊢
    have hl := (hs.line hn l (by omega)).2
    have hrest := ih hl (by omega) (by omega)
    rw [run_lines_cons]
    exact hrest.mono (by omega)

/-- No address that is computed on the way through the lines wraps: not the counter, not the length
of a line, and not the places of what is left for the end. -/
structure NeverWraps (s : State) (lines : List Line) : Prop where
  advances : ∀ done l rest, lines = done ++ l :: rest → ∃ start bytes,
    (s.run (done.flatMap Line.visits)).Advances
      ((s.run (done.flatMap Line.visits)).run l.visits) start bytes
  deferred : ∀ p ∈ (s.run (lines.flatMap Line.visits)).deferred.toList,
    (p.address + 1).toNat = p.address.toNat + 1 ∧ (p.address + 2).toNat = p.address.toNat + 2
  branches : ∀ p ∈ (s.run (lines.flatMap Line.visits)).branches.toList,
    (p.address + 1).toNat = p.address.toNat + 1

lemma Below.neverWraps (hs : s.Below 0xFFFF) {lines : List Line}
    (hroom : 0xFFFF + 2 * Line.totalWeight lines < 0x100000000) : s.NeverWraps lines where
  advances := by
    rintro done l rest rfl
    rw [Line.totalWeight_append, Line.totalWeight] at hroom
    have hdone := hs.lines (Nat.le_refl _) done (by omega)
    exact (hdone.line (by omega) l (by omega)).1
  deferred p hp := by
    have hbelow := (hs.lines (Nat.le_refl _) lines hroom).deferred p hp
    have hone : (1 : UInt32).toNat = 1 := rfl
    have htwo : (2 : UInt32).toNat = 2 := rfl
    rw [UInt32.toNat_add, UInt32.toNat_add, hone, htwo]
    omega
  branches p hp := by
    have hbelow := (hs.lines (Nat.le_refl _) lines hroom).branches p hp
    rw [UInt32.toNat_add, UInt32.toNat_one]
    omega

lemma start_below (file : String) (count : Nat) (faults : List Diagnostic) :
    (start file count faults).Below 0xFFFF where
  operands := rfl
  lineStart := rfl
  counter := by simp [start, init, State.log]
  deferred := by simp [start, init, State.log]
  branches := by simp [start, init, State.log]

end Assembly.State

namespace Assembly

variable {source : String}

/-- **Addresses stay where they belong**: whatever is at fault, none wraps; and if nothing is, all
bytes lie in the lowest 64 KiB, and the load address is that of the first one. -/
theorem addresses_confined (hlen : source.utf8ByteSize < 0x40000000) :
    (∀ a, ofSource source = .ok a →
      (∀ l ∈ a.codeLines, 0 < l.length → l.start.toNat + l.length.toNat ≤ 0x10000) ∧
        (∀ b ∈ a.blocks, b.start.toNat + b.size ≤ 0x10000) ∧
        ∀ b ∈ a.blocks.head?, ∃ low high body, Memory.image a.blocks = low :: high :: body ∧
          (low.toUInt16 + (256 : UInt16) * high.toUInt16).toNat = b.start.toNat) ∧
      ∀ lexemes file, tokenize source = .ok lexemes →
        (State.start file (Parser.parse (LineMap.ofString source) lexemes).lines.length
          (Parser.parse (LineMap.ofString source) lexemes).faults).NeverWraps
          (Parser.parse (LineMap.ofString source) lexemes).lines := by
  refine ⟨?_, ?_⟩
  · intro a hok
    have hproper := (inOrder_of_ok hlen hok).proper
    refine ⟨fun l hl _ => length_le_of_ok hlen hok l hl, fun b hb => (hproper b hb).inMemory, ?_⟩
    intro b hb
    obtain ⟨rest, hblocks⟩ := List.head?_eq_some_iff.mp hb
    have hb := hproper b (by rw [hblocks]; exact List.mem_cons_self)
    have hpos := hb.nonempty
    have hbound := hb.inMemory
    rw [hblocks]
    exact ⟨_, _, _, rfl, Memory.toNat_low_high (by omega)⟩
  · intro lexemes file ht
    have hweight := totalWeight_parse_le hlen ht
    exact (State.start_below file _ _).neverWraps (by omega)

/-- A loop that takes the last three bytes of memory, and a jump that runs out of it. -/
theorem addresses_confined_top :
    (∃ a, ofSource ".ORG $FFFD\nloop: JMP loop" = .ok a ∧
      a.blocks = [⟨0xFFFD, #[0x4C, 0xFD, 0xFF]⟩] ∧
      (∀ l ∈ a.codeLines, 0 < l.length → l.start.toNat + l.length.toNat ≤ 0x10000) ∧
      ∀ b ∈ a.blocks, b.start.toNat + b.size ≤ 0x10000) ∧
    ∃ lexemes, tokenize ".ORG $FFFF\nJMP later" = .ok lexemes ∧
      (ofSource ".ORG $FFFF\nJMP later").toOption.isNone = true ∧
      (State.start unnamedFile 2 []).NeverWraps
        (Parser.parse (LineMap.ofString ".ORG $FFFF\nJMP later") lexemes).lines := by
  have hrun : (ofSource ".ORG $FFFD\nloop: JMP loop").toOption.any
      (·.blocks == [⟨0xFFFD, #[0x4C, 0xFD, 0xFF]⟩]) = true := by
    decide +kernel
  have hscan : tokenize ".ORG $FFFF\nJMP later" =
      .ok ((tokenize ".ORG $FFFF\nJMP later").toOption.getD []) := by
    decide +kernel
  have hparse : (Parser.parse (LineMap.ofString ".ORG $FFFF\nJMP later")
      ((tokenize ".ORG $FFFF\nJMP later").toOption.getD [])).lines.length = 2 ∧
      (Parser.parse (LineMap.ofString ".ORG $FFFF\nJMP later")
        ((tokenize ".ORG $FFFF\nJMP later").toOption.getD [])).faults = [] := by
    decide +kernel
  obtain ⟨a, hok, hblocks⟩ := exists_ok_iff.mpr hrun
  obtain ⟨hlines, hbounds, -⟩ := (addresses_confined (by decide +kernel)).1 a hok
  have hwraps := (addresses_confined (by decide +kernel)).2 _ unnamedFile hscan
  rw [hparse.1, hparse.2] at hwraps
  exact ⟨⟨a, hok, by simpa using hblocks, hlines, hbounds⟩, _, hscan, by decide +kernel, hwraps⟩

end Assembly

end CrossAsm
