import Mathlib.Data.List.TFAE
import Mathlib.Tactic.Common
import Mathlib.Tactic.TFAE
import CrossAsm.Proofs.Records
import CrossAsm.Proofs.Spacing

/-!
Overlaps are found wherever one looks for them. The walk looks byte by byte whether something is
there already, the image compares neighbouring blocks. Main statement: both find an overlap just if
two lines share an address, and the walk logs just the lines that share one with an earlier line.
-/

namespace CrossAsm

/-! ### What overwrites -/

lemma Event.exists_lineOverwrites {events : List Event} :
    (∃ n x, lineOverwrites n x ∈ events) ↔ overwritings events ≠ [] := by
  simp only [overwritings, ne_eq, List.filter_eq_nil_iff, not_forall, not_not]
  refine ⟨?_, ?_⟩
  · rintro ⟨n, x, h⟩
    exact ⟨_, h, rfl⟩
  · rintro ⟨e, hmem, hover⟩
    cases e with
    | lineOverwrites n x => exact ⟨n, x, hmem⟩
    | _ => simp [isOverwriting] at hover

lemma Event.overwritings_append_of_eq_nil {before : List Event} (h : overwritings before = [])
    (events : List Event) : overwritings (before ++ events) = overwritings events := by
  unfold overwritings at h ⊢
  rw [List.filter_append, h, List.nil_append]

namespace Payload

/-- Bytes replace one that is there just if there is one at one of their addresses. -/
lemma hits_iff (p : Payload) {a : UInt32} {bytes : List UInt8}
    (h : a.toNat + bytes.length < 0x100000000) :
    p.hits a bytes = true ↔ ∃ x ∈ consecutive a bytes.length, (p.get? x).isSome = true := by
  induction bytes generalizing p a with
  | nil => simp [hits, consecutive]
  | cons byte rest ih =>
    simp only [List.length_cons] at h ⊢
    have hnext : (a + 1).toNat = a.toNat + 1 := toNat_add_ofNat (n := 1) (by omega)
    -- the byte at the first address is not at a later one
    have hlater : ∀ x ∈ consecutive (a + 1) rest.length, (p.insert a byte).get? x = p.get? x := by
      intro x hx
      rw [mem_consecutive (by omega)] at hx
      rw [get?_insert, if_neg]
      rintro rfl
      omega
    rw [hits, Bool.or_eq_true, ih _ (by omega), consecutive_succ, List.exists_mem_cons_iff]
    refine or_congr_right (exists_congr fun x => and_congr_right fun hx => ?_)
    rw [hlater x hx]

end Payload

namespace CodeLine

/-- The lines that share an address with an earlier one. -/
def overwriting (lines : List CodeLine) : List CodeLine :=
  (lines.zipIdx.filter fun p => (lines.take p.2).any fun m => !decide (m.Apart p.1)).map (·.1)

/-- What is logged of such a line. -/
def warning (l : CodeLine) : Event := .lineOverwrites l.line l.start

lemma overwriting_concat (lines : List CodeLine) (l : CodeLine) :
    overwriting (lines ++ [l]) =
      overwriting lines ++ if ∃ m ∈ lines, ¬m.Apart l then [l] else [] := by
  have hbefore : lines.zipIdx.filter (fun p => ((lines ++ [l]).take p.2).any
      fun m => !decide (m.Apart p.1)) =
      lines.zipIdx.filter fun p => (lines.take p.2).any fun m => !decide (m.Apart p.1) := by
    refine List.filter_congr fun p hp => ?_
    have hlt := List.snd_lt_of_mem_zipIdx hp
    rw [List.take_append_of_le_length (by omega)]
  rw [overwriting, List.zipIdx_append, List.filter_append, hbefore, List.map_append, overwriting]
  by_cases hl : ∃ m ∈ lines, ¬m.Apart l
  · simp [hl]
  · simp [hl]

/-- There is no such line just if all lines are apart. -/
lemma overwriting_eq_nil {lines : List CodeLine} :
    overwriting lines = [] ↔ lines.Pairwise Apart := by
  induction lines using List.reverseRecOn with
  | nil => simp [overwriting]
  | append_singleton lines l ih =>
    rw [overwriting_concat, List.append_eq_nil_iff, ih, List.pairwise_append]
    simp

end CodeLine

/-! ### The walk -/

namespace TwoPass.Placed

variable {done : List Placed} (hbound : ∀ p ∈ done, p.start + p.size ≤ 0x10000)

include hbound

/-- What is stored when lines are met is at their addresses, and nowhere else. -/
lemma isSome_payload (x : UInt32) :
    (((done.map stored).foldl .store .empty : Payload).get? x).isSome = true ↔
      ∃ p ∈ done, x ∈ p.codeLine.addresses := by
  have hfits : ∀ w ∈ done.map stored, w.Fits := by
    rintro w hw
    obtain ⟨p, hp, rfl⟩ := List.mem_map.mp hw
    have := hbound p hp
    simp only [Write.Fits, stored, p.length_walked]
    omega
  have hempty : Payload.empty.get? x = none := by simp [Payload.get?, Payload.empty]
  rw [Payload.get?_foldl_store _ hfits, hempty, Option.or_none, List.findSome?_isSome_iff]
  simp only [List.mem_reverse, List.mem_map, exists_exists_and_eq_and]
  refine exists_congr fun p => and_congr_right fun hp => ?_
  rw [mem_addresses (hbound p hp), Write.isSome_byteFor, stored, p.length_walked]
  rfl

/-- A line replaces a byte just if it shares an address with a line before it. -/
lemma hits_iff {p : Placed} (hp : p.start + p.size ≤ 0x10000) :
    ((done.map stored).foldl .store .empty : Payload).hits (UInt32.ofNat p.start) p.walked = true ↔
      ∃ m ∈ done.map codeLine, ¬m.Apart p.codeLine := by
  obtain ⟨hstart, hlength⟩ := toNat_codeLine hp
  have hstart : (UInt32.ofNat p.start).toNat = p.start := hstart
  have haddr : consecutive (UInt32.ofNat p.start) p.walked.length = p.codeLine.addresses := by
    rw [CodeLine.addresses_eq, hlength, p.length_walked]
    rfl
  rw [Payload.hits_iff _ (by rw [hstart, p.length_walked]; omega), haddr]
  simp only [isSome_payload hbound, List.mem_map, exists_exists_and_eq_and, CodeLine.Apart]
  refine ⟨?_, ?_⟩
  · rintro ⟨x, hx, q, hq, hxq⟩
    exact ⟨q, hq, fun hapart => hapart x hxq hx⟩
  · rintro ⟨q, hq, hshared⟩
    simp only [not_forall, not_not] at hshared
    obtain ⟨x, hxq, hx⟩ := hshared
    exact ⟨x, hx, q, hq, hxq⟩

end TwoPass.Placed

namespace Assembly.State

open TwoPass

variable {s : State} {t : Progress} {l : Line} {done : List Placed} {lines : List Line}

lemma overwritings_endLine (s : State) (label : Option String) (terminals : List String)
    (loc : Location) :
    Event.overwritings (s.endLine label terminals loc).events.toList =
      Event.overwritings s.events.toList ++
        if s.overwrites then [.lineOverwrites loc.line (s.codeLine label terminals loc).start]
        else [] := by
  simp only [endLine]
  split <;> split <;> simp_all [Event.overwritings, report, log, Event.isOverwriting]

/-- Between two lines, the log names the lines so far that overwrite something. -/
structure Warns (s : State) (done : List Placed) : Prop where
  overwrites : s.overwrites = false
  log : Event.overwritings s.events.toList =
    (CodeLine.overwriting (done.map Placed.codeLine)).map CodeLine.warning
  bound : ∀ p ∈ done, p.start + p.size ≤ 0x10000

lemma warns_line (h : s.Follows t done) (hw : s.Warns done) (hl : l.Sound) (hpass : t.Passes l) :
    (s.run l.visits).Warns (done ++ [t.placed l]) := by
  have hp := performs_perform (h.meets.enter hpass.label) hl hpass.walks
  obtain ⟨symbols, events, henter, -⟩ := enter_eq h.meets hpass.label
  have hstop : (t.placed l).start + (t.placed l).size ≤ 0x10000 := hpass.after_le h.inRange
  have hcode : ((s.enter l).perform l.body).codeLine (l.label.map (·.name)) l.terminals l.loc =
      (t.placed l).codeLine := hp.codeLine
  have hover : ((s.enter l).perform l.body).overwrites = true ↔
      ∃ m ∈ done.map Placed.codeLine, ¬m.Apart (t.placed l).codeLine := by
    rw [hp.overwrites, henter, hw.overwrites, Bool.false_or, h.payload]
    exact Placed.hits_iff hw.bound hstop
  rw [run_line]
  refine ⟨rfl, ?_, ?_⟩
  · rw [overwritings_endLine, (s.keeps_body l).overwritings, hw.log, List.map_append,
      List.map_singleton, CodeLine.overwriting_concat, List.map_append]
    congr 1
    -- the end of the line adds an entry just if the line is one that overwrites
    by_cases hshared : ∃ m ∈ done.map Placed.codeLine, ¬m.Apart (t.placed l).codeLine
    · rw [if_pos (hover.mpr hshared), if_pos hshared, hcode]
      rfl
    · rw [if_neg (mt hover.mp hshared), if_neg hshared]
      rfl
  · intro p hp
    rcases List.mem_append.mp hp with hp | hp
    · exact hw.bound p hp
    · rw [List.mem_singleton.mp hp]
      exact hstop

lemma warns_lines (h : s.Follows t done) (hw : s.Warns done) (hl : ∀ l ∈ lines, l.Sound)
    (hpass : PassesAll t lines) :
    (s.run (lines.flatMap Line.visits)).Warns (done ++ layout t lines) := by
  induction lines generalizing s t done with
  | nil => simpa [layout] using hw
  | cons l rest ih =>
    obtain ⟨hpl, hprest⟩ := hpass
    have hl0 := hl l List.mem_cons_self
    have hrest := ih (follows_line h hl0 hpl) (warns_line h hw hl0 hpl)
      (fun m hm => hl m (List.mem_cons_of_mem l hm)) hprest
    rw [run_lines_cons]
    simpa [layout] using hrest

lemma warns_start (file : String) (count : Nat) (faults : List Diagnostic) :
    (start file count faults).Warns [] :=
  ⟨rfl, rfl, by simp⟩

/-- The log of a walk in which every line passes when it is met. -/
lemma overwritings_walk (file : String) (faults : List Diagnostic) (hl : ∀ l ∈ lines, l.Sound)
    (hpass : PassesAll .init lines) :
    Event.overwritings (walk (.init file) lines faults).events.toList =
      (CodeLine.overwriting ((layout .init lines).map Placed.codeLine)).map CodeLine.warning := by
  rw [walk_eq, (Keeps.refl _).resolve.overwritings]
  exact (warns_lines (start_follows file _ faults) (warns_start file _ faults) hl hpass).log

end Assembly.State

/-! ### Sources -/

/-- Reading logs only that lines are skipped. -/
lemma Parser.overwritings_programUpTo (count : Nat) (c : Cursor) :
    Event.overwritings (programUpTo count c).1.events = [] := by
  induction count generalizing c with
  | zero => rfl
  | succ count ih =>
    simp only [programUpTo]
    split
    · rfl
    split
    · next l fault d _ => exact ih d
    · next fault d _ => exact ih d.skipLine

namespace Assembly

open TwoPass

lemma overwritings_finish (s : State) :
    Event.overwritings (finish s).events = Event.overwritings s.events.toList := by
  unfold finish
  split
  · simp [Event.overwritings, Event.isOverwriting]
  · rfl

lemma overwritings_ofNamedSource {source : String} {lexemes : List Lexeme}
    (ht : tokenize source = .ok lexemes) (file : String) :
    Event.overwritings (ofNamedSource source file).events =
      Event.overwritings (walk (.init file)
        (Parser.parse (LineMap.ofString source) lexemes).lines
        (Parser.parse (LineMap.ofString source) lexemes).faults).events.toList := by
  have hread : Event.overwritings (.tokenized lexemes.length ::
      (Parser.parse (LineMap.ofString source) lexemes).events) = [] :=
    Parser.overwritings_programUpTo _ _
  rw [← overwritings_finish, ofNamedSource, ht]
  exact Event.overwritings_append_of_eq_nil hread _

/-- The log of a source that assembles. -/
lemma overwritings_of_ok {source : String} {a : Assembly}
    (hlen : source.utf8ByteSize < 0x40000000) (hok : ofSource source = .ok a) :
    Event.overwritings (ofNamedSource source unnamedFile).events =
      (CodeLine.overwriting a.codeLines).map CodeLine.warning := by
  obtain ⟨lexemes, ht, h⟩ := realizes_of_ok hlen hok
  rw [overwritings_ofNamedSource ht, State.overwritings_walk _ _ h.sound h.passes, h.codeLines]

/-- **Overlaps are found by all who look for them**: a line is logged to overwrite something, two
lines share an address, two blocks do, the image logs an overlap. Each of these holds just if the
others do, and the lines that are logged are those that share an address with an earlier one. -/
theorem overlaps_found_alike {source : String} {a : Assembly}
    (hlen : source.utf8ByteSize < 0x40000000) (hok : ofSource source = .ok a) :
    List.TFAE [
      ∃ n x, Event.lineOverwrites n x ∈ (ofNamedSource source unnamedFile).events,
      ¬a.codeLines.Pairwise CodeLine.Apart,
      ¬a.blocks.Pairwise Block.Apart,
      ∃ x y, Event.blocksOverlap x y ∈ Memory.imageEvents a.blocks] ∧
    Event.overwritings (ofNamedSource source unnamedFile).events =
      (CodeLine.overwriting a.codeLines).map CodeLine.warning := by
  have hlog := overwritings_of_ok hlen hok
  have horder := inOrder_of_ok hlen hok
  refine ⟨?_, hlog⟩
  tfae_have 1 ↔ 2 := by
    rw [← CodeLine.overwriting_eq_nil, ← List.map_eq_nil_iff, ← hlog, Event.exists_lineOverwrites]
  tfae_have 2 ↔ 3 := not_congr (blocks_apart_iff hlen hok).symm
  tfae_have 3 ↔ 4 := by
    rw [horder.apart_iff_isChain, ← horder.imageEvents_eq_nil, Memory.exists_blocksOverlap]
  tfae_finish

/-- The third of four pieces replaces the last byte of the first one, at the top of memory. -/
def topOverwritten : String :=
  ".ORG $FFFD\n.BYTE 1,2,3\n.ORG $10\n.WORD $1234\n.ORG $FFFF\n.BYTE 5\n.ORG $12\n.BYTE 6"

theorem overlaps_found_alike_top :
    ∃ a, ofSource topOverwritten = .ok a ∧ ¬a.codeLines.Pairwise CodeLine.Apart ∧
      ¬a.blocks.Pairwise Block.Apart ∧
      (∃ x y, Event.blocksOverlap x y ∈ Memory.imageEvents a.blocks) ∧
      Event.overwritings (ofNamedSource topOverwritten unnamedFile).events =
        [.lineOverwrites 6 0xFFFF] := by
  have hrun : (ofSource topOverwritten).toOption.any (fun a =>
      (CodeLine.overwriting a.codeLines).map CodeLine.warning == [.lineOverwrites 6 0xFFFF]) =
        true := by
    decide +kernel
  obtain ⟨a, hok, hlines⟩ := exists_ok_iff.mpr hrun
  rw [beq_iff_eq] at hlines
  obtain ⟨htfae, hlog⟩ := overlaps_found_alike (by decide +kernel) hok
  have hapart : ¬a.codeLines.Pairwise CodeLine.Apart := by
    rw [← CodeLine.overwriting_eq_nil]
    intro hnil
    simp [hnil] at hlines
  exact ⟨a, hok, hapart, (htfae.out 1 2).mp hapart, (htfae.out 1 3).mp hapart, hlog.trans hlines⟩

end Assembly

end CrossAsm
