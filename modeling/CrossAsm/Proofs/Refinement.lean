import Mathlib.Tactic.Common
import CrossAsm.Proofs.Image

/-!
One walk with later patches against two passes. Where no two lines share an address, the result is
that of the two passes. Where lines overlap, the second pass still says which bytes there are, but
the round in which a byte is written comes before the order of the lines.
-/

namespace CrossAsm

/-- The lines share no address. -/
def CodeLine.Apart (l m : CodeLine) : Prop := ∀ x ∈ l.addresses, x ∉ m.addresses

instance : DecidableRel CodeLine.Apart := fun l m =>
  List.decidableBAll (fun x => x ∉ m.addresses) l.addresses

namespace Assembly

open TwoPass

/-! ### Lines apart -/

section Apart

variable {a : Assembly} {lines : List Line} (h : a.Realizes lines)
  (hapart : a.codeLines.Pairwise CodeLine.Apart) (x : UInt32)

include h hapart

lemma pairwise_covers :
    (layout .init lines).Pairwise fun p q => p.Covers x.toNat → ¬q.Covers x.toNat := by
  rw [h.codeLines, List.pairwise_map] at hapart
  refine hapart.imp_of_mem ?_
  intro p q hp hq hpq hpx hqx
  exact hpq x ((Placed.mem_addresses (h.stop_le p hp) x).mpr hpx)
    ((Placed.mem_addresses (h.stop_le q hq) x).mpr hqx)

/-- The only line that covers an address outlasts the others for want of them. -/
lemma outlasts_of_apart {p : Placed} (hp : p ∈ layout .init lines) (hpx : p.Covers x.toNat) :
    ∃ before after, layout .init lines = before ++ p :: after ∧
      (∀ q ∈ before, ¬q.Covers x.toNat) ∧ p.Outlasts before after x.toNat := by
  obtain ⟨before, after, hsplit⟩ := List.append_of_mem hp
  have hpair := pairwise_covers h hapart x
  rw [hsplit, List.pairwise_append, List.pairwise_cons] at hpair
  have hbefore : ∀ q ∈ before, ¬q.Covers x.toNat := fun q hq hqx =>
    hpair.2.2 q hq p List.mem_cons_self hqx hpx
  have hafter : ∀ q ∈ after, ¬q.Covers x.toNat := fun q hq => hpair.2.1.1 q hq hpx
  exact ⟨before, after, hsplit, hbefore, hpx, fun q hq hqx => absurd hqx (hbefore q hq),
    fun q hq hqx => absurd hqx (hafter q hq)⟩

/-- Without overlaps, every line has its bytes in memory. -/
lemma byteFor_of_apart {p : Placed} (hp : p ∈ layout .init lines) (hpx : p.Covers x.toNat) :
    p.byteFor (final .init lines).names x.toNat = some (Memory.byteAt a.blocks x) := by
  obtain ⟨before, after, hsplit, -, hout⟩ := outlasts_of_apart h hapart x hp hpx
  exact h.byteAt_of_outlasts hsplit hout

/-- Without overlaps, every byte is that of the only line that covers its address. -/
lemma byteAt_of_apart : Memory.byteAt a.blocks x = TwoPass.byteAt lines x.toNat := by
  by_cases hcov : ∃ p ∈ layout .init lines, p.Covers x.toNat
  · obtain ⟨p, hp, hpx⟩ := hcov
    obtain ⟨before, after, hsplit, hbefore, -⟩ := outlasts_of_apart h hapart x hp hpx
    have hnone : before.findSome? (·.byteFor (final .init lines).names x.toNat) = none := by
      rw [List.findSome?_eq_none_iff]
      exact fun q hq => Placed.byteFor_eq_none (hbefore q hq)
    simp only [TwoPass.byteAt]
    rw [hsplit, List.findSome?_append, hnone, Option.none_or, List.findSome?_cons,
      byteFor_of_apart h hapart x hp hpx]
    rfl
  · have hnone : (layout .init lines).findSome?
        (·.byteFor (final .init lines).names x.toNat) = none := by
      rw [List.findSome?_eq_none_iff]
      exact fun q hq => Placed.byteFor_eq_none fun hqx => hcov ⟨q, hq, hqx⟩
    rw [h.byteAt_of_uncovered hcov]
    simp only [TwoPass.byteAt, hnone]
    rfl

end Apart

/-- **One walk with later patches refines two passes**: for a source that assembles into lines that
share no address, the result is what the two passes make of its program. -/
theorem refines_two_passes (source : String) (a : Assembly)
    (hlen : source.utf8ByteSize < 0x40000000) (hok : ofSource source = .ok a)
    (hapart : a.codeLines.Pairwise CodeLine.Apart) :
    ∃ lexemes, tokenize source = .ok lexemes ∧
      TwoPass.Produces (Parser.parse (LineMap.ofString source) lexemes).lines a := by
  obtain ⟨lexemes, ht, h⟩ := realizes_of_ok hlen hok
  exact ⟨lexemes, ht, {
    codeLines := h.codeLines
    inRange := h.stop_le
    symbols := h.names
    addresses := h.contains_iff
    bytes := byteAt_of_apart h hapart }⟩

/-- Prints a text: branches both ways, an operand that has to wait, and data. -/
def printing : String :=
  ".ORG $800\nstart: LDX #0\nloop: LDA text,X\nBEQ done\nINX\nBNE loop\n" ++
  "done: RTS\ntext: .BYTE \"HI\",0\n.WORD start"

theorem refines_two_passes_printing :
    ∃ a, ofSource printing = .ok a ∧ a.codeLines.Pairwise CodeLine.Apart ∧
      Memory.byteAt a.blocks 0x803 = 0x0B ∧
      ∃ lexemes, tokenize printing = .ok lexemes ∧
        TwoPass.byteAt (Parser.parse (LineMap.ofString printing) lexemes).lines 0x803 = 0x0B := by
  have hrun : (ofSource printing).toOption.any (fun a =>
      a.codeLines.Pairwise CodeLine.Apart && Memory.byteAt a.blocks 0x803 == 0x0B) = true := by
    decide +kernel
  obtain ⟨a, hok, hp⟩ := exists_ok_iff.mpr hrun
  simp only [Bool.and_eq_true, decide_eq_true_eq, beq_iff_eq] at hp
  obtain ⟨lexemes, ht, h⟩ := refines_two_passes printing a (by decide +kernel) hok hp.1
  exact ⟨a, hok, hp.1, hp.2, lexemes, ht, (h.bytes 0x803).symm.trans hp.2⟩

/-! ### Lines that overlap -/

section Overlap

variable {a : Assembly} {lines : List Line} (h : a.Realizes lines) {address : UInt32}

include h

lemma exists_outlasts_byteAt (hcov : ∃ p ∈ layout .init lines, p.Covers address.toNat) :
    ∃ before p after, layout .init lines = before ++ p :: after ∧
      p.Outlasts before after address.toNat ∧
      p.byteFor (final .init lines).names address.toNat =
        some (Memory.byteAt a.blocks address) := by
  obtain ⟨before, p, after, hsplit, hp⟩ := exists_outlasts hcov
  exact ⟨before, p, after, hsplit, hp, h.byteAt_of_outlasts hsplit hp⟩

/-- A line that covers an address has its byte there just if the line that outlasts the others has
the same. -/
lemma byteFor_eq_byteAt_iff {p : Placed} (hp : p ∈ layout .init lines)
    (hcov : p.Covers address.toNat) :
    p.byteFor (final .init lines).names address.toNat = some (Memory.byteAt a.blocks address) ↔
      ∀ before q after, layout .init lines = before ++ q :: after →
        q.Outlasts before after address.toNat →
          q.byteFor (final .init lines).names address.toNat =
            p.byteFor (final .init lines).names address.toNat := by
  refine ⟨?_, ?_⟩
  · intro hbyte before q after hsplit hq
    rw [hbyte, h.byteAt_of_outlasts hsplit hq]
  · intro hall
    obtain ⟨before, q, after, hsplit, hq, hbyte⟩ := exists_outlasts_byteAt h ⟨p, hp, hcov⟩
    rw [← hall before q after hsplit hq, hbyte]

end Overlap

/-- **The latest round wins**, and only within a round the last line. Of the lines that cover an
address, one outlasts the others and gives its byte. The last line that covers an address gives the
byte there just if it has the same one; so it does if no line before it is written there in a later
round. -/
theorem latest_round_wins (source : String) (a : Assembly)
    (hlen : source.utf8ByteSize < 0x40000000) (hok : ofSource source = .ok a) :
    ∃ lexemes lines, tokenize source = .ok lexemes ∧
      (Parser.parse (LineMap.ofString source) lexemes).lines = lines ∧
      ∀ address : UInt32,
        ((∃ p ∈ layout .init lines, p.Covers address.toNat) →
          ∃ before p after, layout .init lines = before ++ p :: after ∧
            p.Outlasts before after address.toNat ∧
            p.byteFor (final .init lines).names address.toNat =
              some (Memory.byteAt a.blocks address)) ∧
        ∀ before p after, layout .init lines = before ++ p :: after → p.Covers address.toNat →
          (∀ q ∈ after, ¬q.Covers address.toNat) →
            (p.byteFor (final .init lines).names address.toNat =
                some (Memory.byteAt a.blocks address) ↔
              ∀ before' q after', layout .init lines = before' ++ q :: after' →
                q.Outlasts before' after' address.toNat →
                  q.byteFor (final .init lines).names address.toNat =
                    p.byteFor (final .init lines).names address.toNat) ∧
            ((∀ q ∈ before, q.Covers address.toNat → q.rank address.toNat ≤ p.rank address.toNat) →
              p.byteFor (final .init lines).names address.toNat =
                some (Memory.byteAt a.blocks address)) := by
  obtain ⟨lexemes, ht, h⟩ := realizes_of_ok hlen hok
  refine ⟨lexemes, _, ht, rfl, fun address => ⟨exists_outlasts_byteAt h, ?_⟩⟩
  intro before p after hsplit hcov hafter
  have hp : p ∈ layout .init (Parser.parse (LineMap.ofString source) lexemes).lines := by
    simp [hsplit]
  refine ⟨byteFor_eq_byteAt_iff h hp hcov, fun hbefore => ?_⟩
  exact h.byteAt_of_outlasts hsplit
    ⟨hcov, hbefore, fun q hq hqcov => absurd hqcov (hafter q hq)⟩

/-- A jump forward whose operand a later line overwrites. -/
def overlapping : String := ".ORG $1000\nJMP later\n.ORG $1001\n.BYTE 9\nlater:"

theorem latest_round_wins_overlapping :
    ∃ a, ofSource overlapping = .ok a ∧ Memory.byteAt a.blocks 0x1001 = 2 ∧
      ∃ lexemes lines, tokenize overlapping = .ok lexemes ∧
        (Parser.parse (LineMap.ofString overlapping) lexemes).lines = lines ∧
        ∃ before p after, layout .init lines = before ++ p :: after ∧
          p.Outlasts before after 0x1001 ∧
          p.byteFor (final .init lines).names 0x1001 = some 2 := by
  have hrun : (ofSource overlapping).toOption.any
      (fun a => Memory.byteAt a.blocks 0x1001 == 2) = true := by
    decide +kernel
  obtain ⟨a, hok, hbyte⟩ := exists_ok_iff.mpr hrun
  rw [beq_iff_eq] at hbyte
  obtain ⟨lexemes, lines, ht, hlines, h⟩ :=
    latest_round_wins overlapping a (by decide +kernel) hok
  have hcov : ∃ p ∈ layout .init lines, p.Covers 0x1001 := by
    have hlex : (tokenize overlapping).toOption.getD [] = lexemes := by rw [ht]; rfl
    rw [← hlines, ← hlex]
    decide +kernel
  obtain ⟨before, p, after, hsplit, hp, hpbyte⟩ := (h 0x1001).1 hcov
  rw [hbyte] at hpbyte
  exact ⟨a, hok, hbyte, lexemes, lines, ht, hlines, before, p, after, hsplit, hp, hpbyte⟩

/-- The last line that covers an address need not give the byte there. -/
theorem last_line_overwritten :
    ∃ a lexemes lines, ofSource overlapping = .ok a ∧ tokenize overlapping = .ok lexemes ∧
      (Parser.parse (LineMap.ofString overlapping) lexemes).lines = lines ∧
      ∃ before p after, layout .init lines = before ++ p :: after ∧ p.Covers 0x1001 ∧
        (∀ q ∈ after, ¬q.Covers 0x1001) ∧
        p.byteFor (final .init lines).names 0x1001 = some 9 ∧
        Memory.byteAt a.blocks 0x1001 = 2 := by
  have hrun : (ofSource overlapping).toOption.any
      (fun a => Memory.byteAt a.blocks 0x1001 == 2) = true := by
    decide +kernel
  obtain ⟨a, hok, hbyte⟩ := exists_ok_iff.mpr hrun
  rw [beq_iff_eq] at hbyte
  have ht : tokenize overlapping = .ok ((tokenize overlapping).toOption.getD []) := by
    decide +kernel
  refine ⟨a, _, _, hok, ht, rfl, ?_⟩
  have hlength : 3 < (layout .init (Parser.parse (LineMap.ofString overlapping)
      ((tokenize overlapping).toOption.getD [])).lines).length := by
    decide +kernel
  refine ⟨_, _, _, (List.take_append_drop 3 _).symm.trans
    (congrArg _ (List.getElem_cons_drop (h := hlength)).symm), ?_, ?_, ?_, hbyte⟩
  all_goals decide +kernel +revert

end Assembly

end CrossAsm
