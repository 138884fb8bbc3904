import Mathlib.Tactic.Common
import CrossAsm.Proofs.Acceptance
import CrossAsm.Proofs.Blocks

/-!
The memory of a source that assembles. At an address that several lines cover, the byte of the line
that is written in the latest round stands, and within a round that of the last line. Every byte
that stands is the one that the second pass gives its line.
-/

namespace CrossAsm

/-- The last element of a list that gives something, where each element gives several things. -/
lemma findSome?_reverse_flatMap {α β γ : Type} (f : α → List β) (g : β → Option γ) (l : List α) :
    (l.flatMap f).reverse.findSome? g =
      l.reverse.findSome? fun a => (f a).reverse.findSome? g := by
  induction l with
  | nil => rfl
  | cons a rest ih =>
    rw [List.flatMap_cons, List.reverse_append, List.findSome?_append, ih, List.reverse_cons,
      List.findSome?_append, List.findSome?_singleton]

/-- The last element that gives something, with what comes before and after it. -/
lemma findSome?_reverse_of_split {α β : Type} {f : α → Option β} {before after : List α} {a : α}
    (hafter : ∀ x ∈ after, f x = none) (ha : f a ≠ none) :
    (before ++ a :: after).reverse.findSome? f = f a := by
  have hnone : after.reverse.findSome? f = none := by
    rw [List.findSome?_eq_none_iff]
    exact fun x hx => hafter x (List.mem_reverse.mp hx)
  obtain ⟨b, hb⟩ := Option.ne_none_iff_exists'.mp ha
  rw [List.reverse_append, List.reverse_cons, List.append_assoc, List.findSome?_append, hnone,
    List.findSome?_append, List.findSome?_singleton, hb]
  rfl

/-! ### Lines -/

namespace Statement

variable {s : Statement} {known all : Names}

/-- The second pass looks at the operand of a statement only. -/
lemma bytes_congr {names : Names} (hr : s.mode ≠ .relative)
    (hm : s.meaning names = s.meaning all) (a b : Nat) :
    s.bytes known names a = s.bytes known all b := by
  cases hmode : s.mode <;> simp only [bytes, hmode, hm]
  exact absurd hmode hr

end Statement

/-- An entry that is known when it is met keeps its values. -/
lemma DataItem.values_within {known all : Names} (h : known.Within all) (i : DataItem) :
    i.values known known = i.values known all := by
  cases i with
  | expr e =>
    simp only [values]
    rcases hm : e.meaning known with v | _ | _
    · rw [Expr.meaning_value_within h hm]
    · rfl
    · rfl
  | string text loc => rfl

namespace TwoPass.Placed

variable {p : Placed} {all : Names}

lemma byteFor_eq_none {address : Nat} (h : ¬p.Covers address) : p.byteFor all address = none := by
  apply Write.byteFor_eq_none (w := ⟨p.start, p.bytes all⟩)
  rw [length_bytes]
  exact h

lemma byteFor_ne_none (all : Names) {address : Nat} (h : p.Covers address) :
    p.byteFor all address ≠ none := by
  obtain ⟨hlow, hhigh⟩ := h
  rw [byteFor, if_pos hlow, ne_eq, List.getElem?_eq_none_iff, length_bytes]
  omega

/-- What is stored when a line is met is final, unless a later round comes to it. -/
lemma walked_eq (hw : p.known.Within all) (hbranch : p.isBranch = false)
    (hwaits : p.waits = false) : p.walked = p.bytes all := by
  unfold walked bytes
  unfold isBranch at hbranch
  unfold waits at hwaits
  rcases hb : p.line.body with _ | (⟨e, loc⟩ | ⟨kind, items, loc⟩ | ⟨name, e, loc⟩) | s
  · rfl
  · rfl
  · simp only [Body.bytes, Option.elim]
    simp only [DataItem.values_within hw]
  · rfl
  · rw [hb] at hbranch hwaits
    have hr : s.mode ≠ .relative := by simpa using hbranch
    have hm : s.meaning p.known ≠ .unknown := by simpa [hr] using hwaits
    simp only [Body.bytes, Option.elim, Statement.walked, if_neg hr, if_neg hm]
    refine Statement.bytes_congr hr ?_ 0 p.start
    rcases he : s.operand with _ | e
    · simp [Statement.meaning, he]
    · rw [s.meaning_of_operand he] at hm ⊢
      rw [s.meaning_of_operand he, Expr.meaning_within hw e hm]

lemma waits_of_isBranch (h : p.isBranch = true) : p.waits = false := by
  unfold isBranch at h
  unfold waits
  split at h
  · next s hb => simp_all
  · simp at h

/-- The parts of a branch: its opcode is stored when it is met, and its offset last. -/
lemma branch_parts (h : p.isBranch = true) (all : Names) : ∃ opcode offset,
    p.size = 2 ∧ p.walked = [opcode, unmappedByte] ∧ p.bytes all = [opcode, offset] := by
  unfold isBranch at h
  split at h
  · next s hb =>
    have hr : s.mode = .relative := by simpa using h
    refine ⟨s.fullCode, lowByte (distance p.start (s.meaning all).word.toNat), ?_, ?_, ?_⟩
    · simp [size, hb, Body.size, Statement.size, hr]
    · simp [walked, hb, Statement.walked, hr]
    · simp [bytes, hb, Body.bytes, Statement.bytes, hr]
  · simp at h

/-- The round that gives the byte for an address its value: 0 if it is stored when the line is met,
1 if the line waits for its operand, and 2 if it is the offset of a branch. -/
def rank (p : Placed) (address : Nat) : Nat :=
  if p.isBranch = true ∧ address = p.start + 1 then 2 else if p.waits then 1 else 0

lemma rank_le (p : Placed) (address : Nat) : p.rank address ≤ 2 := by
  unfold rank
  split
  · exact Nat.le_refl 2
  · split <;> omega

/-! #### What the rounds write for an address -/

variable {address : Nat}

/-- The byte for an address, if the given round is the one for it. -/
def byteIn (all : Names) (round address : Nat) (p : Placed) : Option UInt8 :=
  if p.rank address = round then p.byteFor all address else none

lemma byteIn_eq_none {round : Nat} (h : p.Covers address → p.rank address ≠ round) :
    p.byteIn all round address = none := by
  unfold byteIn
  by_cases hc : p.Covers address
  · rw [if_neg (h hc)]
  · rw [byteFor_eq_none hc, ite_self]

lemma byteIn_rank (all : Names) (p : Placed) (address : Nat) :
    p.byteIn all (p.rank address) address = p.byteFor all address := if_pos rfl

lemma offset_byteFor (all : Names) (p : Placed) (address : Nat) :
    (p.offset all).reverse.findSome? (·.byteFor address) = p.byteIn all 2 address := by
  unfold offset byteIn rank
  by_cases hb : p.isBranch = true
  · obtain ⟨opcode, byte, -, -, hbytes⟩ := branch_parts hb all
    by_cases ha : address = p.start + 1
    · subst ha
      simp [hb, hbytes, Write.byteFor, byteFor]
    · have hout : (⟨p.start + 1, (p.bytes all).drop 1⟩ : Write).byteFor address = none := by
        apply Write.byteFor_eq_none
        simp only [hbytes, List.drop_succ_cons, List.drop_zero, List.length_singleton]
        omega
      simpa [hb, ha, waits_of_isBranch hb] using hout
  · simp only [hb, Bool.false_eq_true, false_and, if_false, List.reverse_nil, List.findSome?_nil]
    split <;> simp

lemma late_byteFor (all : Names) (p : Placed) (address : Nat) :
    (p.late all).reverse.findSome? (·.byteFor address) = p.byteIn all 1 address := by
  unfold late byteIn rank
  by_cases hw : p.waits = true
  · have hb : p.isBranch = false := by
      rw [← Bool.not_eq_true]
      intro h
      rw [waits_of_isBranch h] at hw
      exact Bool.false_ne_true hw
    simp [hw, hb, Write.byteFor, byteFor]
  · simp only [hw, Bool.false_eq_true, if_false, List.reverse_nil, List.findSome?_nil]
    split <;> simp

lemma stored_byteFor (hw : p.known.Within all) (hr : p.rank address = 0) :
    p.stored.byteFor address = p.byteFor all address := by
  unfold rank at hr
  split at hr
  · simp at hr
  · next hb =>
    have hwaits : p.waits = false := by
      by_contra h
      simp [h] at hr
    by_cases hbranch : p.isBranch = true
    · -- only the opcode of a branch is final in the first round
      obtain ⟨opcode, byte, -, hwalked, hbytes⟩ := branch_parts hbranch all
      have hne : address ≠ p.start + 1 := fun h => hb ⟨hbranch, h⟩
      simp only [Write.byteFor, stored, byteFor, hwalked, hbytes]
      split
      · next hle =>
        rcases Nat.eq_or_lt_of_le hle with rfl | hlt
        · simp
        · rw [List.getElem?_eq_none (by simp only [List.length_cons, List.length_nil]; omega),
            List.getElem?_eq_none (by simp only [List.length_cons, List.length_nil]; omega)]
      · rfl
    · have heq := walked_eq hw (Bool.eq_false_iff.mpr hbranch) hwaits
      simp only [Write.byteFor, stored, byteFor, heq]

lemma stored_byteFor_eq_none (h : ¬p.Covers address) : p.stored.byteFor address = none := by
  apply Write.byteFor_eq_none
  rw [stored, length_walked]
  exact h

/-- Among the lines before and after it, this one is written last at an address. -/
structure Outlasts (p : Placed) (before after : List Placed) (address : Nat) : Prop where
  covers : p.Covers address
  before : ∀ q ∈ before, q.Covers address → q.rank address ≤ p.rank address
  after : ∀ q ∈ after, q.Covers address → q.rank address < p.rank address

end TwoPass.Placed

/-! ### Programs -/

namespace TwoPass

variable {placed : List Placed} {all : Names}

/-- Where lines cover an address, one of them is written last. -/
lemma exists_outlasts {address : Nat} (h : ∃ p ∈ placed, p.Covers address) :
    ∃ before p after, placed = before ++ p :: after ∧ p.Outlasts before after address := by
  induction placed with
  | nil => simp at h
  | cons q rest ih =>
    by_cases hrest : ∃ p ∈ rest, p.Covers address
    · obtain ⟨before, p, after, rfl, hp⟩ := ih hrest
      by_cases hq : q.Covers address ∧ p.rank address < q.rank address
      · -- the first line is written after the one that outlasts the others
        refine ⟨[], q, before ++ p :: after, rfl, hq.1, by simp, ?_⟩
        intro r hr hcov
        rcases List.mem_append.mp hr with hr | hr
        · exact Nat.lt_of_le_of_lt (hp.before r hr hcov) hq.2
        · rcases List.mem_cons.mp hr with rfl | hr
          · exact hq.2
          · exact Nat.lt_trans (hp.after r hr hcov) hq.2
      · refine ⟨q :: before, p, after, rfl, hp.covers, ?_, hp.after⟩
        intro r hr hcov
        rcases List.mem_cons.mp hr with rfl | hr
        · exact Nat.not_lt.mp fun hlt => hq ⟨hcov, hlt⟩
        · exact hp.before r hr hcov
    · -- only the first line covers the address
      obtain ⟨p, hp, hcov⟩ := h
      rcases List.mem_cons.mp hp with rfl | hp
      · refine ⟨[], p, rest, rfl, hcov, by simp, ?_⟩
        exact fun r hr hrcov => absurd ⟨r, hr, hrcov⟩ hrest
      · exact absurd ⟨p, hp, hcov⟩ hrest

/-- The byte at an address, round by round from the last to the first. -/
lemma findSome?_writes (all : Names) (placed : List Placed) (address : Nat) :
    (writes all placed).reverse.findSome? (·.byteFor address) =
      ((placed.reverse.findSome? (·.byteIn all 2 address)).or
        (placed.reverse.findSome? (·.byteIn all 1 address))).or
        (placed.reverse.findSome? (·.stored.byteFor address)) := by
  have hmap : placed.map Placed.stored = placed.flatMap fun p => [p.stored] := by
    rw [List.map_eq_flatMap]
  rw [writes, hmap, List.reverse_append, List.reverse_append, List.findSome?_append,
    List.findSome?_append, findSome?_reverse_flatMap, findSome?_reverse_flatMap,
    findSome?_reverse_flatMap, Option.or_assoc]
  simp only [Placed.offset_byteFor, Placed.late_byteFor, List.reverse_singleton,
    List.findSome?_singleton]

section Outlasts

variable {before after : List Placed} {p : Placed} {address : Nat}
  (h : p.Outlasts before after address)

include h

lemma rank_le_of_outlasts {q : Placed} (hq : q ∈ before ++ p :: after) (hc : q.Covers address) :
    q.rank address ≤ p.rank address := by
  rcases List.mem_append.mp hq with hq | hq
  · exact h.before q hq hc
  · rcases List.mem_cons.mp hq with rfl | hq
    · exact Nat.le_refl _
    · exact Nat.le_of_lt (h.after q hq hc)

/-- A round after that of the line that outlasts the others has nothing for the address. -/
lemma findSome?_byteIn_of_rank_lt (all : Names) {round : Nat} (hr : p.rank address < round) :
    (before ++ p :: after).reverse.findSome? (·.byteIn all round address) = none := by
  rw [List.findSome?_eq_none_iff]
  intro q hq
  refine Placed.byteIn_eq_none fun hc => ?_
  have := rank_le_of_outlasts h (List.mem_reverse.mp hq) hc
  omega

/-- Its own round has its byte. -/
lemma findSome?_byteIn_rank (all : Names) :
    (before ++ p :: after).reverse.findSome? (·.byteIn all (p.rank address) address) =
      p.byteFor all address := by
  rw [← Placed.byteIn_rank]
  refine findSome?_reverse_of_split (f := Placed.byteIn all (p.rank address) address) ?_ ?_
  · intro q hq
    exact Placed.byteIn_eq_none fun hc => Nat.ne_of_lt (h.after q hq hc)
  · rw [Placed.byteIn_rank]
    exact Placed.byteFor_ne_none all h.covers

/-- The line that outlasts the others gives the byte. -/
lemma findSome?_writes_of_outlasts {all : Names} (hw : p.known.Within all) :
    (writes all (before ++ p :: after)).reverse.findSome? (·.byteFor address) =
      p.byteFor all address := by
  obtain ⟨b, hb⟩ := Option.ne_none_iff_exists'.mp (Placed.byteFor_ne_none all h.covers)
  have hown := findSome?_byteIn_rank h all
  have hlater {round : Nat} (hr : p.rank address < round) :=
    findSome?_byteIn_of_rank_lt h all hr
  have hle := p.rank_le address
  rw [findSome?_writes]
  obtain hr | hr | hr : p.rank address = 2 ∨ p.rank address = 1 ∨ p.rank address = 0 := by omega
  · rw [hr] at hown
    rw [hown, hb]
    rfl
  · rw [hr] at hown
    rw [hlater (by omega), hown, hb]
    rfl
  · -- no later round comes to the address, so what was stored last when it was met stays
    rw [hlater (by omega), hlater (by omega), Option.none_or, Option.none_or]
    have hstored := Placed.stored_byteFor hw hr
    rw [← hstored]
    refine findSome?_reverse_of_split (f := fun q : Placed => q.stored.byteFor address) ?_ ?_
    · intro q hq
      refine Placed.stored_byteFor_eq_none fun hc => ?_
      have := h.after q hq hc
      omega
    · rw [hstored, hb]
      simp

end Outlasts

/-! #### Code lines -/

lemma Placed.toNat_codeLine {p : Placed} (h : p.start + p.size ≤ 0x10000) :
    p.codeLine.start.toNat = p.start ∧ p.codeLine.length.toNat = p.size := by
  have hlt {n : Nat} (hn : n ≤ 0x10000) : (UInt32.ofNat n).toNat = n :=
    UInt32.toNat_ofNat_of_lt' (Nat.lt_of_le_of_lt hn (by decide))
  exact ⟨hlt (by omega), hlt (by omega)⟩

lemma Placed.codeLine_fits {p : Placed} (h : p.start + p.size ≤ 0x10000) : p.codeLine.Fits := by
  obtain ⟨hstart, hlength⟩ := toNat_codeLine h
  unfold CodeLine.Fits
  omega

lemma Placed.mem_addresses {p : Placed} (h : p.start + p.size ≤ 0x10000) (a : UInt32) :
    a ∈ p.codeLine.addresses ↔ p.Covers a.toNat := by
  obtain ⟨hstart, hlength⟩ := toNat_codeLine h
  rw [CodeLine.addresses_eq, mem_consecutive (codeLine_fits h), hstart, hlength]
  rfl

lemma fits_of_mem_writes (h : ∀ p ∈ placed, p.start + p.size ≤ 0x10000) :
    ∀ w ∈ writes all placed, w.Fits := by
  intro w hw
  simp only [writes, List.mem_append, List.mem_map, List.mem_flatMap] at hw
  unfold Write.Fits
  rcases hw with (⟨p, hp, rfl⟩ | ⟨p, hp, hw⟩) | ⟨p, hp, hw⟩
  · have := h p hp
    simp only [Placed.stored, p.length_walked]
    omega
  · have := h p hp
    unfold Placed.late at hw
    split at hw
    · obtain rfl := List.mem_singleton.mp hw
      simp only [p.length_bytes]
      omega
    · simp at hw
  · have := h p hp
    unfold Placed.offset at hw
    split at hw
    · obtain rfl := List.mem_singleton.mp hw
      simp only [List.length_drop, p.length_bytes]
      omega
    · simp at hw

end TwoPass

namespace Assembly.Realizes

open TwoPass

variable {a : Assembly} {lines : List Line} (h : a.Realizes lines)

include h

lemma stop_le : ∀ p ∈ layout .init lines, p.start + p.size ≤ 0x10000 :=
  stop_le_of_passesAll (Nat.zero_le _) h.passes

lemma fits : ∀ l ∈ a.codeLines, l.Fits := by
  rw [h.codeLines]
  intro l hl
  obtain ⟨p, hp, rfl⟩ := List.mem_map.mp hl
  exact Placed.codeLine_fits (h.stop_le p hp)

lemma exists_covers_iff (address : UInt32) : (∃ l ∈ a.codeLines, address ∈ l.addresses) ↔
    ∃ p ∈ layout .init lines, p.Covers address.toNat := by
  rw [h.codeLines]
  refine ⟨?_, ?_⟩
  · rintro ⟨l, hl, ha⟩
    obtain ⟨p, hp, rfl⟩ := List.mem_map.mp hl
    exact ⟨p, hp, (Placed.mem_addresses (h.stop_le p hp) address).mp ha⟩
  · rintro ⟨p, hp, ha⟩
    exact ⟨p.codeLine, List.mem_map_of_mem hp,
      (Placed.mem_addresses (h.stop_le p hp) address).mpr ha⟩

/-- The memory has the addresses that lines cover. -/
lemma contains_iff (address : UInt32) : (∃ b ∈ a.blocks, b.contains address = true) ↔
    ∃ p ∈ layout .init lines, p.Covers address.toNat := by
  rw [h.blocks, Memory.exists_contains_iff h.fits, h.exists_covers_iff]

/-- The line that is written last gives the byte at an address. -/
lemma byteAt_of_outlasts {before after : List Placed} {p : Placed} {address : UInt32}
    (hsplit : layout .init lines = before ++ p :: after)
    (hp : p.Outlasts before after address.toNat) :
    p.byteFor (final .init lines).names address.toNat =
      some (Memory.byteAt a.blocks address) := by
  have hmem : p ∈ layout .init lines := by simp [hsplit]
  have hcov : ∃ l ∈ a.codeLines, address ∈ l.addresses :=
    (h.exists_covers_iff address).mpr ⟨p, hmem, hp.covers⟩
  obtain ⟨b, hb⟩ := Option.ne_none_iff_exists'.mp
    (Placed.byteFor_ne_none (final .init lines).names hp.covers)
  have hget := findSome?_writes_of_outlasts hp (known_within_final hmem)
  rw [← hsplit, hb] at hget
  rw [h.blocks, Memory.byteAt_build_of_mem h.fits hcov, Memory.held,
    Payload.get?_foldl_store _ (fits_of_mem_writes h.stop_le), hget, hb]
  rfl

lemma byteAt_of_uncovered {address : UInt32}
    (hcov : ¬∃ p ∈ layout .init lines, p.Covers address.toNat) :
    Memory.byteAt a.blocks address = unmappedByte := by
  rw [← h.exists_covers_iff] at hcov
  rw [h.blocks, Memory.byteAt_build_of_not_mem h.fits hcov]

end Assembly.Realizes

end CrossAsm
