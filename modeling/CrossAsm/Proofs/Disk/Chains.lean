import CrossAsm.Proofs.Chunks
import CrossAsm.Proofs.Disk.Layout

/-!
Files as chains of sectors. A reader that knows an image and the layout of the disk, and nothing of
how the files came there, gets a file back by following the links from its first sector on.
-/

namespace CrossAsm

namespace Disk

/-! ### Reading an image -/

namespace Reader

variable (image : List UInt8)

def byteAt (offset : Nat) : UInt8 := image.getD offset 0

def bytesAt (offset count : Nat) : List UInt8 :=
  (List.range count).map fun i => byteAt image (offset + i)

/-- Follows the links from a sector on, over at most `count` sectors, and gives the sectors on the
way and the bytes in them. In the last sector the link has track 0 and the index of the last byte;
the others are full. There is no answer if the way leaves the disk or has not come to an end. -/
def follow? : Nat → Position → Option (List Position × List UInt8)
  | 0, _ => none
  | count + 1, p =>
    p.offset?.bind fun offset =>
      let track := (byteAt image offset).toNat
      let second := (byteAt image (offset + 1)).toNat
      if track = 0 then some ([p], bytesAt image (offset + 2) (second - 1))
      else (follow? count ⟨track, second⟩).map fun (chain, bytes) =>
        (p :: chain, bytesAt image (offset + 2) payloadSize ++ bytes)

/-- The sectors and the bytes of the file that starts at a sector. No way without a loop is longer
than there are sectors. -/
def file? (first : Position) : Option (List Position × List UInt8) :=
  follow? image (sectorsBefore (trackCount + 1)) first

end Reader

variable {d : Disk} {p : Position}

lemma Position.offset?_eq (hp : p.isValid = true) : p.offset? = some (p.index * sectorSize) := by
  simp [offset?, hp]

lemma byteAt_image (hp : p.isValid = true) {i : Nat} (hi : i < sectorSize) :
    Reader.byteAt d.image (p.index * sectorSize + i) = (d.sector p).get i :=
  getD_image d hp hi

lemma bytesAt_image (hp : p.isValid = true) {i count : Nat} (hi : i + count ≤ sectorSize) :
    Reader.bytesAt d.image (p.index * sectorSize + i) count =
      (List.range count).map fun k => (d.sector p).get (i + k) := by
  refine List.map_congr_left fun k hk => ?_
  have := List.mem_range.mp hk
  rw [Nat.add_assoc, byteAt_image hp (by omega)]

lemma map_range_getD (bytes : List UInt8) :
    ((List.range bytes.length).map fun k => bytes.getD k 0) = bytes := by
  refine List.ext_getElem (by simp) fun i _ h => ?_
  simp [List.getD_eq_getElem?_getD, h]

/-! ### Chains of sectors -/

lemma length_link (piece : List UInt8) (next : Option Position) : (link piece next).length = 2 := by
  cases next <;> rfl

/-- What a sector holds that a piece was written to, with the link to the next one. -/
def Carried (s : Sector) (piece : List UInt8) (next : Option Position) : Prop :=
  ∀ i < 2 + piece.length, s.get i = (link piece next ++ piece).getD i 0

/-- The pieces stand in their sectors, linked in their order. -/
def Carries (d : Disk) : List (Position × List UInt8) → Prop
  | [] => True
  | (p, piece) :: rest => Carried (d.sector p) piece (rest.head?.map (·.1)) ∧ d.Carries rest

lemma Carries.of_sectors {e : Disk} {l : List (Position × List UInt8)} (h : d.Carries l)
    (hs : ∀ x ∈ l, e.sector x.1 = d.sector x.1) : e.Carries l := by
  induction l with
  | nil => exact trivial
  | cons x rest ih =>
    refine ⟨?_, ih h.2 fun y hy => hs y (List.mem_cons_of_mem x hy)⟩
    rw [hs x List.mem_cons_self]
    exact h.1

lemma carried_write (s : Sector) {piece : List UInt8} (next : Option Position)
    (h : piece.length ≤ payloadSize) :
    Carried (s.write 0 (link piece next ++ piece)) piece next := by
  have hlen : (link piece next ++ piece).length = 2 + piece.length := by
    rw [List.length_append, length_link]
  intro i hi
  have hle : 0 + (link piece next ++ piece).length ≤ 256 := by
    simp only [payloadSize] at h
    omega
  have := Sector.get_write_add s (link piece next ++ piece) hle (k := i) (by omega)
  rwa [Nat.zero_add] at this

/-- Pieces that are written to sectors of their own stand there, and nothing else changes. -/
lemma writeChain_eq (l : List (Position × List UInt8)) (hvalid : ∀ x ∈ l, x.1.isValid = true)
    (hnodup : (l.map (·.1)).Nodup) (hlen : ∀ x ∈ l, x.2.length ≤ payloadSize) :
    ∃ e, d.writeChain l = .ok () e ∧ e.Carries l ∧ e.untried = d.untried ∧
      ∀ q : Position, q.isValid = true → q ∉ l.map (·.1) → e.sector q = d.sector q := by
  induction l generalizing d with
  | nil => exact ⟨d, rfl, trivial, rfl, fun q _ _ => rfl⟩
  | cons x rest ih =>
    obtain ⟨p, piece⟩ := x
    have hp : p.isValid = true := hvalid (p, piece) List.mem_cons_self
    obtain ⟨hfresh, hrest⟩ : p ∉ rest.map (·.1) ∧ (rest.map (·.1)).Nodup := by
      simpa [List.nodup_cons] using hnodup
    obtain ⟨e, hwrite, hcarries, huntried, hframe⟩ :=
      ih (d := d.setSector p ((d.sector p).write 0
          (link piece (rest.head?.map (·.1)) ++ piece)))
        (fun y hy => hvalid y (List.mem_cons_of_mem _ hy)) hrest
        (fun y hy => hlen y (List.mem_cons_of_mem _ hy))
    refine ⟨e, ?_, ⟨?_, hcarries⟩, huntried, ?_⟩
    · rw [writeChain, if_pos hp]
      exact hwrite
    · -- no later piece goes to the same sector
      rw [hframe p hp hfresh, sector_setSector d _ hp]
      exact carried_write _ _ (hlen (p, piece) List.mem_cons_self)
    · intro q hq hnot
      simp only [List.map_cons, List.mem_cons, not_or] at hnot
      rw [hframe q hq hnot.2, sector_setSector_of_ne d _ hp hq hnot.1]

section Follow

variable {piece : List UInt8} {next : Option Position}

lemma Carried.bytesAt (h : Carried (d.sector p) piece next) (hp : p.isValid = true)
    (hlen : piece.length ≤ payloadSize) :
    Reader.bytesAt d.image (p.index * sectorSize + 2) piece.length = piece := by
  have hle : 2 + piece.length ≤ sectorSize := by
    simp only [payloadSize] at hlen
    simp only [sectorSize]
    omega
  rw [bytesAt_image hp hle]
  refine Eq.trans (List.map_congr_left fun k hk => ?_) (map_range_getD piece)
  have hk := List.mem_range.mp hk
  have hlink := length_link piece next
  rw [h (2 + k) (by omega), List.getD_append_right _ _ _ _ (by omega), hlink,
    Nat.add_sub_cancel_left]

lemma Carried.link (h : Carried (d.sector p) piece next) (hp : p.isValid = true) :
    Reader.byteAt d.image (p.index * sectorSize) = (link piece next).getD 0 0 ∧
      Reader.byteAt d.image (p.index * sectorSize + 1) = (link piece next).getD 1 0 := by
  have hlink := length_link piece next
  constructor
  · have := byteAt_image (d := d) hp (i := 0) (by decide)
    rw [Nat.add_zero] at this
    rw [this, h 0 (by omega), List.getD_append _ _ _ _ (by omega)]
  · rw [byteAt_image hp (by decide), h 1 (by omega), List.getD_append _ _ _ _ (by omega)]

/-- In the last sector the link says where the piece ends. -/
lemma follow?_last (h : Carried (d.sector p) piece none) (hp : p.isValid = true)
    (hlen : piece.length ≤ payloadSize) (count : Nat) :
    Reader.follow? d.image (count + 1) p = some ([p], piece) := by
  obtain ⟨htrack, hsecond⟩ := h.link hp
  have hbytes := h.bytesAt hp hlen
  have hstop : (UInt8.ofNat (piece.length + 1)).toNat - 1 = piece.length := by
    simp only [payloadSize] at hlen
    rw [UInt8.toNat_ofNat', Nat.mod_eq_of_lt (by omega), Nat.add_sub_cancel]
  simp only [Disk.link, List.getD_cons_zero, List.getD_cons_succ] at htrack hsecond
  simp only [Reader.follow?, Position.offset?_eq hp, Option.bind_some, htrack, hsecond, hstop,
    hbytes]
  rfl

/-- A full sector links to the next one. -/
lemma follow?_link {q : Position} (h : Carried (d.sector p) piece (some q)) (hp : p.isValid = true)
    (hq : q.isValid = true) (hlen : piece.length = payloadSize) (count : Nat) :
    Reader.follow? d.image (count + 1) p =
      (Reader.follow? d.image count q).map fun r => (p :: r.1, piece ++ r.2) := by
  obtain ⟨htrack, hsecond⟩ := h.link hp
  have hbytes := h.bytesAt hp (Nat.le_of_eq hlen)
  have hpos := Position.track_pos hq
  have ht : (UInt8.ofNat q.track).toNat = q.track := by
    have := Position.track_le hq
    rw [UInt8.toNat_ofNat', Nat.mod_eq_of_lt (by omega)]
  have hs : (UInt8.ofNat q.sector).toNat = q.sector := by
    have := Position.sector_lt hq
    rw [UInt8.toNat_ofNat', Nat.mod_eq_of_lt (by omega)]
  rw [hlen] at hbytes
  simp only [Disk.link, List.getD_cons_zero, List.getD_cons_succ] at htrack hsecond
  simp only [Reader.follow?, Position.offset?_eq hp, Option.bind_some, htrack, hsecond, ht, hs,
    hbytes]
  rw [if_neg (by omega)]

end Follow

/-- **A chain reads back** as the pieces that were written to it, put together. -/
lemma follow?_of_carries {p : Position} {piece : List UInt8} {rest : List (Position × List UInt8)}
    (h : d.Carries ((p, piece) :: rest)) (hvalid : ∀ x ∈ (p, piece) :: rest, x.1.isValid = true)
    (hcut : Cut payloadSize (((p, piece) :: rest).map (·.2))) {count : Nat}
    (hcount : rest.length < count) :
    Reader.follow? d.image count p =
      some (((p, piece) :: rest).map (·.1), (((p, piece) :: rest).map (·.2)).flatten) := by
  obtain ⟨count, rfl⟩ : ∃ n, count = n + 1 := ⟨count - 1, by omega⟩
  have hp : p.isValid = true := hvalid (p, piece) List.mem_cons_self
  induction rest generalizing p piece count with
  | nil =>
    have hlast := follow?_last h.1 hp hcut.2 count
    simpa using hlast
  | cons x rest ih =>
    obtain ⟨q, next⟩ := x
    have hq : q.isValid = true := hvalid (q, next) (by simp)
    have hlink := follow?_link h.1 hp hq hcut.1 count
    obtain ⟨count, rfl⟩ : ∃ n, count = n + 1 := ⟨count - 1, by simp at hcount; omega⟩
    have hrest := ih h.2 (fun y hy => hvalid y (List.mem_cons_of_mem _ hy)) hcut.2 count
      (by simpa using hcount) hq
    rw [hlink, hrest]
    simp

end Disk

end CrossAsm
