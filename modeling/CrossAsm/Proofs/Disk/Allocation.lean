import Mathlib.Data.List.Nodup
import CrossAsm.Proofs.Disk.Layout

/-!
The allocation map. It has a bit for each sector and a count for each track, and the two agree on
every disk that files were put on. The sectors that were not yet tried are just the free ones, so
the counts say how many sectors can still be taken, and taking that many never fails.
-/

namespace CrossAsm.Disk

variable {d : Disk} {p q : Position}

/-! ### Bits -/

lemma testBit_clear (b : UInt8) {j k : Nat} (hj : j < 8) (hk : k < 8) :
    (b &&& ~~~((1 : UInt8) <<< UInt8.ofNat k)).toNat.testBit j =
      (b.toNat.testBit j && decide (j ≠ k)) := by
  have hmask : ∀ j < 8, ∀ k < 8,
      ((1 : UInt8) <<< UInt8.ofNat k).toNat.testBit j = decide (j = k) := by decide
  have hlt : ((1 : UInt8) <<< UInt8.ofNat k).toNat < 2 ^ 8 := UInt8.toNat_lt _
  have hnot : UInt8.size - 1 - ((1 : UInt8) <<< UInt8.ofNat k).toNat =
      2 ^ 8 - (((1 : UInt8) <<< UInt8.ofNat k).toNat + 1) := by
    simp only [UInt8.size]
    omega
  rw [UInt8.toNat_and, Nat.testBit_and, UInt8.toNat_not, hnot,
    Nat.testBit_two_pow_sub_succ hlt, hmask j hj k hk]
  simp [hj]

/-- The map has a bit for the position, be it one of a sector or not. -/
structure Position.OnMap (p : Position) : Prop where
  track_pos : 1 ≤ p.track
  track_le : p.track ≤ 35
  sector_lt : p.sector < 24

lemma Position.onMap (hp : p.isValid = true) : p.OnMap := ⟨track_pos hp, track_le hp, sector_lt hp⟩

lemma mapByte_eq_iff (hp : p.OnMap) (hq : q.OnMap) :
    mapByte p = mapByte q ↔ p.track = q.track ∧ p.sector / 8 = q.sector / 8 := by
  have := hp.sector_lt
  have := hq.sector_lt
  simp only [mapByte, mapEntry]
  omega

lemma mapByte_ne_mapEntry (hp : p.OnMap) (track : Nat) : mapByte p ≠ mapEntry track := by
  have := hp.sector_lt
  simp only [mapByte, mapEntry]
  omega

lemma mapByte_lt (hp : p.OnMap) : mapByte p < 144 := by
  have := hp.track_le
  have := hp.sector_lt
  simp only [mapByte, mapEntry]
  omega

lemma mapEntry_lt {track : Nat} (h : track ≤ 35) : mapEntry track < 144 := by
  simp only [mapEntry]
  omega

lemma allocationMap_isValid : allocationMap.isValid = true := by decide

lemma directory_isValid : directory.isValid = true := by decide

/-! ### Marking a sector -/

/-- How many sectors of a track are free by its count. -/
def countOn (d : Disk) (track : Nat) : Nat :=
  ((d.sector allocationMap).get (mapEntry track)).toNat

/-- How many sectors of a track are free by their bits. -/
def freeOn (d : Disk) (track : Nat) : Nat :=
  (List.range (sectorsOn track)).countP fun s => d.isFree ⟨track, s⟩

lemma markUsed_of_not_free (h : d.isFree p = false) : d.markUsed p = d := by
  simp [markUsed, h]

lemma map_markUsed (h : d.isFree p = true) :
    (d.markUsed p).sector allocationMap =
      ((d.sector allocationMap).set (mapEntry p.track)
        ((d.sector allocationMap).get (mapEntry p.track) - 1)).set (mapByte p)
          ((d.sector allocationMap).get (mapByte p) &&&
            ~~~((1 : UInt8) <<< UInt8.ofNat (p.sector % 8))) := by
  simp only [markUsed, h, if_true]
  exact sector_setSector d _ allocationMap_isValid

lemma sector_markUsed (hq : q.isValid = true) (h : q ≠ allocationMap) :
    (d.markUsed p).sector q = d.sector q := by
  unfold markUsed
  split
  · exact sector_setSector_of_ne d _ allocationMap_isValid hq h
  · rfl

@[simp] lemma untried_markUsed : (d.markUsed p).untried = d.untried := by
  unfold markUsed
  split <;> rfl

/-- Marking a sector takes its bit and no other. -/
lemma isFree_markUsed (hp : p.OnMap) (hq : q.OnMap) :
    (d.markUsed p).isFree q = (d.isFree q && decide (q ≠ p)) := by
  rcases hfree : d.isFree p with _ | _
  · rw [markUsed_of_not_free hfree]
    rcases eq_or_ne q p with rfl | hne
    · rw [hfree, Bool.false_and]
    · simp [hne]
  have hlt := mapByte_lt hp
  have hentry := mapEntry_lt hp.track_le
  have hp8 : p.sector % 8 < 8 := Nat.mod_lt _ (by omega)
  have hq8 : q.sector % 8 < 8 := Nat.mod_lt _ (by omega)
  unfold isFree
  rw [map_markUsed hfree, Sector.get_set _ (by omega)]
  by_cases hbyte : mapByte q = mapByte p
  · -- the same byte: the bit that goes is the sector's own
    rw [if_pos hbyte, testBit_clear _ hq8 hp8, ← hbyte]
    congr 1
    obtain ⟨htrack, hdiv⟩ := (mapByte_eq_iff hq hp).mp hbyte
    have hiff : q.sector % 8 ≠ p.sector % 8 ↔ q ≠ p := by
      refine not_congr ⟨fun hmod => ?_, fun he => by rw [he]⟩
      have hsector : q.sector = p.sector := by omega
      obtain ⟨t, i⟩ := p
      obtain ⟨u, j⟩ := q
      simp only at htrack hsector
      rw [htrack, hsector]
    exact decide_eq_decide.mpr hiff
  · have hne : q ≠ p := fun he => hbyte (by rw [he])
    rw [if_neg hbyte, Sector.get_set _ (by omega), if_neg (mapByte_ne_mapEntry hq p.track)]
    simp [hne]

lemma countP_range_remove (f : Nat → Bool) {n k : Nat} (hk : k < n) (hf : f k = true) :
    (List.range n).countP (fun s => f s && decide (s ≠ k)) + 1 = (List.range n).countP f := by
  induction n with
  | zero => omega
  | succ n ih =>
    rw [List.range_succ, List.countP_append, List.countP_append]
    rcases Nat.lt_succ_iff_lt_or_eq.mp hk with h | rfl
    · have hlast : [n].countP (fun s => f s && decide (s ≠ k)) = [n].countP f := by
        have hne : n ≠ k := by omega
        simp [List.countP_cons, hne]
      have := ih h
      omega
    · have hinit : (List.range k).countP (fun s => f s && decide (s ≠ k)) =
          (List.range k).countP f := by
        refine List.countP_congr fun s hs => ?_
        have hne : s ≠ k := by
          have := List.mem_range.mp hs
          omega
        simp [hne]
      have hlast : [k].countP (fun s => f s && decide (s ≠ k)) + 1 = [k].countP f := by
        simp [hf]
      omega

lemma countOn_markUsed (hmap : p.OnMap) (hfree : d.isFree p = true) {track : Nat}
    (hle : track ≤ 35) :
    (d.markUsed p).countOn track =
      (if track = p.track then (d.sector allocationMap).get (mapEntry track) - 1
        else (d.sector allocationMap).get (mapEntry track)).toNat := by
  have hlt := mapEntry_lt hle
  unfold countOn
  rw [map_markUsed hfree, Sector.get_set _ (by have := mapByte_lt hmap; omega),
    if_neg (mapByte_ne_mapEntry hmap track).symm,
    Sector.get_set _ (by have := mapEntry_lt hmap.track_le; omega)]
  congr 1
  by_cases ht : track = p.track
  · simp [ht]
  · have : mapEntry track ≠ mapEntry p.track := by
      simp only [mapEntry]
      omega
    simp [ht, this]

lemma freeOn_markUsed (hp : p.isValid = true) (hfree : d.isFree p = true) :
    (d.markUsed p).freeOn p.track + 1 = d.freeOn p.track := by
  rw [freeOn, freeOn, ← countP_range_remove (fun s => d.isFree ⟨p.track, s⟩)
    (Position.isValid_iff.mp hp) hfree]
  congr 1
  refine List.countP_congr fun s hs => ?_
  have hvalid : Position.isValid ⟨p.track, s⟩ = true :=
    Position.isValid_iff.mpr (List.mem_range.mp hs)
  rw [isFree_markUsed (Position.onMap hp) (Position.onMap hvalid)]
  obtain ⟨t, i⟩ := p
  simp

lemma freeOn_markUsed_of_ne (hmap : p.OnMap) {track : Nat} (ht : track ≠ p.track) :
    (d.markUsed p).freeOn track = d.freeOn track := by
  refine List.countP_congr fun s hs => ?_
  have hvalid : Position.isValid ⟨track, s⟩ = true :=
    Position.isValid_iff.mpr (List.mem_range.mp hs)
  have hne : (⟨track, s⟩ : Position) ≠ p := fun he => ht (by rw [← he])
  rw [isFree_markUsed hmap (Position.onMap hvalid)]
  simp [hne]

/-- Counts and bits agree. -/
def CountsAgree (d : Disk) : Prop :=
  ∀ track, 1 ≤ track → track ≤ 35 → d.countOn track = d.freeOn track

lemma CountsAgree.markUsed (h : d.CountsAgree) (hp : p.isValid = true) :
    (d.markUsed p).CountsAgree := by
  rcases hfree : d.isFree p with _ | _
  · rwa [markUsed_of_not_free hfree]
  intro track hpos hle
  have hmap := Position.onMap hp
  rw [countOn_markUsed hmap hfree hle]
  by_cases ht : track = p.track
  · -- the track's count goes down by one, and so do its bits
    subst ht
    rw [if_pos rfl]
    have hold : d.countOn p.track = d.freeOn p.track := h p.track hpos hle
    have hnew := freeOn_markUsed hp hfree
    have hbyte : (1 : UInt8).toNat = 1 := rfl
    simp only [countOn] at hold
    have hone : (1 : UInt8) ≤ (d.sector allocationMap).get (mapEntry p.track) := by
      rw [UInt8.le_iff_toNat_le]
      omega
    rw [UInt8.toNat_sub_of_le _ _ hone]
    omega
  · rw [if_neg ht, freeOn_markUsed_of_ne hmap ht]
    exact h track hpos hle

/-! ### A formatted disk -/

/-- A disk with its map and its directory, neither of them marked yet. -/
def unmarked (name : String) : Disk :=
  (setSector ⟨Vector.replicate 683 (Sector.ofList []), fileSectors⟩ allocationMap
    (Sector.ofList (freshMap name))).setSector directory (Sector.ofList [0, 0xFF])

lemma format_eq (name : String) :
    format name = ((unmarked name).markUsed allocationMap).markUsed directory := rfl

lemma map_unmarked (name : String) :
    (unmarked name).sector allocationMap = Sector.ofList (freshMap name) := by
  rw [unmarked, sector_setSector_of_ne _ _ directory_isValid allocationMap_isValid (by decide),
    sector_setSector _ _ allocationMap_isValid]

/-- The map up to the name. -/
def freshEntries : List UInt8 :=
  [UInt8.ofNat directoryTrack, 1, 0x41, 0] ++ tracks.flatMap freshEntry

lemma get_map_unmarked (name : String) {i : Nat} (hi : i < 144) :
    ((unmarked name).sector allocationMap).get i = freshEntries.getD i 0 := by
  have hlen : freshEntries.length = 144 := by decide +kernel
  rw [map_unmarked, Sector.get_ofList _ (by omega), freshMap, List.append_assoc]
  exact List.getD_append freshEntries _ 0 i (by omega)

/-- At first all sectors are free, and only they. -/
lemma isFree_unmarked (name : String) (hp : p.OnMap) :
    (unmarked name).isFree p = p.isValid := by
  have hall : ∀ t < 36, ∀ s < 24, 1 ≤ t →
      (freshEntries.getD (mapByte ⟨t, s⟩) 0).toNat.testBit (s % 8) =
        Position.isValid ⟨t, s⟩ := by
    decide +kernel
  obtain ⟨hpos, hle, hlt⟩ := hp
  unfold isFree
  rw [get_map_unmarked name (mapByte_lt ⟨hpos, hle, hlt⟩)]
  exact hall p.track (by omega) p.sector hlt hpos

lemma countsAgree_unmarked (name : String) : (unmarked name).CountsAgree := by
  have hall : ∀ t < 36, 1 ≤ t → (freshEntries.getD (mapEntry t) 0).toNat = sectorsOn t := by
    decide +kernel
  intro track hpos hle
  have hfree : (unmarked name).freeOn track = sectorsOn track := by
    have htrue : ∀ s ∈ List.range (sectorsOn track), (unmarked name).isFree ⟨track, s⟩ = true := by
      intro s hs
      have hvalid : Position.isValid ⟨track, s⟩ = true :=
        Position.isValid_iff.mpr (List.mem_range.mp hs)
      rw [isFree_unmarked name (Position.onMap hvalid), hvalid]
    rw [freeOn, List.countP_eq_length.mpr htrue, List.length_range]
  rw [hfree, countOn, get_map_unmarked name (mapEntry_lt hle), hall track (by omega) hpos]

/-! ### Disks with files -/

lemma mem_tracks {track : Nat} : track ∈ tracks ↔ 1 ≤ track ∧ track ≤ 35 := by
  simp only [tracks, trackCount, List.mem_map, List.mem_range]
  refine ⟨?_, fun h => ⟨track - 1, by omega, by omega⟩⟩
  rintro ⟨t, ht, rfl⟩
  omega

lemma mem_fileTracks {track : Nat} :
    track ∈ fileTracks ↔ (1 ≤ track ∧ track ≤ 35) ∧ track ≠ directoryTrack := by
  simp [fileTracks, mem_tracks]

lemma mem_fileSectors : p ∈ fileSectors ↔ p.isValid = true ∧ p.track ≠ directoryTrack := by
  simp only [fileSectors, List.mem_flatMap, List.mem_map, List.mem_range, mem_fileTracks]
  constructor
  · rintro ⟨track, ⟨-, htrack⟩, s, hs, rfl⟩
    exact ⟨Position.isValid_iff.mpr hs, htrack⟩
  · rintro ⟨hp, htrack⟩
    exact ⟨p.track, ⟨⟨Position.track_pos hp, Position.track_le hp⟩, htrack⟩, p.sector,
      Position.isValid_iff.mp hp, rfl⟩

lemma nodup_fileSectors : fileSectors.Nodup := by
  rw [fileSectors, List.nodup_flatMap]
  refine ⟨fun track _ => ?_, ?_⟩
  · exact List.nodup_range.map fun i j h => (Position.mk.inj h).2
  · have htracks : fileTracks.Nodup := by decide
    refine htracks.imp fun {t u} hne => ?_
    intro p hp hq
    obtain ⟨i, -, rfl⟩ := List.mem_map.mp hp
    obtain ⟨j, -, he⟩ := List.mem_map.mp hq
    exact hne (Position.mk.inj he).1.symm

/-- A sector of the directory track that nothing uses. -/
structure Position.IsSpare (p : Position) : Prop where
  valid : p.isValid = true
  track : p.track = directoryTrack
  sector : 2 ≤ p.sector

/-- A disk on which the given sectors were taken for files, in this order. -/
structure Allocated (d : Disk) (taken : List Position) : Prop where
  order : fileSectors = taken ++ d.untried
  free : ∀ p : Position, p.OnMap → (d.isFree p = true ↔ p ∈ d.untried ∨ p.IsSpare)
  counts : d.CountsAgree

lemma isFree_format (name : String) (hp : p.OnMap) :
    (format name).isFree p = true ↔ p ∈ fileSectors ∨ p.IsSpare := by
  rw [format_eq, isFree_markUsed (Position.onMap directory_isValid) hp,
    isFree_markUsed (Position.onMap allocationMap_isValid) hp, isFree_unmarked name hp,
    mem_fileSectors]
  simp only [Bool.and_eq_true, decide_eq_true_eq]
  obtain ⟨t, i⟩ := p
  simp only [allocationMap, directory, ne_eq, Position.mk.injEq]
  constructor
  · rintro ⟨⟨hvalid, hmap⟩, hdir⟩
    by_cases ht : t = directoryTrack
    · exact Or.inr ⟨hvalid, ht, by simp only; omega⟩
    · exact Or.inl ⟨hvalid, ht⟩
  · rintro (⟨hvalid, ht⟩ | ⟨hvalid, -, hsector⟩)
    · exact ⟨⟨hvalid, by omega⟩, by omega⟩
    · simp only at hsector
      exact ⟨⟨hvalid, by omega⟩, by omega⟩

lemma allocated_format (name : String) : (format name).Allocated [] where
  order := by simp [format_eq, unmarked]
  free p hp := by
    rw [isFree_format name hp, format_eq]
    simp [unmarked]
  counts := ((countsAgree_unmarked name).markUsed allocationMap_isValid).markUsed directory_isValid

namespace Allocated

variable {taken : List Position} (h : d.Allocated taken)

include h

lemma mem_fileSectors_of_untried (hp : p ∈ d.untried) : p ∈ fileSectors := by
  rw [h.order]
  exact List.mem_append_right taken hp

lemma isFree_of_untried (hp : p ∈ d.untried) : d.isFree p = true := by
  have hvalid := (mem_fileSectors.mp (h.mem_fileSectors_of_untried hp)).1
  exact (h.free p (Position.onMap hvalid)).mpr (Or.inl hp)

lemma not_mem_untried (hp : p ∈ taken) : p ∉ d.untried := by
  have hnodup := nodup_fileSectors
  rw [h.order] at hnodup
  exact fun hq => List.disjoint_of_nodup_append hnodup hp hq

lemma isFree_of_taken (hp : p ∈ taken) : d.isFree p = false := by
  obtain ⟨hvalid, htrack⟩ : p.isValid = true ∧ p.track ≠ directoryTrack := by
    rw [← mem_fileSectors, h.order]
    exact List.mem_append_left _ hp
  rw [Bool.eq_false_iff]
  intro hfree
  rcases (h.free p (Position.onMap hvalid)).mp hfree with hq | hq
  · exact h.not_mem_untried hp hq
  · exact htrack hq.track

/-- No bit stands for more sectors than a track has. -/
lemma isFree_beyond (hp : p.OnMap) (hs : sectorsOn p.track ≤ p.sector) : d.isFree p = false := by
  have hinvalid : p.isValid ≠ true := by
    rw [Ne, Position.isValid_iff]
    omega
  rw [Bool.eq_false_iff]
  intro hfree
  rcases (h.free p hp).mp hfree with hq | hq
  · exact hinvalid (mem_fileSectors.mp (h.mem_fileSectors_of_untried hq)).1
  · exact hinvalid hq.valid

/-- The counts add up to the sectors that were not yet tried. -/
lemma freeSectors_eq : d.freeSectors = d.untried.length := by
  have hcounts : fileTracks.map d.countOn = fileTracks.map d.freeOn := by
    refine List.map_congr_left fun track ht => ?_
    obtain ⟨⟨hpos, hle⟩, -⟩ := mem_fileTracks.mp ht
    exact h.counts track hpos hle
  have htaken : taken.countP d.isFree = 0 :=
    List.countP_eq_zero.mpr fun p hp => by simp [h.isFree_of_taken hp]
  have huntried : d.untried.countP d.isFree = d.untried.length :=
    List.countP_eq_length.mpr fun p hp => h.isFree_of_untried hp
  calc d.freeSectors
      = (fileTracks.map d.countOn).sum := by
        rw [List.sum_eq_foldl, List.foldl_map]
        rfl
    _ = (fileTracks.map d.freeOn).sum := by rw [hcounts]
    _ = fileSectors.countP d.isFree := by
        have hon : d.freeOn = List.countP d.isFree ∘ fun track =>
            (List.range (sectorsOn track)).map fun s => ⟨track, s⟩ := by
          funext track
          rw [Function.comp_apply, List.countP_map, freeOn, Function.comp_def]
        rw [fileSectors, List.countP_flatMap, hon]
    _ = d.untried.length := by rw [h.order, List.countP_append, htaken, huntried, Nat.zero_add]

/-- The sectors that were not yet tried are taken in their order. -/
lemma allocate {rest : List Position} (hu : d.untried = p :: rest) :
    d.allocate? = some (p, { d.markUsed p with untried := rest }) ∧
      ({ d.markUsed p with untried := rest } : Disk).Allocated (taken ++ [p]) := by
  have hp : p ∈ d.untried := by rw [hu]; exact List.mem_cons_self
  have hvalid := (mem_fileSectors.mp (h.mem_fileSectors_of_untried hp)).1
  have hrest : p ∉ rest := by
    have hnodup := nodup_fileSectors
    rw [h.order, hu] at hnodup
    exact (List.nodup_cons.mp (List.nodup_append.mp hnodup).2.1).1
  refine ⟨?_, ?_, ?_, ?_⟩
  · simp [allocate?, hu, nextFree?, h.isFree_of_untried hp]
  · rw [h.order, hu]
    simp
  · intro q hq
    have hmark := isFree_markUsed (d := d) (Position.onMap hvalid) hq
    have hspare : q.IsSpare → q ≠ p := by
      rintro hs rfl
      exact (mem_fileSectors.mp (h.mem_fileSectors_of_untried hp)).2 hs.track
    show (d.markUsed p).isFree q = true ↔ q ∈ rest ∨ q.IsSpare
    rw [hmark, Bool.and_eq_true, h.free q hq, hu, List.mem_cons, decide_eq_true_eq]
    constructor
    · rintro ⟨(rfl | hr) | hs, hne⟩
      · exact absurd rfl hne
      · exact Or.inl hr
      · exact Or.inr hs
    · rintro (hr | hs)
      · exact ⟨Or.inl (Or.inr hr), fun he => hrest (he ▸ hr)⟩
      · exact ⟨Or.inr hs, hspare hs⟩
  · exact h.counts.markUsed hvalid

/-- As many sectors as were not yet tried can be taken, and the map is all that changes. -/
lemma allocateMany {count : Nat} (hc : count ≤ d.untried.length) :
    ∃ e, d.allocateMany count = .ok (d.untried.take count) e ∧
      e.untried = d.untried.drop count ∧ e.Allocated (taken ++ d.untried.take count) ∧
      ∀ q : Position, q.isValid = true → q ≠ allocationMap → e.sector q = d.sector q := by
  induction count generalizing d taken with
  | zero => exact ⟨d, rfl, rfl, by simpa using h, fun q _ _ => rfl⟩
  | succ count ih =>
    rcases hu : d.untried with _ | ⟨p, rest⟩
    · simp [hu] at hc
    obtain ⟨halloc, hinv⟩ := h.allocate hu
    obtain ⟨e, hmany, hdrop, hall, hframe⟩ := ih hinv (by simpa [hu] using hc)
    refine ⟨e, ?_, hdrop, ?_, ?_⟩
    · simp only [Disk.allocateMany, halloc, hmany, Change.bind, List.take_succ_cons]
    · simpa using hall
    · intro q hq hne
      rw [hframe q hq hne]
      exact sector_markUsed hq hne

end Allocated

/-- What is kept when only sectors other than the map are written. -/
lemma Allocated.of_map {e : Disk} {taken : List Position} (h : d.Allocated taken)
    (hmap : e.sector allocationMap = d.sector allocationMap) (hu : e.untried = d.untried) :
    e.Allocated taken := by
  have hfree : e.isFree = d.isFree := by
    funext p
    unfold isFree
    rw [hmap]
  have hfreeOn : e.freeOn = d.freeOn := by
    funext track
    unfold freeOn
    rw [hfree]
  refine ⟨by rw [hu]; exact h.order, ?_, ?_⟩
  · intro p hp
    rw [hfree, hu]
    exact h.free p hp
  · intro track hpos hle
    rw [hfreeOn, ← h.counts track hpos hle, countOn, countOn, hmap]

end CrossAsm.Disk
