import Mathlib.Data.List.Perm.Subperm
import CrossAsm.Proofs.Disk.Chains
import CrossAsm.Proofs.Disk.Directory

/-!
Disks over whole histories. A disk that files were put on one after the other, some of them in vain,
holds just those that found room: the directory lists them in order, each is read back from its own
sectors, and the allocation map says exactly how much room is left.
-/

namespace CrossAsm

/-- A program file that is to go on a disk. -/
structure ProgramFile where
  name : String
  bytes : List UInt8

namespace ProgramFile

/-- The pieces that go to one sector each. -/
def pieces (f : ProgramFile) : List (List UInt8) := chunks Disk.payloadSize f.bytes

/-- How many sectors the file needs. -/
def sectorsNeeded (f : ProgramFile) : Nat := (f.bytes.length + 253) / 254

lemma length_pieces (f : ProgramFile) : f.pieces.length = f.sectorsNeeded := length_chunks f.bytes

/-- The number of sectors that files need, all together. -/
def totalSectors : List ProgramFile → Nat
  | [] => 0
  | f :: rest => f.sectorsNeeded + totalSectors rest

lemma totalSectors_singleton (f : ProgramFile) : totalSectors [f] = f.sectorsNeeded :=
  Nat.add_zero _

end ProgramFile

namespace Disk

/-- The disk after files were put on it one after the other, those without room in vain. -/
def addAll (d : Disk) : List ProgramFile → Disk
  | [] => d
  | f :: rest => (d.add f.name f.bytes).disk.addAll rest

/-- The files that find room when they are put on a disk one after the other. -/
def accepted (d : Disk) : List ProgramFile → List ProgramFile
  | [] => []
  | f :: rest =>
    let change := d.add f.name f.bytes
    (if change.isOk then [f] else []) ++ change.disk.accepted rest

/-! ### What a disk holds -/

/-- A file on a disk, with its sectors. -/
structure Stored where
  file : ProgramFile
  chain : List Position

def Stored.entry (s : Stored) : Entry := Entry.ofChain s.file.name s.chain

/-- The disk holds these files and no others. -/
structure Holds (d : Disk) (files : List Stored) : Prop where
  allocated : d.Allocated (files.flatMap Stored.chain)
  length : ∀ s ∈ files, s.chain.length = s.file.sectorsNeeded
  carries : ∀ s ∈ files, d.Carries (s.chain.zip s.file.pieces)
  used : ∀ i (h : i < files.length), d.entry i = files[i].entry
  unused : ∀ i, files.length ≤ i → i < entryCount → (d.entry i).kind = 0
  room : files.length ≤ entryCount

lemma holds_format (name : String) : (format name).Holds [] where
  allocated := allocated_format name
  length := by simp
  carries := by simp
  used := by simp
  unused i _ hi := by
    have hdir : (format name).sector directory = Sector.ofList [0, 0xFF] := by
      rw [format_eq, sector_markUsed directory_isValid (by decide),
        sector_markUsed directory_isValid (by decide), unmarked,
        sector_setSector _ _ directory_isValid]
    have := mul_entrySize_le hi
    simp only [entry, entryOf, hdir]
    rw [Sector.get_ofList _ (by omega)]
    simp
  room := by simp

lemma length_fileSectors : fileSectors.length = 664 := by decide +kernel

lemma length_chains {files : List Stored}
    (h : ∀ s ∈ files, s.chain.length = s.file.sectorsNeeded) :
    (files.flatMap Stored.chain).length = ProgramFile.totalSectors (files.map Stored.file) := by
  induction files with
  | nil => rfl
  | cons s rest ih =>
    rw [List.flatMap_cons, List.length_append, h s List.mem_cons_self,
      ih fun t ht => h t (List.mem_cons_of_mem s ht)]
    rfl

/-! ### Putting a file on a disk -/

/-- The second disk is the first one with one more file, in a free entry and in sectors that were
not yet tried. -/
structure Gains (d e : Disk) (taken : List Position) (i : Nat) (s : Stored) : Prop where
  allocated : e.Allocated (taken ++ s.chain)
  carries : e.Carries (s.chain.zip s.file.pieces)
  entry : e.entry i = s.entry
  entries : ∀ k, k ≠ i → e.entry k = d.entry k
  sectors : ∀ q : Position, q.isValid = true → q.track ≠ directoryTrack → q ∉ s.chain →
    e.sector q = d.sector q

namespace Allocated

variable {d : Disk} {taken : List Position} (h : d.Allocated taken)

include h

lemma nodup_untried : d.untried.Nodup := by
  have hnodup := nodup_fileSectors
  rw [h.order] at hnodup
  exact (List.nodup_append.mp hnodup).2.1

lemma length_untried_le : d.untried.length ≤ 664 := by
  have hall := congrArg List.length h.order
  rw [length_fileSectors, List.length_append] at hall
  omega

/-- An entry for sectors that were not yet tried is read as it was written. -/
lemma entry_writeEntry {e : Disk} {i n : Nat} (hi : i < entryCount) (name : String) :
    (e.writeEntry (i * entrySize) name (d.untried.take n)).entry i =
      Entry.ofChain name (d.untried.take n) := by
  have hfirst : ((d.untried.take n).headD ⟨0, 0⟩).track < 256 ∧
      ((d.untried.take n).headD ⟨0, 0⟩).sector < 256 := by
    rcases hc : d.untried.take n with _ | ⟨p, rest⟩
    · simp
    · have hmem : p ∈ d.untried := List.mem_of_mem_take (hc ▸ List.mem_cons_self)
      have hp := (mem_fileSectors.mp (h.mem_fileSectors_of_untried hmem)).1
      have := Position.track_le hp
      have := Position.sector_lt hp
      simp only [List.headD_cons]
      omega
  have hshort : (d.untried.take n).length < 65536 := by
    have := h.length_untried_le
    have := List.length_take_le n d.untried
    have := List.length_take_le' n d.untried
    omega
  exact entryOf_writeEntry e (mul_entrySize_le hi) name _ hfirst.1 hfirst.2 hshort

/-- Where an entry is free and there are sectors enough, a file gets on the disk: its sectors are
taken, its pieces are written to them, and its entry is written. -/
lemma add {i : Nat} (hi : i < entryCount) (hfree : d.freeEntry? = some (i * entrySize))
    {f : ProgramFile} (hle : f.sectorsNeeded ≤ d.freeSectors) :
    ∃ e, d.add f.name f.bytes = .ok f.sectorsNeeded e ∧
      d.Gains e taken i ⟨f, d.untried.take f.sectorsNeeded⟩ := by
  rw [h.freeSectors_eq] at hle
  have hentry := fun e => h.entry_writeEntry (e := e) (n := f.sectorsNeeded) hi f.name
  obtain ⟨d₁, hmany, -, hall, hframe₁⟩ := h.allocateMany hle
  have hnodup : (d.untried.take f.sectorsNeeded).Nodup :=
    h.nodup_untried.sublist (List.take_sublist _ _)
  have hlength : (d.untried.take f.sectorsNeeded).length = f.sectorsNeeded := by
    rw [List.length_take, Nat.min_eq_left hle]
  have hfile : ∀ p ∈ d.untried.take f.sectorsNeeded,
      p.isValid = true ∧ p.track ≠ directoryTrack := fun p hp =>
    mem_fileSectors.mp (h.mem_fileSectors_of_untried (List.mem_of_mem_take hp))
  have hmap : allocationMap ∉ d.untried.take f.sectorsNeeded := fun hp => (hfile _ hp).2 rfl
  have hdir : directory ∉ d.untried.take f.sectorsNeeded := fun hp => (hfile _ hp).2 rfl
  generalize d.untried.take f.sectorsNeeded = chain at *
  have hpieces : f.pieces.length = f.sectorsNeeded := f.length_pieces
  have hfst : (chain.zip f.pieces).map (·.1) = chain :=
    List.map_fst_zip (by omega)
  obtain ⟨d₂, hwrite, hcarries, huntried, hframe₂⟩ :=
    writeChain_eq (d := d₁) (chain.zip f.pieces)
      (fun x hx => (hfile x.1 (List.of_mem_zip hx).1).1) (by rwa [hfst])
      (fun x hx => (cut_chunks (by decide) f.bytes).length_le x.2 (List.of_mem_zip hx).2)
  rw [hfst] at hframe₂
  have hframe : ∀ q : Position, q.isValid = true → q.track ≠ directoryTrack →
      (d₂.writeEntry (i * entrySize) f.name chain).sector q = d₂.sector q := fun q hq ht =>
    sector_writeEntry _ hq (fun he => ht (he ▸ rfl)) _ _ _
  refine ⟨d₂.writeEntry (i * entrySize) f.name chain, ?_, ?_⟩
  · simp only [ProgramFile.pieces] at hpieces hwrite
    simp only [Disk.add, hfree, hpieces, h.freeSectors_eq, Nat.not_lt.mpr hle, if_false, hmany,
      Change.bind, hwrite, hlength]
  constructor
  case allocated =>
    refine hall.of_map ?_ (by rw [untried_writeEntry, huntried])
    rw [sector_writeEntry _ allocationMap_isValid (by decide),
      hframe₂ _ allocationMap_isValid hmap]
  case carries =>
    refine hcarries.of_sectors fun x hx => ?_
    obtain ⟨hvalid, htrack⟩ := hfile x.1 (List.of_mem_zip hx).1
    exact hframe x.1 hvalid htrack
  case entry => exact hentry d₂
  case entries =>
    intro k hk
    rw [entry_writeEntry_of_ne _ hi hk, Disk.entry, Disk.entry,
      hframe₂ _ directory_isValid hdir, hframe₁ _ directory_isValid (by decide)]
  case sectors =>
    intro q hq ht hnot
    rw [hframe q hq ht, hframe₂ q hq hnot, hframe₁ q hq fun he => ht (he ▸ rfl)]

end Allocated

namespace Holds

variable {d : Disk} {files : List Stored} (h : d.Holds files)

include h

lemma mem_fileSectors_of_chain {s : Stored} (hs : s ∈ files) {p : Position} (hp : p ∈ s.chain) :
    p ∈ fileSectors := by
  rw [h.allocated.order]
  exact List.mem_append_left _ (List.mem_flatMap.mpr ⟨s, hs, hp⟩)

lemma length_chain_le {s : Stored} (hs : s ∈ files) : s.chain.length ≤ 664 := by
  have hnodup := nodup_fileSectors
  rw [h.allocated.order] at hnodup
  have hchain := (List.nodup_flatMap.mp (List.nodup_append.mp hnodup).1).1 s hs
  have hsub : s.chain ⊆ fileSectors := fun _ hp => h.mem_fileSectors_of_chain hs hp
  rw [← length_fileSectors]
  exact (hchain.subperm hsub).length_le

/-- What is in use, and what is left, is all there is. -/
lemma freeSectors_add :
    d.freeSectors + ProgramFile.totalSectors (files.map Stored.file) = 664 := by
  have hall := congrArg List.length h.allocated.order
  rw [length_fileSectors, List.length_append, length_chains h.length] at hall
  rw [h.allocated.freeSectors_eq]
  omega

lemma freeEntry?_of_lt (hlt : files.length < entryCount) :
    d.freeEntry? = some (files.length * entrySize) := by
  refine freeEntry?_eq_some hlt (fun i hi => ?_) (h.unused _ (Nat.le_refl _) hlt)
  rw [h.used i hi]
  exact (by decide : programType ≠ 0)

lemma freeEntry?_of_full (hfull : files.length = entryCount) : d.freeEntry? = none := by
  refine freeEntry?_eq_none fun i hi => ?_
  rw [h.used i (by omega)]
  exact (by decide : programType ≠ 0)

lemma add_of_full (hfull : files.length = entryCount) (f : ProgramFile) :
    d.add f.name f.bytes = .fail .directoryFull d := by
  simp only [add, h.freeEntry?_of_full hfull]

lemma add_of_gt (hlt : files.length < entryCount) {f : ProgramFile}
    (hgt : d.freeSectors < f.sectorsNeeded) : d.add f.name f.bytes = .fail .diskFull d := by
  have hpieces : (chunks payloadSize f.bytes).length = f.sectorsNeeded := f.length_pieces
  simp only [add, h.freeEntry?_of_lt hlt, hpieces, hgt, if_true]

/-- With one more file the others are held as before. -/
lemma of_gains {e : Disk} {s : Stored} (hlt : files.length < entryCount)
    (hg : d.Gains e (files.flatMap Stored.chain) files.length s)
    (hs : s.chain.length = s.file.sectorsNeeded) : e.Holds (files ++ [s]) := by
  have hold : ∀ t ∈ files, ∀ p ∈ t.chain, e.sector p = d.sector p := by
    intro t ht p hp
    obtain ⟨hvalid, htrack⟩ := mem_fileSectors.mp (h.mem_fileSectors_of_chain ht hp)
    refine hg.sectors p hvalid htrack fun hnew => ?_
    have hnodup := nodup_fileSectors
    rw [hg.allocated.order] at hnodup
    have hmem : p ∈ files.flatMap Stored.chain := List.mem_flatMap.mpr ⟨t, ht, hp⟩
    exact List.disjoint_of_nodup_append (List.nodup_append.mp hnodup).1 hmem hnew
  constructor
  case allocated => simpa using hg.allocated
  case length =>
    intro t ht
    rcases List.mem_append.mp ht with ht | ht
    · exact h.length t ht
    · rwa [List.mem_singleton.mp ht]
  case carries =>
    intro t ht
    rcases List.mem_append.mp ht with ht | ht
    · exact (h.carries t ht).of_sectors fun x hx => hold t ht x.1 (List.of_mem_zip hx).1
    · rw [List.mem_singleton.mp ht]
      exact hg.carries
  case used =>
    intro i hi
    by_cases hlast : i < files.length
    · rw [hg.entries i (by omega), h.used i hlast, List.getElem_append_left hlast]
    · obtain rfl : i = files.length := by
        simp only [List.length_append, List.length_singleton] at hi
        omega
      rw [List.getElem_concat_length rfl]
      exact hg.entry
  case unused =>
    intro i hle hi
    simp only [List.length_append, List.length_singleton] at hle
    rw [hg.entries i (by omega)]
    exact h.unused i (by omega) hi
  case room =>
    simp only [List.length_append, List.length_singleton]
    omega

/-- A file that there is room for gets on the disk, and the others stay. -/
lemma add_of_le (hlt : files.length < entryCount) {f : ProgramFile}
    (hle : f.sectorsNeeded ≤ d.freeSectors) :
    ∃ e, d.add f.name f.bytes = .ok f.sectorsNeeded e ∧
      e.Holds (files ++ [⟨f, d.untried.take f.sectorsNeeded⟩]) := by
  obtain ⟨e, he, hg⟩ := h.allocated.add hlt (h.freeEntry?_of_lt hlt) hle
  refine ⟨e, he, h.of_gains hlt hg ?_⟩
  rw [h.allocated.freeSectors_eq] at hle
  exact (List.length_take).trans (Nat.min_eq_left hle)

/-- A file gets on the disk just if there is an entry and enough sectors for it. -/
lemma isOk_add_iff (f : ProgramFile) :
    (d.add f.name f.bytes).isOk = true ↔
      files.length < entryCount ∧ f.sectorsNeeded ≤ d.freeSectors := by
  by_cases hlt : files.length < entryCount
  · by_cases hle : f.sectorsNeeded ≤ d.freeSectors
    · obtain ⟨e, he, -⟩ := h.add_of_le hlt hle
      simp [he, Change.isOk, hlt, hle]
    · simp [h.add_of_gt hlt (Nat.lt_of_not_le hle), Change.isOk, hle]
  · have hfull : files.length = entryCount := Nat.le_antisymm h.room (Nat.le_of_not_lt hlt)
    simp [h.add_of_full hfull f, Change.isOk, hlt]

/-- A file that does not get on the disk leaves no trace there. -/
lemma disk_add_of_fail (f : ProgramFile) (hf : (d.add f.name f.bytes).isOk = false) :
    (d.add f.name f.bytes).disk = d := by
  by_cases hlt : files.length < entryCount
  · by_cases hle : f.sectorsNeeded ≤ d.freeSectors
    · rw [(h.isOk_add_iff f).mpr ⟨hlt, hle⟩] at hf
      exact absurd hf (by decide)
    · rw [h.add_of_gt hlt (Nat.lt_of_not_le hle)]
      rfl
  · have hfull : files.length = entryCount := Nat.le_antisymm h.room (Nat.le_of_not_lt hlt)
    rw [h.add_of_full hfull f]
    rfl

/-- Whatever is put on the disk, it holds what it held and the files that found room. -/
lemma addAll (calls : List ProgramFile) :
    ∃ more : List Stored, (d.addAll calls).Holds (files ++ more) ∧
      more.map Stored.file = d.accepted calls := by
  induction calls generalizing d files with
  | nil => exact ⟨[], by rw [List.append_nil]; exact h, rfl⟩
  | cons f rest ih =>
    rcases hok : (d.add f.name f.bytes).isOk with _ | _
    · obtain ⟨more, hmore, hfiles⟩ := ih h
      refine ⟨more, ?_, ?_⟩
      · rwa [Disk.addAll, h.disk_add_of_fail f hok]
      · simp [accepted, hok, h.disk_add_of_fail f hok, hfiles]
    · obtain ⟨hlt, hle⟩ := (h.isOk_add_iff f).mp hok
      obtain ⟨e, he, hholds⟩ := h.add_of_le hlt hle
      obtain ⟨more, hmore, hfiles⟩ := ih hholds
      refine ⟨⟨f, d.untried.take f.sectorsNeeded⟩ :: more, ?_, ?_⟩
      · rw [Disk.addAll, he]
        simpa [Change.disk] using hmore
      · simp [accepted, he, Change.isOk, Change.disk, hfiles]

end Holds

/-- A history on a formatted disk: it holds just the files that found room. -/
lemma holds_addAll (label : String) (calls : List ProgramFile) :
    ∃ files : List Stored, ((format label).addAll calls).Holds files ∧
      files.map Stored.file = (format label).accepted calls := by
  simpa using (holds_format label).addAll calls

/-! ### Reading the files back -/

namespace Reader

variable (image : List UInt8)

/-- The entries in use, in their order. -/
def entries : List Entry :=
  ((List.range entryCount).map fun i =>
    entryOf (byteAt image) (directory.index * sectorSize + i * entrySize)).filter
      fun e => decide (e.kind ≠ 0)

/-- The sectors of the file that an entry lists. -/
def sectorsOf (e : Entry) : List Position := ((file? image e.first).map (·.1)).getD []

/-- An entry lists a file, and its sectors hold it. -/
structure Lists (e : Entry) (f : ProgramFile) : Prop where
  kind : e.kind = 0x82
  name : e.name = listedName f.name
  contents : f.bytes ≠ [] → ∃ chain, file? image e.first = some (chain, f.bytes) ∧
    chain.length = e.blocks ∧ ∀ p ∈ chain, p.track ≠ 18

end Reader

namespace Holds

variable {d : Disk} {files : List Stored} (h : d.Holds files)

include h

lemma entries_eq : Reader.entries d.image = files.map Stored.entry := by
  have hentry : ∀ i < entryCount, entryOf (Reader.byteAt d.image)
      (directory.index * sectorSize + i * entrySize) = d.entry i := by
    intro i hi
    have := mul_entrySize_le hi
    refine entryOf_congr fun k _ hk => ?_
    rw [Nat.add_assoc, byteAt_image directory_isValid (by simp only [sectorSize]; omega)]
  have hsplit : List.range entryCount = List.range files.length ++
      (List.range (entryCount - files.length)).map (files.length + ·) := by
    rw [← List.range_add, Nat.add_sub_cancel' h.room]
  have hused : ((List.range files.length).map d.entry) = files.map Stored.entry := by
    refine List.ext_getElem (by simp) fun i hi _ => ?_
    simp only [List.getElem_map, List.getElem_range]
    exact h.used i (by simpa using hi)
  have hkind : ∀ e ∈ files.map Stored.entry, decide (e.kind ≠ 0) = true := by
    intro e he
    obtain ⟨s, -, rfl⟩ := List.mem_map.mp he
    rfl
  have hfree : ∀ e ∈ ((List.range (entryCount - files.length)).map (files.length + ·)).map d.entry,
      ¬decide (e.kind ≠ 0) = true := by
    intro e he
    obtain ⟨i, hi, rfl⟩ := List.mem_map.mp he
    obtain ⟨j, hj, rfl⟩ := List.mem_map.mp hi
    have := List.mem_range.mp hj
    simp [h.unused (files.length + j) (by omega) (by omega)]
  rw [Reader.entries, List.map_congr_left fun i hi => hentry i (List.mem_range.mp hi), hsplit,
    List.map_append, List.filter_append, hused, List.filter_eq_self.mpr hkind,
    List.filter_eq_nil_iff.mpr hfree, List.append_nil]

/-- The sectors of a file, followed from the first one on, give the file back. -/
lemma file?_eq {s : Stored} (hs : s ∈ files) (hne : s.file.bytes ≠ []) :
    Reader.file? d.image s.entry.first = some (s.chain, s.file.bytes) := by
  have hlen : s.chain.length = s.file.pieces.length := by rw [h.length s hs, s.file.length_pieces]
  have hflat : s.file.pieces.flatten = s.file.bytes := flatten_chunks (by decide) s.file.bytes
  have hfst : (s.chain.zip s.file.pieces).map (·.1) = s.chain := List.map_fst_zip (by omega)
  have hsnd : (s.chain.zip s.file.pieces).map (·.2) = s.file.pieces := List.map_snd_zip (by omega)
  have hvalid : ∀ x ∈ s.chain.zip s.file.pieces, x.1.isValid = true := fun x hx =>
    (mem_fileSectors.mp (h.mem_fileSectors_of_chain hs (List.of_mem_zip hx).1)).1
  have hcut : Cut payloadSize ((s.chain.zip s.file.pieces).map (·.2)) := by
    rw [hsnd]
    exact cut_chunks (by decide) s.file.bytes
  have hcarries := h.carries s hs
  rcases hzip : s.chain.zip s.file.pieces with _ | ⟨⟨p, piece⟩, rest⟩
  · rw [hzip, List.map_nil] at hsnd
    rw [← hsnd] at hflat
    exact absurd hflat.symm hne
  rw [hzip] at hfst hsnd hvalid hcut hcarries
  have hfirst : s.entry.first = p := by
    simp only [Stored.entry, Entry.ofChain, ← hfst]
    rfl
  have hcount : rest.length < sectorsBefore (trackCount + 1) := by
    have hall : sectorsBefore (trackCount + 1) = 683 := by decide
    have hchain := congrArg List.length hfst
    have hle := h.length_chain_le hs
    simp only [List.length_map, List.length_cons] at hchain
    omega
  rw [Reader.file?, hfirst, follow?_of_carries hcarries hvalid hcut hcount, hfst, hsnd, hflat]

lemma lists {s : Stored} (hs : s ∈ files) : Reader.Lists d.image s.entry s.file where
  kind := rfl
  name := nameBytes_eq s.file.name
  contents hne := ⟨s.chain, h.file?_eq hs hne, rfl, fun _ hp =>
    (mem_fileSectors.mp (h.mem_fileSectors_of_chain hs hp)).2⟩

lemma sectorsOf_subset {s : Stored} (hs : s ∈ files) :
    ∀ p ∈ Reader.sectorsOf d.image s.entry, p ∈ s.chain := by
  intro p hp
  by_cases hne : s.file.bytes = []
  · -- an empty file has no sectors, and its entry points off the disk
    have hnil : s.chain = [] := by
      have := h.length s hs
      rw [ProgramFile.sectorsNeeded, hne] at this
      exact List.length_eq_zero_iff.mp this
    have hnone : Reader.file? d.image s.entry.first = none := by
      simp only [Stored.entry, Entry.ofChain, hnil, List.headD_nil]
      rfl
    simp [Reader.sectorsOf, hnone] at hp
  · simpa [Reader.sectorsOf, h.file?_eq hs hne] using hp

/-- Files have sectors of their own. -/
lemma pairwise_sectorsOf :
    (files.map Stored.entry).Pairwise fun e f =>
      ∀ p ∈ Reader.sectorsOf d.image e, p ∉ Reader.sectorsOf d.image f := by
  have hnodup := nodup_fileSectors
  rw [h.allocated.order] at hnodup
  have hpair := (List.nodup_flatMap.mp (List.nodup_append.mp hnodup).1).2
  rw [List.pairwise_map]
  refine hpair.imp_of_mem fun {s t} hs ht hdisj p hp hq => ?_
  exact hdisj (h.sectorsOf_subset hs p hp) (h.sectorsOf_subset ht p hq)

end Holds

/-- **Files are read back** after any history of files that were put on a disk, some of them in
vain. The entries in use list the files that found room, in order; the sectors of each, followed
from the first one on, hold its bytes; and no sector belongs to two files. -/
theorem files_read_back (label : String) (calls : List ProgramFile) :
    List.Forall₂ (Reader.Lists ((format label).addAll calls).image)
        (Reader.entries ((format label).addAll calls).image) ((format label).accepted calls) ∧
      (Reader.entries ((format label).addAll calls).image).Pairwise fun e f =>
        ∀ p ∈ Reader.sectorsOf ((format label).addAll calls).image e,
          p ∉ Reader.sectorsOf ((format label).addAll calls).image f := by
  obtain ⟨files, h, hfiles⟩ := holds_addAll label calls
  rw [h.entries_eq, ← hfiles]
  refine ⟨?_, h.pairwise_sectorsOf⟩
  rw [List.forall₂_map_left_iff, List.forall₂_map_right_iff, List.forall₂_same]
  exact fun s hs => h.lists hs

/-- A file that takes all sectors of a disk. -/
def filling : ProgramFile := ⟨"filling", List.replicate (664 * 254) 7⟩

/-- A file that is one byte too long for that, and the one that fits. -/
def brimful : List ProgramFile := [⟨"large", 7 :: filling.bytes⟩, filling]

lemma length_filling : filling.bytes.length = 664 * 254 := List.length_replicate

lemma sectorsNeeded_filling : filling.sectorsNeeded = 664 := by
  rw [ProgramFile.sectorsNeeded, length_filling]

lemma Holds.freeSectors_of_empty {d : Disk} (h : d.Holds []) : d.freeSectors = 664 := by
  simpa [ProgramFile.totalSectors] using h.freeSectors_add

lemma accepted_brimful : (format "disk").accepted brimful = [filling] := by
  have h := holds_format "disk"
  have hfree := h.freeSectors_of_empty
  have hlarge : ((format "disk").add "large" (7 :: filling.bytes)).isOk = false := by
    rw [Bool.eq_false_iff, Ne, h.isOk_add_iff ⟨"large", _⟩, hfree, ProgramFile.sectorsNeeded,
      List.length_cons, length_filling]
    omega
  have hfilling : ((format "disk").add filling.name filling.bytes).isOk = true := by
    rw [h.isOk_add_iff filling, hfree, sectorsNeeded_filling]
    exact ⟨by decide, Nat.le_refl 664⟩
  have hdisk := h.disk_add_of_fail ⟨"large", _⟩ hlarge
  simp only at hdisk
  simp only [brimful, accepted, hlarge, hdisk, hfilling, if_true, Bool.false_eq_true, if_false,
    List.nil_append, List.append_nil]

theorem files_read_back_brimful :
    ∃ e chain, Reader.entries ((format "disk").addAll brimful).image = [e] ∧
      Reader.file? ((format "disk").addAll brimful).image e.first = some (chain, filling.bytes) ∧
      chain.length = e.blocks := by
  have h := (files_read_back "disk" brimful).1
  rw [accepted_brimful] at h
  obtain ⟨e, rest, hlists, hrest, hentries⟩ := List.forall₂_cons_right_iff.mp h
  rw [List.forall₂_nil_right_iff.mp hrest] at hentries
  have hne : filling.bytes ≠ [] := fun hnil => by
    have := length_filling
    rw [hnil] at this
    exact absurd this (by decide)
  obtain ⟨chain, hfile, hblocks, -⟩ := hlists.contents hne
  exact ⟨e, chain, hentries, hfile, hblocks⟩

/-! ### The room that is left -/

namespace Reader

variable (image : List UInt8) (track : Nat)

/-- How many sectors of a track are free, by the track's count. -/
def countAt : Nat :=
  (byteAt image (allocationMap.index * sectorSize + 4 * track)).toNat

/-- Whether a sector of a track is free, by its bit. -/
def bitAt (sector : Nat) : Bool :=
  (byteAt image (allocationMap.index * sectorSize + (4 * track + 1 + sector / 8))).toNat.testBit
    (sector % 8)

end Reader

lemma countAt_image (d : Disk) {track : Nat} (h : track ≤ 35) :
    Reader.countAt d.image track = d.countOn track := by
  have := mapEntry_lt h
  simp only [mapEntry] at this
  rw [Reader.countAt, byteAt_image allocationMap_isValid (by simp only [sectorSize]; omega)]
  rfl

lemma bitAt_image (d : Disk) {p : Position} (hp : p.OnMap) :
    Reader.bitAt d.image p.track p.sector = d.isFree p := by
  have := mapByte_lt hp
  simp only [mapByte, mapEntry] at this
  rw [Reader.bitAt, byteAt_image allocationMap_isValid (by simp only [sectorSize]; omega)]
  rfl

/-- **Allocation is exact** after any history. On every track the count is the number of bits that
are set for its sectors, and no other bit is set. The free sectors are those that the files have
left. And a file gets on the disk just if there is an entry and enough sectors for it; otherwise
the disk stays as it is. -/
theorem allocation_is_exact (label : String) (calls : List ProgramFile) :
    (∀ track, 1 ≤ track → track ≤ 35 →
      Reader.countAt ((format label).addAll calls).image track =
          (List.range (sectorsOn track)).countP
            (Reader.bitAt ((format label).addAll calls).image track) ∧
        ∀ sector, sectorsOn track ≤ sector → sector < 24 →
          Reader.bitAt ((format label).addAll calls).image track sector = false) ∧
      ((format label).addAll calls).freeSectors +
        ProgramFile.totalSectors ((format label).accepted calls) = 664 ∧
      ∀ f : ProgramFile,
        ((((format label).addAll calls).add f.name f.bytes).isOk = true ↔
          ((format label).accepted calls).length < 8 ∧
            f.sectorsNeeded ≤ ((format label).addAll calls).freeSectors) ∧
        ((((format label).addAll calls).add f.name f.bytes).isOk = false →
          (((format label).addAll calls).add f.name f.bytes).disk =
            (format label).addAll calls) := by
  obtain ⟨files, h, hfiles⟩ := holds_addAll label calls
  set d := (format label).addAll calls
  refine ⟨fun track hpos hle => ⟨?_, ?_⟩, ?_, fun f => ⟨?_, h.disk_add_of_fail f⟩⟩
  · rw [countAt_image d hle, h.allocated.counts track hpos hle]
    refine List.countP_congr fun s hs => ?_
    have hvalid : Position.isValid ⟨track, s⟩ = true :=
      Position.isValid_iff.mpr (List.mem_range.mp hs)
    rw [bitAt_image d (p := ⟨track, s⟩) (Position.onMap hvalid)]
  · intro sector hs hlt
    have hmap : Position.OnMap ⟨track, sector⟩ := ⟨hpos, hle, hlt⟩
    rw [bitAt_image d hmap]
    exact h.allocated.isFree_beyond hmap hs
  · rw [← hfiles]
    exact h.freeSectors_add
  · rw [← hfiles, List.length_map]
    exact h.isOk_add_iff f

/-- Once the disk is full it takes empty files only, and others leave it as it is. -/
theorem allocation_is_exact_brimful :
    ((format "disk").addAll brimful).freeSectors = 0 ∧
      (((format "disk").addAll brimful).add "empty" []).isOk = true ∧
      (((format "disk").addAll brimful).add "byte" [0]).isOk = false ∧
      (((format "disk").addAll brimful).add "byte" [0]).disk = (format "disk").addAll brimful := by
  obtain ⟨-, hsum, hadd⟩ := allocation_is_exact "disk" brimful
  rw [accepted_brimful] at hsum hadd
  have hfree : ((format "disk").addAll brimful).freeSectors = 0 := by
    rw [ProgramFile.totalSectors_singleton, sectorsNeeded_filling] at hsum
    exact Nat.add_right_cancel (hsum.trans (Nat.zero_add 664).symm)
  rw [hfree] at hadd
  have hempty := (hadd ⟨"empty", []⟩).1.mpr ⟨by decide, by decide⟩
  have hbyte : (((format "disk").addAll brimful).add "byte" [0]).isOk = false := by
    rw [Bool.eq_false_iff, Ne, (hadd ⟨"byte", [0]⟩).1]
    exact fun h => absurd h.2 (by decide)
  exact ⟨hfree, hempty, hbyte, (hadd ⟨"byte", [0]⟩).2 hbyte⟩

end Disk

end CrossAsm
