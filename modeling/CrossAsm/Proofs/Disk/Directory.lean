import CrossAsm.Proofs.Chunks
import CrossAsm.Proofs.Disk.Allocation

/-!
The directory: what a reader finds in it, and what an entry looks like that was written for a file.
-/

namespace CrossAsm

/-! ### Names -/

/-- The upper case of a byte that is a letter in ASCII; other bytes stay. -/
def upperByte (b : UInt8) : UInt8 := if 0x61 ≤ b ∧ b ≤ 0x7A then b - 0x20 else b

/-- How the directory lists a name: its first 16 bytes, in upper case, filled up with 0xA0. -/
def listedName (name : String) : List UInt8 :=
  let bytes := (name.toUTF8.data.toList.take 16).map upperByte
  bytes ++ List.replicate (16 - bytes.length) 0xA0

lemma upperByte_of_le {b : UInt8} (h : 0x80 ≤ b) : upperByte b = b := by
  refine if_neg fun hb => ?_
  have h1 : (0x80 : UInt8).toNat ≤ b.toNat := UInt8.le_iff_toNat_le.mp h
  have h2 : b.toNat ≤ (0x7A : UInt8).toNat := UInt8.le_iff_toNat_le.mp hb.2
  have : (0x80 : UInt8).toNat = 128 := rfl
  have : (0x7A : UInt8).toNat = 122 := rfl
  omega

lemma upperByte_ofNat_of_le {n : Nat} (h : 128 ≤ n) (hn : n < 256) :
    upperByte (UInt8.ofNat n) = UInt8.ofNat n := by
  refine upperByte_of_le (UInt8.le_iff_toNat_le.mpr ?_)
  rw [UInt8.toNat_ofNat', Nat.mod_eq_of_lt (by omega)]
  exact h

/-- The upper case of a character is that of its bytes: all bytes of the longer ones stay. -/
lemma utf8EncodeChar_toUpper (c : Char) :
    String.utf8EncodeChar c.toUpper = (String.utf8EncodeChar c).map upperByte := by
  by_cases hc : c.val.toNat ≤ 127
  · have hall : ∀ n < 128, String.utf8EncodeChar (Char.ofNat n).toUpper =
        (String.utf8EncodeChar (Char.ofNat n)).map upperByte := by
      decide +kernel
    have := hall c.toNat (Nat.lt_succ_of_le hc)
    rwa [Char.ofNat_toNat] at this
  · have hupper : c.toUpper = c := by
      refine dif_neg fun h => hc ?_
      have h2 : c.val.toNat ≤ 'z'.val.toNat := UInt32.le_iff_toNat_le.mp h.2
      have : 'z'.val.toNat = 122 := rfl
      omega
    rw [hupper]
    simp only [String.utf8EncodeChar, hc, if_false]
    split_ifs
    all_goals
      simp only [List.map_cons, List.map_nil]
      repeat rw [upperByte_ofNat_of_le (by omega) (by omega)]

lemma toUTF8_toUpper (name : String) :
    name.toUpper.toUTF8.data.toList = name.toUTF8.data.toList.map upperByte := by
  have hbytes : ∀ s : String,
      s.toUTF8.data.toList = s.toList.flatMap String.utf8EncodeChar := by
    intro s
    rw [String.toUTF8_eq_toByteArray, ← String.utf8Encode_toList, List.utf8Encode,
      List.toList_data_toByteArray]
  rw [hbytes, hbytes, String.toUpper, String.toList_map, List.flatMap_map, List.map_flatMap]
  simp only [utf8EncodeChar_toUpper]

lemma nameBytes_eq (name : String) : Disk.nameBytes name = listedName name := by
  simp only [Disk.nameBytes, listedName, toUTF8_toUpper, List.map_take, Disk.padding]

lemma length_nameBytes (name : String) : (Disk.nameBytes name).length = 16 := by
  simp only [Disk.nameBytes, List.length_append, List.length_replicate, List.length_take]
  omega

/-! ### Entries -/

namespace Disk

/-- A file as the directory lists it. -/
structure Entry where
  kind : UInt8
  /-- The first sector of the file. -/
  first : Position
  name : List UInt8
  /-- How many sectors the file takes. -/
  blocks : Nat
deriving DecidableEq

/-- The entry at an offset, given the bytes there. -/
def entryOf (byte : Nat → UInt8) (offset : Nat) : Entry where
  kind := byte (offset + 2)
  first := ⟨(byte (offset + 3)).toNat, (byte (offset + 4)).toNat⟩
  name := (List.range 16).map fun k => byte (offset + 5 + k)
  blocks := (byte (offset + 30)).toNat + 256 * (byte (offset + 31)).toNat

/-- The entry of a file with its sectors. -/
def Entry.ofChain (name : String) (chain : List Position) : Entry :=
  ⟨programType, chain.headD ⟨0, 0⟩, nameBytes name, chain.length⟩

lemma entryOf_congr {f g : Nat → UInt8} {m n : Nat}
    (h : ∀ k, 2 ≤ k → k < 32 → f (m + k) = g (n + k)) : entryOf f m = entryOf g n := by
  have hname : ((List.range 16).map fun k => f (m + 5 + k)) =
      (List.range 16).map fun k => g (n + 5 + k) := by
    refine List.map_congr_left fun k hk => ?_
    have := List.mem_range.mp hk
    rw [Nat.add_assoc, Nat.add_assoc]
    exact h (5 + k) (by omega) (by omega)
  simp only [entryOf, hname]
  rw [h 2 (by omega) (by omega), h 3 (by omega) (by omega), h 4 (by omega) (by omega),
    h 30 (by omega) (by omega), h 31 (by omega) (by omega)]

variable (d : Disk)

/-- The entry at an index. -/
def entry (i : Nat) : Entry := entryOf (d.sector directory).get (i * entrySize)

/-- What stands at the start of an entry: the type, the first sector and the name. -/
def entryHead (name : String) (chain : List Position) : List UInt8 :=
  [programType, UInt8.ofNat (chain.headD ⟨0, 0⟩).track,
    UInt8.ofNat (chain.headD ⟨0, 0⟩).sector] ++ nameBytes name

lemma length_entryHead (name : String) (chain : List Position) :
    (entryHead name chain).length = 19 := by
  simp [entryHead, length_nameBytes]

section Write

variable {offset : Nat} (ho : offset + 32 ≤ 256) (name : String) (chain : List Position)

lemma directory_writeEntry :
    (d.writeEntry offset name chain).sector directory =
      ((d.sector directory).write (offset + 2) (entryHead name chain)).write (offset + 30)
        (wordBytes (UInt32.ofNat chain.length)) :=
  sector_setSector _ _ directory_isValid

include ho

lemma get_writeEntry_head {k : Nat} (hk : k < 19) :
    ((d.writeEntry offset name chain).sector directory).get (offset + 2 + k) =
      (entryHead name chain).getD k 0 := by
  have hlen := length_entryHead name chain
  have hword : (wordBytes (UInt32.ofNat chain.length)).length = 2 := rfl
  rw [directory_writeEntry, Sector.get_write_of_lt _ _ (by omega) (by omega),
    Sector.get_write_add _ _ (by omega) (by omega)]

lemma get_writeEntry_size {k : Nat} (hk : k < 2) :
    ((d.writeEntry offset name chain).sector directory).get (offset + 30 + k) =
      (wordBytes (UInt32.ofNat chain.length)).getD k 0 := by
  have hword : (wordBytes (UInt32.ofNat chain.length)).length = 2 := rfl
  rw [directory_writeEntry, Sector.get_write_add _ _ (by omega) (by omega)]

lemma get_writeEntry_outside {j : Nat} (hj : j < offset + 2 ∨ offset + 32 ≤ j) :
    ((d.writeEntry offset name chain).sector directory).get j = (d.sector directory).get j := by
  have hlen := length_entryHead name chain
  have hword : (wordBytes (UInt32.ofNat chain.length)).length = 2 := rfl
  rw [directory_writeEntry, Sector.get_write _ _ (by omega), if_neg (by omega),
    Sector.get_write _ _ (by omega), if_neg (by omega)]

/-- The entry that was written for a file is read as such. -/
lemma entryOf_writeEntry (htrack : (chain.headD ⟨0, 0⟩).track < 256)
    (hsector : (chain.headD ⟨0, 0⟩).sector < 256) (hlen : chain.length < 65536) :
    entryOf ((d.writeEntry offset name chain).sector directory).get offset =
      Entry.ofChain name chain := by
  have hhead := fun {k : Nat} (hk : k < 19) => d.get_writeEntry_head ho name chain hk
  have hsize := fun {k : Nat} (hk : k < 2) => d.get_writeEntry_size ho name chain hk
  simp only [entryOf, Entry.ofChain]
  congr 1
  · exact hhead (k := 0) (by omega)
  · have h3 := hhead (k := 1) (by omega)
    have h4 := hhead (k := 2) (by omega)
    simp only [Nat.add_assoc, Nat.reduceAdd] at h3 h4
    rw [h3, h4]
    simp only [entryHead, List.cons_append, List.getD_cons_succ, List.getD_cons_zero,
      UInt8.toNat_ofNat', Nat.mod_eq_of_lt htrack, Nat.mod_eq_of_lt hsector]
  · have hname : (nameBytes name).length = 16 := length_nameBytes name
    rw [← hname]
    refine List.ext_getElem (by simp) fun k hk h => ?_
    have h5 := hhead (k := 3 + k) (by omega)
    simp only [← Nat.add_assoc] at h5
    simp [h5, entryHead, List.getD_eq_getElem?_getD, h, Nat.add_comm 3 k]
  · have h30 := hsize (k := 0) (by omega)
    have h31 := hsize (k := 1) (by omega)
    simp only [Nat.add_assoc, Nat.reduceAdd] at h30 h31
    rw [h30, h31]
    simp only [wordBytes, List.getD_cons_succ, List.getD_cons_zero]
    rw [toNat_highByte, UInt32.toNat_toUInt8, UInt32.toNat_ofNat']
    omega

end Write

lemma mul_entrySize_le {i : Nat} (hi : i < entryCount) : i * entrySize + 32 ≤ 256 := by
  simp only [entryCount] at hi
  simp only [entrySize]
  omega

lemma entry_writeEntry_of_ne {i k : Nat} (hi : i < entryCount) (hk : k ≠ i) (name : String)
    (chain : List Position) : (d.writeEntry (i * entrySize) name chain).entry k = d.entry k := by
  refine entryOf_congr fun j hle hlt => ?_
  refine d.get_writeEntry_outside (mul_entrySize_le hi) name chain ?_
  simp only [entrySize]
  omega

lemma sector_writeEntry {q : Position} (hq : q.isValid = true) (h : q ≠ directory) (offset : Nat)
    (name : String) (chain : List Position) :
    (d.writeEntry offset name chain).sector q = d.sector q :=
  sector_setSector_of_ne d _ directory_isValid hq h

@[simp] lemma untried_writeEntry (offset : Nat) (name : String) (chain : List Position) :
    (d.writeEntry offset name chain).untried = d.untried := rfl

/-! ### The first free entry -/

variable {d} {used : Nat}

lemma freeEntry?_eq_some (hused : used < entryCount) (h : ∀ i < used, (d.entry i).kind ≠ 0)
    (hfree : (d.entry used).kind = 0) : d.freeEntry? = some (used * entrySize) := by
  have hfind : (List.range entryCount).find?
      ((fun i => decide ((d.sector directory).get (i + 2) = 0)) ∘ (· * entrySize)) = some used := by
    rw [List.find?_range_eq_some]
    simp only [entry, entryOf] at h hfree
    refine ⟨?_, List.mem_range.mpr hused, fun j hj => ?_⟩
    · simpa [Nat.mul_comm] using hfree
    · simpa [Nat.mul_comm] using h j hj
  unfold freeEntry?
  rw [List.find?_map, hfind]
  rfl

lemma freeEntry?_eq_none (h : ∀ i < entryCount, (d.entry i).kind ≠ 0) : d.freeEntry? = none := by
  have hfind : (List.range entryCount).find?
      ((fun i => decide ((d.sector directory).get (i + 2) = 0)) ∘ (· * entrySize)) = none := by
    rw [List.find?_range_eq_none]
    intro i hi
    simpa [entry, entryOf, Nat.mul_comm] using h i hi
  unfold freeEntry?
  rw [List.find?_map, hfind]
  rfl

end Disk

end CrossAsm
