import Mathlib.Data.List.GetD
import Mathlib.Tactic.Common
import CrossAsm.Disk.Image

/-!
Where the bytes of a disk are. The sectors that exist have places of their own, so a write to one
of them is seen there and nowhere else, and the image holds each of them at its offset.
-/

namespace CrossAsm

/-! ### Bytes of a sector -/

namespace Sector

variable (s : Sector)

lemma get_ofList (bytes : List UInt8) {i : Nat} (hi : i < 256) :
    (ofList bytes).get i = bytes.getD i 0 := by
  simp [get, ofList, hi, Array.getD_eq_getD_getElem?, List.getD_eq_getElem?_getD]

lemma get_set {i : Nat} (hi : i < 256) (byte : UInt8) (j : Nat) :
    (s.set i byte).get j = if j = i then byte else s.get j := by
  by_cases h : j = i
  · subst h
    simp [get, set, hi]
  · simp [get, set, h, Ne.symm h]

/-- A write is seen where it goes, and nowhere else. -/
lemma get_write (bytes : List UInt8) {i : Nat} (hi : i + bytes.length ≤ 256) (j : Nat) :
    (s.write i bytes).get j =
      if i ≤ j ∧ j < i + bytes.length then bytes.getD (j - i) 0 else s.get j := by
  induction bytes generalizing s i with
  | nil =>
    have hno : ¬(i ≤ j ∧ j < i + ([] : List UInt8).length) := by
      simp only [List.length_nil]
      omega
    rw [if_neg hno, write]
  | cons byte rest ih =>
    simp only [List.length_cons] at hi ⊢
    rw [write, ih (s.set i byte) (by omega), get_set s (by omega)]
    rcases Nat.lt_trichotomy j i with h | h | h
    · rw [if_neg (by omega), if_neg (by omega), if_neg (by omega)]
    · subst h
      rw [if_neg (by omega), if_pos rfl, if_pos (by omega), Nat.sub_self]
      rfl
    · by_cases hj : j < i + (rest.length + 1)
      · have hsub : j - i = (j - (i + 1)) + 1 := by omega
        rw [if_pos (by omega), if_pos (by omega), hsub, List.getD_cons_succ]
      · rw [if_neg (by omega), if_neg (by omega), if_neg (by omega)]

lemma get_write_of_lt (bytes : List UInt8) {i j : Nat} (hi : i + bytes.length ≤ 256) (hj : j < i) :
    (s.write i bytes).get j = s.get j := by
  rw [get_write s bytes hi, if_neg (by omega)]

lemma get_write_add (bytes : List UInt8) {i k : Nat} (hi : i + bytes.length ≤ 256)
    (hk : k < bytes.length) : (s.write i bytes).get (i + k) = bytes.getD k 0 := by
  rw [get_write s bytes hi, if_pos (by omega), Nat.add_sub_cancel_left]

lemma length_toList : s.toList.length = 256 := by simp [toList]

lemma getD_toList {i : Nat} : s.toList.getD i 0 = s.get i := by
  simp [toList, get, List.getD_eq_getElem?_getD]

end Sector

namespace Disk

/-! ### Places of sectors -/

/-- The sectors of a track come before those of the tracks behind it. -/
lemma sectorsBefore_add_le {t u : Nat} (h : t < u) :
    sectorsBefore t + sectorsOn t ≤ sectorsBefore u := by
  induction u with
  | zero => omega
  | succ u ih =>
    rw [sectorsBefore]
    rcases Nat.lt_succ_iff_lt_or_eq.mp h with h | rfl
    · have := ih h
      omega
    · omega

namespace Position

variable {p q : Position}

lemma isValid_iff : p.isValid = true ↔ p.sector < sectorsOn p.track := by simp [isValid]

lemma track_pos (hp : p.isValid = true) : 1 ≤ p.track := by
  rw [isValid_iff] at hp
  by_contra h
  have : p.track = 0 := by omega
  simp [this, sectorsOn] at hp

lemma track_le (hp : p.isValid = true) : p.track ≤ 35 := by
  rw [isValid_iff] at hp
  by_contra h
  have hzero : sectorsOn p.track = 0 := by
    unfold sectorsOn
    repeat rw [if_neg (by omega)]
  omega

lemma sectorsOn_le (track : Nat) : sectorsOn track ≤ 21 := by
  unfold sectorsOn
  split_ifs <;> omega

lemma sector_lt (hp : p.isValid = true) : p.sector < 24 := by
  have := sectorsOn_le p.track
  rw [isValid_iff] at hp
  omega

/-- Sectors that exist have places of their own. -/
lemma index_inj (hp : p.isValid = true) (hq : q.isValid = true) (h : p.index = q.index) :
    p = q := by
  rw [isValid_iff] at hp hq
  obtain ⟨t, i⟩ := p
  obtain ⟨u, j⟩ := q
  simp only [index] at hp hq h
  rcases Nat.lt_trichotomy t u with htu | rfl | htu
  · have := sectorsBefore_add_le htu
    omega
  · rw [show i = j by omega]
  · have := sectorsBefore_add_le htu
    omega

lemma index_lt (hp : p.isValid = true) : p.index < 683 := by
  have hall : sectorsBefore 36 = 683 := by decide
  have hle := sectorsBefore_add_le (show p.track < 36 by have := track_le hp; omega)
  rw [isValid_iff] at hp
  simp only [index]
  omega

end Position

/-! ### Bytes of a disk -/

variable (d : Disk) {p q : Position}

lemma sector_setSector (s : Sector) (hp : p.isValid = true) : (d.setSector p s).sector p = s := by
  simp [sector, setSector, Position.index_lt hp]

lemma sector_setSector_of_ne (s : Sector) (hp : p.isValid = true) (hq : q.isValid = true)
    (h : q ≠ p) : (d.setSector p s).sector q = d.sector q := by
  have hne : p.index ≠ q.index := fun he => h (Position.index_inj hp hq he).symm
  simp [sector, setSector, Vector.getElem?_setIfInBounds_ne hne]

@[simp] lemma untried_setSector (s : Sector) : (d.setSector p s).untried = d.untried := rfl

/-- The items of equal lists put together, counted through. -/
lemma getD_flatten_uniform {α : Type} {n : Nat} (ls : List (List α))
    (h : ∀ l ∈ ls, l.length = n) (k : Nat) {i : Nat} (hi : i < n) (x : α) :
    ls.flatten.getD (k * n + i) x = (ls.getD k []).getD i x := by
  induction ls generalizing k with
  | nil => simp
  | cons l rest ih =>
    have hl : l.length = n := h l List.mem_cons_self
    rw [List.flatten_cons]
    cases k with
    | zero =>
      rw [Nat.zero_mul, Nat.zero_add, List.getD_append _ _ _ _ (by omega), List.getD_cons_zero]
    | succ k =>
      have hle : l.length ≤ (k + 1) * n + i := by
        rw [hl, Nat.succ_mul]
        omega
      have hsub : (k + 1) * n + i - l.length = k * n + i := by
        rw [hl, Nat.succ_mul]
        omega
      rw [List.getD_append_right _ _ _ _ hle, hsub, List.getD_cons_succ]
      exact ih (fun m hm => h m (List.mem_cons_of_mem l hm)) k

/-- The image holds a sector at its offset. -/
lemma getD_image (hp : p.isValid = true) {i : Nat} (hi : i < sectorSize) :
    d.image.getD (p.index * sectorSize + i) 0 = (d.sector p).get i := by
  have hlen : ∀ l ∈ d.sectors.toList.map Sector.toList, l.length = sectorSize := by
    intro l hl
    obtain ⟨s, -, rfl⟩ := List.mem_map.mp hl
    exact s.length_toList
  have hindex := Position.index_lt hp
  rw [image, List.flatMap_def, getD_flatten_uniform _ hlen p.index hi, ← Sector.getD_toList]
  congr 1
  simp [sector, hindex, List.getD_eq_getElem?_getD]

end Disk

end CrossAsm
