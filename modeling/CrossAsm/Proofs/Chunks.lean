import Mathlib.Tactic.Common
import CrossAsm.Chunks

/-!
Lists that are cut into pieces of one size: nothing is lost, and only the last piece may be shorter.
Words that are cut into their bytes.
-/

namespace CrossAsm

lemma toNat_highByte (v : UInt32) : (v >>> 8).toUInt8.toNat = v.toNat / 256 % 256 := by
  rw [UInt32.toNat_toUInt8, UInt32.toNat_shiftRight]
  exact congrArg (· % 256) (Nat.shiftRight_eq_div_pow v.toNat 8)

variable {α : Type} {size : Nat}

/-- All pieces are full but the last, which is not empty. -/
def Cut (size : Nat) : List (List α) → Prop
  | [] => True
  | [piece] => 0 < piece.length ∧ piece.length ≤ size
  | piece :: next :: rest => piece.length = size ∧ Cut size (next :: rest)

@[simp] lemma length_chunksUpTo (count : Nat) (l : List α) :
    (chunksUpTo size count l).length = count := by
  induction count generalizing l with
  | zero => rfl
  | succ count ih => rw [chunksUpTo, List.length_cons, ih]

lemma length_chunks (l : List α) : (chunks size l).length = (l.length + size - 1) / size :=
  length_chunksUpTo _ l

lemma flatten_chunksUpTo (count : Nat) (l : List α) (h : l.length ≤ count * size) :
    (chunksUpTo size count l).flatten = l := by
  induction count generalizing l with
  | zero =>
    have : l = [] := List.length_eq_zero_iff.mp (by omega)
    rw [this]
    rfl
  | succ count ih =>
    have hrest : (l.drop size).length ≤ count * size := by
      rw [List.length_drop]
      rw [Nat.succ_mul] at h
      omega
    rw [chunksUpTo, List.flatten_cons, ih _ hrest, List.take_append_drop]

lemma cut_chunksUpTo (count : Nat) (l : List α) (hsize : 0 < size) (h : l.length ≤ count * size)
    (hlast : count * size < l.length + size) : Cut size (chunksUpTo size count l) := by
  induction count generalizing l with
  | zero => exact trivial
  | succ count ih =>
    rw [Nat.succ_mul] at h hlast
    cases count with
    | zero =>
      simp only [chunksUpTo, Cut, List.length_take]
      omega
    | succ count =>
      rw [Nat.succ_mul] at h hlast
      refine ⟨by rw [List.length_take]; omega, ih (l.drop size) ?_ ?_⟩
      all_goals
        rw [List.length_drop, Nat.succ_mul]
        omega

lemma chunks_bounds (hsize : 0 < size) (l : List α) :
    l.length ≤ (l.length + size - 1) / size * size ∧
      (l.length + size - 1) / size * size < l.length + size := by
  have hdiv := Nat.div_add_mod (l.length + size - 1) size
  have hmod := Nat.mod_lt (l.length + size - 1) hsize
  rw [Nat.mul_comm] at hdiv
  omega

lemma flatten_chunks (hsize : 0 < size) (l : List α) : (chunks size l).flatten = l :=
  flatten_chunksUpTo _ l (chunks_bounds hsize l).1

lemma cut_chunks (hsize : 0 < size) (l : List α) : Cut size (chunks size l) :=
  cut_chunksUpTo _ l hsize (chunks_bounds hsize l).1 (chunks_bounds hsize l).2

/-- What holds of full pieces and of a last one holds of all. -/
lemma Cut.forall {pieces : List (List α)} (h : Cut size pieces) {P : List α → Prop}
    (hfull : ∀ piece, piece.length = size → P piece)
    (hlast : ∀ piece, 0 < piece.length → piece.length ≤ size → P piece) :
    ∀ piece ∈ pieces, P piece := by
  induction pieces with
  | nil => simp
  | cons piece rest ih =>
    cases rest with
    | nil =>
      intro other hother
      rw [List.mem_singleton.mp hother]
      exact hlast piece h.1 h.2
    | cons next rest =>
      intro other hother
      rcases List.mem_cons.mp hother with rfl | hother
      · exact hfull _ h.1
      · exact ih h.2 other hother

lemma Cut.tail {piece : List α} {rest : List (List α)} (h : Cut size (piece :: rest)) :
    Cut size rest := by
  cases rest with
  | nil => trivial
  | cons next rest => exact h.2

lemma Cut.length_le {pieces : List (List α)} (h : Cut size pieces) :
    ∀ piece ∈ pieces, piece.length ≤ size :=
  h.forall (fun _ hfull => Nat.le_of_eq hfull) fun _ _ hle => hle

lemma Cut.length_pos {pieces : List (List α)} (h : Cut size pieces) (hsize : 0 < size) :
    ∀ piece ∈ pieces, 0 < piece.length :=
  h.forall (fun _ hfull => hfull ▸ hsize) fun _ hpos _ => hpos

end CrossAsm
