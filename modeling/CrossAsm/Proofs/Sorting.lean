import Mathlib.Data.List.Forall2
import Mathlib.Data.List.Sort
import Mathlib.Tactic.Common
import CrossAsm.Sort

/-!
What sorting keeps. It is the library's insertion sort, and it depends on nothing but the order: two
lists whose members compare alike are sorted alike.
-/

namespace CrossAsm

variable {α : Type} {le : α → α → Bool}

lemma insertSorted_eq (le : α → α → Bool) (a : α) (l : List α) :
    insertSorted le a l = l.orderedInsert (le · · = true) a := by
  induction l with
  | nil => rfl
  | cons b rest ih => rw [insertSorted, ih, List.orderedInsert_cons]

lemma stableSort_eq (le : α → α → Bool) (l : List α) :
    stableSort le l = l.insertionSort (le · · = true) := by
  induction l with
  | nil => rfl
  | cons a rest ih =>
    rw [stableSort] at ih ⊢
    rw [List.foldr_cons, ih, insertSorted_eq, List.insertionSort_cons]

lemma perm_stableSort (le : α → α → Bool) (l : List α) : (stableSort le l).Perm l := by
  rw [stableSort_eq]
  exact List.perm_insertionSort _ l

lemma mem_stableSort {b : α} {l : List α} : b ∈ stableSort le l ↔ b ∈ l :=
  (perm_stableSort le l).mem_iff

lemma pairwise_stableSort (htotal : ∀ a b, le a b = true ∨ le b a = true)
    (htrans : ∀ a b c, le a b = true → le b c = true → le a c = true) (l : List α) :
    (stableSort le l).Pairwise (le · · = true) := by
  have : Std.Total (le · · = true) := ⟨htotal⟩
  have : IsTrans α (le · · = true) := ⟨htrans⟩
  rw [stableSort_eq]
  exact List.pairwise_insertionSort _ l

/-! ### Two lists -/

variable {R : α → α → Prop}

lemma forall₂_insertSorted (hR : ∀ a a' b b', R a a' → R b b' → le a b = le a' b')
    {a a' : α} (ha : R a a') {l l' : List α} (h : List.Forall₂ R l l') :
    List.Forall₂ R (insertSorted le a l) (insertSorted le a' l') := by
  induction h with
  | nil => exact .cons ha .nil
  | @cons b b' rest rest' hb hrest ih =>
    simp only [insertSorted, hR a a' b b' ha hb]
    split
    · exact .cons ha (.cons hb hrest)
    · exact .cons hb ih

lemma forall₂_stableSort (hR : ∀ a a' b b', R a a' → R b b' → le a b = le a' b')
    {l l' : List α} (h : List.Forall₂ R l l') :
    List.Forall₂ R (stableSort le l) (stableSort le l') := by
  induction h with
  | nil => exact .nil
  | cons ha _ ih => exact forall₂_insertSorted hR ha ih

end CrossAsm
