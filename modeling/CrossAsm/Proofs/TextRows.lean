import Mathlib.Data.List.Forall2
import Mathlib.Tactic.Common
import CrossAsm.Proofs.Numerals

/-!
Texts that are made of rows, and rows that are made of fields. Every row has an end and fields have
commas between them, so a text is cut into its rows again, and a row into its fields, as long as
there is no line end in a row and no comma in a field.
-/

namespace CrossAsm

/-! ### Rows -/

/-- The lines of a text. Behind the last line end there is one more only if something stands
there. -/
def textLines (text : String) : List (List Char) :=
  let pieces := text.toList.splitOn '\n'
  if pieces.getLast? = some [] then pieces.dropLast else pieces

lemma splitOn_flatMap_newline {rows : List (List Char)} (h : ∀ row ∈ rows, '\n' ∉ row) :
    (rows.flatMap (· ++ ['\n'])).splitOn '\n' = rows ++ [[]] := by
  induction rows with
  | nil => rfl
  | cons row rest ih =>
    obtain ⟨hrow, hrest⟩ := List.forall_mem_cons.mp h
    rw [List.flatMap_cons, List.append_assoc, List.singleton_append, List.splitOn_append_cons_self,
      List.splitOn_eq_singleton hrow, ih hrest, List.singleton_append, List.cons_append]

/-- A text of rows is cut into its rows. -/
lemma textLines_join {rows : List String} (h : ∀ row ∈ rows, '\n' ∉ row.toList) :
    textLines (String.join (rows.map (· ++ "\n"))) = rows.map String.toList := by
  have hchars : (String.join (rows.map (· ++ "\n"))).toList =
      (rows.map String.toList).flatMap (· ++ ['\n']) := by
    simp [String.toList_join, List.flatMap_map]
  have hpieces : ((rows.map String.toList).flatMap (· ++ ['\n'])).splitOn '\n' =
      rows.map String.toList ++ [[]] := splitOn_flatMap_newline (by simpa using h)
  simp [textLines, hchars, hpieces]

/-! ### Fields -/

def fields (row : List Char) : List (List Char) := row.splitOn ','

lemma fields_intercalate {parts : List (List Char)} (h : ∀ part ∈ parts, ',' ∉ part)
    (hne : parts ≠ []) : fields ([','].intercalate parts) = parts :=
  List.splitOn_intercalate ',' h hne

lemma mem_intercalate_comma {parts : List (List Char)} {c : Char}
    (h : c ∈ [','].intercalate parts) : c = ',' ∨ ∃ part ∈ parts, c ∈ part := by
  induction parts with
  | nil => simp at h
  | cons part rest ih =>
    cases rest with
    | nil => exact .inr ⟨part, List.mem_cons_self, by simpa using h⟩
    | cons next rest =>
      rw [List.intercalate_cons_cons, List.append_assoc, List.mem_append, List.singleton_append,
        List.mem_cons] at h
      rcases h with h | h | h
      · exact .inr ⟨part, List.mem_cons_self, h⟩
      · exact .inl h
      · exact (ih h).imp_right fun ⟨p, hp, hc⟩ => ⟨p, List.mem_cons_of_mem part hp, hc⟩

/-- What can be read part by part can be read. -/
lemma mapM_of_forall₂ {α β : Type} {read : β → Option α} {values : List α} {parts : List β}
    (h : List.Forall₂ (fun value part => read part = some value) values parts) :
    parts.mapM read = some values := by
  induction h with
  | nil => rfl
  | cons hfirst _ ih => simp [hfirst, ih]

/-- A reader that stops at a mark goes through what does not have it. -/
lemma ne_of_not_mem {mark : Char} {word : List Char} (h : mark ∉ word) :
    ∀ c ∈ word, decide (c ≠ mark) = true := by
  intro c hc
  rw [decide_eq_true_eq]
  rintro rfl
  exact h hc

/-! ### Numerals in fields -/

namespace Numeral

lemma toList_decimal (n : Nat) : (decimal n).toList = Nat.toDigits 10 n := by
  rw [decimal, String.toList_ofList, write_eq_toDigits (by decide) (by decide)]

lemma isDigit_toDigits {n : Nat} {c : Char} (h : c ∈ Nat.toDigits 10 n) : c.isDigit = true := by
  have hall : ∀ d ∈ List.range 10, d.digitChar.isDigit = true := by decide
  obtain ⟨d, hd, rfl⟩ := mem_toDigits (by decide) h
  exact hall d (List.mem_range.mpr hd)

lemma isHexDigit_toDigits {n : Nat} {c : Char} (h : c ∈ Nat.toDigits 16 n) :
    isHexDigit c = true := by
  obtain ⟨d, hd, rfl⟩ := mem_toDigits (by decide) h
  exact isHexDigit_digitChar hd (.inl rfl)

/-- A number that is short enough is written with as many digits as there are columns. -/
lemma length_hex {width n : Nat} (h : (Nat.toDigits 16 n).length ≤ width) :
    (hex width n).toList.length = width := by
  rw [hex, String.toList_ofList, write_eq_toDigits (by decide) (by decide), padLeft,
    List.length_append, List.length_replicate]
  omega

lemma read_hex (width n : Nat) : read 16 (hex width n).toList = n := by
  rw [hex, String.toList_ofList, write_eq_toDigits (by decide) (by decide), padLeft, read_zeros,
    read_toDigits (by decide) (by decide)]

lemma isHexDigit_of_mem_hex {width n : Nat} {c : Char} (h : c ∈ (hex width n).toList) :
    isHexDigit c = true := by
  rw [hex, String.toList_ofList, write_eq_toDigits (by decide) (by decide), padLeft] at h
  rcases List.mem_append.mp h with h | h
  · rw [List.eq_of_mem_replicate h]
    rfl
  · exact isHexDigit_toDigits h

end Numeral

end CrossAsm
