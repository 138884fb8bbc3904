import Mathlib.Data.List.Forall2
import Mathlib.Tactic.Common
import CrossAsm.Numeral

/-!
Numerals as they are written and read. In the bases up to 16 the digits of a number are those of the
standard library, and reading them gives the number back, whatever zeros stand in front of them and
in whichever case their letters are.
-/

namespace CrossAsm.Numeral

variable {base n : Nat} {text : List Char}

/-! ### One digit -/

/-- The character is the digit, which as a letter may be in upper case. -/
def EitherCase (digit c : Char) : Prop := c = digit ∨ c = digit.toUpper

lemma digitChar_eq {d : Nat} (h : d < 16) : digitChar d = d.digitChar := by
  have hall : ∀ e ∈ List.range 16, digitChar e = e.digitChar := by decide
  exact hall d (List.mem_range.mpr h)

lemma digitValue_of_eitherCase {d : Nat} {c : Char} (h : d < 16) (hc : EitherCase d.digitChar c) :
    digitValue c = d := by
  have hall : ∀ e ∈ List.range 16,
      digitValue e.digitChar = e ∧ digitValue e.digitChar.toUpper = e := by decide
  obtain ⟨hlower, hupper⟩ := hall d (List.mem_range.mpr h)
  rcases hc with rfl | rfl
  · exact hlower
  · exact hupper

lemma isHexDigit_digitChar {d : Nat} {c : Char} (h : d < 16) (hc : EitherCase d.digitChar c) :
    isHexDigit c = true := by
  have hall : ∀ e ∈ List.range 16,
      isHexDigit e.digitChar = true ∧ isHexDigit e.digitChar.toUpper = true := by decide
  obtain ⟨hlower, hupper⟩ := hall d (List.mem_range.mpr h)
  rcases hc with rfl | rfl
  · exact hlower
  · exact hupper

lemma isBinaryDigit_digitChar {d : Nat} (h : d < 2) : isBinaryDigit d.digitChar = true := by
  have hall : ∀ e ∈ List.range 2, isBinaryDigit e.digitChar = true := by decide
  exact hall d (List.mem_range.mpr h)

/-! ### The digits of a number -/

lemma mem_toDigits (hb : 1 < base) {c : Char} (hc : c ∈ Nat.toDigits base n) :
    ∃ d, d < base ∧ c = d.digitChar := by
  induction n using Nat.strongRecOn with
  | ind n ih =>
    rw [Nat.toDigits_eq_if hb] at hc
    split at hc
    · next hlt => exact ⟨n, hlt, List.mem_singleton.mp hc⟩
    · next hge =>
      rcases List.mem_append.mp hc with hc | hc
      · exact ih (n / base) (Nat.div_lt_self (by omega) hb) hc
      · exact ⟨n % base, Nat.mod_lt n (by omega), List.mem_singleton.mp hc⟩

/-- There is room for all the digits in any base, since in base 2 there is. -/
lemma map_digitsOnto (hb : 1 < base) (hmax : base ≤ 16) {count : Nat} (h : n.log2 < count)
    (tail : List Nat) :
    (digitsOnto base count n tail).map digitChar =
      Nat.toDigits base n ++ tail.map digitChar := by
  induction count generalizing n tail with
  | zero => omega
  | succ count ih =>
    rw [digitsOnto, Nat.toDigits_eq_if hb]
    split
    · next hlt => rw [List.map_cons, digitChar_eq (by omega), List.singleton_append]
    · next hge =>
      have hmod : n % base < base := Nat.mod_lt n (by omega)
      have hquot : (n / base).log2 < count := by
        have hpos : n / base ≠ 0 := Nat.div_ne_zero_iff.mpr ⟨by omega, by omega⟩
        rw [Nat.log2_lt (by omega), Nat.pow_succ] at h
        rw [Nat.log2_lt hpos]
        calc n / base ≤ n / 2 := Nat.div_le_div_left hb (by omega)
          _ < 2 ^ count := by omega
      rw [ih hquot, List.map_cons, digitChar_eq (by omega), List.append_assoc,
        List.singleton_append]

lemma write_eq_toDigits (hb : 1 < base) (hmax : base ≤ 16) (n : Nat) :
    write base n = Nat.toDigits base n := by
  rw [write, digits, map_digitsOnto hb hmax (Nat.lt_succ_self _), List.map_nil, List.append_nil]

/-! ### Reading -/

lemma read_concat (base : Nat) (text : List Char) (c : Char) :
    read base (text ++ [c]) = base * read base text + digitValue c := by
  simp [read, value]

lemma read_toDigits (hb : 1 < base) (hmax : base ≤ 16) (n : Nat) :
    read base (Nat.toDigits base n) = n := by
  have hdigit {d : Nat} (h : d < base) : digitValue d.digitChar = d :=
    digitValue_of_eitherCase (by omega) (.inl rfl)
  induction n using Nat.strongRecOn with
  | ind n ih =>
    rw [Nat.toDigits_eq_if hb]
    split
    · next hlt => simp [read, value, hdigit hlt]
    · next hge =>
      rw [read_concat, ih (n / base) (Nat.div_lt_self (by omega) hb),
        hdigit (Nat.mod_lt n (by omega)), Nat.div_add_mod]

lemma read_zeros (base zeros : Nat) (text : List Char) :
    read base (List.replicate zeros '0' ++ text) = read base text := by
  induction zeros with
  | zero => rfl
  | succ zeros ih =>
    rw [← ih, List.replicate_succ, List.cons_append]
    simp [read, value, digitValue]

section EitherCase

variable (hb : 1 < base) (hmax : base ≤ 16)
  (h : List.Forall₂ EitherCase (Nat.toDigits base n) text)

include hb h

lemma forall₂_digits :
    List.Forall₂ (fun c digit => ∃ d, d < base ∧ digit = d.digitChar ∧ EitherCase digit c)
      text (Nat.toDigits base n) := by
  have hdigits := (List.forall₂_and_left _ _).mpr ⟨fun c => mem_toDigits hb, h⟩
  refine hdigits.flip.imp ?_
  rintro c digit ⟨⟨d, hd, hdigit⟩, hc⟩
  exact ⟨d, hd, hdigit, hc⟩

include hmax

/-- Letters of digits are read alike in either case. -/
lemma read_of_eitherCase : read base text = n := by
  have hvalues : text.map digitValue = (Nat.toDigits base n).map digitValue := by
    rw [← List.forall₂_eq_eq_eq, List.forall₂_map_left_iff, List.forall₂_map_right_iff]
    refine (forall₂_digits hb h).imp ?_
    rintro c digit ⟨d, hd, rfl, hc⟩
    rw [digitValue_of_eitherCase (by omega) hc, digitValue_of_eitherCase (by omega) (.inl rfl)]
  rw [read, hvalues]
  exact read_toDigits hb hmax n

lemma isHexDigit_of_eitherCase : ∀ c ∈ text, isHexDigit c = true := by
  have hall : List.Forall₂ (fun c _ => isHexDigit c = true ∧ True) text (Nat.toDigits base n) := by
    refine (forall₂_digits hb h).imp ?_
    rintro c digit ⟨d, hd, rfl, hc⟩
    exact ⟨isHexDigit_digitChar (by omega) hc, trivial⟩
  exact ((List.forall₂_and_left _ _).mp hall).1

end EitherCase

end CrossAsm.Numeral
