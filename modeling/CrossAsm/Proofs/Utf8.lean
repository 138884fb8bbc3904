import Mathlib.Tactic.Common
import CrossAsm.Source.LineMap

/-!
The bytes of a text. The encoding keeps the order: texts compare by their bytes as they do by their
characters. And the byte of a line end stands for nothing else.
-/

namespace CrossAsm

/-- The bytes of a text. -/
def encode (text : List Char) : List UInt8 := text.flatMap String.utf8EncodeChar

lemma encode_cons (c : Char) (text : List Char) :
    encode (c :: text) = String.utf8EncodeChar c ++ encode text := List.flatMap_cons ..

lemma toUTF8_eq_encode (s : String) : s.toUTF8.data.toList = encode s.toList := by
  rw [String.toUTF8_eq_toByteArray, ← String.utf8Encode_toList]
  exact List.toList_data_toByteArray

lemma length_encode (text : List Char) : (encode text).length = byteLength text := by
  induction text with
  | nil => rfl
  | cons c rest ih =>
    rw [encode_cons, List.length_append, String.length_utf8EncodeChar, ih, byteLength]

/-! ### The order of texts -/

lemma ofNat_cons_lt {a b : Nat} (ha : a < 256) (hb : b < 256) (l m : List UInt8) :
    UInt8.ofNat a :: l < UInt8.ofNat b :: m ↔ a < b ∨ a = b ∧ l < m := by
  rw [List.cons_lt_cons_iff, UInt8.lt_iff_toNat_lt, ← UInt8.toNat_inj,
    UInt8.toNat_ofNat_of_lt' ha, UInt8.toNat_ofNat_of_lt' hb]

lemma toNat_lt_of_char (c : Char) : c.val.toNat < 0x110000 := by
  rcases c.valid with h | ⟨-, h⟩
  · exact Nat.lt_trans h (by decide)
  · exact h

/-- Numbers compare by their digits to the base 64, the highest first. -/
lemma digits_lt {v w : Nat} (h : v < w) : v / 262144 < w / 262144 ∨ v / 262144 = w / 262144 ∧
    (v / 4096 % 64 < w / 4096 % 64 ∨ v / 4096 % 64 = w / 4096 % 64 ∧
      (v / 64 % 64 < w / 64 % 64 ∨ v / 64 % 64 = w / 64 % 64 ∧ v % 64 < w % 64)) := by
  have hfour (n : Nat) : n / 4096 = n / 64 / 64 := by
    rw [Nat.div_div_eq_div_mul]
  have hsix (n : Nat) : n / 262144 = n / 64 / 64 / 64 := by
    rw [Nat.div_div_eq_div_mul, Nat.div_div_eq_div_mul]
  rw [hfour, hfour, hsix, hsix]
  omega

/-- Of two characters, the bytes of the lower one come first, whatever follows. -/
lemma utf8EncodeChar_append_lt {c d : Char} (h : c < d) (l m : List UInt8) :
    String.utf8EncodeChar c ++ l < String.utf8EncodeChar d ++ m := by
  have hlt : c.val.toNat < d.val.toNat := h
  have hd := toNat_lt_of_char d
  generalize hv : c.val.toNat = v at hlt
  generalize hw : d.val.toNat = w at hlt hd
  have hdigits := digits_lt hlt
  have hvtop : v / 262144 % 8 = v / 262144 := by omega
  have hwtop : w / 262144 % 8 = w / 262144 := by omega
  simp only [String.utf8EncodeChar, hv, hw]
  -- a longer form has a higher first byte; within a form the bytes are digits, the highest first
  split_ifs <;>
  · simp (disch := omega) only [List.cons_append, ofNat_cons_lt, hvtop, hwtop]
    omega

/-- Texts compare by their bytes as they do by their characters. -/
lemma encode_lt {text text' : List Char} (h : text < text') : encode text < encode text' := by
  rw [← List.lex_lt] at h
  induction h with
  | @nil c rest =>
    rw [encode_cons]
    obtain ⟨x, l, hx⟩ := List.exists_cons_of_ne_nil (String.utf8EncodeChar_ne_nil (c := c))
    rw [hx]
    exact List.nil_lt_cons ..
  | @rel c rest d rest' hcd =>
    rw [encode_cons, encode_cons]
    exact utf8EncodeChar_append_lt hcd _ _
  | @cons c rest rest' _ ih =>
    rw [encode_cons, encode_cons]
    exact List.append_left_lt ih

/-! ### Line ends -/

/-- The byte of a line end. -/
def lineFeed : UInt8 := 10

lemma lineFeed_not_mem {c : Char} (h : c ≠ '\n') : lineFeed ∉ String.utf8EncodeChar c := by
  intro hmem
  have hlow : c.val.toNat = 10 := by
    simp only [String.utf8EncodeChar] at hmem
    generalize c.val.toNat = v at hmem ⊢
    split_ifs at hmem <;>
    · simp only [List.mem_cons, List.not_mem_nil, or_false, lineFeed, ← UInt8.toNat_inj,
        UInt8.toNat_ofNat, UInt8.toNat_ofNat'] at hmem
      omega
  exact h (Char.ext (UInt32.toNat_inj.mp hlow))

end CrossAsm
