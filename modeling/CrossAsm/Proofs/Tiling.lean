import Mathlib.Tactic.Common
import CrossAsm.Proofs.Places

/-!
Pieces tile a text: each one is what the rest of the text opens with, and none is empty. So lexemes
stand one behind the other between boundaries of the text, and lexical faults point into it in the
order of their places.
-/

namespace CrossAsm

variable {text : List Char}

/-! ### What a piece takes -/

/-- The piece takes something, and just what the text opens with. -/
def Piece.Opens (p : Piece) (text : List Char) : Prop := p.text ≠ [] ∧ p.text <+: text

namespace Scan

lemma opens_of_takeWhile {p : Piece} {c : Char} {q : Char → Bool} {rest : List Char}
    (h : p.text = c :: rest.takeWhile q) : p.Opens (c :: rest) := by
  refine ⟨by simp [h], ?_⟩
  rw [h]
  exact List.cons_prefix_cons.mpr ⟨rfl, List.takeWhile_prefix q⟩

lemma opens_of_single {p : Piece} {c : Char} (h : p.text = [c]) (rest : List Char) :
    p.Opens (c :: rest) :=
  ⟨by simp [h], by simp [h]⟩

lemma opens_hexNumber (rest : List Char) : (hexNumber rest).Opens ('$' :: rest) := by
  unfold hexNumber
  split
  · exact opens_of_single rfl rest
  · exact opens_of_takeWhile (number_text _ _ _)

lemma opens_binaryNumber (rest : List Char) : (binaryNumber rest).Opens ('%' :: rest) := by
  unfold binaryNumber
  split
  · exact opens_of_single rfl rest
  · exact opens_of_takeWhile (number_text _ _ _)

lemma opens_character (rest : List Char) : (character rest).Opens ('\'' :: rest) := by
  unfold character
  split
  · next c tail =>
    split
    · exact opens_of_single rfl _
    · exact ⟨by simp [Piece.text], tail, rfl⟩
  · exact opens_of_single rfl rest

lemma opens_string (rest : List Char) : (string rest).Opens ('"' :: rest) := by
  simp only [string]
  split
  · next tail htail =>
    -- the closing mark is what follows the body
    have hbody : rest.takeWhile (fun c => c != '"' && c != '\n') <+: rest :=
      List.takeWhile_prefix _
    have hrest := List.prefix_iff_eq_append.mp hbody
    rw [htail] at hrest
    refine ⟨by simp [Piece.text], tail, ?_⟩
    simpa [Piece.text] using hrest
  · exact opens_of_takeWhile rfl

lemma opens_next (c : Char) (rest : List Char) : (next c rest).Opens (c :: rest) := by
  unfold next
  split
  · exact opens_of_takeWhile rfl
  split
  · exact opens_of_takeWhile rfl
  split
  · exact opens_of_takeWhile (number_text _ _ _)
  split
  · exact opens_of_takeWhile rfl
  split
  · next hc => exact hc ▸ opens_hexNumber rest
  split
  · next hc => exact hc ▸ opens_binaryNumber rest
  split
  · next hc => exact hc ▸ opens_character rest
  split
  · next hc => exact hc ▸ opens_string rest
  split
  · exact opens_of_single rfl rest
  · exact opens_of_single rfl rest

/-- What pieces take is the text, as far as they go. -/
lemma flatMap_piecesUpTo (count : Nat) (text : List Char) :
    (piecesUpTo count text).flatMap Piece.text <+: text := by
  induction count generalizing text with
  | zero => simp [piecesUpTo]
  | succ count ih =>
    rcases text with _ | ⟨c, rest⟩
    · simp [piecesUpTo]
    · have hopens := List.prefix_iff_eq_append.mp (opens_next c rest).2
      have hrest := ih ((c :: rest).drop (next c rest).text.length)
      have happend := (List.prefix_append_right_inj (next c rest).text).mpr hrest
      rwa [hopens] at happend

lemma piecesUpTo_ne_nil (count : Nat) (text : List Char) :
    ∀ p ∈ piecesUpTo count text, p.text ≠ [] := by
  induction count generalizing text with
  | zero => simp [piecesUpTo]
  | succ count ih =>
    rcases text with _ | ⟨c, rest⟩
    · simp [piecesUpTo]
    · intro p hp
      rcases List.mem_cons.mp hp with rfl | hp
      · exact (opens_next c rest).1
      · exact ih _ p hp

end Scan

/-! ### Lexemes -/

/-- The lexemes stand in the text from an offset on, each at or behind the end of the one before. -/
inductive Lexeme.Stand (text : List Char) : Nat → List Lexeme → Prop
  | nil {offset : Nat} : Stand text offset []
  | cons {offset : Nat} {l : Lexeme} {rest : List Lexeme} (hle : offset ≤ l.span.start)
      (hlt : l.span.start < l.span.stop) (hstart : Boundary text l.span.start)
      (hstop : Boundary text l.span.stop) (hrest : Stand text l.span.stop rest) :
      Stand text offset (l :: rest)

lemma Lexeme.Stand.mono {m n : Nat} {w : List Lexeme} (h : Lexeme.Stand text n w) (hle : m ≤ n) :
    Lexeme.Stand text m w := by
  cases h with
  | nil => exact .nil
  | cons hn hlt hstart hstop hrest => exact .cons (Nat.le_trans hle hn) hlt hstart hstop hrest

namespace Scan

variable {pieces : List Piece} {before after : List Char}

lemma boundaries_of_cons {p : Piece}
    (htext : text = before ++ (p :: pieces).flatMap Piece.text ++ after) :
    Boundary text (byteLength before) ∧ Boundary text (byteLength before + byteLength p.text) := by
  rw [List.flatMap_cons] at htext
  refine ⟨⟨before, p.text ++ pieces.flatMap Piece.text ++ after, ?_, rfl⟩,
    ⟨before ++ p.text, pieces.flatMap Piece.text ++ after, ?_, by simp⟩⟩
  · simpa using htext
  · simpa using htext

lemma lexemes_stand (before : List Char) (hne : ∀ p ∈ pieces, p.text ≠ [])
    (htext : text = before ++ pieces.flatMap Piece.text ++ after) :
    Lexeme.Stand text (byteLength before) (lexemes (byteLength before) pieces) := by
  induction pieces generalizing before with
  | nil => exact .nil
  | cons p rest ih =>
    have hp := byteLength_pos (hne p List.mem_cons_self)
    obtain ⟨hstart, hstop⟩ := boundaries_of_cons htext
    have hrest := ih (before ++ p.text) (fun q hq => hne q (List.mem_cons_of_mem p hq))
      (by simpa using htext)
    rw [byteLength_append] at hrest
    cases p with
    | skip u => exact hrest.mono (Nat.le_add_right _ _)
    | fault f u => exact hrest.mono (Nat.le_add_right _ _)
    | token t u =>
      exact .cons (Nat.le_refl _) (Nat.lt_add_of_pos_right hp) hstart hstop hrest

end Scan

lemma stand_of_tokenize {source : String} {lexemes : List Lexeme}
    (h : tokenize source = .ok lexemes) : Lexeme.Stand source.toList 0 lexemes := by
  simp only [tokenize] at h
  split at h
  · obtain rfl : Scan.lexemes 0 (Scan.pieces source.toList) = lexemes := by simpa using h
    obtain ⟨after, hafter⟩ := Scan.flatMap_piecesUpTo source.toList.length source.toList
    exact Scan.lexemes_stand [] (Scan.piecesUpTo_ne_nil _ _) hafter.symm
  · simp at h

/-! ### Lexical faults -/

namespace Diagnostic

def location (d : Diagnostic) : Location := ⟨d.line, d.column, d.span⟩

/-- The diagnostic points at a part of the text, by line, column and span. -/
def PointsInto (text : List Char) (d : Diagnostic) : Prop := d.location.PointsInto text

end Diagnostic

namespace Scan

variable {pieces : List Piece} {before after : List Char}

/-- Faults point into the text, each at or behind the end of the one before. -/
lemma faults_pointInto (before : List Char) (hne : ∀ p ∈ pieces, p.text ≠ [])
    (htext : text = before ++ pieces.flatMap Piece.text ++ after) :
    (∀ d ∈ faults (.ofChars text) (byteLength before) pieces,
        d.PointsInto text ∧ byteLength before ≤ d.span.start) ∧
      (faults (.ofChars text) (byteLength before) pieces).Pairwise
        fun d e => d.span.start < e.span.start := by
  induction pieces generalizing before with
  | nil => simp [faults]
  | cons p rest ih =>
    have hp := byteLength_pos (hne p List.mem_cons_self)
    obtain ⟨hstart, hstop⟩ := boundaries_of_cons htext
    obtain ⟨hpoint, hsorted⟩ := ih (before ++ p.text)
      (fun q hq => hne q (List.mem_cons_of_mem p hq)) (by simpa using htext)
    rw [byteLength_append] at hpoint hsorted
    have hlater : ∀ d ∈ faults (.ofChars text) (byteLength before + byteLength p.text) rest,
        d.PointsInto text ∧ byteLength before ≤ d.span.start := by
      intro d hd
      obtain ⟨hd, hle⟩ := hpoint d hd
      exact ⟨hd, by omega⟩
    cases p with
    | skip u => exact ⟨hlater, hsorted⟩
    | token t u => exact ⟨hlater, hsorted⟩
    | fault f u =>
      refine ⟨?_, List.pairwise_cons.mpr ⟨?_, hsorted⟩⟩
      · intro d hd
        rcases List.mem_cons.mp hd with rfl | hd
        · exact ⟨Location.pointsInto_locate hstart hstop (Nat.le_add_right _ _), Nat.le_refl _⟩
        · exact hlater d hd
      · intro d hd
        obtain ⟨-, hle⟩ := hpoint d hd
        show byteLength before < d.span.start
        omega

end Scan

lemma faults_of_tokenize {source : String} {faults : List Diagnostic}
    (h : tokenize source = .error faults) :
    faults ≠ [] ∧ (∀ d ∈ faults, d.PointsInto source.toList) ∧
      faults.Pairwise fun d e => d.span.start < e.span.start := by
  simp only [tokenize] at h
  split at h
  · simp at h
  · next hne =>
    obtain rfl : Scan.faults (LineMap.ofString source) 0 (Scan.pieces source.toList) = faults := by
      simpa using h
    obtain ⟨after, hafter⟩ := Scan.flatMap_piecesUpTo source.toList.length source.toList
    obtain ⟨hpoint, hsorted⟩ :=
      Scan.faults_pointInto [] (Scan.piecesUpTo_ne_nil _ _) hafter.symm
    exact ⟨hne, fun d hd => (hpoint d hd).1, hsorted⟩

end CrossAsm
