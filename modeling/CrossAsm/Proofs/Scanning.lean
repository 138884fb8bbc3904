import Mathlib.Tactic.Common
import CrossAsm.Proofs.Reading
import CrossAsm.Token.Scan

/-!
What scanning gives: pieces that are no longer, taken together, than the text, tokens that stand
for no more than they are long, and faults of the text.
-/

namespace CrossAsm

/-! ### Bytes and characters -/

lemma byteLength_eq_utf8ByteSize (text : List Char) :
    byteLength text = (String.ofList text).utf8ByteSize := by
  induction text with
  | nil => rfl
  | cons c rest ih =>
    rw [byteLength, ih, ← List.singleton_append, String.ofList_append,
      String.utf8ByteSize_append]
    congr 1
    exact (String.utf8ByteSize_singleton (c := c)).symm

lemma length_le_byteLength (text : List Char) : text.length ≤ byteLength text := by
  induction text with
  | nil => exact Nat.le_refl 0
  | cons c rest ih =>
    have := c.utf8Size_pos
    simp only [List.length_cons, byteLength]
    omega

lemma length_le_utf8ByteSize (source : String) : source.toList.length ≤ source.utf8ByteSize := by
  have h := length_le_byteLength source.toList
  rwa [byteLength_eq_utf8ByteSize, String.ofList_toList] at h

/-! ### Pieces -/

namespace Piece

/-- A token stands for no more than it is long, and a fault is one of the text. -/
def Fair : Piece → Prop
  | skip _ => True
  | token t text => t.weight ≤ text.length
  | fault f _ => f.code ≠ .internalError

def totalLength : List Piece → Nat
  | [] => 0
  | p :: rest => p.text.length + totalLength rest

end Piece

namespace Scan

lemma number_fair (base : Nat) (digits text : List Char) (h : 1 ≤ text.length) :
    (number base digits text).Fair := by
  simp only [number]
  split
  · exact h
  · simp [Piece.Fair, Fault.code]

lemma number_text (base : Nat) (digits text : List Char) :
    (number base digits text).text = text := by
  simp only [number]
  split <;> rfl

lemma hexNumber_fair (rest : List Char) : (hexNumber rest).Fair := by
  unfold hexNumber
  split
  · simp [Piece.Fair, Fault.code]
  · exact number_fair _ _ _ (by simp)

lemma binaryNumber_fair (rest : List Char) : (binaryNumber rest).Fair := by
  unfold binaryNumber
  split
  · simp [Piece.Fair, Token.weight]
  · exact number_fair _ _ _ (by simp)

lemma character_fair (rest : List Char) : (character rest).Fair := by
  unfold character
  split
  · split <;> simp [Piece.Fair, Fault.code, Token.weight]
  · simp [Piece.Fair, Fault.code]

lemma string_fair (rest : List Char) : (string rest).Fair := by
  simp only [string]
  split <;> simp [Piece.Fair, Fault.code, Token.weight]

lemma next_fair (c : Char) (rest : List Char) : (next c rest).Fair := by
  unfold next
  split
  · exact trivial
  split
  · exact trivial
  split
  · exact number_fair _ _ _ (by simp)
  split
  · simp [Piece.Fair, Token.weight]
  split
  · exact hexNumber_fair rest
  split
  · exact binaryNumber_fair rest
  split
  · exact character_fair rest
  split
  · exact string_fair rest
  split <;> simp [Piece.Fair, Fault.code, Token.weight]

lemma length_takeWhile_le (p : Char → Bool) (rest : List Char) :
    (rest.takeWhile p).length ≤ rest.length :=
  (List.takeWhile_sublist p).length_le

lemma hexNumber_length (rest : List Char) : (hexNumber rest).text.length ≤ rest.length + 1 := by
  have := length_takeWhile_le Numeral.isHexDigit rest
  unfold hexNumber
  split
  · simp [Piece.text]
  · rw [number_text, List.length_cons]
    omega

lemma binaryNumber_length (rest : List Char) :
    (binaryNumber rest).text.length ≤ rest.length + 1 := by
  have := length_takeWhile_le Numeral.isBinaryDigit rest
  unfold binaryNumber
  split
  · simp [Piece.text]
  · rw [number_text, List.length_cons]
    omega

lemma character_length (rest : List Char) : (character rest).text.length ≤ rest.length + 1 := by
  unfold character
  split
  · split <;> simp [Piece.text]
  · simp [Piece.text]

lemma string_length (rest : List Char) : (string rest).text.length ≤ rest.length + 1 := by
  simp only [string]
  have hbody := length_takeWhile_le (fun c => c != '"' && c != '\n') rest
  split
  · next tail h =>
    -- the closing mark is still in the text
    have := congrArg List.length h
    simp only [List.length_drop, List.length_cons] at this
    simp only [Piece.text, List.cons_append, List.length_cons, List.length_append,
      List.length_nil]
    omega
  · simpa [Piece.text] using hbody

/-- A piece takes no more than there is. -/
lemma next_length (c : Char) (rest : List Char) :
    (next c rest).text.length ≤ rest.length + 1 := by
  unfold next
  split
  · simpa [Piece.text] using length_takeWhile_le isBlank rest
  split
  · simpa [Piece.text] using length_takeWhile_le (· != '\n') rest
  split
  · simpa [number_text] using length_takeWhile_le Char.isDigit rest
  split
  · simpa [Piece.text] using length_takeWhile_le isNameChar rest
  split
  · exact hexNumber_length rest
  split
  · exact binaryNumber_length rest
  split
  · exact character_length rest
  split
  · exact string_length rest
  split <;> simp [Piece.text]

lemma piecesUpTo_fair (count : Nat) (text : List Char) :
    ∀ p ∈ piecesUpTo count text, p.Fair := by
  induction count generalizing text with
  | zero => simp [piecesUpTo]
  | succ count ih =>
    rcases text with _ | ⟨c, rest⟩
    · simp [piecesUpTo]
    · intro p hp
      rcases List.mem_cons.mp hp with rfl | hp
      · exact next_fair c rest
      · exact ih _ p hp

lemma totalLength_piecesUpTo (count : Nat) (text : List Char) :
    Piece.totalLength (piecesUpTo count text) ≤ text.length := by
  induction count generalizing text with
  | zero => simp [piecesUpTo, Piece.totalLength]
  | succ count ih =>
    rcases text with _ | ⟨c, rest⟩
    · simp [piecesUpTo, Piece.totalLength]
    · have hn := next_length c rest
      have := ih ((c :: rest).drop (next c rest).text.length)
      simp only [List.length_drop, List.length_cons] at this
      simp only [piecesUpTo, Piece.totalLength, List.length_cons]
      omega

lemma totalWeight_lexemes (offset : Nat) (pieces : List Piece) (h : ∀ p ∈ pieces, p.Fair) :
    Lexeme.totalWeight (lexemes offset pieces) ≤ Piece.totalLength pieces := by
  induction pieces generalizing offset with
  | nil => exact Nat.le_refl 0
  | cons p rest ih =>
    have hrest := ih (offset + byteLength p.text) fun q hq => h q (List.mem_cons_of_mem p hq)
    have hp := h p List.mem_cons_self
    cases p with
    | skip text => exact Nat.le_trans hrest (Nat.le_add_left _ _)
    | fault f text => exact Nat.le_trans hrest (Nat.le_add_left _ _)
    | token t text =>
      simp only [lexemes, Lexeme.totalWeight, Piece.totalLength, Piece.text] at hrest ⊢
      simp only [Piece.Fair] at hp
      omega

lemma faults_code (lines : LineMap) (offset : Nat) (pieces : List Piece)
    (h : ∀ p ∈ pieces, p.Fair) : ∀ d ∈ faults lines offset pieces, d.code ≠ .internalError := by
  induction pieces generalizing offset with
  | nil => simp [faults]
  | cons p rest ih =>
    have hrest := ih (offset + byteLength p.text) fun q hq => h q (List.mem_cons_of_mem p hq)
    cases p with
    | skip text => exact hrest
    | token t text => exact hrest
    | fault f text =>
      intro d hd
      rcases List.mem_cons.mp hd with rfl | hd
      · exact h _ List.mem_cons_self
      · exact hrest d hd

end Scan

/-- The tokens of a source stand for no more than its bytes. -/
lemma totalWeight_of_tokenize {source : String} {lexemes : List Lexeme}
    (h : tokenize source = .ok lexemes) :
    Lexeme.totalWeight lexemes ≤ source.utf8ByteSize := by
  simp only [tokenize] at h
  split at h
  · obtain rfl : Scan.lexemes 0 (Scan.pieces source.toList) = lexemes := by simpa using h
    calc Lexeme.totalWeight (Scan.lexemes 0 (Scan.pieces source.toList))
        ≤ Piece.totalLength (Scan.pieces source.toList) :=
          Scan.totalWeight_lexemes 0 _ (Scan.piecesUpTo_fair _ _)
      _ ≤ source.toList.length := Scan.totalLength_piecesUpTo _ _
      _ ≤ source.utf8ByteSize := length_le_utf8ByteSize source
  · simp at h

/-- Lexical faults are faults of the text. -/
lemma code_of_tokenize {source : String} {faults : List Diagnostic}
    (h : tokenize source = .error faults) : ∀ d ∈ faults, d.code ≠ .internalError := by
  simp only [tokenize] at h
  split at h
  · simp at h
  · obtain rfl : Scan.faults (LineMap.ofString source) 0 (Scan.pieces source.toList) = faults := by
      simpa using h
    exact Scan.faults_code _ 0 _ (Scan.piecesUpTo_fair _ _)

end CrossAsm
