import Mathlib.Tactic.Common
import CrossAsm.Proofs.Rescanning
import CrossAsm.Proofs.Tiling

/-!
A source is cut into pieces that leave nothing out. Each piece is settled by the patterns of tokens:
it is the longest match of any of them, or none of them matches and it is skipped or at fault. Main
statement: `source_cut_into_pieces`.
-/

namespace CrossAsm

/-! ### Patterns -/

/-- A number as it is written, and its value. -/
inductive Numeral.Literal : List Char → Nat → Prop
  | decimal {digits : List Char} (hne : digits ≠ []) (h : ∀ d ∈ digits, d.isDigit = true) :
      Literal digits (read 10 digits)
  | hexadecimal {digits : List Char} (hne : digits ≠ []) (h : ∀ d ∈ digits, isHexDigit d = true) :
      Literal ('$' :: digits) (read 16 digits)
  | binary {digits : List Char} (hne : digits ≠ []) (h : ∀ d ∈ digits, isBinaryDigit d = true) :
      Literal ('%' :: digits) (read 2 digits)

/-- The patterns of tokens. That of numbers does not look at the value. -/
inductive Token.Kind.Matches : Token.Kind → List Char → Prop
  | number {text : List Char} {n : Nat} (h : Numeral.Literal text n) : Matches .number text
  | char {c : Char} (hquote : c ≠ '\'') (hnewline : c ≠ '\n') : Matches .char ['\'', c, '\'']
  | string {body : List Char} (h : ∀ c ∈ body, (c != '"' && c != '\n') = true) :
      Matches .string ('"' :: body ++ ['"'])
  | identifier {c : Char} {rest : List Char} (hc : Scan.isNameStart c = true)
      (h : ∀ d ∈ rest, Scan.isNameChar d = true) : Matches .identifier (c :: rest)
  | mark (m : Mark) : Matches (.mark m) [m.char]

namespace Scan

open Numeral

variable {c : Char} {rest text follow u : List Char} {k : Token.Kind}

/-- No pattern matches more than the text of what starts there. -/
def IsLongest (text follow : List Char) : Prop :=
  ∀ (k : Token.Kind) (u : List Char), k.Matches u → u <+: text ++ follow → u.length ≤ text.length

/-- No pattern matches anything at the start of the text. -/
def NoneMatches (text : List Char) : Prop :=
  ∀ (k : Token.Kind) (u : List Char), k.Matches u → ¬u <+: text

end Scan

/-- What is wrong with a character that opens nothing. -/
def Fault.ofStray (c : Char) : Fault :=
  if c = '$' then .badNumber "$" else if c = '\'' then .badCharacter else .strayCharacter c

/-- The piece is what there is to be cut off in front of what follows. -/
inductive Piece.Fits (follow : List Char) : Piece → Prop
  | blanks {text : List Char} (hne : text ≠ []) (h : ∀ c ∈ text, Scan.isBlank c = true)
      (hend : ∀ c, follow.head? = some c → Scan.isBlank c = false) : Fits follow (.skip text)
  | comment {text : List Char} (h : ∀ c ∈ text, c ≠ '\n')
      (hend : ∀ c, follow.head? = some c → c = '\n') : Fits follow (.skip (';' :: text))
  | token {t : Token} {text : List Char} (h : Scan.Spells t text) (hkind : t.kind.Matches text)
      (hmax : Scan.IsLongest text follow) : Fits follow (.token t text)
  | tooBig {text : List Char} {n : Nat} (h : Numeral.Literal text n) (hn : 0x100000000 ≤ n)
      (hmax : Scan.IsLongest text follow) :
      Fits follow (.fault (.badNumber (String.ofList text)) text)
  | openString {text : List Char} (hnone : Scan.NoneMatches ('"' :: text ++ follow))
      (h : ∀ c ∈ text, c ≠ '\n') (hend : ∀ c, follow.head? = some c → c = '\n') :
      Fits follow (.fault .openString ('"' :: text))
  | stray {c : Char} (hnone : Scan.NoneMatches (c :: follow)) (hblank : Scan.isBlank c = false)
      (hcomment : c ≠ ';') : Fits follow (.fault (.ofStray c) [c])

namespace Scan

open Numeral

variable {c : Char} {rest text follow u : List Char} {k : Token.Kind} {f : Fault}

/-! ### Matches at the start of a text -/

lemma length_le_takeWhile {p : Char → Bool} (hu : ∀ d ∈ u, p d = true) (h : u <+: rest) :
    u.length ≤ (rest.takeWhile p).length := by
  obtain ⟨more, rfl⟩ := h
  rw [List.takeWhile_append_of_pos hu, List.length_append]
  omega

lemma takeWhile_ne_nil {p : Char → Bool} (hne : u ≠ []) (hu : ∀ d ∈ u, p d = true)
    (h : u <+: rest) : rest.takeWhile p ≠ [] := by
  have hpos := List.length_pos_iff.mpr hne
  have hle := length_le_takeWhile hu h
  exact List.length_pos_iff.mp (by omega)

lemma hexNumber_eq (h : rest.takeWhile isHexDigit ≠ []) :
    hexNumber rest =
      number 16 (rest.takeWhile isHexDigit) ('$' :: rest.takeWhile isHexDigit) := by
  unfold hexNumber
  split
  · next hnil => exact absurd hnil h
  · rfl

lemma binaryNumber_eq (h : rest.takeWhile isBinaryDigit ≠ []) :
    binaryNumber rest =
      number 2 (rest.takeWhile isBinaryDigit) ('%' :: rest.takeWhile isBinaryDigit) := by
  unfold binaryNumber
  split
  · next hnil => exact absurd hnil h
  · rfl

/-- Where a number is written, one at least as long is scanned. -/
lemma next_of_literal {n : Nat} (h : Literal u n) (hu : u <+: c :: rest) :
    ∃ base digits text, next c rest = number base digits text ∧ u.length ≤ text.length ∧
      Literal text (read base digits) := by
  cases h with
  | @decimal digits hne h =>
    obtain ⟨d, digits, rfl⟩ := List.exists_cons_of_ne_nil hne
    obtain ⟨rfl, hprefix⟩ := List.cons_prefix_cons.mp hu
    obtain ⟨hd, h⟩ := List.forall_mem_cons.mp h
    refine ⟨_, _, _, next_of_digit hd rest, ?_, .decimal (List.cons_ne_nil _ _) ?_⟩
    · exact Nat.succ_le_succ (length_le_takeWhile h hprefix)
    · exact List.forall_mem_cons.mpr ⟨hd, mem_takeWhile⟩
  | @hexadecimal digits hne h =>
    obtain ⟨rfl, hprefix⟩ := List.cons_prefix_cons.mp hu
    have hsome := takeWhile_ne_nil hne h hprefix
    exact ⟨_, _, _, hexNumber_eq hsome, Nat.succ_le_succ (length_le_takeWhile h hprefix),
      .hexadecimal hsome mem_takeWhile⟩
  | @binary digits hne h =>
    obtain ⟨rfl, hprefix⟩ := List.cons_prefix_cons.mp hu
    have hsome := takeWhile_ne_nil hne h hprefix
    exact ⟨_, _, _, binaryNumber_eq hsome, Nat.succ_le_succ (length_le_takeWhile h hprefix),
      .binary hsome mem_takeWhile⟩

lemma number_eq_fault {base : Nat} {digits : List Char}
    (h : number base digits text = .fault f u) :
    0x100000000 ≤ read base digits ∧ f = .badNumber (String.ofList text) ∧ u = text := by
  simp only [number] at h
  split at h
  · simp at h
  · next hn =>
    obtain ⟨rfl, rfl⟩ := Piece.fault.inj h
    exact ⟨Nat.le_of_not_lt hn, rfl, rfl⟩

/-- A number of more than 32 bits is at fault as a whole. -/
def TooBig (f : Fault) (text : List Char) : Prop :=
  f = .badNumber (String.ofList text) ∧ ∃ n, Literal text n ∧ 0x100000000 ≤ n

lemma binaryNumber_eq_fault (h : binaryNumber rest = .fault f text) : TooBig f text := by
  unfold binaryNumber at h
  split at h
  · simp at h
  · next hne =>
    obtain ⟨hn, rfl, rfl⟩ := number_eq_fault h
    exact ⟨rfl, _, .binary hne mem_takeWhile, hn⟩

/-- A token that ends by itself is scanned wherever it is written. -/
lemma next_of_isClosed {t : Token} (h : Spells t u) (hclosed : isClosed t = true)
    (hu : u <+: c :: rest) : next c rest = .token t u := by
  obtain ⟨more, hmore⟩ := hu
  obtain ⟨d, w, rfl, hnext⟩ := @next_of_spells t u more h (.inl hclosed)
  obtain ⟨rfl, rfl⟩ := List.cons.inj hmore
  exact hnext

/-- What a pattern matches is scanned, or more than that, and only a number may be at fault. -/
lemma next_of_matches (h : k.Matches u) (hu : u <+: c :: rest) :
    u.length ≤ (next c rest).text.length ∧
      ∀ f text, next c rest = .fault f text → TooBig f text := by
  cases h with
  | number h =>
    obtain ⟨base, digits, text, hnext, hle, hliteral⟩ := next_of_literal h hu
    rw [hnext, number_text]
    refine ⟨hle, fun f text' hfault => ?_⟩
    obtain ⟨hn, rfl, rfl⟩ := number_eq_fault hfault
    exact ⟨rfl, _, hliteral, hn⟩
  | char hquote hnewline =>
    rw [next_of_isClosed (.char hquote hnewline) rfl hu]
    exact ⟨Nat.le_refl _, by simp⟩
  | string h =>
    rw [next_of_isClosed (.string h) rfl hu]
    exact ⟨Nat.le_refl _, by simp⟩
  | identifier hd h =>
    obtain ⟨rfl, hprefix⟩ := List.cons_prefix_cons.mp hu
    rw [next_of_nameStart hd]
    exact ⟨Nat.succ_le_succ (length_le_takeWhile h hprefix), by simp⟩
  | mark m =>
    refine ⟨List.length_pos_iff.mpr (opens_next c rest).1, fun f text hfault => ?_⟩
    by_cases hm : m = .percent
    · -- the sign may open a number
      subst hm
      obtain ⟨rfl, -⟩ := List.cons_prefix_cons.mp hu
      exact binaryNumber_eq_fault hfault
    · rw [next_of_isClosed (.mark m) (by simp [isClosed, hm]) hu] at hfault
      simp at hfault

lemma isLongest_next (h : text ++ follow = c :: rest) (htext : (next c rest).text = text) :
    IsLongest text follow := by
  intro k u hk hu
  rw [h] at hu
  rw [← htext]
  exact (next_of_matches hk hu).1

lemma matches_of_spells {t : Token} (h : Spells t text) : t.kind.Matches text := by
  cases h with
  | decimal hc hdigits hn =>
    exact .number (.decimal (List.cons_ne_nil _ _) (List.forall_mem_cons.mpr ⟨hc, hdigits⟩))
  | hexadecimal hne hdigits hn => exact .number (.hexadecimal hne hdigits)
  | binary hne hdigits hn => exact .number (.binary hne hdigits)
  | name hc hrest => exact .identifier hc hrest
  | char hquote hnewline => exact .char hquote hnewline
  | string hbody => exact .string hbody
  | mark m => exact .mark m

/-! ### One piece -/

/-- What follows a run stops it. -/
lemma head_of_takeWhile {p : Char → Bool} (h : rest.takeWhile p ++ follow = rest) :
    ∀ d, follow.head? = some d → p d = false := by
  have hfollow : follow = rest.dropWhile p :=
    List.append_cancel_left (h.trans List.takeWhile_append_dropWhile.symm)
  intro d hd
  have hstop := List.head?_dropWhile_not p rest
  rw [hfollow] at hd
  rwa [hd] at hstop

lemma skip_cases (h : next c rest = .skip text) :
    isBlank c = true ∧ text = c :: rest.takeWhile isBlank ∨
      c = ';' ∧ text = c :: rest.takeWhile (· != '\n') := by
  unfold next at h
  split at h
  · next hc => exact .inl ⟨hc, (Piece.skip.inj h).symm⟩
  split at h
  · next hc => exact .inr ⟨hc, (Piece.skip.inj h).symm⟩
  -- nothing else is skipped
  simp only [number, hexNumber, binaryNumber, character, string] at h
  repeat' split at h
  all_goals simp at h

/-- A fault that is no number takes one character, or a line from a quotation mark on. -/
lemma fault_cases (h : next c rest = .fault f text) :
    TooBig f text ∨ (isBlank c = false ∧ c ≠ ';') ∧
      (f = .ofStray c ∧ text = [c] ∨ c = '"' ∧ f = .openString ∧
        text = '"' :: rest.takeWhile fun d => d != '"' && d != '\n') := by
  unfold next at h
  split at h
  · simp at h
  next hblank =>
  split at h
  · simp at h
  next hcomment =>
  have hother : isBlank c = false ∧ c ≠ ';' := ⟨by simpa using hblank, hcomment⟩
  split at h
  · next hdigit =>
    obtain ⟨hn, rfl, rfl⟩ := number_eq_fault h
    exact .inl ⟨rfl, _, .decimal (List.cons_ne_nil _ _)
      (List.forall_mem_cons.mpr ⟨hdigit, mem_takeWhile⟩), hn⟩
  split at h
  · simp at h
  split at h
  · next hc =>
    unfold hexNumber at h
    split at h
    · obtain ⟨rfl, rfl⟩ := Piece.fault.inj h
      exact .inr ⟨hother, .inl (by rw [hc]; exact ⟨rfl, rfl⟩)⟩
    · next hne =>
      obtain ⟨hn, rfl, rfl⟩ := number_eq_fault h
      exact .inl ⟨rfl, _, .hexadecimal hne mem_takeWhile, hn⟩
  next hdollar =>
  split at h
  · exact .inl (binaryNumber_eq_fault h)
  split at h
  · next hc =>
    have hquote : f = .badCharacter ∧ text = ['\''] := by
      unfold character at h
      split at h
      · split at h
        · exact ⟨(Piece.fault.inj h).1.symm, (Piece.fault.inj h).2.symm⟩
        · simp at h
      · exact ⟨(Piece.fault.inj h).1.symm, (Piece.fault.inj h).2.symm⟩
    exact .inr ⟨hother, .inl (by rw [hc]; exact hquote)⟩
  next hapostrophe =>
  split at h
  · next hc =>
    simp only [string] at h
    split at h
    · simp at h
    · obtain ⟨rfl, rfl⟩ := Piece.fault.inj h
      exact .inr ⟨hother, .inr ⟨hc, rfl, rfl⟩⟩
  split at h
  · simp at h
  · obtain ⟨rfl, rfl⟩ := Piece.fault.inj h
    exact .inr ⟨hother, .inl ⟨by rw [Fault.ofStray, if_neg hdollar, if_neg hapostrophe], rfl⟩⟩

lemma fits_fault (hnext : next c rest = .fault f text) (h : text ++ follow = c :: rest) :
    (Piece.fault f text).Fits follow := by
  have htooBig (hbig : TooBig f text) : (Piece.fault f text).Fits follow := by
    obtain ⟨rfl, n, hn, hle⟩ := hbig
    exact .tooBig hn hle (isLongest_next h (by rw [hnext]; rfl))
  by_cases hsome : ∃ k u, Token.Kind.Matches k u ∧ u <+: c :: rest
  · obtain ⟨k, u, hk, hu⟩ := hsome
    exact htooBig ((next_of_matches hk hu).2 f text hnext)
  have hnone : NoneMatches (c :: rest) := fun k u hk hu => hsome ⟨k, u, hk, hu⟩
  rcases fault_cases hnext with hbig | ⟨⟨hblank, hcomment⟩, ⟨rfl, rfl⟩ | ⟨rfl, rfl, rfl⟩⟩
  · exact htooBig hbig
  · rw [← h] at hnone
    exact .stray hnone hblank hcomment
  · have hrest := (List.cons.inj h).2
    have hbody : ∀ d ∈ rest.takeWhile fun d => d != '"' && d != '\n',
        (d != '"' && d != '\n') = true := mem_takeWhile
    rw [← h] at hnone
    refine .openString hnone (fun d hd => ?_) (fun d hd => ?_)
    · have := hbody d hd
      simp only [Bool.and_eq_true, bne_iff_ne, ne_eq] at this
      exact this.2
    · -- a second quotation mark would close the string
      have hstop := head_of_takeWhile hrest d hd
      obtain ⟨more, rfl⟩ := List.head?_eq_some_iff.mp hd
      by_contra hline
      obtain rfl : d = '"' := by simpa [hline] using hstop
      exact hnone _ _ (.string hbody) ⟨more, by simp⟩

lemma fits_next (h : (next c rest).text ++ follow = c :: rest) :
    (next c rest).Fits follow := by
  rcases hnext : next c rest with text | ⟨t, text⟩ | ⟨f, text⟩
  · rw [hnext] at h
    rcases skip_cases hnext with ⟨hc, rfl⟩ | ⟨rfl, rfl⟩
    · exact .blanks (List.cons_ne_nil _ _) (List.forall_mem_cons.mpr ⟨hc, mem_takeWhile⟩)
        (head_of_takeWhile (List.cons.inj h).2)
    · have hstop := head_of_takeWhile (List.cons.inj h).2
      refine .comment (fun d hd => ?_) (fun d hd => ?_)
      · simpa using mem_takeWhile d hd
      · simpa using hstop d hd
  · rw [hnext] at h
    have hspells := spells_of_next hnext
    exact .token hspells (matches_of_spells hspells) (isLongest_next h (by rw [hnext]; rfl))
  · rw [hnext] at h
    exact fits_fault hnext h

/-! ### All pieces -/

/-- The pieces make up the text, and each fits in front of those behind it. -/
lemma piecesUpTo_cut {count : Nat} (hcount : text.length ≤ count) :
    (piecesUpTo count text).flatMap Piece.text = text ∧
      ∀ front p back, piecesUpTo count text = front ++ p :: back →
        p.Fits (back.flatMap Piece.text) := by
  induction count generalizing text with
  | zero =>
    obtain rfl := List.length_eq_zero_iff.mp (Nat.le_zero.mp hcount)
    simp [piecesUpTo]
  | succ count ih =>
    rcases text with _ | ⟨c, rest⟩
    · simp [piecesUpTo]
    obtain ⟨hne, hprefix⟩ := opens_next c rest
    have htext := List.prefix_iff_eq_append.mp hprefix
    have hpos := List.length_pos_iff.mpr hne
    have hlength : ((c :: rest).drop (next c rest).text.length).length ≤ count := by
      rw [List.length_drop]
      omega
    obtain ⟨hwhole, hfits⟩ := ih hlength
    refine ⟨by rw [piecesUpTo, List.flatMap_cons, hwhole, htext], fun front p back heq => ?_⟩
    rw [piecesUpTo] at heq
    rcases List.cons_eq_append_iff.mp heq with ⟨rfl, hp⟩ | ⟨front, rfl, hback⟩
    · obtain ⟨rfl, rfl⟩ := List.cons.inj hp
      rw [hwhole]
      exact fits_next htext
    · exact hfits front p back hback

end Scan

/-! ### Spans of pieces -/

/-- Spans one behind the other, none of them empty, from one offset to another. -/
inductive Span.Tile : Nat → List Span → Nat → Prop
  | nil (n : Nat) : Tile n [] n
  | cons {n m last : Nat} {spans : List Span} (h : n < m) (hrest : Tile m spans last) :
      Tile n (⟨n, m⟩ :: spans) last

namespace Piece

/-- Pieces and the bytes they take, if the first one stands at the offset. -/
def placed : Nat → List Piece → List (Span × Piece)
  | _, [] => []
  | offset, p :: rest =>
    let stop := offset + byteLength p.text
    (⟨offset, stop⟩, p) :: placed stop rest

def isFault : Piece → Bool
  | fault _ _ => true
  | _ => false

/-- The lexeme that a piece is, if it is a token. -/
def lexeme? : Span × Piece → Option Lexeme
  | (span, token t text) => some ⟨t, String.ofList text, span⟩
  | _ => none

/-- What is reported of a piece, if it is at fault. -/
def diagnostic? (lines : LineMap) : Span × Piece → Option Diagnostic
  | (span, fault f _) => some (f.diagnose (lines.locate span))
  | _ => none

variable {pieces : List Piece} {text : List Char}

lemma tile_placed (hne : ∀ p ∈ pieces, p.text ≠ []) (offset : Nat) :
    Span.Tile offset ((placed offset pieces).map (·.1))
      (offset + byteLength (pieces.flatMap Piece.text)) := by
  induction pieces generalizing offset with
  | nil => exact .nil offset
  | cons p rest ih =>
    have hp := byteLength_pos (hne p List.mem_cons_self)
    have hrest := ih (fun q hq => hne q (List.mem_cons_of_mem p hq))
      (offset + byteLength p.text)
    rw [Nat.add_assoc, ← byteLength_append] at hrest
    exact .cons (Nat.lt_add_of_pos_right hp) hrest

lemma boundary_of_placed (before after : List Char)
    (htext : text = before ++ pieces.flatMap Piece.text ++ after) :
    ∀ s ∈ (placed (byteLength before) pieces).map (·.1),
      Boundary text s.start ∧ Boundary text s.stop := by
  induction pieces generalizing before with
  | nil => simp [placed]
  | cons p rest ih =>
    have hrest := ih (before ++ p.text) (by simpa using htext)
    rw [byteLength_append] at hrest
    rw [placed, List.map_cons]
    exact List.forall_mem_cons.mpr ⟨Scan.boundaries_of_cons htext, hrest⟩

lemma lexemes_eq (offset : Nat) (pieces : List Piece) :
    Scan.lexemes offset pieces = (placed offset pieces).filterMap lexeme? := by
  induction pieces generalizing offset with
  | nil => rfl
  | cons p rest ih =>
    cases p with
    | skip text => exact ih _
    | fault f text => exact ih _
    | token t text => exact congrArg _ (ih _)

lemma faults_eq (lines : LineMap) (offset : Nat) (pieces : List Piece) :
    Scan.faults lines offset pieces = (placed offset pieces).filterMap (diagnostic? lines) := by
  induction pieces generalizing offset with
  | nil => rfl
  | cons p rest ih =>
    cases p with
    | skip text => exact ih _
    | token t text => exact ih _
    | fault f text => exact congrArg _ (ih _)

lemma faults_eq_nil_iff (lines : LineMap) (offset : Nat) (pieces : List Piece) :
    Scan.faults lines offset pieces = [] ↔ pieces.any isFault = false := by
  induction pieces generalizing offset with
  | nil => simp [Scan.faults]
  | cons p rest ih => cases p <;> simp [Scan.faults, isFault, ih]

end Piece

lemma tokenize_eq (source : String) :
    tokenize source =
      if (Scan.pieces source.toList).any Piece.isFault then
        .error ((Piece.placed 0 (Scan.pieces source.toList)).filterMap
          (Piece.diagnostic? (.ofString source)))
      else .ok ((Piece.placed 0 (Scan.pieces source.toList)).filterMap Piece.lexeme?) := by
  have hnil := Piece.faults_eq_nil_iff (.ofString source) 0 (Scan.pieces source.toList)
  rw [tokenize]
  split
  · next h =>
    rw [if_neg (by simp [hnil.mp h]), Piece.lexemes_eq]
  · next h =>
    have hany : (Scan.pieces source.toList).any Piece.isFault = true := by
      rw [← Bool.not_eq_false]
      exact mt hnil.mpr h
    rw [if_pos hany, Piece.faults_eq]

/-- **Scanning leaves nothing out.** The pieces of a source are its characters in order, each piece
is one that fits where it stands, and their spans tile the bytes of the source between boundaries
of characters. What is returned is the tokens with their spans, or else one fault for each piece
that is at fault. -/
theorem source_cut_into_pieces (source : String) :
    let pieces := Scan.pieces source.toList
    let placed := Piece.placed 0 pieces
    pieces.flatMap Piece.text = source.toList ∧
      (∀ front p back, pieces = front ++ p :: back → p.Fits (back.flatMap Piece.text)) ∧
      Span.Tile 0 (placed.map (·.1)) source.utf8ByteSize ∧
      (∀ s ∈ placed.map (·.1), Boundary source.toList s.start ∧ Boundary source.toList s.stop) ∧
      tokenize source =
        if pieces.any Piece.isFault then
          .error (placed.filterMap (Piece.diagnostic? (.ofString source)))
        else .ok (placed.filterMap Piece.lexeme?) := by
  obtain ⟨hwhole, hfits⟩ := Scan.piecesUpTo_cut (Nat.le_refl source.toList.length)
  have htile := Piece.tile_placed (Scan.piecesUpTo_ne_nil source.toList.length source.toList) 0
  rw [hwhole, Nat.zero_add, byteLength_eq_utf8ByteSize, String.ofList_toList] at htile
  refine ⟨hwhole, hfits, htile, ?_, tokenize_eq source⟩
  exact Piece.boundary_of_placed [] [] (by rw [List.append_nil]; exact hwhole.symm)

/-- Signs that open a number or do not, and faults of one character and of a line. -/
theorem source_cut_into_pieces_faulty :
    let source := "%12 \"a;\n'é"
    let back : List Piece := [.token (.number 2) ['2'], .skip [' '],
      .fault .openString ['"', 'a', ';'], .token (.mark .newline) ['\n'],
      .fault .badCharacter ['\''], .fault (.strayCharacter 'é') ['é']]
    Scan.pieces source.toList = [] ++ .token (.number 1) ['%', '1'] :: back ∧
      (Piece.token (.number 1) ['%', '1']).Fits (back.flatMap Piece.text) ∧
      ∃ faults, tokenize source = .error faults ∧
        faults.map (·.span) = [⟨4, 7⟩, ⟨8, 9⟩, ⟨9, 11⟩] := by
  intro source back
  have hchars : source.toList = ['%', '1', '2', ' ', '"', 'a', ';', '\n', '\'', 'é'] := by
    decide +kernel
  have hpieces : Scan.pieces source.toList = [] ++ .token (.number 1) ['%', '1'] :: back := by
    rw [hchars]
    rfl
  obtain ⟨-, hfits, -, -, hresult⟩ := source_cut_into_pieces source
  rw [hpieces] at hresult
  exact ⟨hpieces, hfits _ _ _ hpieces, _, hresult, rfl⟩

end CrossAsm
