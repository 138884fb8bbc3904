import Mathlib.Tactic.Common
import CrossAsm.Proofs.Likeness
import CrossAsm.Proofs.Scanning

/-!
The spelling of tokens. Every token that is scanned is spelled by a rule that does not mention what
stands around it, and a token so spelled is scanned again wherever what follows cannot continue it.
-/

namespace CrossAsm

namespace Scan

open Numeral

/-! ### Characters -/

lemma le_toNat_iff (a c : Char) : a ≤ c ↔ a.toNat ≤ c.toNat := UInt32.le_iff_toNat_le

lemma isDigit_iff (c : Char) : c.isDigit = true ↔ 48 ≤ c.toNat ∧ c.toNat ≤ 57 := by
  simp [Char.isDigit, UInt32.le_iff_toNat_le]

lemma isNameStart_iff (c : Char) : isNameStart c = true ↔
    65 ≤ c.toNat ∧ c.toNat ≤ 90 ∨ 97 ≤ c.toNat ∧ c.toNat ≤ 122 ∨ c = '_' := by
  have hletter : c.isAlpha = (decide (c.val ≥ 65 ∧ c.val ≤ 90) ||
    (decide (c.val ≥ 97) && decide (c.val ≤ 122))) := rfl
  simp [isNameStart, hletter, UInt32.le_iff_toNat_le, or_assoc]

lemma isNameChar_of_isHexDigit {c : Char} (h : isHexDigit c = true) : isNameChar c = true := by
  rw [isNameChar, Bool.or_eq_true, isNameStart_iff, isDigit_iff]
  simp only [isHexDigit, Bool.or_eq_true, Bool.and_eq_true, decide_eq_true_eq, isDigit_iff,
    le_toNat_iff] at h
  have ha : 'a'.toNat = 97 := rfl
  have hf : 'f'.toNat = 102 := rfl
  have hA : 'A'.toNat = 65 := rfl
  have hF : 'F'.toNat = 70 := rfl
  omega

lemma isNameChar_of_isBinaryDigit {c : Char} (h : isBinaryDigit c = true) :
    isNameChar c = true := by
  simp only [isBinaryDigit, Bool.or_eq_true, decide_eq_true_eq] at h
  obtain rfl | rfl := h <;> rfl

/-- A digit is neither blank nor the start of a comment. -/
lemma next_of_digit {c : Char} (hc : c.isDigit = true) (rest : List Char) :
    next c rest =
      number 10 (c :: rest.takeWhile Char.isDigit) (c :: rest.takeWhile Char.isDigit) := by
  have hblank : isBlank c = false := by
    by_contra h
    simp only [isBlank, Bool.not_eq_false, Bool.or_eq_true, decide_eq_true_eq] at h
    obtain ((rfl | rfl) | rfl) | rfl := h <;> simp at hc
  have hsemicolon : c ≠ ';' := by
    rintro rfl
    simp at hc
  simp [next, hblank, hsemicolon, hc]

/-- A letter is not a digit either. -/
lemma next_of_nameStart {c : Char} (hc : isNameStart c = true) (rest : List Char) :
    next c rest = .token (.identifier (String.ofList (c :: rest.takeWhile isNameChar)))
      (c :: rest.takeWhile isNameChar) := by
  have hblank : isBlank c = false := by
    by_contra h
    simp only [isBlank, Bool.not_eq_false, Bool.or_eq_true, decide_eq_true_eq] at h
    obtain ((rfl | rfl) | rfl) | rfl := h <;> simp [isNameStart] at hc
  have hsemicolon : c ≠ ';' := by
    rintro rfl
    simp [isNameStart] at hc
  have hdigit : c.isDigit = false := by
    by_contra h
    have h := (isDigit_iff c).mp (by simpa using h)
    rcases (isNameStart_iff c).mp hc with hn | hn | rfl
    · omega
    · omega
    · have : '_'.toNat = 95 := rfl
      omega
  simp [next, hblank, hsemicolon, hdigit, hc]

/-! ### Spelling -/

/-- How a token is written. -/
inductive Spells : Token → List Char → Prop
  | decimal {c : Char} {digits : List Char} (hc : c.isDigit = true)
      (hdigits : ∀ d ∈ digits, d.isDigit = true) (hn : read 10 (c :: digits) < 0x100000000) :
      Spells (.number (UInt32.ofNat (read 10 (c :: digits)))) (c :: digits)
  | hexadecimal {digits : List Char} (hne : digits ≠ [])
      (hdigits : ∀ d ∈ digits, isHexDigit d = true) (hn : read 16 digits < 0x100000000) :
      Spells (.number (UInt32.ofNat (read 16 digits))) ('$' :: digits)
  | binary {digits : List Char} (hne : digits ≠ [])
      (hdigits : ∀ d ∈ digits, isBinaryDigit d = true) (hn : read 2 digits < 0x100000000) :
      Spells (.number (UInt32.ofNat (read 2 digits))) ('%' :: digits)
  | name {c : Char} {rest : List Char} (hc : isNameStart c = true)
      (hrest : ∀ d ∈ rest, isNameChar d = true) :
      Spells (.identifier (String.ofList (c :: rest))) (c :: rest)
  | char {c : Char} (hquote : c ≠ '\'') (hnewline : c ≠ '\n') : Spells (.char c.val) ['\'', c, '\'']
  | string {body : List Char} (hbody : ∀ c ∈ body, (c != '"' && c != '\n') = true) :
      Spells (.string (String.ofList body)) ('"' :: body ++ ['"'])
  | mark (m : Mark) : Spells (.mark m) [m.char]

lemma Spells.eq_of_mark {m : Mark} {text : List Char} (h : Spells (.mark m) text) :
    text = [m.char] := by
  cases h
  rfl

lemma Spells.eq_of_identifier {name : String} {text : List Char}
    (h : Spells (.identifier name) text) : text = name.toList := by
  cases h
  exact (String.toList_ofList).symm

lemma mem_takeWhile {p : Char → Bool} {rest : List Char} : ∀ d ∈ rest.takeWhile p, p d = true :=
  List.all_eq_true.mp List.all_takeWhile

lemma ofChar?_eq_some {c : Char} {m : Mark} (h : Mark.ofChar? c = some m) : m.char = c := by
  unfold Mark.ofChar? at h
  split at h <;> first | (obtain rfl := Option.some.inj h; rfl) | simp at h

lemma number_eq_token {base : Nat} {digits text text' : List Char} {t : Token}
    (h : number base digits text = .token t text') :
    read base digits < 0x100000000 ∧ t = .number (UInt32.ofNat (read base digits)) ∧
      text' = text := by
  simp only [number] at h
  split at h
  · next hn =>
    obtain ⟨rfl, rfl⟩ := Piece.token.inj h
    exact ⟨hn, rfl, rfl⟩
  · simp at h

lemma spells_of_hexNumber {rest text : List Char} {t : Token}
    (h : hexNumber rest = .token t text) : Spells t text := by
  unfold hexNumber at h
  split at h
  · simp at h
  · next hne =>
    obtain ⟨hn, rfl, rfl⟩ := number_eq_token h
    exact .hexadecimal hne mem_takeWhile hn

lemma spells_of_binaryNumber {rest text : List Char} {t : Token}
    (h : binaryNumber rest = .token t text) : Spells t text := by
  unfold binaryNumber at h
  split at h
  · obtain ⟨rfl, rfl⟩ := Piece.token.inj h
    exact .mark .percent
  · next hne =>
    obtain ⟨hn, rfl, rfl⟩ := number_eq_token h
    exact .binary hne mem_takeWhile hn

lemma spells_of_character {rest text : List Char} {t : Token}
    (h : character rest = .token t text) : Spells t text := by
  unfold character at h
  split at h
  · split at h
    · simp at h
    · next hc =>
      obtain ⟨rfl, rfl⟩ := Piece.token.inj h
      simp only [Bool.or_eq_true, decide_eq_true_eq, not_or] at hc
      exact .char hc.1 hc.2
  · simp at h

lemma spells_of_string {rest text : List Char} {t : Token}
    (h : string rest = .token t text) : Spells t text := by
  simp only [string] at h
  split at h
  · obtain ⟨rfl, rfl⟩ := Piece.token.inj h
    exact .string mem_takeWhile
  · simp at h

/-- Whatever is scanned as a token is spelled as one. -/
lemma spells_of_next {c : Char} {rest text : List Char} {t : Token}
    (h : next c rest = .token t text) : Spells t text := by
  unfold next at h
  split at h
  · simp at h
  split at h
  · simp at h
  split at h
  · next hdigit =>
    obtain ⟨hn, rfl, rfl⟩ := number_eq_token h
    exact .decimal hdigit mem_takeWhile hn
  split at h
  · next hstart =>
    obtain ⟨rfl, rfl⟩ := Piece.token.inj h
    exact .name hstart mem_takeWhile
  split at h
  · exact spells_of_hexNumber h
  split at h
  · exact spells_of_binaryNumber h
  split at h
  · exact spells_of_character h
  split at h
  · exact spells_of_string h
  split at h
  · next m hm =>
    obtain ⟨rfl, rfl⟩ := Piece.token.inj h
    rw [← ofChar?_eq_some hm]
    exact .mark m
  · simp at h

/-! ### Scanning again -/

/-- What follows does not continue a word. -/
def Delimits (follow : List Char) : Prop :=
  ∀ c, follow.head? = some c → isNameChar c = false

lemma delimits_cons {c : Char} (h : isNameChar c = false) (rest : List Char) :
    Delimits (c :: rest) := by
  intro d hd
  rwa [← Option.some.inj hd]

/-- Tokens that end by themselves, whatever follows. -/
def isClosed : Token → Bool
  | .char _ | .string _ => true
  | .mark m => m ≠ .percent
  | _ => false

lemma Spells.isClosed {t : Token} {c : Char} {rest : List Char} (h : Spells t (c :: rest))
    (hname : isNameChar c = false) (hdollar : c ≠ '$') (hpercent : c ≠ '%') :
    isClosed t = true := by
  generalize htext : c :: rest = text at h
  cases h with
  | decimal hc =>
    obtain ⟨rfl, -⟩ := List.cons.inj htext
    simp [isNameChar, hc] at hname
  | hexadecimal => exact absurd (List.cons.inj htext).1 hdollar
  | binary => exact absurd (List.cons.inj htext).1 hpercent
  | name hc =>
    obtain ⟨rfl, -⟩ := List.cons.inj htext
    simp [isNameChar, hc] at hname
  | char => rfl
  | string => rfl
  | mark m =>
    have hm : m ≠ .percent := by
      rintro rfl
      exact hpercent (List.cons.inj htext).1
    simp [Scan.isClosed, hm]

lemma takeWhile_append_eq {p : Char → Bool} {word follow : List Char}
    (hword : ∀ c ∈ word, p c = true) (hfollow : ∀ c, follow.head? = some c → p c = false) :
    (word ++ follow).takeWhile p = word := by
  rw [List.takeWhile_append_of_pos hword]
  have hstop : follow.takeWhile p = [] := by
    cases follow with
    | nil => rfl
    | cons c rest => simp [hfollow c rfl]
  rw [hstop, List.append_nil]

lemma Delimits.of_imp {follow : List Char} (h : Delimits follow) {p : Char → Bool}
    (hp : ∀ c, p c = true → isNameChar c = true) :
    ∀ c, follow.head? = some c → p c = false := by
  intro c hc
  by_contra hpc
  have := hp c (by simpa using hpc)
  rw [h c hc] at this
  simp at this

lemma number_eq {base : Nat} {digits : List Char} (text : List Char)
    (hn : read base digits < 0x100000000) :
    number base digits text = .token (.number (UInt32.ofNat (read base digits))) text := by
  simp [number, hn]

lemma hexNumber_append {digits follow : List Char} (hne : digits ≠ [])
    (hdigits : ∀ d ∈ digits, isHexDigit d = true) (hf : Delimits follow) :
    hexNumber (digits ++ follow) = number 16 digits ('$' :: digits) := by
  rw [hexNumber, takeWhile_append_eq hdigits (hf.of_imp fun d => isNameChar_of_isHexDigit)]
  cases digits with
  | nil => exact absurd rfl hne
  | cons d rest => rfl

lemma binaryNumber_append {digits follow : List Char} (hne : digits ≠ [])
    (hdigits : ∀ d ∈ digits, isBinaryDigit d = true) (hf : Delimits follow) :
    binaryNumber (digits ++ follow) = number 2 digits ('%' :: digits) := by
  rw [binaryNumber, takeWhile_append_eq hdigits (hf.of_imp fun d => isNameChar_of_isBinaryDigit)]
  cases digits with
  | nil => exact absurd rfl hne
  | cons d rest => rfl

/-- A binary digit would make a number of the sign. -/
lemma binaryNumber_of_delimits {follow : List Char} (hf : Delimits follow) :
    binaryNumber follow = .token (.mark .percent) ['%'] := by
  have htake : follow.takeWhile isBinaryDigit = [] :=
    takeWhile_append_eq (List.forall_mem_nil _) (hf.of_imp fun d => isNameChar_of_isBinaryDigit)
  rw [binaryNumber, htake]

lemma string_append {body : List Char} (hbody : ∀ c ∈ body, (c != '"' && c != '\n') = true)
    (follow : List Char) :
    string (body ++ '"' :: follow) =
      .token (.string (String.ofList body)) ('"' :: body ++ ['"']) := by
  have hquote : ∀ c, ('"' :: follow).head? = some c → (c != '"' && c != '\n') = false := by
    intro c hc
    obtain rfl := Option.some.inj hc
    rfl
  simp only [string, takeWhile_append_eq hbody hquote, List.drop_left]

lemma next_mark {m : Mark} (hm : m ≠ .percent) (rest : List Char) :
    next m.char rest = .token (.mark m) [m.char] := by
  cases m <;> first | rfl | exact absurd rfl hm

/-- **A token is scanned again** where what follows does not continue it. -/
lemma next_of_spells {t : Token} {text follow : List Char} (h : Spells t text)
    (hf : isClosed t = true ∨ Delimits follow) :
    ∃ c rest, text = c :: rest ∧ next c (rest ++ follow) = .token t text := by
  cases h with
  | @decimal c digits hc hdigits hn =>
    have hf := hf.resolve_left (by simp [isClosed])
    have htake := takeWhile_append_eq hdigits
      (hf.of_imp fun d hd => by rw [isNameChar, hd, Bool.or_true])
    refine ⟨c, digits, rfl, ?_⟩
    rw [next_of_digit hc, htake]
    exact number_eq _ hn
  | @hexadecimal digits hne hdigits hn =>
    have hf := hf.resolve_left (by simp [isClosed])
    exact ⟨'$', digits, rfl, (hexNumber_append hne hdigits hf).trans (number_eq _ hn)⟩
  | @binary digits hne hdigits hn =>
    have hf := hf.resolve_left (by simp [isClosed])
    exact ⟨'%', digits, rfl, (binaryNumber_append hne hdigits hf).trans (number_eq _ hn)⟩
  | @name c rest hc hrest =>
    have hf := hf.resolve_left (by simp [isClosed])
    refine ⟨c, rest, rfl, ?_⟩
    rw [next_of_nameStart hc, takeWhile_append_eq hrest hf]
  | @char c hquote hnewline =>
    have hnext : next '\'' ([c, '\''] ++ follow) = character (c :: '\'' :: follow) := rfl
    refine ⟨'\'', [c, '\''], rfl, ?_⟩
    rw [hnext, character, if_neg (by simp [hquote, hnewline])]
  | @string body hbody =>
    refine ⟨'"', body ++ ['"'], rfl, ?_⟩
    rw [List.append_assoc]
    exact string_append hbody follow
  | mark m =>
    refine ⟨m.char, [], rfl, ?_⟩
    by_cases hm : m = .percent
    · subst hm
      exact binaryNumber_of_delimits (hf.resolve_left (by simp [isClosed]))
    · exact next_mark hm _

/-- No token starts with a blank. -/
lemma Spells.head {t : Token} {text : List Char} (h : Spells t text) :
    ∃ c rest, text = c :: rest ∧ isBlank c = false := by
  obtain ⟨c, rest, htext, hnext⟩ := next_of_spells h (.inr (by simp [Delimits]) : _ ∨ Delimits [])
  refine ⟨c, rest, htext, ?_⟩
  by_contra hblank
  rw [next, if_pos (by simpa using hblank)] at hnext
  simp at hnext

lemma head_append {t : Token} {text : List Char} (h : Spells t text) (rest : List Char) :
    ∀ c, (text ++ rest).head? = some c → isBlank c = false := by
  obtain ⟨d, tail, rfl, hblank⟩ := h.head
  intro c hc
  obtain rfl : d = c := Option.some.inj hc
  exact hblank

/-! ### Whole texts -/

/-- The tokens of a text, each with what spells it. None of the text is at fault. -/
inductive Tokens : List Char → List (Token × String) → Prop
  | nil : Tokens [] []
  | token {c : Char} {rest follow : List Char} {t : Token} {words : List (Token × String)}
      (hnext : next c (rest ++ follow) = .token t (c :: rest)) (h : Tokens follow words) :
      Tokens (c :: rest ++ follow) ((t, String.ofList (c :: rest)) :: words)
  | skip {c : Char} {rest follow : List Char} {words : List (Token × String)}
      (hnext : next c (rest ++ follow) = .skip (c :: rest)) (h : Tokens follow words) :
      Tokens (c :: rest ++ follow) words

section Tokens

variable {t : Token} {text follow : List Char} {words : List (Token × String)}

lemma tokens_of_spells (h : Spells t text) (hf : isClosed t = true ∨ Delimits follow)
    (hfollow : Tokens follow words) :
    Tokens (text ++ follow) ((t, String.ofList text) :: words) := by
  obtain ⟨c, rest, rfl, hnext⟩ := next_of_spells h hf
  exact .token hnext hfollow

/-- A space is skipped, and nothing with it unless more of its kind follow. -/
lemma tokens_space (hblank : ∀ c, follow.head? = some c → isBlank c = false)
    (hfollow : Tokens follow words) : Tokens (' ' :: follow) words := by
  have hskip : isBlank ' ' = true := rfl
  have htake : follow.takeWhile isBlank = [] :=
    takeWhile_append_eq (List.forall_mem_nil _) hblank
  have hnext : next ' ' follow = .skip [' '] := by rw [next, if_pos hskip, htake]
  exact @Tokens.skip ' ' [] follow words hnext hfollow

lemma piecesUpTo_cons {c : Char} {rest : List Char}
    (h : (next c (rest ++ follow)).text = c :: rest) {count : Nat}
    (hcount : (c :: rest ++ follow).length ≤ count) :
    ∃ n, follow.length ≤ n ∧
      piecesUpTo count (c :: rest ++ follow) = next c (rest ++ follow) :: piecesUpTo n follow := by
  obtain _ | n := count
  · simp at hcount
  have hdrop : (c :: (rest ++ follow)).drop (c :: rest).length = follow := List.drop_left
  simp only [List.cons_append, List.length_cons, List.length_append] at hcount
  refine ⟨n, by omega, ?_⟩
  simp only [List.cons_append, piecesUpTo, h]
  rw [hdrop]

/-- Scanning cuts a text into the tokens it is made of. -/
lemma lexemes_of_tokens (h : Tokens text words) {count : Nat} (hcount : text.length ≤ count)
    (lines : LineMap) (offset : Nat) :
    faults lines offset (piecesUpTo count text) = [] ∧
      (lexemes offset (piecesUpTo count text)).map Lexeme.word = words := by
  induction h generalizing count offset with
  | nil => cases count <;> exact ⟨rfl, rfl⟩
  | @token c rest follow t words hnext _ ih =>
    obtain ⟨n, hn, hpieces⟩ := piecesUpTo_cons (by rw [hnext]; rfl) hcount
    obtain ⟨hfaults, hlexemes⟩ := ih hn (offset + byteLength (c :: rest))
    rw [hpieces, hnext]
    exact ⟨hfaults, congrArg _ hlexemes⟩
  | @skip c rest follow words hnext _ ih =>
    obtain ⟨n, hn, hpieces⟩ := piecesUpTo_cons (by rw [hnext]; rfl) hcount
    rw [hpieces, hnext]
    exact ih hn (offset + byteLength (c :: rest))

end Tokens

lemma spells_of_pieces (count : Nat) (text : List Char) :
    ∀ p ∈ piecesUpTo count text, ∀ t word, p = .token t word → Spells t word := by
  induction count generalizing text with
  | zero => simp [piecesUpTo]
  | succ count ih =>
    rcases text with _ | ⟨c, rest⟩
    · simp [piecesUpTo]
    · intro p hp t word ht
      rcases List.mem_cons.mp hp with rfl | hp
      · exact spells_of_next ht
      · exact ih _ p hp t word ht

lemma spells_of_lexemes {pieces : List Piece}
    (h : ∀ p ∈ pieces, ∀ t word, p = .token t word → Spells t word) (offset : Nat) :
    ∀ l ∈ lexemes offset pieces, Spells l.token l.text.toList := by
  induction pieces generalizing offset with
  | nil => simp [lexemes]
  | cons p rest ih =>
    have hrest := ih (fun q hq => h q (List.mem_cons_of_mem p hq)) (offset + byteLength p.text)
    cases p with
    | skip text => exact hrest
    | fault f text => exact hrest
    | token t text =>
      intro l hl
      rcases List.mem_cons.mp hl with rfl | hl
      · rw [String.toList_ofList]
        exact h _ List.mem_cons_self t text rfl
      · exact hrest l hl

end Scan

/-- Every lexeme of a source is spelled by its text. -/
lemma spells_of_tokenize {source : String} {lexemes : List Lexeme}
    (h : tokenize source = .ok lexemes) : ∀ l ∈ lexemes, Scan.Spells l.token l.text.toList := by
  simp only [tokenize] at h
  split at h
  · obtain rfl : Scan.lexemes 0 (Scan.pieces source.toList) = lexemes := by simpa using h
    exact Scan.spells_of_lexemes (Scan.spells_of_pieces _ _) 0
  · simp at h

/-- **Scanning** gives back the tokens of a text that is made of them. -/
lemma tokenize_of_tokens {text : List Char} {words : List (Token × String)}
    (h : Scan.Tokens text words) :
    ∃ lexemes, tokenize (String.ofList text) = .ok lexemes ∧ lexemes.map Lexeme.word = words := by
  obtain ⟨hfaults, hlexemes⟩ := Scan.lexemes_of_tokens h (Nat.le_refl _)
    (LineMap.ofString (String.ofList text)) 0
  refine ⟨_, ?_, hlexemes⟩
  simp only [tokenize, String.toList_ofList, Scan.pieces, hfaults]

end CrossAsm
