import Mathlib.Tactic.Common
import CrossAsm.Proofs.LongestMatch
import CrossAsm.Proofs.Numerals

/-!
Tokens as they are printed. A list of tokens, each in any of the forms that it may be written in and
with a space between them, is scanned into those tokens. Main statement: `written_tokens_read_back`.
-/

namespace CrossAsm

namespace Token

/-- The token can be written at all: a name is a name, and what is quoted ends neither the quotation
nor the line. -/
def Printable : Token → Prop
  | identifier name => Kind.identifier.Matches name.toList
  | string text => ∀ c ∈ text.toList, c ≠ '"' ∧ c ≠ '\n'
  | char code => ∃ c : Char, c.val = code ∧ c ≠ '\'' ∧ c ≠ '\n'
  | number _ | mark _ => True

/-- The token as it is shown, and the end of a line as itself. -/
def shown : Token → String
  | mark .newline => "\n"
  | t => t.text

/-- The token may be written so: as it is shown, or as a number in one of three bases, with zeros in
front and with letters in either case. -/
inductive Written : Token → String → Prop
  | shown {t : Token} (h : t.Printable) : Written t t.shown
  | decimal (v : UInt32) (zeros : Nat) :
      Written (.number v) (String.ofList (List.replicate zeros '0' ++ Nat.toDigits 10 v.toNat))
  | hexadecimal (v : UInt32) (zeros : Nat) {digits : List Char}
      (h : List.Forall₂ Numeral.EitherCase (Nat.toDigits 16 v.toNat) digits) :
      Written (.number v) (String.ofList ('$' :: (List.replicate zeros '0' ++ digits)))
  | binary (v : UInt32) (zeros : Nat) :
      Written (.number v)
        (String.ofList ('%' :: (List.replicate zeros '0' ++ Nat.toDigits 2 v.toNat)))

end Token

namespace Scan

open Numeral

variable {text : List Char} {v : UInt32}

/-! ### Numbers -/

lemma spells_of_literal {n : Nat} (h : Literal text n) (hn : n = v.toNat) :
    Spells (.number v) text := by
  have hlt : n < 0x100000000 := hn ▸ v.toNat_lt
  obtain rfl : v = UInt32.ofNat n := by rw [hn, UInt32.ofNat_toNat]
  cases h with
  | decimal hne h =>
    obtain ⟨d, digits, rfl⟩ := List.exists_cons_of_ne_nil hne
    obtain ⟨hd, hdigits⟩ := List.forall_mem_cons.mp h
    exact .decimal hd hdigits hlt
  | hexadecimal hne h => exact .hexadecimal hne h hlt
  | binary hne h => exact .binary hne h hlt

lemma forall_mem_zeros {p : Char → Prop} (zeros : Nat) (hzero : p '0') (h : ∀ c ∈ text, p c) :
    ∀ c ∈ List.replicate zeros '0' ++ text, p c := by
  intro c hc
  rcases List.mem_append.mp hc with hc | hc
  · exact List.eq_of_mem_replicate hc ▸ hzero
  · exact h c hc

lemma spells_decimal (v : UInt32) (zeros : Nat) :
    Spells (.number v) (List.replicate zeros '0' ++ Nat.toDigits 10 v.toNat) := by
  refine spells_of_literal (.decimal (by simp [Nat.toDigits_ne_nil]) ?_) ?_
  · exact forall_mem_zeros zeros rfl fun c => Nat.isDigit_of_mem_toDigits (by omega) (by omega)
  · rw [read_zeros, read_toDigits (by omega) (by omega)]

lemma spells_hexadecimal (v : UInt32) (zeros : Nat)
    (h : List.Forall₂ EitherCase (Nat.toDigits 16 v.toNat) text) :
    Spells (.number v) ('$' :: (List.replicate zeros '0' ++ text)) := by
  have hne : text ≠ [] := by
    rintro rfl
    exact Nat.toDigits_ne_nil (List.forall₂_nil_right_iff.mp h)
  refine spells_of_literal (.hexadecimal (by simp [hne]) ?_) ?_
  · exact forall_mem_zeros zeros rfl (isHexDigit_of_eitherCase (by omega) (by omega) h)
  · rw [read_zeros, read_of_eitherCase (by omega) (by omega) h]

lemma spells_binary (v : UInt32) (zeros : Nat) :
    Spells (.number v) ('%' :: (List.replicate zeros '0' ++ Nat.toDigits 2 v.toNat)) := by
  refine spells_of_literal (.binary (by simp [Nat.toDigits_ne_nil]) ?_) ?_
  · refine forall_mem_zeros zeros rfl fun c hc => ?_
    obtain ⟨d, hd, rfl⟩ := mem_toDigits (by omega) hc
    exact isBinaryDigit_digitChar hd
  · rw [read_zeros, read_toDigits (by omega) (by omega)]

/-! ### Tokens -/

lemma spells_name {name : String} (h : Token.Kind.identifier.Matches name.toList) :
    Spells (.identifier name) name.toList := by
  generalize htext : name.toList = text at h
  cases h with
  | identifier hc h =>
    have hspells := Spells.name hc h
    rwa [← htext, String.ofList_toList, htext] at hspells

lemma spells_shown {t : Token} (h : t.Printable) : Spells t t.shown.toList := by
  cases t with
  | number v =>
    have hshown : (Token.number v).shown = String.ofList (write 10 v.toNat) := rfl
    rw [hshown, String.toList_ofList, write_eq_toDigits (by omega) (by omega)]
    exact spells_decimal v 0
  | char code =>
    obtain ⟨c, rfl, hquote, hnewline⟩ := h
    have hshown : (Token.char c.val).shown = "'" ++ String.singleton c ++ "'" := dif_pos c.valid
    have hchars : (Token.char c.val).shown.toList = ['\'', c, '\''] := by
      rw [hshown]
      simp [String.toList_append]
    rw [hchars]
    exact .char hquote hnewline
  | string s =>
    have hshown : (Token.string s).shown.toList = '"' :: s.toList ++ ['"'] := by
      simp [Token.shown, Token.text, String.toList_append]
    have hspells : Spells (.string (String.ofList s.toList)) ('"' :: s.toList ++ ['"']) :=
      .string fun c hc => by simpa using h c hc
    rw [String.ofList_toList] at hspells
    rwa [hshown]
  | identifier name => exact spells_name h
  | mark m => cases m <;> exact .mark _

lemma spells_of_written {t : Token} {s : String} (h : t.Written s) : Spells t s.toList := by
  cases h with
  | shown h => exact spells_shown h
  | decimal v zeros => rw [String.toList_ofList]; exact spells_decimal v zeros
  | hexadecimal v zeros h => rw [String.toList_ofList]; exact spells_hexadecimal v zeros h
  | binary v zeros => rw [String.toList_ofList]; exact spells_binary v zeros

/-! ### Texts that are scanned wherever they stand -/

/-- The text starts with something, and is scanned into the words if no word goes on behind it. -/
structure Yields (text : List Char) (words : List (Token × String)) : Prop where
  start : ∃ c rest, text = c :: rest ∧ isBlank c = false
  tokens {follow : List Char} {more : List (Token × String)} (hf : Delimits follow)
    (h : Tokens follow more) : Tokens (text ++ follow) (words ++ more)

variable {u v : List Char} {words more : List (Token × String)}

lemma Yields.of_spells {t : Token} (h : Spells t u) : Yields u [(t, String.ofList u)] where
  start := h.head
  tokens hf hmore := tokens_of_spells h (.inr hf) hmore

lemma Yields.space (hu : Yields u words) (hv : Yields v more) :
    Yields (u ++ ' ' :: v) (words ++ more) where
  start := by
    obtain ⟨c, rest, rfl, hc⟩ := hu.start
    exact ⟨c, rest ++ ' ' :: v, rfl, hc⟩
  tokens {follow _} hf h := by
    have hblank : ∀ c, (v ++ follow).head? = some c → isBlank c = false := by
      obtain ⟨d, rest, rfl, hd⟩ := hv.start
      intro c hc
      obtain rfl : d = c := Option.some.inj hc
      exact hd
    rw [List.append_assoc, List.cons_append, List.append_assoc]
    exact hu.tokens (delimits_cons rfl _) (tokens_space hblank (hv.tokens hf h))

lemma Yields.whole (h : Yields u words) : Tokens u words := by
  have hend : Delimits [] := by
    intro c hc
    simp at hc
  simpa using h.tokens hend .nil

/-! ### Lists of tokens -/

lemma yields_word {w : Token × String} (h : Spells w.1 w.2.toList) : Yields w.2.toList [w] := by
  have hw := Yields.of_spells h
  rwa [String.ofList_toList] at hw

lemma yields_intercalate {w : Token × String} (hw : Spells w.1 w.2.toList)
    (h : ∀ w' ∈ words, Spells w'.1 w'.2.toList) :
    Yields ([' '].intercalate ((w :: words).map (·.2.toList))) (w :: words) := by
  induction words generalizing w with
  | nil => simpa using yields_word hw
  | cons w' rest ih =>
    obtain ⟨hw', hrest⟩ := List.forall_mem_cons.mp h
    rw [List.map_cons, List.map_cons, List.intercalate_cons_cons, List.append_assoc]
    exact (yields_word hw).space (ih hw' hrest)

lemma tokens_intercalate (h : ∀ w ∈ words, Spells w.1 w.2.toList) :
    Tokens ([' '].intercalate (words.map (·.2.toList))) words := by
  cases words with
  | nil => exact .nil
  | cons w rest =>
    obtain ⟨hw, hrest⟩ := List.forall_mem_cons.mp h
    exact (yields_intercalate hw hrest).whole

end Scan

/-- **Printing and scanning again is the identity** on lists of tokens, however the tokens of the
list are written and if there is a space between each two of them. -/
theorem written_tokens_read_back {tokens : List Token} {texts : List String}
    (h : List.Forall₂ Token.Written tokens texts) :
    ∃ lexemes, tokenize (" ".intercalate texts) = .ok lexemes ∧
      lexemes.map (·.token) = tokens ∧ lexemes.map (·.text) = texts := by
  have hlength := h.length_eq
  have hspells : ∀ w ∈ tokens.zip texts, Scan.Spells w.1 w.2.toList := by
    rintro ⟨t, s⟩ hw
    exact Scan.spells_of_written (List.forall₂_zip h hw)
  obtain ⟨lexemes, hok, hwords⟩ := tokenize_of_tokens (Scan.tokens_intercalate hspells)
  have hsource : [' '].intercalate ((tokens.zip texts).map (·.2.toList)) =
      (" ".intercalate texts).toList := by
    calc [' '].intercalate ((tokens.zip texts).map (·.2.toList))
        = [' '].intercalate (((tokens.zip texts).map Prod.snd).map String.toList) := by
          rw [List.map_map]
          rfl
      _ = (" ".intercalate texts).toList := by
          rw [List.map_snd_zip (by omega), String.toList_intercalate]
          rfl
  rw [hsource, String.ofList_toList] at hok
  have hmap {α : Type} (f : Token × String → α) :
      lexemes.map (fun l => f l.word) = (tokens.zip texts).map f := by
    rw [← hwords, List.map_map]
    rfl
  refine ⟨lexemes, hok, ?_, ?_⟩
  · exact (hmap Prod.fst).trans (List.map_fst_zip (by omega))
  · exact (hmap Prod.snd).trans (List.map_snd_zip (by omega))

/-- A sign before a number that could be taken for its own, and quotations with signs in them. -/
theorem written_tokens_read_back_signs :
    let tokens : List Token := [.mark .percent, .number 1, .string "a;%1 $'", .mark .newline,
      .char 34, .number 0xBEEF, .identifier "_x9"]
    let texts := ["%", "%001", "\"a;%1 $'\"", "\n", "'\"'", "$0bEeF", "_x9"]
    List.Forall₂ Token.Written tokens texts ∧
      ∃ lexemes, tokenize "% %001 \"a;%1 $'\" \n '\"' $0bEeF _x9" = .ok lexemes ∧
        lexemes.map (·.token) = tokens := by
  intro tokens texts
  have hbinary : Token.Written (.number 1) "%001" := .binary 1 2
  have hhex : Token.Written (.number 0xBEEF) "$0bEeF" :=
    @Token.Written.hexadecimal 0xBEEF 1 ['b', 'E', 'e', 'F']
      (.cons (.inl rfl) (.cons (.inr rfl) (.cons (.inl rfl) (.cons (.inr rfl) .nil))))
  have hstring : (Token.string "a;%1 $'").Printable := by
    have hchars : "a;%1 $'".toList = ['a', ';', '%', '1', ' ', '$', '\''] := by decide +kernel
    rw [Token.Printable, hchars]
    simp
  have hname : (Token.identifier "_x9").Printable :=
    .identifier rfl (List.forall_mem_cons.mpr ⟨rfl, List.forall_mem_singleton.mpr rfl⟩)
  have hwritten : List.Forall₂ Token.Written tokens texts :=
    .cons (.shown trivial) (.cons hbinary (.cons (.shown hstring) (.cons (.shown trivial)
      (.cons (.shown ⟨'"', rfl, by decide, by decide⟩) (.cons hhex (.cons (.shown hname) .nil))))))
  obtain ⟨lexemes, hok, htokens, -⟩ := written_tokens_read_back hwritten
  have hsource : " ".intercalate texts = "% %001 \"a;%1 $'\" \n '\"' $0bEeF _x9" := by
    decide +kernel
  exact ⟨hwritten, lexemes, hsource ▸ hok, htokens⟩

end CrossAsm
