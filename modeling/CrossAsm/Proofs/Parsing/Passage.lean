import Mathlib.Tactic.Common
import CrossAsm.Tree.Parser

/-!
The way from one place to a later one on the same line, by the tokens on it. Every step of reading
goes such a way, whether it gives something or fails.
-/

namespace CrossAsm

lemma Token.eq_mark_of_kind {t : Token} {m : Mark} (h : t.kind = .mark m) : t = .mark m := by
  rcases t with _ | _ | _ | _ | m' <;> simp [kind] at h ⊢
  exact h

namespace Cursor

variable {c d e : Cursor} {t : Token} {ts us : List Token}

lemma peek_eq (c : Cursor) : c.peek = c.ahead.head?.map (·.token) := by
  rw [peek, peekAhead, List.head?_eq_getElem?]

lemma peek_eq_some : c.peek = some t ↔ ∃ l rest, c.ahead = l :: rest ∧ l.token = t := by
  rw [peek_eq]
  rcases c.ahead with _ | ⟨l, rest⟩
  · simp
  · constructor
    · intro h
      exact ⟨l, rest, rfl, by simpa using h⟩
    · rintro ⟨l', rest', h, rfl⟩
      obtain ⟨rfl, -⟩ := List.cons.inj h
      rfl

lemma peek_eq_none : c.peek = none ↔ c.ahead = [] := by
  rw [peek_eq]
  rcases c.ahead with _ | ⟨l, rest⟩ <;> simp

lemma advance_of_ahead {l : Lexeme} {rest : List Lexeme} (h : c.ahead = l :: rest) :
    c.advance = ⟨c.lines, c.position + 1, some l, rest⟩ := by
  simp [advance, h]

lemma location_of_ahead {l : Lexeme} {rest : List Lexeme} (h : c.ahead = l :: rest) :
    c.location = c.lines.locate l.span := by
  simp [location, peekSpan, h]

/-- A check of a mark is a look at the next token. -/
lemma check_mark {m : Mark} : c.check (.mark m) = true ↔ c.peek = some (.mark m) := by
  unfold check
  rcases c.peek with _ | t
  · simp
  · cases t <;> simp [Token.kind]

lemma check_identifier : c.check .identifier = true ↔ ∃ name, c.peek = some (.identifier name) := by
  unfold check
  rcases c.peek with _ | t
  · simp
  · cases t <;> simp [Token.kind]

lemma accept?_mark {m : Mark} :
    c.accept? (.mark m) = some d ↔ c.peek = some (.mark m) ∧ c.advance = d := by
  unfold accept?
  split
  · next h => simp [check_mark.mp h]
  · next h =>
    have hpeek : c.peek ≠ some (.mark m) := fun hp => h (check_mark.mpr hp)
    simp [hpeek]

lemma accept?_eq_none {m : Mark} :
    c.accept? (.mark m) = none ↔ c.peek ≠ some (.mark m) := by
  unfold accept?
  split
  · next h => simp [check_mark.mp h]
  · next h =>
    have hpeek : c.peek ≠ some (.mark m) := fun hp => h (check_mark.mpr hp)
    simp [hpeek]

lemma identifierThen_mark {m : Mark} :
    c.identifierThen (.mark m) = true ↔
      ∃ name, c.peek = some (.identifier name) ∧ c.advance.peek = some (.mark m) := by
  have hnext : c.peek ≠ none → c.peekAhead 1 = c.advance.peek := by
    intro h
    obtain ⟨t, ht⟩ := Option.ne_none_iff_exists'.mp h
    obtain ⟨l, rest, hl, -⟩ := peek_eq_some.mp ht
    rw [advance_of_ahead hl, peek_eq, peekAhead, hl]
    simp [List.head?_eq_getElem?]
  rw [identifierThen, Bool.and_eq_true, check_identifier]
  constructor
  · rintro ⟨⟨name, hname⟩, hk⟩
    rw [hnext (by simp [hname])] at hk
    exact ⟨name, hname, check_mark.mp hk⟩
  · rintro ⟨name, hname, hk⟩
    rw [hnext (by simp [hname])]
    exact ⟨⟨name, hname⟩, check_mark.mpr hk⟩

lemma atLineEnd_iff : c.atLineEnd = true ↔ c.peek = none ∨ c.peek = some (.mark .newline) := by
  rw [atLineEnd, Bool.or_eq_true, check_mark, peek_eq_none, atEnd, List.isEmpty_iff]

lemma peek_ne_newline_of_atLineEnd (h : c.atLineEnd = false) :
    c.peek ≠ some (.mark .newline) := by
  intro hp
  rw [atLineEnd_iff.mpr (.inr hp)] at h
  simp at h

lemma atEnd_of_atLineEnd (h : c.atLineEnd = false) : c.atEnd = false := by
  simp only [atLineEnd, Bool.or_eq_false_iff] at h
  exact h.1

/-! ### Passages -/

/-- From one place to another the tokens are passed, none of which ends the line. -/
inductive Passes : Cursor → List Token → Cursor → Prop
  | refl (c : Cursor) : Passes c [] c
  | step {c d : Cursor} {t : Token} {ts : List Token} (hp : c.peek = some t)
      (ht : t ≠ .mark .newline) (h : Passes c.advance ts d) : Passes c (t :: ts) d

lemma Passes.one (hp : c.peek = some t) (ht : t ≠ .mark .newline) : c.Passes [t] c.advance :=
  .step hp ht (.refl _)

lemma Passes.trans (h : c.Passes ts d) (h' : d.Passes us e) : c.Passes (ts ++ us) e := by
  induction h with
  | refl c => exact h'
  | step hp ht _ ih => exact .step hp ht (ih h')

lemma passes_nil : c.Passes [] d ↔ c = d := by
  constructor
  · rintro ⟨⟩
    rfl
  · rintro rfl
    exact .refl c

lemma passes_cons : c.Passes (t :: ts) d ↔
    c.peek = some t ∧ t ≠ .mark .newline ∧ c.advance.Passes ts d := by
  constructor
  · rintro ⟨⟩
    exact ⟨‹_›, ‹_›, ‹_›⟩
  · rintro ⟨hp, ht, h⟩
    exact .step hp ht h

lemma passes_append : c.Passes (ts ++ us) e ↔ ∃ d, c.Passes ts d ∧ d.Passes us e := by
  induction ts generalizing c with
  | nil => simp [passes_nil]
  | cons t ts ih =>
    simp only [List.cons_append, passes_cons, ih]
    constructor
    · rintro ⟨hp, ht, d, h, h'⟩
      exact ⟨d, ⟨hp, ht, h⟩, h'⟩
    · rintro ⟨d, ⟨hp, ht, h⟩, h'⟩
      exact ⟨hp, ht, d, h, h'⟩

/-- What a passage leaves behind. -/
structure Left (c : Cursor) (w : List Lexeme) (d : Cursor) : Prop where
  ahead : c.ahead = w ++ d.ahead
  position : d.position = c.position + w.length
  lines : d.lines = c.lines
  inLine : ∀ l ∈ w, l.token ≠ .mark .newline

lemma Passes.left (h : c.Passes ts d) : ∃ w, w.map (·.token) = ts ∧ c.Left w d := by
  induction h with
  | refl c => exact ⟨[], rfl, rfl, rfl, rfl, by simp⟩
  | @step c d t ts hp ht _ ih =>
    obtain ⟨w, rfl, hleft⟩ := ih
    obtain ⟨l, rest, hl, rfl⟩ := peek_eq_some.mp hp
    rw [advance_of_ahead hl] at hleft
    refine ⟨l :: w, rfl, ?_, ?_, hleft.lines, ?_⟩
    · rw [hl, List.cons_append, ← hleft.ahead]
    · have hpos : d.position = c.position + 1 + w.length := hleft.position
      rw [hpos, List.length_cons]
      omega
    · intro l' hl'
      rcases List.mem_cons.mp hl' with rfl | hl'
      · exact ht
      · exact hleft.inLine l' hl'

variable {w : List Lexeme}

lemma Left.trans {w' : List Lexeme} (h : c.Left w d) (h' : d.Left w' e) :
    c.Left (w ++ w') e where
  ahead := by rw [h.ahead, h'.ahead, List.append_assoc]
  position := by rw [h'.position, h.position, List.length_append, Nat.add_assoc]
  lines := h'.lines.trans h.lines
  inLine l hl := (List.mem_append.mp hl).elim (h.inLine l) (h'.inLine l)

lemma Left.upTo (h : c.Left w d) : c.upTo d = w := by
  rw [Cursor.upTo, h.ahead, h.position, Nat.add_sub_cancel_left, List.take_left]

lemma Left.ahead_length_lt (h : c.Left w d) (hw : w ≠ []) : d.ahead.length < c.ahead.length := by
  have := List.length_pos_iff.mpr hw
  rw [h.ahead, List.length_append]
  omega

lemma lineLength_append (w rest : List Lexeme) (h : ∀ l ∈ w, l.token ≠ .mark .newline) :
    lineLength (w ++ rest) = w.length + lineLength rest := by
  induction w with
  | nil => simp
  | cons l w ih =>
    rw [List.cons_append, lineLength, if_neg (h l List.mem_cons_self),
      ih fun l' hl' => h l' (List.mem_cons_of_mem l hl'), List.length_cons]
    omega

lemma Left.room (h : c.Left w d) : c.room = w.length + d.room := by
  rw [Cursor.room, h.ahead, lineLength_append w _ h.inLine, Cursor.room]

/-- A passage is as long as its tokens, and the room on the line shrinks by it. -/
lemma Passes.room (h : c.Passes ts d) : c.room = ts.length + d.room := by
  obtain ⟨w, rfl, hleft⟩ := h.left
  rw [hleft.room, List.length_map]

/-! ### Places -/

section Places

variable {lines : LineMap} {lexemes : List Lexeme} {p : Nat}

/-- The place with so many of the lexemes behind it. -/
def ofPosition (lines : LineMap) (lexemes : List Lexeme) (p : Nat) : Cursor :=
  ⟨lines, p, (lexemes.take p).getLast?, lexemes.drop p⟩

lemma peek_ofPosition :
    (ofPosition lines lexemes p).peek = lexemes[p]?.map (·.token) := by
  simp [peek_eq, ofPosition]

lemma advance_ofPosition (h : p < lexemes.length) :
    (ofPosition lines lexemes p).advance = ofPosition lines lexemes (p + 1) := by
  have hahead : (ofPosition lines lexemes p).ahead = lexemes[p] :: lexemes.drop (p + 1) :=
    List.drop_eq_getElem_cons h
  have hbehind : (lexemes.take (p + 1)).getLast? = some lexemes[p] := by
    rw [List.take_succ_eq_append_getElem h, List.getLast?_concat]
  rw [advance_of_ahead hahead, ofPosition, ofPosition, hbehind]

/-- A passage between lexemes is as long as its tokens. -/
lemma Passes.of_position (h : (ofPosition lines lexemes p).Passes ts d) :
    d = ofPosition lines lexemes (p + ts.length) := by
  induction ts generalizing p with
  | nil => exact (passes_nil.mp h).symm
  | cons t ts ih =>
    obtain ⟨hp, -, hrest⟩ := passes_cons.mp h
    rw [peek_ofPosition] at hp
    obtain ⟨l, hl, -⟩ := Option.map_eq_some_iff.mp hp
    obtain ⟨hlt, -⟩ := List.getElem?_eq_some_iff.mp hl
    rw [advance_ofPosition hlt] at hrest
    rw [ih hrest, List.length_cons, Nat.add_right_comm, Nat.add_assoc]

lemma Left.extract {w : List Lexeme} {q : Nat}
    (h : (ofPosition lines lexemes p).Left w (ofPosition lines lexemes q)) :
    lexemes.extract p q = w := h.upTo

end Places

/-! ### Skipping -/

lemma skipFrom_cons (lines : LineMap) (p : Token → Bool) (position : Nat)
    (previous : Option Lexeme) (l : Lexeme) (rest : List Lexeme) :
    skipFrom lines p position previous (l :: rest) =
      if p l.token then skipFrom lines p (position + 1) (some l) rest
      else ⟨lines, position, previous, l :: rest⟩ := rfl

lemma skipWhile_of_peek {p : Token → Bool} (hp : c.peek = some t) (ht : p t = true) :
    c.skipWhile p = c.advance.skipWhile p := by
  obtain ⟨l, rest, hl, rfl⟩ := peek_eq_some.mp hp
  rw [advance_of_ahead hl, skipWhile, hl, skipFrom_cons, if_pos ht]
  rfl

lemma skipWhile_eq_self {p : Token → Bool} (h : ∀ t, c.peek = some t → p t = false) :
    c.skipWhile p = c := by
  obtain ⟨lines, position, previous, ahead⟩ := c
  rcases ahead with _ | ⟨l, rest⟩
  · rfl
  · have hl := h l.token (by simp [peek_eq])
    rw [skipWhile, skipFrom_cons, if_neg (by simp [hl])]

lemma skipNewlines_of_newline (h : c.peek = some (.mark .newline)) :
    c.skipNewlines = c.advance.skipNewlines := skipWhile_of_peek h (by simp)

lemma skipNewlines_eq_self (h : c.peek ≠ some (.mark .newline)) : c.skipNewlines = c := by
  refine skipWhile_eq_self fun t ht => ?_
  rw [decide_eq_false_iff_not]
  rintro rfl
  exact h ht

/-- Skipping ends of lines loses nothing else and leaves none ahead. -/
lemma skipNewlines_spec (c : Cursor) : c.skipNewlines.ahead.length ≤ c.ahead.length ∧
    c.skipNewlines.peek ≠ some (.mark .newline) := by
  obtain ⟨n, hn⟩ : ∃ n, c.ahead.length = n := ⟨_, rfl⟩
  induction n generalizing c with
  | zero =>
    have hpeek : c.peek = none := peek_eq_none.mpr (List.length_eq_zero_iff.mp hn)
    have hne : c.peek ≠ some (.mark .newline) := by simp [hpeek]
    rw [skipNewlines_eq_self hne]
    exact ⟨Nat.le_refl _, hne⟩
  | succ n ih =>
    by_cases hpeek : c.peek = some (.mark .newline)
    · obtain ⟨l, rest, hl, -⟩ := peek_eq_some.mp hpeek
      have hadv : c.advance.ahead.length = n := by
        rw [advance_of_ahead hl]
        simpa [hl] using hn
      obtain ⟨hle, hne⟩ := ih c.advance hadv
      rw [skipNewlines_of_newline hpeek]
      exact ⟨by omega, hne⟩
    · rw [skipNewlines_eq_self hpeek]
      exact ⟨Nat.le_refl _, hpeek⟩

/-- Skipping a line passes what is left of it. -/
lemma passes_skipLine (c : Cursor) :
    ∃ ts, c.Passes ts c.skipLine ∧ c.skipLine.atLineEnd = true := by
  obtain ⟨n, hn⟩ : ∃ n, c.ahead.length = n := ⟨_, rfl⟩
  induction n generalizing c with
  | zero =>
    have hpeek : c.peek = none := peek_eq_none.mpr (List.length_eq_zero_iff.mp hn)
    have hskip : c.skipLine = c := skipWhile_eq_self (by simp [hpeek])
    exact ⟨[], by rw [hskip]; exact .refl c, by rw [hskip, atLineEnd_iff]; exact .inl hpeek⟩
  | succ n ih =>
    rcases hpeek : c.peek with _ | t
    · simp [peek_eq_none.mp hpeek] at hn
    by_cases ht : t = .mark .newline
    · have hskip : c.skipLine = c := skipWhile_eq_self (by simp [hpeek, ht])
      refine ⟨[], by rw [hskip]; exact .refl c, ?_⟩
      rw [hskip, atLineEnd_iff, hpeek, ht]
      exact .inr rfl
    · obtain ⟨l, rest, hl, rfl⟩ := peek_eq_some.mp hpeek
      have hskip : c.skipLine = c.advance.skipLine :=
        skipWhile_of_peek hpeek (by simpa using ht)
      obtain ⟨ts, hts, hend⟩ := ih c.advance (by
        rw [advance_of_ahead hl]
        simpa [hl] using hn)
      exact ⟨l.token :: ts, by rw [hskip]; exact .step hpeek ht hts, by rw [hskip]; exact hend⟩

lemma Passes.skipLine_eq (h : c.Passes ts d) (hd : d.atLineEnd = true) : c.skipLine = d := by
  induction h with
  | refl c =>
    refine skipWhile_eq_self fun t ht => ?_
    rcases atLineEnd_iff.mp hd with hp | hp
    · simp [hp] at ht
    · obtain rfl : .mark .newline = t := Option.some.inj (hp.symm.trans ht)
      simp
  | step hp ht _ ih => exact (skipWhile_of_peek hp (by simpa using ht)).trans (ih hd)

lemma room_of_atLineEnd (h : c.atLineEnd = true) : c.room = 0 := by
  rw [room]
  rcases atLineEnd_iff.mp h with hp | hp
  · rw [peek_eq_none.mp hp, lineLength]
  · obtain ⟨l, rest, hl, hnl⟩ := peek_eq_some.mp hp
    rw [hl, lineLength, if_pos hnl]

end Cursor

/-! ### Outcomes -/

namespace Outcome

variable {α β : Type} {c d : Cursor} {P : α → List Token → Prop} {Q : β → List Token → Prop}

/-- A step of reading stays on its line, and `P` relates what it gives to the tokens it passed. -/
def Took (c : Cursor) (P : α → List Token → Prop) : Outcome α → Prop
  | ok a d => ∃ ts, c.Passes ts d ∧ P a ts
  | fail _ d => ∃ ts, c.Passes ts d

lemma took_fail (f : Fault) : (c.fail f : Outcome α).Took c P := ⟨[], .refl c⟩

lemma took_ok {a : α} (h : P a []) : (ok a c).Took c P := ⟨[], .refl c, h⟩

/-- A step that starts with a token. -/
lemma Took.step {o : Outcome α} {t : Token} (hp : c.peek = some t) (ht : t ≠ .mark .newline)
    (h : o.Took c.advance fun a ts => P a (t :: ts)) : o.Took c P := by
  cases o with
  | ok a d =>
    obtain ⟨ts, hts, ha⟩ := h
    exact ⟨t :: ts, .step hp ht hts, ha⟩
  | fail f d =>
    obtain ⟨ts, hts⟩ := h
    exact ⟨t :: ts, .step hp ht hts⟩

lemma Took.bind {o : Outcome α} {f : α → Cursor → Outcome β} (h : o.Took c P)
    (hf : ∀ a ts d, P a ts → (f a d).Took d fun b us => Q b (ts ++ us)) :
    (o.bind f).Took c Q := by
  cases o with
  | fail g d => exact h
  | ok a d =>
    obtain ⟨ts, hts, ha⟩ := h
    have hfad := hf a ts d ha
    show (f a d).Took c Q
    cases hfd : f a d with
    | ok b e =>
      rw [hfd] at hfad
      obtain ⟨us, hus, hb⟩ := hfad
      exact ⟨ts ++ us, hts.trans hus, hb⟩
    | fail g e =>
      rw [hfd] at hfad
      obtain ⟨us, hus⟩ := hfad
      exact ⟨ts ++ us, hts.trans hus⟩

lemma Took.mono {P' : α → List Token → Prop} {o : Outcome α} (h : o.Took c P)
    (hP : ∀ a ts, P a ts → P' a ts) : o.Took c P' := by
  cases o with
  | fail g d => exact h
  | ok a d =>
    obtain ⟨ts, hts, ha⟩ := h
    exact ⟨ts, hts, hP a ts ha⟩

lemma Took.map {o : Outcome α} {f : α → β} (h : o.Took c P)
    (hf : ∀ a ts, P a ts → Q (f a) ts) : (o.map f).Took c Q := by
  cases o with
  | fail g d => exact h
  | ok a d =>
    obtain ⟨ts, hts, ha⟩ := h
    exact ⟨ts, hts, hf a ts ha⟩

end Outcome

lemma Cursor.expect_took (c : Cursor) {m : Mark} (hm : m ≠ .newline) (what : String) :
    (c.expect (.mark m) what).Took c fun _ ts => ts = [.mark m] := by
  unfold expect
  split
  · next l rest hl =>
    split
    · next hk =>
      have ht := Token.eq_mark_of_kind hk
      exact ⟨[.mark m], .one (peek_eq_some.mpr ⟨l, rest, hl, ht⟩) (by simpa using hm), rfl⟩
    · exact Outcome.took_fail _
  · exact Outcome.took_fail _

end CrossAsm
