import Mathlib.Tactic.Common
import CrossAsm.Proofs.Parsing.Completeness
import CrossAsm.Proofs.Tiling

/-!
Expressions are read by their grammar and nothing else: from a place between lexemes, reading gives
an expression if and only if the lexemes up to some place spell it and no operator follows, and it
stops at that place. Each part of what is read covers its own lexemes. Main statement:
`Parser.expression_follows_grammar`.
-/

namespace CrossAsm

/-- A token that is an operator is the mark of one. -/
lemma Token.exists_mark (t : Token) (h : t.isOperator = true) :
    ∃ op : BinaryOp, t = .mark op.mark := by
  rcases t with _ | _ | _ | _ | m
  case mark =>
    cases m
    case plus => exact ⟨.add, rfl⟩
    case minus => exact ⟨.sub, rfl⟩
    case star => exact ⟨.mul, rfl⟩
    case slash => exact ⟨.div, rfl⟩
    case percent => exact ⟨.mod, rfl⟩
    all_goals exact absurd h Bool.false_ne_true
  all_goals exact absurd h Bool.false_ne_true

/-! ### Places -/

namespace Cursor

variable {lines : LineMap} {lexemes : List Lexeme} {p : Nat} {c d : Cursor} {ts : List Token}

lemma left_advance {l : Lexeme} {rest : List Lexeme} (hl : c.ahead = l :: rest)
    (hnewline : l.token ≠ .mark .newline) : c.Left [l] c.advance := by
  rw [advance_of_ahead hl]
  exact ⟨hl, rfl, rfl, List.forall_mem_singleton.mpr hnewline⟩

lemma atLineEnd_of_room (h : c.room = 0) : c.atLineEnd = true := by
  rw [atLineEnd_iff, peek_eq]
  rw [room] at h
  rcases hahead : c.ahead with _ | ⟨l, rest⟩
  · exact .inl rfl
  · rw [hahead, lineLength] at h
    split at h
    · next hl => exact .inr (congrArg some hl)
    · omega

lemma clear_one_iff : d.Clear 1 ↔ ∀ t, d.peek = some t → t.isOperator = false := by
  constructor
  · intro h t ht
    by_contra hop
    obtain ⟨op, rfl⟩ := t.exists_mark (by simpa using hop)
    have hlow := h op ht
    cases op <;> simp [BinaryOp.precedence] at hlow
  · intro h op hop
    have hfalse : op.mark.isOperator = false := h _ hop
    rw [op.isOperator_mark] at hfalse
    exact absurd hfalse (by decide)

lemma expect_eq_ok {k : Token.Kind} {what : String} {l : Lexeme}
    (h : c.expect k what = .ok l d) :
    (∃ rest, c.ahead = l :: rest) ∧ l.token.kind = k ∧ d = c.advance := by
  unfold expect at h
  split at h
  · next l' rest hl =>
    split at h
    · next hk =>
      obtain ⟨rfl, rfl⟩ := Outcome.ok.inj h
      exact ⟨⟨rest, hl⟩, hk, rfl⟩
    · exact absurd h (by simp [fail])
  · exact absurd h (by simp [fail])

end Cursor

lemma Outcome.bind_eq_ok {α β : Type} {o : Outcome α} {f : α → Cursor → Outcome β} {b : β}
    {d : Cursor} (h : o.bind f = .ok b d) : ∃ a c, o = .ok a c ∧ f a c = .ok b d := by
  cases o with
  | ok a c => exact ⟨a, c, rfl, h⟩
  | fail g c => simp [bind] at h

/-! ### What is spelled does not depend on places -/

lemma Expr.Spelled.of_alike {level : Nat} {e e' : Expr} {ts : List Token}
    (h : e'.Spelled level ts) (halike : e.Alike .anywhere e') : e.Spelled level ts := by
  induction h generalizing e with
  | number v loc => cases halike; exact .number v _
  | char c loc => cases halike; exact .char c _
  | symbol name loc => cases halike; exact .symbol name _
  | group loc _ ih =>
    cases halike with
    | group he _ => exact .group _ (ih he)
  | tighter _ ih => exact .tighter (ih halike)
  | binary loc hop _ _ ihl ihr =>
    cases halike with
    | binary ha hb _ => exact .binary _ hop (ihl ha) (ihr hb)

/-! ### Reading goes on as long as it can -/

namespace Parser

open Outcome Cursor

variable {c d : Cursor} {e : Expr}

lemma ReadsAt.room_lt {level : Nat} {read : Cursor → Outcome Expr} (h : ReadsAt level read)
    (hok : read c = .ok e d) : d.room < c.room := by
  have htook := h c
  rw [hok] at htook
  obtain ⟨ts, hpass, hspelled⟩ := htook
  have hroom := hpass.room
  have hpos := hspelled.length_pos
  omega

/-- On lines with no more lexemes ahead than the bound, the reader stops only where no operator of
the level or a tighter one is ahead. -/
def StopsClear (level bound : Nat) (read : Cursor → Outcome Expr) : Prop :=
  ∀ ⦃c e d⦄, read c = .ok e d → c.room ≤ bound → d.Clear level

section Chains

variable {level bound : Nat} {op? : Token → Option BinaryOp} {operand : Cursor → Outcome Expr}

lemma chainFrom_stopsClear (hop : OperatorsOf level op?) (hall : AllOperatorsOf level op?)
    (htook : ReadsAt (level + 1) operand) (hstop : StopsClear (level + 1) bound operand)
    {count : Nat} {left : Expr} (hok : chainFrom op? operand count left c = .ok e d)
    (hclear : c.Clear (level + 1)) (hroom : c.room ≤ count) (hbound : c.room ≤ bound) :
    d.Clear level := by
  induction count generalizing left c with
  | zero =>
    obtain ⟨-, rfl⟩ := Outcome.ok.inj hok
    exact clear_of_atLineEnd level (atLineEnd_of_room (Nat.le_zero.mp hroom))
  | succ count ih =>
    simp only [chainFrom] at hok
    split at hok
    · next hnone =>
      obtain ⟨-, rfl⟩ := Outcome.ok.inj hok
      intro op hahead
      have hle := hclear op hahead
      have hne : op.precedence ≠ level := by
        intro heq
        rw [hahead, Option.bind_some, hall op heq] at hnone
        simp at hnone
      omega
    · next op hpeek =>
      obtain ⟨t, ht, hopt⟩ := Option.bind_eq_some_iff.mp hpeek
      obtain ⟨rfl, -⟩ := hop t op hopt
      obtain ⟨right, d₁, hright, hrest⟩ := bind_eq_ok hok
      have hsign : c.room = 1 + c.advance.room := (Passes.one ht (mark_ne_newline op)).room
      have hlt := htook.room_lt hright
      exact ih hrest (hstop hright (by omega)) (by omega) (by omega)

-- an operand takes a lexeme, so there are no more operators than the chain may have
lemma chain_stopsClear (hop : OperatorsOf level op?) (hall : AllOperatorsOf level op?)
    (htook : ReadsAt (level + 1) operand) {count : Nat}
    (hstop : StopsClear (level + 1) (count + 1) operand) :
    StopsClear level (count + 1) (chain op? operand count) := by
  intro c e d hok hroom
  obtain ⟨left, d₁, hleft, hrest⟩ := bind_eq_ok hok
  have hlt := htook.room_lt hleft
  exact chainFrom_stopsClear hop hall htook hstop hrest (hstop hleft hroom) (by omega) (by omega)

end Chains

lemma clear_three (c : Cursor) : c.Clear 3 := by
  intro op _
  cases op <;> decide

lemma expression_clear (hok : expression c = .ok e d) : d.Clear 1 := by
  rw [expression] at hok
  rcases hroom : c.room with _ | count
  · rw [hroom, expressionUpTo] at hok
    exact absurd hok (by simp [Cursor.fail])
  rw [hroom, expressionUpTo] at hok
  have hfactor : ReadsAt 3 (factorWith (expressionUpTo count)) :=
    factorWith_took (expressionUpTo_took count)
  have hterm : StopsClear 2 (count + 1) (termWith (expressionUpTo count) count) :=
    chain_stopsClear (fun _ _ => multiplicative?_eq_some) allOperatorsOf_multiplicative hfactor
      fun _ _ d _ _ => clear_three d
  have hsum : StopsClear 1 (count + 1) (sumWith (expressionUpTo count) count) :=
    chain_stopsClear (fun _ _ => additive?_eq_some) allOperatorsOf_additive
      (chain_took (fun _ _ => multiplicative?_eq_some) hfactor count) hterm
  exact hsum hok hroom.le

end Parser

/-! ### Spans -/

namespace Lexeme

/-- Neither the starts nor the ends of the lexemes ever go back. -/
def InOrder (w : List Lexeme) : Prop :=
  w.Pairwise fun l m => l.span.start ≤ m.span.start ∧ l.span.stop ≤ m.span.stop

variable {text : List Char} {offset : Nat} {w : List Lexeme}

lemma Stand.ahead (h : Stand text offset w) :
    ∀ l ∈ w, offset ≤ l.span.start ∧ offset ≤ l.span.stop := by
  induction h with
  | nil => simp
  | @cons offset l rest hle hlt _ _ _ ih =>
    refine List.forall_mem_cons.mpr ⟨⟨hle, by omega⟩, fun m hm => ?_⟩
    have := ih m hm
    omega

lemma Stand.inOrder (h : Stand text offset w) : InOrder w := by
  induction h with
  | nil => exact .nil
  | cons _ hlt _ _ hrest ih =>
    refine List.pairwise_cons.mpr ⟨fun m hm => ?_, ih⟩
    have := hrest.ahead m hm
    omega

end Lexeme

namespace Span

variable {s t : Span} {u v w : List Lexeme}

/-- The span runs from the start of the first lexeme to the end of the last one. -/
structure RunsOver (s : Span) (w : List Lexeme) : Prop where
  start : w.head?.map (·.span.start) = some s.start
  stop : w.getLast?.map (·.span.stop) = some s.stop

lemma runsOver_singleton (l : Lexeme) : l.span.RunsOver [l] := ⟨rfl, rfl⟩

/-- Of lexemes in order, the first one starts first and the last one ends last. -/
lemma RunsOver.merge (hs : s.RunsOver u) (ht : t.RunsOver v)
    (horder : Lexeme.InOrder (u ++ w ++ v)) : (s.merge t).RunsOver (u ++ w ++ v) := by
  obtain ⟨hstart, hstop⟩ := hs
  obtain ⟨hstart', hstop'⟩ := ht
  obtain ⟨l, hl, hls⟩ := Option.map_eq_some_iff.mp hstart
  obtain ⟨l', hl', hls'⟩ := Option.map_eq_some_iff.mp hstop
  obtain ⟨m, hm, hms⟩ := Option.map_eq_some_iff.mp hstart'
  obtain ⟨m', hm', hms'⟩ := Option.map_eq_some_iff.mp hstop'
  have hacross := (List.pairwise_append.mp horder).2.2
  have hle : s.start ≤ t.start := by
    rw [← hls, ← hms]
    exact (hacross l (List.mem_append_left w (List.mem_of_head? hl)) m (List.mem_of_head? hm)).1
  have hle' : s.stop ≤ t.stop := by
    rw [← hls', ← hms']
    exact (hacross l' (List.mem_append_left w (List.mem_of_getLast? hl')) m'
      (List.mem_of_getLast? hm')).2
  constructor
  · rw [List.append_assoc, List.head?_append, hl, Span.merge, Nat.min_eq_left hle, ← hls]
    rfl
  · rw [List.getLast?_append, hm', Span.merge, Nat.max_eq_right hle', ← hms']
    rfl

end Span

namespace Expr

/-- The lexemes write the expression, and each part of it covers its own lexemes. -/
inductive Covers : Expr → List Lexeme → Prop
  | number {v : UInt32} {loc : Location} {l : Lexeme} (hl : l.token = .number v)
      (hspan : loc.span.RunsOver [l]) : Covers (.number v loc) [l]
  | char {code : UInt32} {loc : Location} {l : Lexeme} (hl : l.token = .char code)
      (hspan : loc.span.RunsOver [l]) : Covers (.number code loc) [l]
  | symbol {name : String} {loc : Location} {l : Lexeme} (hl : l.token = .identifier name)
      (hspan : loc.span.RunsOver [l]) : Covers (.symbol name loc) [l]
  | group {e : Expr} {loc : Location} {first last : Lexeme} {w : List Lexeme}
      (hfirst : first.token = .mark .leftParen) (he : Covers e w)
      (hlast : last.token = .mark .rightParen)
      (hspan : loc.span.RunsOver ([first] ++ w ++ [last])) :
      Covers (.group e loc) ([first] ++ w ++ [last])
  | binary {op : BinaryOp} {a b : Expr} {loc : Location} {sign : Lexeme} {u v : List Lexeme}
      (ha : Covers a u) (hsign : sign.token = .mark op.mark) (hb : Covers b v)
      (hspan : loc.span.RunsOver (u ++ [sign] ++ v)) :
      Covers (.binary op a b loc) (u ++ [sign] ++ v)

lemma Covers.runsOver {e : Expr} {w : List Lexeme} (h : e.Covers w) :
    e.loc.span.RunsOver w := by
  cases h <;> assumption

lemma Covers.join {op : BinaryOp} {left right : Expr} {sign : Lexeme} {u v : List Lexeme}
    (hleft : left.Covers u) (hsign : sign.token = .mark op.mark) (hright : right.Covers v)
    (horder : Lexeme.InOrder (u ++ [sign] ++ v)) :
    (Parser.join left op right).Covers (u ++ [sign] ++ v) :=
  .binary hleft hsign hright (hleft.runsOver.merge hright.runsOver horder)

end Expr

namespace Parser

open Outcome Cursor

variable {c d : Cursor} {e : Expr}

lemma left_of_peek {t : Token} (hp : c.peek = some t) (hnewline : t ≠ .mark .newline) :
    ∃ l, l.token = t ∧ c.Left [l] c.advance ∧ c.location.span.RunsOver [l] := by
  obtain ⟨l, rest, hl, rfl⟩ := peek_eq_some.mp hp
  refine ⟨l, rfl, left_advance hl hnewline, ?_⟩
  rw [location_of_ahead hl]
  exact Span.runsOver_singleton l

/-- What the reader gives covers the lexemes it passed, if they are in order. -/
def ReadsCovered (read : Cursor → Outcome Expr) : Prop :=
  ∀ ⦃c e d⦄, read c = .ok e d → ∃ w, c.Left w d ∧ (Lexeme.InOrder w → e.Covers w)

section Chains

variable {level : Nat} {op? : Token → Option BinaryOp} {operand : Cursor → Outcome Expr}

-- By induction on the count: what was read so far is the left operand of the rest.
lemma chainFrom_covers (hop : OperatorsOf level op?) (hread : ReadsCovered operand) {count : Nat}
    {left : Expr} (hok : chainFrom op? operand count left c = .ok e d) :
    ∃ w, c.Left w d ∧ ∀ u, left.Covers u → Lexeme.InOrder (u ++ w) → e.Covers (u ++ w) := by
  induction count generalizing left c with
  | zero =>
    obtain ⟨rfl, rfl⟩ := Outcome.ok.inj hok
    exact ⟨[], ⟨rfl, rfl, rfl, List.forall_mem_nil _⟩, fun u hu _ => by simpa using hu⟩
  | succ count ih =>
    simp only [chainFrom] at hok
    split at hok
    · obtain ⟨rfl, rfl⟩ := Outcome.ok.inj hok
      exact ⟨[], ⟨rfl, rfl, rfl, List.forall_mem_nil _⟩, fun u hu _ => by simpa using hu⟩
    · next op hpeek =>
      obtain ⟨t, ht, hopt⟩ := Option.bind_eq_some_iff.mp hpeek
      obtain ⟨rfl, -⟩ := hop t op hopt
      obtain ⟨sign, hsign, hpast, -⟩ := left_of_peek ht (mark_ne_newline op)
      obtain ⟨right, d₁, hright, hrest⟩ := bind_eq_ok hok
      obtain ⟨v, hleft, hv⟩ := hread hright
      obtain ⟨w, hleft', hw⟩ := ih hrest
      refine ⟨[sign] ++ v ++ w, (hpast.trans hleft).trans hleft', fun u hu horder => ?_⟩
      rw [← List.append_assoc, ← List.append_assoc] at horder ⊢
      have hfront : Lexeme.InOrder (u ++ [sign] ++ v) :=
        horder.sublist (List.sublist_append_left _ w)
      have hv := hv (hfront.sublist (List.sublist_append_right _ v))
      exact hw _ (hu.join hsign hv hfront) horder

lemma chain_covers (hop : OperatorsOf level op?) (hread : ReadsCovered operand) (count : Nat) :
    ReadsCovered (chain op? operand count) := by
  intro c e d hok
  obtain ⟨left, d₁, hleft, hrest⟩ := bind_eq_ok hok
  obtain ⟨u, hpast, hu⟩ := hread hleft
  obtain ⟨w, hpast', hw⟩ := chainFrom_covers hop hread hrest
  refine ⟨u ++ w, hpast.trans hpast', fun horder => ?_⟩
  exact hw u (hu (horder.sublist (List.sublist_append_left u w))) horder

end Chains

lemma factorWith_covers {inner : Cursor → Outcome Expr} (hread : ReadsCovered inner) :
    ReadsCovered (factorWith inner) := by
  intro c e d hok
  rcases factor_cases c with (hp | ⟨v, hp⟩ | ⟨code, hp⟩ | ⟨name, hp⟩) | hp
  · simp only [factorWith, hp] at hok
    obtain ⟨e', d₁, hinner, hok⟩ := bind_eq_ok hok
    obtain ⟨last, d₂, hclose, hok⟩ := bind_eq_ok hok
    obtain ⟨rfl, rfl⟩ := Outcome.ok.inj hok
    obtain ⟨first, hfirst, hopen, hspan⟩ := left_of_peek hp (by simp)
    obtain ⟨w, hleft, hw⟩ := hread hinner
    obtain ⟨⟨rest, hahead⟩, hkind, rfl⟩ := expect_eq_ok hclose
    have hlast := Token.eq_mark_of_kind hkind
    have hend := left_advance hahead (by simp [hlast])
    refine ⟨[first] ++ w ++ [last], (hopen.trans hleft).trans hend, fun horder => ?_⟩
    have hinside : Lexeme.InOrder w :=
      horder.sublist ((List.sublist_append_right [first] w).trans (List.sublist_append_left _ _))
    exact .group hfirst (hw hinside) hlast (hspan.merge (Span.runsOver_singleton last) horder)
  · simp only [factorWith, hp] at hok
    obtain ⟨rfl, rfl⟩ := Outcome.ok.inj hok
    obtain ⟨l, hl, hleft, hspan⟩ := left_of_peek hp (by simp)
    exact ⟨[l], hleft, fun _ => .number hl hspan⟩
  · simp only [factorWith, hp] at hok
    obtain ⟨rfl, rfl⟩ := Outcome.ok.inj hok
    obtain ⟨l, hl, hleft, hspan⟩ := left_of_peek hp (by simp)
    exact ⟨[l], hleft, fun _ => .char hl hspan⟩
  · simp only [factorWith, hp] at hok
    obtain ⟨rfl, rfl⟩ := Outcome.ok.inj hok
    obtain ⟨l, hl, hleft, hspan⟩ := left_of_peek hp (by simp)
    exact ⟨[l], hleft, fun _ => .symbol hl hspan⟩
  · rw [factorWith_eq_fail hp] at hok
    exact absurd hok (by simp [Cursor.fail])

lemma expressionUpTo_covers (count : Nat) : ReadsCovered (expressionUpTo count) := by
  induction count with
  | zero =>
    intro c e d hok
    exact absurd hok (by simp [expressionUpTo, Cursor.fail])
  | succ count ih =>
    have hterm : ReadsCovered (termWith (expressionUpTo count) count) :=
      chain_covers (fun _ _ => multiplicative?_eq_some) (factorWith_covers ih) count
    exact chain_covers (fun _ _ => additive?_eq_some) hterm count

/-! ### The reader and the grammar -/

section Places

variable {lines : LineMap} {lexemes : List Lexeme} {p q : Nat}

/-- Reading from a place stops at a place, behind lexemes that spell what was read. -/
lemma expression_stops (hok : expression (.ofPosition lines lexemes p) = .ok e d) :
    d = .ofPosition lines lexemes d.position ∧ d.position ≤ lexemes.length ∧
      e.Spelled 1 ((lexemes.extract p d.position).map (·.token)) := by
  have htook := expression_took (.ofPosition lines lexemes p)
  rw [hok] at htook
  obtain ⟨ts, hpass, hspelled⟩ := htook
  have hd := hpass.of_position
  obtain ⟨w, rfl, hleft⟩ := hpass.left
  rw [hd] at hleft ⊢
  refine ⟨rfl, ?_, ?_⟩
  · have hlength := congrArg List.length hleft.ahead
    have hpos := hspelled.length_pos
    simp only [ofPosition, List.length_append, List.length_drop, List.length_map] at *
    omega
  · rwa [← hleft.extract] at hspelled

/-- From a place, what the lexemes up to another one spell is read if no operator follows there. -/
lemma expression_of_spelled (hq : q ≤ lexemes.length)
    (he : e.Spelled 1 ((lexemes.extract p q).map (·.token)))
    (hclear : (ofPosition lines lexemes q).Clear 1) :
    (expression (.ofPosition lines lexemes p)).Gives (e.Alike .anywhere)
      (.ofPosition lines lexemes q) := by
  have hpos := he.length_pos
  have hlength : ((lexemes.extract p q).map (·.token)).length = q - p := by
    rw [List.length_map, List.length_take, List.length_drop]
    omega
  have hinLine : ∀ l ∈ lexemes.extract p q, l.token ≠ .mark .newline := by
    intro l hl hnewline
    exact he.inLine (hnewline ▸ List.mem_map_of_mem hl)
  have hahead : (ofPosition lines lexemes p).ahead =
      lexemes.extract p q ++ (lexemes.drop p).drop (q - p) := (List.take_append_drop _ _).symm
  obtain ⟨d, hpass, -, -⟩ := passes_of_ahead hahead hinLine
  obtain rfl : d = ofPosition lines lexemes q := by
    have hd := hpass.of_position
    rwa [hlength, Nat.add_sub_cancel' (by omega)] at hd
  exact expression_gives he hpass hclear

lemma clear_ofPosition : (ofPosition lines lexemes q).Clear 1 ↔
    ∀ l, lexemes[q]? = some l → l.token.isOperator = false := by
  rw [clear_one_iff, peek_ofPosition]
  constructor
  · intro h l hl
    exact h l.token (by rw [hl, Option.map_some])
  · intro h t ht
    obtain ⟨l, hl, rfl⟩ := Option.map_eq_some_iff.mp ht
    exact h l hl

lemma expression_covers (hok : expression (.ofPosition lines lexemes p) = .ok e d)
    (horder : Lexeme.InOrder lexemes) : e.Covers (lexemes.extract p d.position) := by
  obtain ⟨w, hleft, hw⟩ := expressionUpTo_covers _ hok
  rw [(expression_stops hok).1] at hleft
  rw [hleft.extract]
  have hsublist : w.Sublist lexemes := by
    rw [← hleft.extract]
    exact (List.take_sublist _ _).trans (List.drop_sublist p lexemes)
  exact hw (horder.sublist hsublist)

end Places

/-- Reading from a place gives an expression, but for where its parts stand, and stops at another
place if and only if the lexemes between the two spell the expression by the grammar and the next
one is no operator. A reader that stops always stops at a place. If the lexemes are in order, as
those of a source are, the span of each part runs from its first lexeme to its last one. -/
theorem expression_follows_grammar (lines : LineMap) (lexemes : List Lexeme) (p q : Nat)
    (e : Expr) :
    ((∃ e', expression (.ofPosition lines lexemes p) = .ok e' (.ofPosition lines lexemes q) ∧
        e.Alike .anywhere e') ↔
      q ≤ lexemes.length ∧ e.Spelled 1 ((lexemes.extract p q).map (·.token)) ∧
        ∀ l, lexemes[q]? = some l → l.token.isOperator = false) ∧
    (∀ e' d, expression (.ofPosition lines lexemes p) = .ok e' d →
      d = .ofPosition lines lexemes d.position ∧
        (Lexeme.InOrder lexemes → e'.Covers (lexemes.extract p d.position))) ∧
    ∀ source, tokenize source = .ok lexemes → Lexeme.InOrder lexemes := by
  refine ⟨⟨?_, ?_⟩, ?_, ?_⟩
  · rintro ⟨e', hok, halike⟩
    obtain ⟨-, hq, hspelled⟩ := expression_stops hok
    exact ⟨hq, hspelled.of_alike halike, clear_ofPosition.mp (expression_clear hok)⟩
  · rintro ⟨hq, hspelled, hnext⟩
    exact expression_of_spelled hq hspelled (clear_ofPosition.mpr hnext)
  · intro e' d hok
    exact ⟨(expression_stops hok).1, expression_covers hok⟩
  · intro source hscan
    exact (stand_of_tokenize hscan).inOrder

/-- An address behind a mnemonic, up to the comma: a remainder in parentheses, and operators of both
levels that group to the left. -/
theorem expression_follows_grammar_address :
    let source := "lda x-10/'A'*(y%2),y"
    let place : Location := ⟨1, 1, ⟨0, 0⟩⟩
    let quotient : Expr := .binary .div (.number 10 place) (.number 65 place) place
    let remainder : Expr := .binary .mod (.symbol "y" place) (.number 2 place) place
    let e : Expr := .binary .sub (.symbol "x" place)
      (.binary .mul quotient (.group remainder place) place) place
    ∃ lexemes e', tokenize source = .ok lexemes ∧
      e.Spelled 1 ((lexemes.extract 1 12).map (·.token)) ∧
      expression (.ofPosition (.ofString source) lexemes 1) =
        .ok e' (.ofPosition (.ofString source) lexemes 12) ∧
      e.Alike .anywhere e' ∧ e'.Covers (lexemes.extract 1 12) := by
  intro source place quotient remainder e
  obtain ⟨lexemes, hscan, htokens⟩ : ∃ lexemes, tokenize source = .ok lexemes ∧
      lexemes.map (·.token) = [.identifier "lda", .identifier "x", .mark .minus, .number 10,
        .mark .slash, .char 65, .mark .star, .mark .leftParen, .identifier "y", .mark .percent,
        .number 2, .mark .rightParen, .mark .comma, .identifier "y"] := by
    have hchars : source.toList = ['l', 'd', 'a', ' ', 'x', '-', '1', '0', '/', '\'', 'A', '\'',
        '*', '(', 'y', '%', '2', ')', ',', 'y'] := by decide +kernel
    refine ⟨Scan.lexemes 0 (Scan.pieces source.toList), ?_, ?_⟩
    · rw [tokenize, hchars]
      rfl
    · rw [hchars]
      rfl
  have hlength : 12 ≤ lexemes.length := by
    rw [← List.length_map (f := (·.token)), htokens]
    decide
  have hspelled : e.Spelled 1 ((lexemes.extract 1 12).map (·.token)) := by
    rw [List.map_take, List.map_drop, htokens]
    have hquotient : quotient.Spelled 2 [.number 10, .mark .slash, .char 65] :=
      .binary place (rfl : BinaryOp.div.precedence = 2) (.tighter (.number 10 place))
        (.char 65 place)
    have hremainder : remainder.Spelled 2 [.identifier "y", .mark .percent, .number 2] :=
      .binary place (rfl : BinaryOp.mod.precedence = 2) (.tighter (.symbol "y" place))
        (.number 2 place)
    have hproduct := Expr.Spelled.binary place (rfl : BinaryOp.mul.precedence = 2) hquotient
      (.group place (.tighter hremainder))
    exact .binary place (rfl : BinaryOp.sub.precedence = 1)
      (.tighter (.tighter (.symbol "x" place))) hproduct
  have hnext : ∀ l, lexemes[12]? = some l → l.token.isOperator = false := by
    intro l hl
    have htoken : (lexemes.map (·.token))[12]? = some l.token := by
      rw [List.getElem?_map, hl, Option.map_some]
    rw [htokens] at htoken
    rw [← Option.some.inj htoken]
    rfl
  obtain ⟨⟨-, hread⟩, hcovers, horder⟩ :=
    expression_follows_grammar (.ofString source) lexemes 1 12 e
  obtain ⟨e', hok, halike⟩ := hread ⟨hlength, hspelled, hnext⟩
  exact ⟨lexemes, e', hscan, hspelled, hok, halike, (hcovers e' _ hok).2 (horder source hscan)⟩

end Parser

end CrossAsm
