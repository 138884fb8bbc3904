import Mathlib.Tactic.Common
import CrossAsm.Proofs.Likeness
import CrossAsm.Proofs.Parsing.Lines

/-!
What is spelled is read: from tokens that spell a line, up to the end of their line, reading gives
that line, but for places. Main statement: `program_of_relined`.
-/

namespace CrossAsm

/-! ### Tokens of expressions -/

/-- Tokens that may stand in an expression. -/
def Token.InExpression : Token → Prop
  | number _ | char _ | identifier _ => True
  | mark m => m.isOperator = true ∨ m = .leftParen ∨ m = .rightParen
  | string _ => False

lemma BinaryOp.isOperator_mark (op : BinaryOp) : op.mark.isOperator = true := by
  cases op <;> rfl

namespace Expr.Spelled

variable {level : Nat} {e : Expr} {ts : List Token}

lemma mem (h : e.Spelled level ts) : ∀ t ∈ ts, t.InExpression := by
  induction h with
  | number v loc => simp [Token.InExpression]
  | char c loc => simp [Token.InExpression]
  | symbol name loc => simp [Token.InExpression]
  | group loc _ ih =>
    intro t ht
    simp only [List.mem_cons, List.mem_append, List.not_mem_nil, or_false] at ht
    obtain rfl | ht | rfl := ht
    · simp [Token.InExpression]
    · exact ih t ht
    · simp [Token.InExpression]
  | tighter _ ih => exact ih
  | @binary _ op _ _ _ _ _ _ _ _ ihl ihr =>
    intro t ht
    simp only [List.mem_cons, List.mem_append] at ht
    obtain ht | rfl | ht := ht
    · exact ihl t ht
    · exact .inl op.isOperator_mark
    · exact ihr t ht

lemma start (h : e.Spelled level ts) : ∃ t rest, ts = t :: rest ∧ t.startsExpression = true := by
  induction h with
  | number v loc => exact ⟨_, _, rfl, rfl⟩
  | char c loc => exact ⟨_, _, rfl, rfl⟩
  | symbol name loc => exact ⟨_, _, rfl, rfl⟩
  | group loc _ _ => exact ⟨_, _, rfl, rfl⟩
  | tighter _ ih => exact ih
  | binary loc _ _ _ ihl _ =>
    obtain ⟨t, rest, rfl, ht⟩ := ihl
    exact ⟨t, _, rfl, ht⟩

lemma length_pos (h : e.Spelled level ts) : 0 < ts.length := by
  obtain ⟨t, rest, rfl, -⟩ := h.start
  simp

lemma level_le (h : e.Spelled level ts) : level ≤ 3 := by
  induction h with
  | number v loc => exact Nat.le_refl 3
  | char c loc => exact Nat.le_refl 3
  | symbol name loc => exact Nat.le_refl 3
  | group loc _ _ => exact Nat.le_refl 3
  | tighter _ ih => omega
  | binary loc _ _ _ ihl _ => exact ihl

lemma not_mem {m : Mark} (h : e.Spelled level ts) (hm : m.isOperator = false)
    (hopen : m ≠ .leftParen) (hclose : m ≠ .rightParen) : .mark m ∉ ts := by
  intro hmem
  rcases h.mem _ hmem with h | h | h
  · simp [hm] at h
  · exact hopen h
  · exact hclose h

lemma inLine (h : e.Spelled level ts) : .mark .newline ∉ ts :=
  h.not_mem rfl (by simp) (by simp)

end Expr.Spelled

/-! ### Outcomes -/

namespace Outcome

variable {α β : Type} {d e : Cursor} {V : α → Prop} {W : β → Prop}

/-- Reading succeeds with such a value and stops there. -/
def Gives (o : Outcome α) (V : α → Prop) (d : Cursor) : Prop := ∃ a, o = .ok a d ∧ V a

lemma gives_ok {a : α} (h : V a) : (Outcome.ok a d).Gives V d := ⟨a, rfl, h⟩

lemma Gives.bind {o : Outcome α} {f : α → Cursor → Outcome β} (h : o.Gives V d)
    (hf : ∀ a, V a → (f a d).Gives W e) : (o.bind f).Gives W e := by
  obtain ⟨a, rfl, ha⟩ := h
  exact hf a ha

lemma Gives.map {o : Outcome α} {f : α → β} (h : o.Gives V d) (hf : ∀ a, V a → W (f a)) :
    (o.map f).Gives W d := by
  obtain ⟨a, rfl, ha⟩ := h
  exact ⟨f a, rfl, hf a ha⟩

end Outcome

lemma Cursor.expect_gives {c : Cursor} {m : Mark} (what : String)
    (h : c.peek = some (.mark m)) : (c.expect (.mark m) what).Gives (fun _ => True) c.advance := by
  obtain ⟨l, rest, hl, hm⟩ := Cursor.peek_eq_some.mp h
  refine ⟨l, ?_, trivial⟩
  simp [Cursor.expect, hl, hm, Token.kind]

/-- No operator of the level or a tighter one is ahead. -/
def Cursor.Clear (level : Nat) (d : Cursor) : Prop :=
  ∀ op : BinaryOp, d.peek = some (.mark op.mark) → op.precedence < level

lemma Cursor.Clear.mono {level : Nat} {d : Cursor} (h : d.Clear level) : d.Clear (level + 1) :=
  fun op hop => Nat.lt_succ_of_lt (h op hop)

lemma Cursor.clear_of_peek {d : Cursor} {m : Mark} (level : Nat) (h : d.peek = some (.mark m))
    (hm : m.isOperator = false) : d.Clear level := by
  intro op hop
  obtain rfl : m = op.mark := by simpa using h.symm.trans hop
  rw [op.isOperator_mark] at hm
  simp at hm

lemma Cursor.clear_of_atLineEnd {d : Cursor} (level : Nat) (h : d.atLineEnd = true) :
    d.Clear level := by
  rcases Cursor.atLineEnd_iff.mp h with hp | hp
  · intro op hop
    simp [hp] at hop
  · exact Cursor.clear_of_peek level hp rfl

/-! ### Words -/

lemma Lexeme.map_token_of_word {w w' : List Lexeme} (h : w'.map word = w.map word) :
    w'.map (·.token) = w.map (·.token) := by
  have htokens := congrArg (List.map Prod.fst) h
  rwa [List.map_map, List.map_map] at htokens

lemma Lexeme.inLine_of_word {w w' : List Lexeme} (h : w'.map word = w.map word)
    (hw : ∀ l ∈ w, l.token ≠ .mark .newline) : ∀ l ∈ w', l.token ≠ .mark .newline := by
  intro l hl hnl
  have hmem : .mark .newline ∈ w.map (·.token) := by
    rw [← map_token_of_word h, ← hnl]
    exact List.mem_map_of_mem hl
  obtain ⟨m, hm, hmnl⟩ := List.mem_map.mp hmem
  exact hw m hm hmnl

namespace Parser

open Outcome Cursor

variable {c d : Cursor}

/-! ### Expressions -/

/-- From tokens that spell an expression at the level, no more than `count` of them, the reader
gets that expression. -/
def ReadsAll (level count : Nat) (read : Cursor → Outcome Expr) : Prop :=
  ∀ ⦃e : Expr⦄ ⦃ts : List Token⦄ ⦃c d : Cursor⦄, e.Spelled level ts → ts.length ≤ count →
    c.Passes ts d → d.Clear level → (read c).Gives (e.Alike .anywhere) d

/-- The operators of a level, all of them. -/
def AllOperatorsOf (level : Nat) (op? : Token → Option BinaryOp) : Prop :=
  ∀ op : BinaryOp, op.precedence = level → op? (.mark op.mark) = some op

lemma allOperatorsOf_additive : AllOperatorsOf 1 additive? := by
  intro op hop
  cases op <;> simp [BinaryOp.precedence] at hop <;> rfl

lemma allOperatorsOf_multiplicative : AllOperatorsOf 2 multiplicative? := by
  intro op hop
  cases op <;> simp [BinaryOp.precedence] at hop <;> rfl

section Chains

variable {level count : Nat} {op? : Token → Option BinaryOp} {operand : Cursor → Outcome Expr}

/-- Reading a chain comes to where its operators have been read and goes on from there. -/
lemma chain_unfolds {e : Expr} {ts : List Token} (h : e.Spelled level ts) (hlevel : level < 3)
    (hall : AllOperatorsOf level op?) (hread : ReadsAll (level + 1) (count + 1) operand)
    (hcount : ts.length ≤ count + 1) (hpass : c.Passes ts d) (hclear : d.Clear (level + 1)) :
    ∃ e' j, e.Alike .anywhere e' ∧ j < ts.length ∧
      chain op? operand count c = chainFrom op? operand (count - j) e' d := by
  induction h generalizing d with
  | number v loc => omega
  | char code loc => omega
  | symbol name loc => omega
  | group loc _ _ => omega
  | tighter he _ =>
    obtain ⟨e', hok, halike⟩ := hread he hcount hpass hclear
    exact ⟨e', 0, halike, he.length_pos, by simp [chain, hok, Outcome.bind]⟩
  | @binary level op l r ts us loc hop hl hr ihl _ =>
    rw [List.length_append, List.length_cons] at hcount
    have hus := hr.length_pos
    obtain ⟨d₁, hpass₁, hpass₂⟩ := passes_append.mp hpass
    obtain ⟨hpeek, -, hpass₂⟩ := passes_cons.mp hpass₂
    -- the operator of the level ends what is tighter
    have hclear₁ : d₁.Clear (level + 1) := by
      intro op' hop'
      have hmark : op.mark = op'.mark := by simpa using hpeek.symm.trans hop'
      obtain rfl : op = op' := by cases op <;> cases op' <;> simp [BinaryOp.mark] at hmark ⊢
      omega
    obtain ⟨l', j, hl', hj, hchain⟩ := ihl hlevel hall hread (by omega) hpass₁ hclear₁
    obtain ⟨r', hok, hr'⟩ := hread hr (by omega) hpass₂ hclear
    refine ⟨join l' op r', j + 1, .binary hl' hr' trivial, ?_, ?_⟩
    · rw [List.length_append, List.length_cons]
      omega
    · obtain ⟨n, hn⟩ : ∃ n, count - j = n + 1 := ⟨count - j - 1, by omega⟩
      have hnext : count - (j + 1) = n := by omega
      rw [hchain, hn, hnext, chainFrom, hpeek]
      simp [hall op hop, hok, Outcome.bind]

lemma chain_readsAll (hlevel : level < 3) (hop : OperatorsOf level op?)
    (hall : AllOperatorsOf level op?) (hread : ReadsAll (level + 1) (count + 1) operand) :
    ReadsAll level (count + 1) (chain op? operand count) := by
  intro e ts c d he hcount hpass hclear
  obtain ⟨e', j, halike, -, hchain⟩ := chain_unfolds he hlevel hall hread hcount hpass hclear.mono
  refine ⟨e', ?_, halike⟩
  rw [hchain]
  rcases count - j with _ | n
  · rfl
  · -- no operator of the level is ahead
    have hnone : d.peek.bind op? = none := by
      rcases hp : d.peek with _ | t
      · rfl
      · by_contra hsome
        obtain ⟨op, hopt⟩ := Option.ne_none_iff_exists'.mp hsome
        obtain ⟨rfl, hprec⟩ := hop t op hopt
        have := hclear op hp
        omega
    simp only [chainFrom, hnone]

end Chains

lemma factorWith_readsAll {count : Nat} {inner : Cursor → Outcome Expr}
    (h : ReadsAll 1 count inner) : ReadsAll 3 (count + 1) (factorWith inner) := by
  intro e ts c d he hcount hpass _
  cases he with
  | number v loc =>
    obtain ⟨hp, -, hnil⟩ := passes_cons.mp hpass
    obtain rfl := passes_nil.mp hnil
    exact ⟨.number v c.location, by simp [factorWith, hp], .number trivial⟩
  | char code loc =>
    obtain ⟨hp, -, hnil⟩ := passes_cons.mp hpass
    obtain rfl := passes_nil.mp hnil
    exact ⟨.number code c.location, by simp [factorWith, hp], .number trivial⟩
  | symbol name loc =>
    obtain ⟨hp, -, hnil⟩ := passes_cons.mp hpass
    obtain rfl := passes_nil.mp hnil
    exact ⟨.symbol name c.location, by simp [factorWith, hp], .symbol trivial⟩
  | @group e ts loc he =>
    obtain ⟨hp, -, hrest⟩ := passes_cons.mp hpass
    obtain ⟨d₁, hinner, hclose⟩ := passes_append.mp hrest
    obtain ⟨hparen, -, hnil⟩ := passes_cons.mp hclose
    obtain rfl := passes_nil.mp hnil
    simp only [List.length_cons, List.length_append, List.length_nil] at hcount
    have hgives := h he (by omega) hinner (clear_of_peek 1 hparen rfl)
    simp only [factorWith, hp]
    refine hgives.bind fun e' he' => ?_
    exact (expect_gives _ hparen).bind fun close _ => gives_ok (.group he' trivial)
  | tighter he =>
    have := he.level_le
    omega
  | @binary _ op _ _ _ _ _ hop _ _ => cases op <;> simp [BinaryOp.precedence] at hop

lemma expressionUpTo_readsAll (count : Nat) : ReadsAll 1 count (expressionUpTo count) := by
  induction count with
  | zero =>
    intro e ts c d he hcount
    have := he.length_pos
    omega
  | succ count ih =>
    have hterm : ReadsAll 2 (count + 1) (termWith (expressionUpTo count) count) :=
      chain_readsAll (by omega) (fun _ _ => multiplicative?_eq_some)
        allOperatorsOf_multiplicative (factorWith_readsAll ih)
    exact chain_readsAll (by omega) (fun _ _ => additive?_eq_some) allOperatorsOf_additive hterm

lemma expression_gives {e : Expr} {ts : List Token} (he : e.Spelled 1 ts) (hpass : c.Passes ts d)
    (hclear : d.Clear 1) : (expression c).Gives (e.Alike .anywhere) d :=
  expressionUpTo_readsAll c.room he (by have := hpass.room; omega) hpass hclear

/-! ### Operands -/

lemma ofToken?_x {name : String} (h : name.toUpper = "X") :
    Register.ofToken? (.identifier name) = some .x := by
  simp [Register.ofToken?, h]

lemma ofToken?_y {name : String} (h : name.toUpper = "Y") :
    Register.ofToken? (.identifier name) = some .y := by
  simp [Register.ofToken?, h]

lemma indexRegister_gives {name : String} {r : Register} (hp : c.peek = some (.identifier name))
    (hr : Register.ofToken? (.identifier name) = some r) :
    (indexRegister c).Gives (· = r) c.advance := by
  refine ⟨r, ?_, rfl⟩
  simp [indexRegister, hp, hr]

/-- A name at the end of what is passed on a line is not followed by a mark. -/
lemma identifierThen_of_passes {m : Mark} {ts : List Token} (hpass : c.Passes ts d)
    (hend : d.atLineEnd = true) (hm : m ≠ .newline) (hts : .mark m ∉ ts) :
    c.identifierThen (.mark m) = false := by
  by_contra htrue
  obtain ⟨name, hp, hnext⟩ := identifierThen_mark.mp (by simpa using htrue)
  have hfar : d.peek ≠ some (.mark m) ∧ d.peek ≠ some (.identifier name) := by
    rcases atLineEnd_iff.mp hend with h | h <;> simp [h, hm.symm]
  rcases ts with _ | ⟨t, _ | ⟨t', ts⟩⟩
  · obtain rfl := passes_nil.mp hpass
    exact hfar.2 hp
  · obtain rfl := passes_nil.mp (passes_cons.mp hpass).2.2
    exact hfar.1 hnext
  · obtain ⟨hp', -⟩ := passes_cons.mp (passes_cons.mp hpass).2.2
    obtain rfl : t' = .mark m := Option.some.inj (hp'.symm.trans hnext)
    simp at hts

lemma operandFollows_of_end (hend : d.atLineEnd = true) : operandFollows d = false := by
  rcases atLineEnd_iff.mp hend with h | h <;> simp [operandFollows, h]

/-- What does not belong to operands. -/
lemma operandFollows_of_passes {t : Token} {ts : List Token} (hpass : c.Passes (t :: ts) d)
    (hend : d.atLineEnd = true) (hcolon : .mark .colon ∉ t :: ts) (hequal : .mark .equal ∉ t :: ts)
    (hdot : t ≠ .mark .dot)
    (hname : ∀ name, t = .identifier name → Instruction.isMnemonic name = false) :
    operandFollows c = true := by
  obtain ⟨hp, hnl, -⟩ := passes_cons.mp hpass
  have hthen := identifierThen_of_passes hpass hend (by simp) hcolon
  have hthen' := identifierThen_of_passes hpass hend (by simp) hequal
  unfold operandFollows
  split
  · next h => simp [h] at hp
  · next h => exact absurd (Option.some.inj (hp.symm.trans h)) hnl
  · next h => exact absurd (Option.some.inj (hp.symm.trans h)) hdot
  · next name h =>
    have hmnemonic := hname name (Option.some.inj (hp.symm.trans h))
    simp [hthen, hthen', hmnemonic]
  · rfl

/-- An operand with its mode is what was spelled. -/
def IsOperand (mode : Mode) (e : Option Expr) (r : Mode × Option Expr) : Prop :=
  r.1 = mode ∧ Option.Rel (Expr.Alike .anywhere) e r.2

lemma accept?_comma_of_end (hend : d.atLineEnd = true) : d.accept? (.mark .comma) = none := by
  rw [accept?_eq_none]
  rcases atLineEnd_iff.mp hend with h | h <;> simp [h]

section Operands

variable {mnemonic : String} {e : Expr} {ts : List Token}

lemma indirectOperand_gives_indirect (he : e.Spelled 1 ts)
    (hpass : c.Passes (ts ++ [.mark .rightBracket]) d) (hend : d.atLineEnd = true) :
    (indirectOperand c).Gives (IsOperand .indirect (some e)) d := by
  obtain ⟨d₁, hexpr, hclose⟩ := passes_append.mp hpass
  obtain ⟨hbracket, -, hnil⟩ := passes_cons.mp hclose
  obtain rfl := passes_nil.mp hnil
  refine (expression_gives he hexpr (clear_of_peek 1 hbracket rfl)).bind fun e' he' => ?_
  have hcomma : d₁.accept? (.mark .comma) = none := by simp [accept?_eq_none, hbracket]
  simp only [hcomma]
  refine (expect_gives _ hbracket).bind fun _ _ => ?_
  simp only [accept?_comma_of_end hend]
  exact gives_ok ⟨rfl, .some he'⟩

lemma indirectOperand_gives_indexed {x : String} (he : e.Spelled 1 ts) (hx : x.toUpper = "X")
    (hpass : c.Passes (ts ++ [.mark .comma, .identifier x, .mark .rightBracket]) d) :
    (indirectOperand c).Gives (IsOperand .indexedIndirect (some e)) d := by
  obtain ⟨d₁, hexpr, hrest⟩ := passes_append.mp hpass
  obtain ⟨hcomma, -, hrest⟩ := passes_cons.mp hrest
  obtain ⟨hreg, -, hrest⟩ := passes_cons.mp hrest
  obtain ⟨hbracket, -, hnil⟩ := passes_cons.mp hrest
  obtain rfl := passes_nil.mp hnil
  refine (expression_gives he hexpr (clear_of_peek 1 hcomma rfl)).bind fun e' he' => ?_
  simp only [accept?_mark.mpr ⟨hcomma, rfl⟩]
  refine (indexRegister_gives hreg (ofToken?_x hx)).bind fun r hr => ?_
  rw [if_pos hr]
  exact (expect_gives _ hbracket).bind fun _ _ => gives_ok ⟨rfl, .some he'⟩

lemma indirectOperand_gives_indirectIndexed {y : String} (he : e.Spelled 1 ts)
    (hy : y.toUpper = "Y")
    (hpass : c.Passes (ts ++ [.mark .rightBracket, .mark .comma, .identifier y]) d) :
    (indirectOperand c).Gives (IsOperand .indirectIndexed (some e)) d := by
  obtain ⟨d₁, hexpr, hrest⟩ := passes_append.mp hpass
  obtain ⟨hbracket, -, hrest⟩ := passes_cons.mp hrest
  obtain ⟨hcomma, -, hrest⟩ := passes_cons.mp hrest
  obtain ⟨hreg, -, hnil⟩ := passes_cons.mp hrest
  obtain rfl := passes_nil.mp hnil
  refine (expression_gives he hexpr (clear_of_peek 1 hbracket rfl)).bind fun e' he' => ?_
  have hcomma' : d₁.accept? (.mark .comma) = none := by simp [accept?_eq_none, hbracket]
  simp only [hcomma']
  refine (expect_gives _ hbracket).bind fun _ _ => ?_
  simp only [accept?_mark.mpr ⟨hcomma, rfl⟩]
  refine (indexRegister_gives hreg (ofToken?_y hy)).bind fun r hr => ?_
  rw [if_pos hr]
  exact gives_ok ⟨rfl, .some he'⟩

lemma addressOperand_gives_absolute (he : e.Spelled 1 ts) (hpass : c.Passes ts d)
    (hend : d.atLineEnd = true) :
    (addressOperand c).Gives (IsOperand .absolute (some e)) d := by
  refine (expression_gives he hpass (clear_of_atLineEnd 1 hend)).bind fun e' he' => ?_
  simp only [accept?_comma_of_end hend]
  exact gives_ok ⟨rfl, .some he'⟩

lemma addressOperand_gives_indexed {name : String} {r : Register} (he : e.Spelled 1 ts)
    (hr : Register.ofToken? (.identifier name) = some r)
    (hpass : c.Passes (ts ++ [.mark .comma, .identifier name]) d) :
    (addressOperand c).Gives
      (IsOperand (if r = .x then .indexedX else .indexedY) (some e)) d := by
  obtain ⟨d₁, hexpr, hrest⟩ := passes_append.mp hpass
  obtain ⟨hcomma, -, hrest⟩ := passes_cons.mp hrest
  obtain ⟨hreg, -, hnil⟩ := passes_cons.mp hrest
  obtain rfl := passes_nil.mp hnil
  refine (expression_gives he hexpr (clear_of_peek 1 hcomma rfl)).bind fun e' he' => ?_
  simp only [accept?_mark.mpr ⟨hcomma, rfl⟩]
  refine (indexRegister_gives hreg hr).map fun r' hr' => ?_
  subst hr'
  exact ⟨rfl, .some he'⟩

/-- Neither a branch nor an accumulator: what the operand starts with decides. -/
lemma operand_of_mark {m : Mark} (hm : Instruction.TakesOperand mnemonic)
    (hp : c.peek = some (.mark m)) (hnl : m ≠ .newline) (hdot : m ≠ .dot) :
    operand mnemonic c =
      if m = .hash then (expression c.advance).map fun e => (.immediate, some e)
      else if m = .leftBracket then indirectOperand c.advance
      else addressOperand c := by
  have hfollows : operandFollows c = true := by
    cases m <;> first | exact absurd rfl hnl | exact absurd rfl hdot | simp [operandFollows, hp]
  have hacc : atAccumulator c = false := by simp [atAccumulator, hp]
  simp only [operand, hm.1, hm.2, hfollows, hacc, Bool.false_eq_true, if_false, Bool.not_true,
    Bool.or_false, Bool.false_and]
  by_cases hhash : m = .hash
  · subst hhash
    simp [accept?_mark.mpr ⟨hp, rfl⟩]
  by_cases hbracket : m = .leftBracket
  · subst hbracket
    have : c.accept? (.mark .hash) = none := by simp [accept?_eq_none, hp]
    simp [this, accept?_mark.mpr ⟨hp, rfl⟩]
  · have h₁ : c.accept? (.mark .hash) = none := by simp [accept?_eq_none, hp, hhash]
    have h₂ : c.accept? (.mark .leftBracket) = none := by simp [accept?_eq_none, hp, hbracket]
    simp [h₁, h₂, hhash, hbracket]

/-- An operand that opens as an address is read as one. -/
lemma operand_of_address {us : List Token} (hm : Instruction.TakesOperand mnemonic)
    (he : e.Spelled 1 ts) (ho : Instruction.OpensAddress mnemonic ts)
    (hpass : c.Passes (ts ++ us) d) (hend : d.atLineEnd = true)
    (hcolon : .mark .colon ∉ us) (hequal : .mark .equal ∉ us) :
    operand mnemonic c = addressOperand c := by
  have hcolon : .mark .colon ∉ ts ++ us := by
    simpa [hcolon] using he.not_mem rfl (by simp) (by simp)
  have hequal : .mark .equal ∉ ts ++ us := by
    simpa [hequal] using he.not_mem rfl (by simp) (by simp)
  obtain ⟨t, rest, rfl, hstart⟩ := he.start
  rw [List.cons_append] at hpass hcolon hequal
  obtain ⟨hp, -, -⟩ := passes_cons.mp hpass
  rcases startsExpression_cases hstart with rfl | ⟨v, rfl⟩ | ⟨code, rfl⟩ | ⟨name, rfl⟩
  · simp [operand_of_mark hm hp]
  all_goals
    have hfollows : operandFollows c = true :=
      operandFollows_of_passes hpass hend hcolon hequal (by simp)
        (by rintro name' ⟨⟩ <;> exact (ho _ _ rfl).1)
    have hhash : c.accept? (.mark .hash) = none := by simp [accept?_eq_none, hp]
    have hbracket : c.accept? (.mark .leftBracket) = none := by simp [accept?_eq_none, hp]
  · simp [operand, hm.1, hm.2, hfollows, atAccumulator, hp, hhash, hbracket]
  · simp [operand, hm.1, hm.2, hfollows, atAccumulator, hp, hhash, hbracket]
  · have hacc : (atAccumulator c && Instruction.supports mnemonic .implied) = false := by
      have hopens := (ho name rest rfl).2
      simpa [atAccumulator, hp] using hopens
    simp [operand, hm.1, hm.2, hfollows, hacc, hhash, hbracket]

lemma isMnemonic_accumulator {name : String} (h : name.toUpper = "A") :
    Instruction.isMnemonic name = false := by
  rw [Instruction.isMnemonic, h]
  decide +kernel

lemma operand_gives {mode : Mode} {e : Option Expr}
    (h : Instruction.OperandSpelled mnemonic mode e ts) (hpass : c.Passes ts d)
    (hend : d.atLineEnd = true) : (operand mnemonic c).Gives (IsOperand mode e) d := by
  cases h with
  | implied hm =>
    obtain rfl := passes_nil.mp hpass
    refine ⟨(.implied, none), ?_, rfl, .none⟩
    simp [operand, hm, operandFollows_of_end hend]
  | @accumulator name hm hs hname =>
    have hfollows := operandFollows_of_passes hpass hend (by simp) (by simp) (by simp)
      (by rintro name' ⟨⟩; exact isMnemonic_accumulator hname)
    obtain ⟨hp, -, hnil⟩ := passes_cons.mp hpass
    obtain rfl := passes_nil.mp hnil
    refine ⟨(.implied, none), ?_, rfl, .none⟩
    simp [operand, hm.1, hm.2, hfollows, atAccumulator, hp, hname, hs]
  | relative hm he =>
    simp only [operand, hm, if_true]
    exact (expression_gives he hpass (clear_of_atLineEnd 1 hend)).map
      fun e' he' => ⟨rfl, .some he'⟩
  | immediate hm he =>
    obtain ⟨hp, -, hrest⟩ := passes_cons.mp hpass
    rw [operand_of_mark hm hp (by simp) (by simp), if_pos rfl]
    exact (expression_gives he hrest (clear_of_atLineEnd 1 hend)).map
      fun e' he' => ⟨rfl, .some he'⟩
  | indirect hm he =>
    obtain ⟨hp, -, hrest⟩ := passes_cons.mp hpass
    rw [operand_of_mark hm hp (by simp) (by simp), if_neg (by simp), if_pos rfl]
    exact indirectOperand_gives_indirect he hrest hend
  | indexedIndirect hm he hx =>
    obtain ⟨hp, -, hrest⟩ := passes_cons.mp hpass
    rw [operand_of_mark hm hp (by simp) (by simp), if_neg (by simp), if_pos rfl]
    exact indirectOperand_gives_indexed he hx hrest
  | indirectIndexed hm he hy =>
    obtain ⟨hp, -, hrest⟩ := passes_cons.mp hpass
    rw [operand_of_mark hm hp (by simp) (by simp), if_neg (by simp), if_pos rfl]
    exact indirectOperand_gives_indirectIndexed he hy hrest
  | absolute hm he ho =>
    have hpass' : c.Passes (ts ++ []) d := by rwa [List.append_nil]
    rw [operand_of_address hm he ho hpass' hend (by simp) (by simp)]
    exact addressOperand_gives_absolute he hpass hend
  | indexedX hm he ho hx =>
    rw [operand_of_address hm he ho hpass hend (by simp) (by simp)]
    exact addressOperand_gives_indexed he (ofToken?_x hx) hpass
  | indexedY hm he ho hy =>
    rw [operand_of_address hm he ho hpass hend (by simp) (by simp)]
    exact addressOperand_gives_indexed he (ofToken?_y hy) hpass

end Operands

/-! ### Bodies -/

lemma statement_gives {word : String} {mode : Mode} {e : Option Expr} {ts : List Token}
    (loc : Location) (hword : Instruction.isMnemonic word = true)
    (he : Instruction.OperandSpelled word.toUpper mode e ts)
    (hmode : Instruction.supports word.toUpper mode = true)
    (hpass : c.Passes (.identifier word :: ts) d) (hend : d.atLineEnd = true) :
    (statement c).Gives (fun s => (Body.statement ⟨word.toUpper, mode, e, loc⟩).Alike .anywhere
      (.statement s)) d := by
  obtain ⟨hp, -, hrest⟩ := passes_cons.mp hpass
  simp only [statement, hp, hword, if_true]
  refine (operand_gives he hrest hend).bind fun r hr => ?_
  obtain ⟨mode', e'⟩ := r
  obtain ⟨rfl, he'⟩ := hr
  simp only [hmode, if_true]
  exact gives_ok (.statement he' trivial)

lemma dataItem_gives {i : DataItem} {ts : List Token} (h : i.Spelled ts) (hpass : c.Passes ts d)
    (hclear : d.Clear 1) : (dataItem c).Gives (i.Alike .anywhere) d := by
  cases h with
  | string text loc =>
    obtain ⟨hp, -, hnil⟩ := passes_cons.mp hpass
    obtain rfl := passes_nil.mp hnil
    exact ⟨.string text c.location, by simp [dataItem, hp], .string trivial⟩
  | expr he =>
    obtain ⟨t, rest, rfl, hstart⟩ := he.start
    obtain ⟨hp, -, -⟩ := passes_cons.mp hpass
    have heq : dataItem c = (expression c).map .expr := by
      unfold dataItem
      split
      · next text h =>
        obtain rfl : t = .string text := Option.some.inj (hp.symm.trans h)
        exact absurd hstart Bool.false_ne_true
      · rfl
    rw [heq]
    exact (expression_gives he hpass hclear).map fun e' he' => .expr he'

/-- Behind an entry of a list comes a comma or the end of the line. -/
lemma clear_of_after {items : List DataItem} {ts : List Token}
    (h : DataItem.SpelledAfter items ts) (hpass : c.Passes ts d) (hend : d.atLineEnd = true) :
    c.Clear 1 := by
  cases h with
  | nil =>
    obtain rfl := passes_nil.mp hpass
    exact clear_of_atLineEnd 1 hend
  | cons hi hrest => exact clear_of_peek 1 (passes_cons.mp hpass).1 rfl

lemma dataItemsFrom_gives {items : List DataItem} {ts : List Token} {count : Nat}
    (h : DataItem.SpelledAfter items ts) (hcount : ts.length ≤ count) (hpass : c.Passes ts d)
    (hend : d.atLineEnd = true) :
    (dataItemsFrom count c).Gives (List.Forall₂ (DataItem.Alike .anywhere) items) d := by
  induction h generalizing c count with
  | nil =>
    obtain rfl := passes_nil.mp hpass
    refine ⟨[], ?_, .nil⟩
    cases count with
    | zero => rfl
    | succ count => simp only [dataItemsFrom, accept?_comma_of_end hend]
  | @cons i items ts us hi hrest ih =>
    simp only [List.length_cons, List.length_append] at hcount
    obtain ⟨n, rfl⟩ : ∃ n, count = n + 1 := ⟨count - 1, by omega⟩
    obtain ⟨hcomma, -, hpass'⟩ := passes_cons.mp hpass
    obtain ⟨d₁, hitem, hmore⟩ := passes_append.mp hpass'
    simp only [dataItemsFrom, accept?_mark.mpr ⟨hcomma, rfl⟩]
    refine (dataItem_gives hi hitem (clear_of_after hrest hmore hend)).bind fun i' hi' => ?_
    exact (ih (by omega) hmore).map fun items' hitems' => .cons hi' hitems'

lemma dataItems_gives {i : DataItem} {items : List DataItem} {ts us : List Token}
    (hi : i.Spelled ts) (hrest : DataItem.SpelledAfter items us) (hpass : c.Passes (ts ++ us) d)
    (hend : d.atLineEnd = true) :
    (dataItems c).Gives (List.Forall₂ (DataItem.Alike .anywhere) (i :: items)) d := by
  obtain ⟨d₁, hitem, hmore⟩ := passes_append.mp hpass
  refine (dataItem_gives hi hitem (clear_of_after hrest hmore hend)).bind fun i' hi' => ?_
  have hroom : us.length ≤ d₁.room := by have := hmore.room; omega
  exact (dataItemsFrom_gives hrest hroom hmore hend).map fun items' hitems' => .cons hi' hitems'

lemma ofName?_name (kind : DataKind) : DataKind.ofName? kind.name = some kind := by
  cases kind <;> rfl

lemma name_ne_org (kind : DataKind) : kind.name ≠ "ORG" := by
  cases kind <;> decide

lemma identifierThen_of_mark {m m' : Mark} (hp : c.peek = some (.mark m)) :
    c.identifierThen (.mark m') = false := by
  by_contra h
  obtain ⟨name, hname, -⟩ := identifierThen_mark.mp (by simpa using h)
  simp [hp] at hname

/-- A body that opens with a point is a directive. -/
lemma body_of_dot (hp : c.peek = some (.mark .dot)) :
    body c = (directive c).map fun d => some (.directive d) := by
  have hend : c.atLineEnd = false := by
    by_contra h
    rcases atLineEnd_iff.mp (by simpa using h) with h | h <;> simp [h] at hp
  simp [body, hend, identifierThen_of_mark hp, check_mark.mpr hp]

/-- A body that opens with a name, which no label is, assigns to it or is a statement. -/
lemma body_of_name {name : String} (hp : c.peek = some (.identifier name))
    (hcolon : c.identifierThen (.mark .colon) = false) :
    body c = if c.identifierThen (.mark .equal)
      then (assignment c).map fun d => some (.directive d)
      else (statement c).map fun s => some (.statement s) := by
  have hend : c.atLineEnd = false := by
    by_contra h
    rcases atLineEnd_iff.mp (by simpa using h) with h | h <;> simp [h] at hp
  have hdot : c.check (.mark .dot) = false := by
    by_contra h
    have := check_mark.mp (by simpa using h)
    simp [hp] at this
  simp [body, hend, hcolon, hdot, check_identifier.mpr ⟨name, hp⟩]

lemma operand_not_mem {mnemonic : String} {mode : Mode} {e : Option Expr} {ts : List Token}
    {m : Mark} (h : Instruction.OperandSpelled mnemonic mode e ts)
    (hm : m = .newline ∨ m = .colon ∨ m = .equal) : .mark m ∉ ts := by
  have hexpr : ∀ {e : Expr} {us : List Token}, e.Spelled 1 us → Token.mark m ∉ us :=
    fun he => he.not_mem (by obtain rfl | rfl | rfl := hm <;> rfl)
      (by obtain rfl | rfl | rfl := hm <;> simp) (by obtain rfl | rfl | rfl := hm <;> simp)
  cases h with
  | implied _ => simp
  | accumulator _ _ _ => simp
  | relative _ he => exact hexpr he
  | immediate _ he => obtain rfl | rfl | rfl := hm <;> simpa using hexpr he
  | indirect _ he => obtain rfl | rfl | rfl := hm <;> simpa using hexpr he
  | indexedIndirect _ he _ => obtain rfl | rfl | rfl := hm <;> simpa using hexpr he
  | indirectIndexed _ he _ => obtain rfl | rfl | rfl := hm <;> simpa using hexpr he
  | absolute _ he _ => exact hexpr he
  | indexedX _ he _ _ => obtain rfl | rfl | rfl := hm <;> simpa using hexpr he
  | indexedY _ he _ _ => obtain rfl | rfl | rfl := hm <;> simpa using hexpr he

/-- No body is taken for a label. -/
lemma body_no_label {b : Body} {ts : List Token} (h : b.Spelled ts) (hpass : c.Passes ts d)
    (hend : d.atLineEnd = true) : c.identifierThen (.mark .colon) = false := by
  cases h with
  | origin loc hname he => exact identifierThen_of_mark (passes_cons.mp hpass).1
  | data loc hname hi hrest => exact identifierThen_of_mark (passes_cons.mp hpass).1
  | assign loc he =>
    obtain ⟨-, -, hpass'⟩ := passes_cons.mp hpass
    by_contra h
    obtain ⟨-, -, hnext⟩ := identifierThen_mark.mp (by simpa using h)
    simp [(passes_cons.mp hpass').1] at hnext
  | statement loc hword he hmode =>
    exact identifierThen_of_passes hpass hend (by simp)
      (by simpa using operand_not_mem he (.inr (.inl rfl)))

/-- **Completeness** for bodies: what is spelled up to the end of a line is read. -/
lemma body_gives {b : Body} {ts : List Token} (h : b.Spelled ts) (hpass : c.Passes ts d)
    (hend : d.atLineEnd = true) :
    (body c).Gives (Option.Rel (Body.Alike .anywhere) (some b)) d := by
  have hcolon := body_no_label h hpass hend
  cases h with
  | @origin name e ts loc hname he =>
    obtain ⟨hp, -, hrest⟩ := passes_cons.mp hpass
    obtain ⟨hp', -, hrest⟩ := passes_cons.mp hrest
    rw [body_of_dot hp]
    refine Gives.map (V := fun d => (Body.directive (.origin e loc)).Alike .anywhere
      (.directive d)) ?_ fun _ h => .some h
    refine (expect_gives _ hp).bind fun _ _ => ?_
    simp only [hp', hname, if_true]
    exact (expression_gives he hrest (clear_of_atLineEnd 1 hend)).map
      fun e' he' => .origin he' trivial
  | @data name kind i items ts us loc hname hi hrest =>
    obtain ⟨hp, -, hpass'⟩ := passes_cons.mp hpass
    obtain ⟨hp', -, hitems⟩ := passes_cons.mp hpass'
    rw [body_of_dot hp]
    refine Gives.map (V := fun d => (Body.directive (.data kind (i :: items) loc)).Alike .anywhere
      (.directive d)) ?_ fun _ h => .some h
    refine (expect_gives _ hp).bind fun _ _ => ?_
    simp only [hp', hname, name_ne_org, if_false, ofName?_name]
    exact (dataItems_gives hi hrest hitems hend).map fun items' hitems' => .data hitems' trivial
  | @assign name e ts loc he =>
    obtain ⟨hp, -, hpass'⟩ := passes_cons.mp hpass
    obtain ⟨hequal, -, hrest⟩ := passes_cons.mp hpass'
    rw [body_of_name hp hcolon, if_pos (identifierThen_mark.mpr ⟨name, hp, hequal⟩)]
    refine Gives.map (V := fun d => (Body.directive (.assign name e loc)).Alike .anywhere
      (.directive d)) ?_ fun _ h => .some h
    simp only [assignment, hp]
    refine (expect_gives _ hequal).bind fun _ _ => ?_
    exact (expression_gives he hrest (clear_of_atLineEnd 1 hend)).map
      fun e' he' => .assign he' trivial
  | @statement word mode e ts loc hword he hmode =>
    have hequal := identifierThen_of_passes hpass hend (m := .equal) (by simp)
      (by simpa using operand_not_mem he (.inr (.inr rfl)))
    rw [body_of_name (passes_cons.mp hpass).1 hcolon, hequal, if_neg (by simp)]
    exact (statement_gives loc hword he hmode hpass hend).map fun s hs => .some hs

/-! ### Lines -/

/-- What is ahead on a line can be passed. -/
lemma passes_of_ahead {w rest : List Lexeme} (h : c.ahead = w ++ rest)
    (hw : ∀ l ∈ w, l.token ≠ .mark .newline) :
    ∃ d, c.Passes (w.map (·.token)) d ∧ c.Left w d ∧ d.ahead = rest := by
  induction w generalizing c with
  | nil => exact ⟨c, .refl c, ⟨rfl, rfl, rfl, by simp⟩, h⟩
  | cons l w ih =>
    have hadv := advance_of_ahead h
    obtain ⟨d, hpass, hleft, hd⟩ := ih (c := c.advance) (by rw [hadv]; rfl)
      fun l' hl' => hw l' (List.mem_cons_of_mem l hl')
    have hone : c.Left [l] c.advance := by
      refine ⟨?_, by rw [hadv]; rfl, by rw [hadv], by simpa using hw l List.mem_cons_self⟩
      rw [hadv, h]
      rfl
    exact ⟨d, .step (peek_eq_some.mpr ⟨l, _, h, rfl⟩) (hw l List.mem_cons_self) hpass,
      hone.trans hleft, hd⟩

lemma atLineEnd_of_passes {t : Token} {ts : List Token} (h : c.Passes (t :: ts) d) :
    c.atLineEnd = false := by
  obtain ⟨hp, ht, -⟩ := passes_cons.mp h
  by_contra hend
  rcases atLineEnd_iff.mp (by simpa using hend) with hp' | hp'
  · simp [hp'] at hp
  · exact ht (Option.some.inj (hp.symm.trans hp'))

/-- The body behind a label, or the lack of one. -/
lemma body_gives_of_spelled {l : Line} {ts : List Token} (h : l.BodySpelled ts)
    (hpass : c.Passes ts d) (hend : d.atLineEnd = true) :
    (body c).Gives (Option.Rel (Body.Alike .anywhere) l.body) d := by
  rcases h with ⟨hnone, rfl⟩ | ⟨b, hb, hspelled⟩
  · obtain rfl := passes_nil.mp hpass
    refine ⟨none, ?_, by rw [hnone]; exact .none⟩
    simp [body, hend]
  · rw [hb]
    exact body_gives hspelled hpass hend

lemma label?_of_passes {label : Label} (h : c.Passes label.tokens d) :
    label? c = some (⟨label.name, c.location⟩, d) := by
  obtain ⟨hp, -, hrest⟩ := passes_cons.mp h
  obtain ⟨hcolon, -, hnil⟩ := passes_cons.mp hrest
  obtain rfl := passes_nil.mp hnil
  simp [label?, hp, identifierThen_mark.mpr ⟨label.name, hp, hcolon⟩]

lemma terminals_of_word (merge : Bool) {w w' : List Lexeme}
    (h : w'.map Lexeme.word = w.map Lexeme.word) :
    List.Forall₂ Eq (terminals merge w) (terminals merge w') := by
  refine terminals_alike Likeness.closed_anywhere merge ?_
  rw [eq_comm, ← List.forall₂_eq_eq_eq, List.forall₂_map_left_iff, List.forall₂_map_right_iff] at h
  exact h.imp fun l l' hl => ⟨congrArg Prod.fst hl, congrArg Prod.snd hl⟩

lemma line_gives_unlabelled {b : Body} {ts : List Token} (hb : b.Spelled ts)
    (hpass : c.Passes ts d) (hend : d.atLineEnd = true) :
    c.atLineEnd = false ∧ ∃ b', Option.Rel (Body.Alike .anywhere) (some b) b' ∧
      line c = .ok (⟨none, b', terminals (b'.any Body.isStatement) (c.upTo d), c.location⟩, none)
        d := by
  obtain ⟨b', hok, hb'⟩ := body_gives hb hpass hend
  have hnone : label? c = none := label?_eq_none.mpr (body_no_label hb hpass hend)
  refine ⟨?_, b', hb', by simp only [line, hnone, hok, Outcome.bind]⟩
  rcases ts with _ | ⟨t, ts⟩
  · exact absurd rfl hb.ne_nil
  · exact atLineEnd_of_passes hpass

lemma line_gives_labelled {l : Line} {label : Label} {ts : List Token} {start : Cursor}
    (hb : l.BodySpelled ts) (hlabel : c.Passes label.tokens start) (hpass : start.Passes ts d)
    (hend : d.atLineEnd = true) :
    c.atLineEnd = false ∧ ∃ b', Option.Rel (Body.Alike .anywhere) l.body b' ∧
      line c = .ok (⟨some ⟨label.name, c.location⟩, b',
        terminals (b'.any Body.isStatement) (start.upTo d), c.location⟩, none) d := by
  obtain ⟨b', hok, hb'⟩ := body_gives_of_spelled hb hpass hend
  exact ⟨atLineEnd_of_passes hlabel, b', hb', by simp only [line, label?_of_passes hlabel, hok]⟩

/-- Tokens that spell a line, up to the end of theirs, are read as that line. -/
lemma line_of_spelled {l : Line} {ts : List Token} (h : l.Spelled ts) (hts : ts ≠ [])
    (hpass : c.Passes ts d) (hend : d.atLineEnd = true) :
    c.atLineEnd = false ∧ ∃ l', line c = .ok (l', none) d ∧ l.Same l' := by
  obtain ⟨us, rfl, hbody⟩ := h
  obtain ⟨start, hlabel, hbehind⟩ := passes_append.mp hpass
  obtain ⟨label, body, texts, loc⟩ := l
  rcases label with _ | label
  · obtain rfl := passes_nil.mp hlabel
    rcases hbody with ⟨rfl, rfl⟩ | ⟨b, rfl, hspelled⟩
    · exact absurd rfl hts
    obtain ⟨hline, b', hb', hok⟩ := line_gives_unlabelled hspelled hbehind hend
    exact ⟨hline, _, hok, rfl, hb'⟩
  · obtain ⟨hline, b', hb', hok⟩ := line_gives_labelled hbody hlabel hbehind hend
    exact ⟨hline, _, hok, rfl, hb'⟩

/-- **Completeness** for lines: words that spell a line, up to the end of theirs, are read as that
line. -/
lemma line_gives {l : Line} {w front back w' rest : List Lexeme} {n : Lexeme}
    (h : l.From w front back) (hw : w ≠ []) (hwords : w'.map Lexeme.word = w.map Lexeme.word)
    (hn : n.token = .mark .newline) (hc : c.ahead = w' ++ n :: rest) :
    c.atLineEnd = false ∧ ∃ l' d, line c = .ok (l', none) d ∧ l.Alike .anywhere l' ∧
      d.ahead = n :: rest := by
  obtain ⟨rfl, hlabel, hbody, hterminals, hin⟩ := h
  have hin' := Lexeme.inLine_of_word hwords hin
  rw [List.map_append] at hwords
  obtain ⟨front', back', rfl, hfront, hback⟩ := List.map_eq_append_iff.mp hwords
  rw [List.append_assoc] at hc
  obtain ⟨start, hpass₁, -, hstart⟩ := passes_of_ahead hc
    fun x hx => hin' x (List.mem_append_left _ hx)
  obtain ⟨d, hpass₂, hleft, hd⟩ := passes_of_ahead hstart
    fun x hx => hin' x (List.mem_append_right _ hx)
  have hend : d.atLineEnd = true := atLineEnd_iff.mpr (.inr (peek_eq_some.mpr ⟨n, rest, hd, hn⟩))
  rw [Lexeme.map_token_of_word hfront, hlabel] at hpass₁
  rw [Lexeme.map_token_of_word hback] at hpass₂
  have hterm : ∀ b', Option.Rel (Body.Alike .anywhere) l.body b' → List.Forall₂ Eq l.terminals
      (terminals (b'.any Body.isStatement) (start.upTo d)) := by
    intro b' hb'
    rw [hterminals, hleft.upTo, Body.Alike.any_isStatement hb']
    exact terminals_of_word _ hback
  obtain ⟨label, body, texts, loc⟩ := l
  rcases label with _ | label
  · -- without a label the body starts the line
    obtain rfl := passes_nil.mp hpass₁
    rcases hbody with ⟨rfl, hnil⟩ | ⟨b, rfl, hspelled⟩
    · have hfront : front = [] := List.map_eq_nil_iff.mp hlabel
      have hback : back = [] := List.map_eq_nil_iff.mp hnil
      exact absurd (by rw [hfront, hback]; rfl) hw
    obtain ⟨hline, b', hb', hok⟩ := line_gives_unlabelled hspelled hpass₂ hend
    exact ⟨hline, _, d, hok, ⟨.none, hb', hterm b' hb', trivial⟩, hd⟩
  · obtain ⟨hline, b', hb', hok⟩ := line_gives_labelled hbody hpass₁ hpass₂ hend
    exact ⟨hline, _, d, hok, ⟨.some ⟨rfl, trivial⟩, hb', hterm b' hb', trivial⟩, hd⟩

/-- Words that spell lines, each up to the end of its own physical line. -/
inductive Relined : List Line → List Lexeme → Prop
  | nil : Relined [] []
  | cons {l : Line} {lines : List Line} {w front back w' rest : List Lexeme} {n : Lexeme}
      (hl : l.From w front back) (hw : w ≠ []) (hwords : w'.map Lexeme.word = w.map Lexeme.word)
      (hn : n.token = .mark .newline) (h : Relined lines rest) :
      Relined (l :: lines) (w' ++ n :: rest)

/-- **Completeness**: what is spelled with a line to itself each is read without a fault. -/
lemma program_of_relined {lines : List Line} {ws : List Lexeme} (h : Relined lines ws)
    (hc : c.ahead = ws) : (program c).1.faults = [] ∧
      List.Forall₂ (Line.Alike .anywhere) lines (program c).1.lines := by
  induction h generalizing c with
  | nil =>
    rw [program_of_end hc]
    exact ⟨rfl, .nil⟩
  | cons hl hw hwords hn _ ih =>
    obtain ⟨hline, l', d, hok, halike, hd⟩ := line_gives hl hw hwords hn hc
    have hnewline : d.peek = some (.mark .newline) := peek_eq_some.mpr ⟨_, _, hd, hn⟩
    obtain ⟨hfaults, hlines⟩ := ih (c := d.advance) (by rw [advance_of_ahead hd])
    rw [program_of_ok hline hok, program_of_newline hnewline]
    exact ⟨by simpa using hfaults, .cons halike hlines⟩

end Parser

end CrossAsm
