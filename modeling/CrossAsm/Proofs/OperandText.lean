import Mathlib.Tactic.Common
import CrossAsm.Proofs.Agreement
import CrossAsm.Proofs.Evaluation
import CrossAsm.Proofs.Parsing.Expressions
import CrossAsm.Proofs.Printing
import CrossAsm.Proofs.Stack

/-!
The text of an operand keeps its meaning. It is that of an expression with parentheses around every
nested operation, so precedence and grouping to the left do not matter; it is scanned and read as
this expression, whose visits build the operand again. Main statement: `Operand.text_read_back`.
-/

namespace CrossAsm

/-! ### Operations -/

namespace Scan

lemma Yields.parenthesized {u : List Char} {words : List (Token × String)} (hu : Yields u words) :
    Yields ('(' :: (u ++ [')']))
      ((.mark .leftParen, "(") :: (words ++ [(.mark .rightParen, ")")])) where
  start := ⟨'(', u ++ [')'], rfl, rfl⟩
  tokens {follow more} hf h := by
    have hclose : Tokens (')' :: follow) ((.mark .rightParen, ")") :: more) :=
      tokens_of_spells (.mark .rightParen) (.inl rfl) h
    have hinner := hu.tokens (delimits_cons rfl follow) hclose
    have hopen : Tokens ('(' :: (u ++ ')' :: follow)) ((.mark .leftParen, "(") ::
        (words ++ (.mark .rightParen, ")") :: more)) :=
      tokens_of_spells (.mark .leftParen) (.inl rfl) hinner
    simpa using hopen

end Scan

lemma BinaryOp.sign_toList (op : BinaryOp) : op.sign.toList = [op.mark.char] := by
  cases op <;> rfl

lemma Expr.Spelled.of_le {m n : Nat} {e : Expr} {ts : List Token} (h : e.Spelled m ts)
    (hle : n ≤ m) : e.Spelled n ts := by
  induction hle with
  | refl => exact h
  | step _ ih => exact ih (.tighter h)

/-- Whatever the operator, operands that bind tightest are grouped as they are meant. -/
lemma Expr.Spelled.operation {l r : Expr} {ts us : List Token} (op : BinaryOp) (loc : Location)
    (hl : l.Spelled 3 ts) (hr : r.Spelled 3 us) :
    (Expr.binary op l r loc).Spelled 1 (ts ++ .mark op.mark :: us) := by
  have hlevel : 1 ≤ op.precedence ∧ op.precedence ≤ 2 := by cases op <;> decide
  have hbinary : (Expr.binary op l r loc).Spelled op.precedence (ts ++ .mark op.mark :: us) :=
    .binary loc rfl (hl.of_le (by omega)) (hr.of_le (by omega))
  exact hbinary.of_le hlevel.1

lemma Expr.Alike.toOperand {k : Likeness} {e e' : Expr} (h : e.Alike k e') :
    e.toOperand.Alike k e'.toOperand := by
  induction h with
  | number hl => exact .number hl
  | symbol hl => exact .symbol hl
  | binary _ _ hl iha ihb => exact .binary iha ihb hl
  | group _ _ ih => exact ih

namespace Operand

open Scan

/-- The operand as a part of another one: an operation is in parentheses. -/
def grouped : Operand → Expr
  | number v loc => .number v loc
  | symbol name loc => .symbol name loc
  | binary op l r loc => .group (.binary op l.grouped r.grouped loc) loc

/-- The operand as it is written by itself. -/
def written : Operand → Expr
  | number v loc => .number v loc
  | symbol name loc => .symbol name loc
  | binary op l r loc => .binary op l.grouped r.grouped loc

lemma toOperand_grouped (o : Operand) : o.grouped.toOperand = o := by
  induction o with
  | number v loc => rfl
  | symbol name loc => rfl
  | binary op l r loc ihl ihr => rw [grouped, Expr.toOperand, Expr.toOperand, ihl, ihr]

lemma toOperand_written (o : Operand) : o.written.toOperand = o := by
  cases o with
  | number v loc => rfl
  | symbol name loc => rfl
  | binary op l r loc =>
    rw [written, Expr.toOperand, toOperand_grouped, toOperand_grouped]

/-- Every symbol in the operand is a name that can be written. -/
def Named (o : Operand) : Prop := ∀ name ∈ o.symbols, Token.Kind.identifier.Matches name.toList

/-- The text yields the tokens that spell the expression at the level. -/
def Prints (text : String) (level : Nat) (e : Expr) : Prop :=
  ∃ words, Yields text.toList words ∧ e.Spelled level (words.map (·.1))

lemma prints_number (v : UInt32) (loc : Location) :
    Prints (Numeral.decimal v.toNat) 3 (.number v loc) :=
  ⟨_, .of_spells (spells_shown (t := .number v) trivial), .number v loc⟩

lemma prints_symbol {name : String} (h : Token.Kind.identifier.Matches name.toList)
    (loc : Location) : Prints name 3 (.symbol name loc) :=
  ⟨_, .of_spells (spells_name h), .symbol name loc⟩

lemma prints_operation {s t : String} {l r : Expr} (op : BinaryOp) (loc : Location)
    (hl : Prints s 3 l) (hr : Prints t 3 r) :
    Prints (s ++ " " ++ op.sign ++ " " ++ t) 1 (.binary op l r loc) := by
  obtain ⟨words, hwords, hl⟩ := hl
  obtain ⟨words', hwords', hr⟩ := hr
  have hsign : Yields [op.mark.char] [(.mark op.mark, String.ofList [op.mark.char])] :=
    .of_spells (.mark op.mark)
  have htext : (s ++ " " ++ op.sign ++ " " ++ t).toList =
      s.toList ++ ' ' :: ([op.mark.char] ++ ' ' :: t.toList) := by
    simp [String.toList_append, op.sign_toList]
  refine ⟨_, htext ▸ hwords.space (hsign.space hwords'), ?_⟩
  simpa using Expr.Spelled.operation op loc hl hr

lemma prints_group {s : String} {e : Expr} (loc : Location) (h : Prints s 1 e) :
    Prints ("(" ++ s ++ ")") 3 (.group e loc) := by
  obtain ⟨words, hwords, he⟩ := h
  have htext : ("(" ++ s ++ ")").toList = '(' :: (s.toList ++ [')']) := by
    simp [String.toList_append]
  refine ⟨_, htext ▸ hwords.parenthesized, ?_⟩
  simpa using Expr.Spelled.group loc he

-- By induction on the operand: the parts are words or stand in parentheses, so they bind tightest.
lemma prints_grouped (o : Operand) (h : o.Named) : Prints (text.nested o) 3 o.grouped := by
  induction o with
  | number v loc => exact prints_number v loc
  | symbol name loc => exact prints_symbol (h name (List.mem_singleton_self name)) loc
  | binary op l r loc ihl ihr =>
    have hl := ihl fun name hname => h name (List.mem_append_left _ hname)
    have hr := ihr fun name hname => h name (List.mem_append_right _ hname)
    have htext : text.nested (.binary op l r loc) =
        "(" ++ (text.nested l ++ " " ++ op.sign ++ " " ++ text.nested r) ++ ")" := by
      simp [text.nested, String.append_assoc]
    rw [htext]
    exact prints_group loc (prints_operation op loc hl hr)

lemma prints_written (o : Operand) (h : o.Named) : Prints o.text 1 o.written := by
  cases o with
  | number v loc =>
    obtain ⟨words, hwords, he⟩ := prints_number v loc
    exact ⟨words, hwords, he.of_le (by decide)⟩
  | symbol name loc =>
    obtain ⟨words, hwords, he⟩ := prints_symbol (h name (List.mem_singleton_self name)) loc
    exact ⟨words, hwords, he.of_le (by decide)⟩
  | binary op l r loc =>
    have hl := l.prints_grouped fun name hname => h name (List.mem_append_left _ hname)
    have hr := r.prints_grouped fun name hname => h name (List.mem_append_right _ hname)
    exact prints_operation op loc hl hr

open CrossAsm.Parser Cursor

/-- From a text that prints an expression, that expression is read, and all of the text. -/
lemma expression_of_prints {s : String} {e : Expr} (h : Prints s 1 e) :
    ∃ lexemes e' d, tokenize s = .ok lexemes ∧
      expression (.start (.ofString s) lexemes) = .ok e' d ∧ d.atEnd = true ∧
      e.Alike .anywhere e' := by
  obtain ⟨words, hwords, he⟩ := h
  obtain ⟨lexemes, hscan, hlexemes⟩ := tokenize_of_tokens hwords.whole
  rw [String.ofList_toList] at hscan
  have hspelled : e.Spelled 1 (lexemes.map (·.token)) := by
    rw [← hlexemes, List.map_map] at he
    exact he
  obtain ⟨e', hread, halike⟩ : (expression (.start (.ofString s) lexemes)).Gives
      (e.Alike .anywhere) (.ofPosition (.ofString s) lexemes lexemes.length) := by
    refine expression_of_spelled (p := 0) (Nat.le_refl _) (by simpa using hspelled) ?_
    exact clear_ofPosition.mpr (by simp)
  exact ⟨lexemes, e', _, hscan, hread, by simp [ofPosition, atEnd], halike⟩

/-- The text of an operand with proper names is scanned, read to its end as an expression, and the
visits of this expression put the operand on the stack, but for places, and change nothing else. -/
theorem text_read_back (o : Operand)
    (h : ∀ name ∈ o.symbols, Token.Kind.identifier.Matches name.toList) :
    ∃ lexemes e d o', tokenize o.text = .ok lexemes ∧
      expression (.start (.ofString o.text) lexemes) = .ok e d ∧ d.atEnd = true ∧
      (∀ s : Assembly.State, s.run e.visits = { s with operands := o' :: s.operands }) ∧
      o.Alike .anywhere o' := by
  obtain ⟨lexemes, e, d, hscan, hread, hend, halike⟩ := expression_of_prints (prints_written o h)
  refine ⟨lexemes, e, d, e.toOperand, hscan, hread, hend, ?_, ?_⟩
  · intro s
    exact s.run_expr e
  · have := halike.toOperand
    rwa [toOperand_written] at this

/-- A remainder by a number is not scanned as a binary number, and what is grouped to the right
stays so: the stack of a new assembly holds this operand and nothing else. -/
theorem text_read_back_remainder :
    let place : Location := ⟨1, 1, ⟨0, 0⟩⟩
    let o : Operand := .binary .sub
      (.binary .mod (.symbol "a" place) (.number 1 place) place)
      (.binary .sub (.number 2 place) (.symbol "_b9" place) place) place
    o.text = "(a % 1) - (2 - _b9)" ∧ o.symbols = ["a", "_b9"] ∧
      ∃ lexemes e d o', tokenize "(a % 1) - (2 - _b9)" = .ok lexemes ∧
        expression (.start (.ofString "(a % 1) - (2 - _b9)") lexemes) = .ok e d ∧
        d.atEnd = true ∧ ((Assembly.State.init "a.asm").run e.visits).operands = [o'] ∧
        o.Alike .anywhere o' := by
  intro place o
  have htext : o.text = "(a % 1) - (2 - _b9)" := by decide +kernel
  have hnames : ∀ name ∈ o.symbols, Token.Kind.identifier.Matches name.toList := by
    refine List.forall_mem_cons.mpr ⟨?_, List.forall_mem_singleton.mpr ?_⟩
    · exact .identifier rfl (List.forall_mem_nil _)
    · exact .identifier rfl (List.forall_mem_cons.mpr ⟨rfl, List.forall_mem_singleton.mpr rfl⟩)
  obtain ⟨lexemes, e, d, o', hscan, hread, hend, hrun, halike⟩ := text_read_back o hnames
  rw [htext] at hscan hread
  refine ⟨htext, rfl, lexemes, e, d, o', hscan, hread, hend, ?_, halike⟩
  rw [hrun]
  rfl

end Operand

end CrossAsm
