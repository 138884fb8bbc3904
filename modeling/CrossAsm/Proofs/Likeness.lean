import Mathlib.Data.List.Forall2
import Mathlib.Tactic.Common
import CrossAsm.Tree.Parser

/-!
Trees that are alike but for where they stand and how they are spelled.
-/

namespace CrossAsm

/-- How far two trees may differ: which places and which texts count as alike. -/
structure Likeness where
  place : Location → Location → Prop
  text : String → String → Prop

namespace Likeness

/-- What is put together from parts that are alike is alike. -/
structure Closed (k : Likeness) : Prop where
  through {l l' m m' : Location} (hl : k.place l l') (hm : k.place m m') :
    k.place (l.through m) (l'.through m')
  append {s s' t t' : String} (hs : k.text s s') (ht : k.text t t') : k.text (s ++ t) (s' ++ t')

/-- No difference at all. -/
def same : Likeness where
  place := Eq
  text := Eq

lemma closed_same : same.Closed where
  through := by rintro _ _ _ _ rfl rfl; rfl
  append := by rintro _ _ _ _ rfl rfl; rfl

/-- The same texts, wherever they stand. -/
def anywhere : Likeness where
  place _ _ := True
  text := Eq

lemma closed_anywhere : anywhere.Closed where
  through _ _ := trivial
  append := by rintro _ _ _ _ rfl rfl; rfl

end Likeness

/-- What of a lexeme does not depend on its place. -/
def Lexeme.word (l : Lexeme) : Token × String := (l.token, l.text)

variable (k : Likeness)

/-! ### Trees -/

inductive Expr.Alike : Expr → Expr → Prop
  | number {v : UInt32} {l l' : Location} (hl : k.place l l') :
      Alike (.number v l) (.number v l')
  | symbol {name : String} {l l' : Location} (hl : k.place l l') :
      Alike (.symbol name l) (.symbol name l')
  | binary {op : BinaryOp} {a a' b b' : Expr} {l l' : Location} (ha : Alike a a')
      (hb : Alike b b') (hl : k.place l l') : Alike (.binary op a b l) (.binary op a' b' l')
  | group {e e' : Expr} {l l' : Location} (he : Alike e e') (hl : k.place l l') :
      Alike (.group e l) (.group e' l')

inductive DataItem.Alike : DataItem → DataItem → Prop
  | expr {e e' : Expr} (he : e.Alike k e') : Alike (.expr e) (.expr e')
  | string {text : String} {l l' : Location} (hl : k.place l l') :
      Alike (.string text l) (.string text l')

inductive Body.Alike : Body → Body → Prop
  | origin {e e' : Expr} {l l' : Location} (he : e.Alike k e') (hl : k.place l l') :
      Alike (.directive (.origin e l)) (.directive (.origin e' l'))
  | data {kind : DataKind} {items items' : List DataItem} {l l' : Location}
      (hi : List.Forall₂ (DataItem.Alike k) items items') (hl : k.place l l') :
      Alike (.directive (.data kind items l)) (.directive (.data kind items' l'))
  | assign {name : String} {e e' : Expr} {l l' : Location} (he : e.Alike k e')
      (hl : k.place l l') : Alike (.directive (.assign name e l)) (.directive (.assign name e' l'))
  | statement {mnemonic : String} {mode : Mode} {e e' : Option Expr} {l l' : Location}
      (he : Option.Rel (Expr.Alike k) e e') (hl : k.place l l') :
      Alike (.statement ⟨mnemonic, mode, e, l⟩) (.statement ⟨mnemonic, mode, e', l'⟩)

structure Label.Alike (l l' : Label) : Prop where
  name : l.name = l'.name
  loc : k.place l.loc l'.loc

structure Line.Alike (l l' : Line) : Prop where
  label : Option.Rel (Label.Alike k) l.label l'.label
  body : Option.Rel (Body.Alike k) l.body l'.body
  terminals : List.Forall₂ k.text l.terminals l'.terminals
  loc : k.place l.loc l'.loc

/-- The same line but for where it stands and which texts it keeps. -/
structure Line.Same (l l' : Line) : Prop where
  label : l.label.map (·.name) = l'.label.map (·.name)
  body : Option.Rel (Body.Alike .anywhere) l.body l'.body

/-- One fault at places that are alike. -/
def Diagnostic.Alike (d d' : Diagnostic) : Prop :=
  ∃ (f : Fault) (l l' : Location), k.place l l' ∧ d = f.diagnose l ∧ d' = f.diagnose l'

variable {k}

lemma Expr.Alike.loc {e e' : Expr} (h : e.Alike k e') : k.place e.loc e'.loc := by
  cases h <;> assumption

lemma Expr.Alike.join (hk : k.Closed) {a a' b b' : Expr} (op : BinaryOp) (ha : a.Alike k a')
    (hb : b.Alike k b') : (Parser.join a op b).Alike k (Parser.join a' op b') :=
  .binary ha hb (hk.through ha.loc hb.loc)

lemma Body.Alike.isStatement {b b' : Body} (h : b.Alike k b') :
    b.isStatement = b'.isStatement := by
  cases h <;> rfl

lemma Body.Alike.any_isStatement {b b' : Option Body} (h : Option.Rel (Body.Alike k) b b') :
    b.any Body.isStatement = b'.any Body.isStatement := by
  cases h with
  | none => rfl
  | some h => exact h.isStatement

/-- The texts of lexemes that spell the same tokens. -/
lemma Parser.terminals_alike (hk : k.Closed) (merge : Bool) {w w' : List Lexeme}
    (h : List.Forall₂ (fun l l' => l.token = l'.token ∧ k.text l.text l'.text) w w') :
    List.Forall₂ k.text (terminals merge w) (terminals merge w') := by
  fun_induction terminals merge w generalizing w' with
  | case1 =>
    obtain rfl := List.forall₂_nil_left_iff.mp h
    exact .nil
  | case2 l =>
    obtain ⟨l', rest', hl, hrest, rfl⟩ := List.forall₂_cons_left_iff.mp h
    obtain rfl := List.forall₂_nil_left_iff.mp hrest
    exact .cons hl.2 .nil
  | case3 l r rest hmerge ih =>
    obtain ⟨l', rest', hl, htail, rfl⟩ := List.forall₂_cons_left_iff.mp h
    obtain ⟨r', rest', hr, hrest, rfl⟩ := List.forall₂_cons_left_iff.mp htail
    rw [hl.1, hr.1] at hmerge
    rw [terminals, if_pos hmerge]
    exact .cons (hk.append hl.2 hr.2) (ih hrest)
  | case4 l r rest hmerge ih =>
    obtain ⟨l', rest', hl, htail, rfl⟩ := List.forall₂_cons_left_iff.mp h
    obtain ⟨r', rest', hr, -, rfl⟩ := List.forall₂_cons_left_iff.mp htail
    rw [hl.1, hr.1] at hmerge
    rw [terminals, if_neg hmerge]
    exact .cons hl.2 (ih htail)

/-! ### Without any difference -/

lemma Expr.Alike.eq {e e' : Expr} (h : e.Alike .same e') : e = e' := by
  induction h with
  | number hl => obtain rfl := hl; rfl
  | symbol hl => obtain rfl := hl; rfl
  | binary _ _ hl iha ihb => obtain rfl := hl; rw [iha, ihb]
  | group _ hl ih => obtain rfl := hl; rw [ih]

lemma DataItem.Alike.eq {i i' : DataItem} (h : i.Alike .same i') : i = i' := by
  cases h with
  | expr he => rw [he.eq]
  | string hl => obtain rfl := hl; rfl

lemma eq_of_forall₂ {α : Type} {R : α → α → Prop} {u v : List α} (hR : ∀ a b, R a b → a = b)
    (h : List.Forall₂ R u v) : u = v :=
  List.forall₂_eq_eq_eq ▸ h.imp hR

lemma eq_of_rel {α : Type} {R : α → α → Prop} {u v : Option α} (hR : ∀ a b, R a b → a = b)
    (h : Option.Rel R u v) : u = v := by
  cases h with
  | none => rfl
  | some h => rw [hR _ _ h]

lemma Body.Alike.eq {b b' : Body} (h : b.Alike .same b') : b = b' := by
  cases h with
  | origin he hl => obtain rfl := hl; rw [he.eq]
  | data hi hl => obtain rfl := hl; rw [eq_of_forall₂ (fun _ _ => DataItem.Alike.eq) hi]
  | assign he hl => obtain rfl := hl; rw [he.eq]
  | statement he hl => obtain rfl := hl; rw [eq_of_rel (fun _ _ => Expr.Alike.eq) he]

lemma Label.Alike.eq {l l' : Label} (h : l.Alike .same l') : l = l' := by
  obtain ⟨name, loc⟩ := l
  obtain ⟨hname, hloc⟩ := h
  cases hname
  cases hloc
  rfl

lemma Line.Alike.eq {l l' : Line} (h : l.Alike .same l') : l = l' := by
  obtain ⟨label, body, terminals, loc⟩ := l
  obtain ⟨hlabel, hbody, hterm, hloc⟩ := h
  cases eq_of_rel (fun _ _ => Label.Alike.eq) hlabel
  cases eq_of_rel (fun _ _ => Body.Alike.eq) hbody
  cases eq_of_forall₂ (fun _ _ h => h) hterm
  cases hloc
  rfl

lemma Diagnostic.Alike.eq {d d' : Diagnostic} (h : d.Alike .same d') : d = d' := by
  obtain ⟨f, l, l', rfl, rfl, rfl⟩ := h
  rfl

end CrossAsm
