import Mathlib.Tactic.Common
import CrossAsm.Proofs.Agreement
import CrossAsm.Proofs.Parsing.Completeness
import CrossAsm.Proofs.Records
import CrossAsm.Proofs.Rescanning

/-!
A listing as source. The texts of the lines, each with its label in front and on a physical line of
its own, are scanned into the tokens of the program, are read as its lines, and assemble to what
they were listed from.
-/

namespace CrossAsm

open CrossAsm.Parser CrossAsm.Scan

namespace Listing

/-- A line of a listing as a line of source. -/
def sourceLine (label : Option String) (text : String) : String :=
  label.elim "" (· ++ ": ") ++ text ++ "\n"

/-- A source with one physical line for each line of a listing. -/
def source (lines : List CodeLine) : String :=
  String.join (lines.map fun l => sourceLine l.label l.text)

/-! ### Terminals and the spaces between them -/

lemma join_eq (ts : List String) : join ts = String.join (spaced "." ts) := by
  cases ts <;> rfl

/-- The characters of terminals with the spaces between them. -/
def spacedChars (previous : String) (ts : List String) : List Char :=
  (String.join (spaced previous ts)).toList

lemma spacedChars_cons (p text : String) (ts : List String) :
    spacedChars p (text :: ts) =
      (if glued p text then text.toList else ' ' :: text.toList) ++ spacedChars text ts := by
  simp only [spacedChars, spaced, String.join_cons, String.toList_append]
  split
  · rfl
  · rw [String.toList_append]
    rfl

/-- Only after a dot and after a hash a word goes on without a space. -/
lemma delimits_spacedChars {p : String} {ts : List String} {follow : List Char}
    (hdot : p ≠ ".") (hhash : p ≠ "#") (hfollow : Delimits follow) :
    Delimits (spacedChars p ts ++ follow) := by
  rcases ts with _ | ⟨text, ts⟩
  · exact hfollow
  · rw [spacedChars_cons]
    split
    · next hglued =>
      have hcomma : text.toList.head? = some ',' := by simpa [glued, hdot, hhash] using hglued
      obtain ⟨rest, hrest⟩ := List.head?_eq_some_iff.mp hcomma
      rw [hrest]
      exact delimits_cons rfl _
    · exact delimits_cons rfl _

/-- A lexeme ends before whatever the listing puts after it. -/
lemma ends_before_spacedChars {l : Lexeme} (hl : Spells l.token l.text.toList) {ts : List String}
    {follow : List Char} (hfollow : Delimits follow) :
    isClosed l.token = true ∨ Delimits (spacedChars l.text ts ++ follow) := by
  by_cases hdot : l.text = "."
  · rw [hdot] at hl
    exact .inl (hl.isClosed rfl (by decide) (by decide))
  by_cases hhash : l.text = "#"
  · rw [hhash] at hl
    exact .inl (hl.isClosed rfl (by decide) (by decide))
  exact .inr (delimits_spacedChars hdot hhash hfollow)

section Tokens

variable {follow : List Char} {words : List (Token × String)}

/-- A terminal of one lexeme. -/
lemma tokens_terminal {l : Lexeme} (hl : Spells l.token l.text.toList) {ts : List String}
    (hfollow : Delimits follow) (h : Tokens (spacedChars l.text ts ++ follow) words) (p : String) :
    Tokens (spacedChars p (l.text :: ts) ++ follow) (l.word :: words) := by
  have htoken := tokens_of_spells hl (ends_before_spacedChars hl hfollow) h
  rw [String.ofList_toList] at htoken
  rw [spacedChars_cons]
  split
  · rw [List.append_assoc]
    exact htoken
  · rw [List.cons_append, List.cons_append, List.append_assoc]
    exact tokens_space (head_append hl _) htoken

/-- A comma and an index register in one terminal. -/
lemma tokens_merged {l r : Lexeme} (hl : Spells l.token l.text.toList)
    (hcomma : l.token = .mark .comma) (hr : Spells r.token r.text.toList) {ts : List String}
    (hfollow : Delimits follow) (h : Tokens (spacedChars (l.text ++ r.text) ts ++ follow) words)
    (p : String) :
    Tokens (spacedChars p ((l.text ++ r.text) :: ts) ++ follow) (l.word :: r.word :: words) := by
  have htext : l.text.toList = [','] := Spells.eq_of_mark (hcomma ▸ hl)
  have hchars : (l.text ++ r.text).toList = ',' :: r.text.toList := by
    rw [String.toList_append, htext]
    rfl
  have hglued : glued p (l.text ++ r.text) = true := by simp [glued, hchars]
  have hends : Delimits (spacedChars (l.text ++ r.text) ts ++ follow) := by
    refine delimits_spacedChars ?_ ?_ hfollow <;>
      · intro heq
        rw [heq] at hchars
        simp at hchars
  have hregister := tokens_of_spells hr (.inr hends) h
  have hboth := tokens_of_spells hl (.inl (by rw [hcomma]; rfl)) hregister
  rw [String.ofList_toList, String.ofList_toList, htext] at hboth
  rw [spacedChars_cons, if_pos hglued, hchars, List.append_assoc]
  exact hboth

/-- **The terminals of a line** are scanned into the lexemes they are the texts of. -/
lemma tokens_terminals (merge : Bool) {w : List Lexeme}
    (hw : ∀ l ∈ w, Spells l.token l.text.toList) (hfollow : Delimits follow)
    (h : Tokens follow words) (p : String) :
    Tokens (spacedChars p (terminals merge w) ++ follow) (w.map Lexeme.word ++ words) := by
  fun_induction terminals merge w generalizing p with
  | case1 => exact h
  | case2 l =>
    have hend : Tokens (spacedChars l.text [] ++ follow) words := h
    exact tokens_terminal (hw l List.mem_cons_self) hfollow hend p
  | case3 l r rest hmerge ih =>
    simp only [Bool.and_eq_true, decide_eq_true_eq] at hmerge
    have hrest := ih (fun x hx => hw x (List.mem_cons_of_mem l (List.mem_cons_of_mem r hx)))
    exact tokens_merged (hw l List.mem_cons_self) hmerge.1.2
      (hw r (List.mem_cons_of_mem l List.mem_cons_self)) hfollow (hrest _) p
  | case4 l r rest hmerge ih =>
    exact tokens_terminal (hw l List.mem_cons_self) hfollow
      (ih (fun x hx => hw x (List.mem_cons_of_mem l hx)) l.text) p

lemma head_terminals (merge : Bool) {w : List Lexeme}
    (hw : ∀ l ∈ w, Spells l.token l.text.toList)
    (hfollow : ∀ c, follow.head? = some c → isBlank c = false) :
    ∀ c, ((join (terminals merge w)).toList ++ follow).head? = some c → isBlank c = false := by
  rcases w with _ | ⟨l, w⟩
  · exact hfollow
  · have hstarts : ∃ rest, (join (terminals merge (l :: w))).toList = l.text.toList ++ rest := by
      rcases w with _ | ⟨r, w⟩
      · exact ⟨[], by simp [terminals, join, spaced]⟩
      · rw [terminals]
        split
        · exact ⟨r.text.toList ++ _, by
            rw [join, String.join_cons, String.toList_append, String.toList_append,
              List.append_assoc]⟩
        · exact ⟨_, by rw [join, String.join_cons, String.toList_append]⟩
    obtain ⟨rest, hrest⟩ := hstarts
    rw [hrest, List.append_assoc]
    exact head_append (hw l List.mem_cons_self) _

/-- The label of a line, with the space after it. -/
lemma tokens_label {l : Line} {front : List Lexeme} (hfront : front.map (·.token) = l.labelTokens)
    (hspells : ∀ x ∈ front, Spells x.token x.text.toList)
    (hblank : ∀ c, follow.head? = some c → isBlank c = false) (h : Tokens follow words) :
    Tokens (((l.label.map (·.name)).elim "" (· ++ ": ")).toList ++ follow)
      (front.map Lexeme.word ++ words) := by
  unfold Line.labelTokens at hfront
  cases hlabel : l.label with
  | none =>
    rw [hlabel] at hfront
    obtain rfl : front = [] := List.map_eq_nil_iff.mp hfront
    exact h
  | some label =>
    rw [hlabel] at hfront
    obtain ⟨x, _, rfl, hx, htail⟩ := List.map_eq_cons_iff.mp hfront
    obtain ⟨y, _, rfl, hy, hnil⟩ := List.map_eq_cons_iff.mp htail
    obtain rfl := List.map_eq_nil_iff.mp hnil
    have hxs := hspells x List.mem_cons_self
    have hys := hspells y (List.mem_cons_of_mem x List.mem_cons_self)
    have hxtext : x.text.toList = label.name.toList := Spells.eq_of_identifier (hx ▸ hxs)
    have hytext : y.text.toList = [':'] := Spells.eq_of_mark (hy ▸ hys)
    have hcolon := tokens_of_spells hys (.inl (by rw [hy]; rfl)) (tokens_space hblank h)
    -- a colon does not continue a name
    have hdelimits : Delimits (y.text.toList ++ ' ' :: follow) := by
      rw [hytext]
      exact delimits_cons rfl _
    have hname := tokens_of_spells hxs (.inr hdelimits) hcolon
    rw [String.ofList_toList, String.ofList_toList, hxtext, hytext] at hname
    have hchars : ((some label.name).elim "" (· ++ ": ")).toList =
        label.name.toList ++ [':', ' '] := String.toList_append
    rw [Option.map_some, hchars, List.append_assoc]
    exact hname

/-- **A line of its own** is scanned into the lexemes of the line and the end of the line. -/
lemma tokens_sourceLine {l : Line} {w front back : List Lexeme} (hl : l.From w front back)
    (hw : ∀ x ∈ w, Spells x.token x.text.toList) (h : Tokens follow words) :
    Tokens ((sourceLine l.heading.1 l.heading.2).toList ++ follow)
      (w.map Lexeme.word ++ (.mark .newline, "\n") :: words) := by
  obtain ⟨rfl, hlabel, -, hterminals, -⟩ := hl
  have hend : Tokens ('\n' :: follow) ((.mark .newline, "\n") :: words) :=
    tokens_of_spells (.mark .newline) (.inl rfl) h
  have hblank : ∀ c, ('\n' :: follow).head? = some c → isBlank c = false := by
    intro c hc
    obtain rfl : '\n' = c := Option.some.inj hc
    rfl
  have hback : ∀ x ∈ back, Spells x.token x.text.toList :=
    fun x hx => hw x (List.mem_append_right front hx)
  have hbody := tokens_terminals (l.body.any Body.isStatement) hback (delimits_cons rfl follow)
    hend "."
  rw [spacedChars, ← join_eq] at hbody
  have hline := tokens_label hlabel (fun x hx => hw x (List.mem_append_left back hx))
    (head_terminals _ hback hblank) hbody
  rw [Line.heading, sourceLine, String.toList_append, String.toList_append, hterminals,
    List.map_append, List.append_assoc, List.append_assoc, List.append_assoc]
  exact hline

/-- The lines of a program, each on a physical line of its own. -/
lemma relined_of_linesFrom {lines : List Line} {ws : List Lexeme} (h : LinesFrom lines ws)
    (hws : ∀ x ∈ ws, Spells x.token x.text.toList) :
    ∃ words, Tokens (String.join (lines.map fun l =>
        sourceLine l.heading.1 l.heading.2)).toList words ∧
      ∀ lexemes : List Lexeme, lexemes.map Lexeme.word = words → Relined lines lexemes := by
  induction h with
  | nil =>
    refine ⟨[], .nil, ?_⟩
    intro lexemes hlexemes
    obtain rfl := List.map_eq_nil_iff.mp hlexemes
    exact .nil
  | newline _ _ ih => exact ih fun x hx => hws x (List.mem_cons_of_mem _ hx)
  | @line l lines w front back ws hl hw _ ih =>
    obtain ⟨words, htokens, hrelined⟩ := ih fun x hx => hws x (List.mem_append_right w hx)
    refine ⟨w.map Lexeme.word ++ (.mark .newline, "\n") :: words, ?_, ?_⟩
    · rw [List.map_cons, String.join_cons, String.toList_append]
      exact tokens_sourceLine hl (fun x hx => hws x (List.mem_append_left ws hx)) htokens
    · intro lexemes hlexemes
      obtain ⟨w', _, rfl, hwords, htail⟩ := List.map_eq_append_iff.mp hlexemes
      obtain ⟨n, rest, rfl, hn, hrest⟩ := List.map_eq_cons_iff.mp htail
      exact .cons hl hw hwords (congrArg Prod.fst hn) (hrelined rest hrest)

end Tokens

end Listing

/-! ### Assembling again -/

lemma CodeLine.Alike.fields {l l' : CodeLine} (h : l.Alike .anywhere l') :
    (l'.start, l'.length, l'.label, l'.text) = (l.start, l.length, l.label, l.text) := by
  obtain ⟨hstart, hlength, hlabel, ts, ts', hts, htext, htext'⟩ := h
  obtain rfl : ts = ts' := eq_of_forall₂ (fun _ _ heq => heq) hts
  rw [hstart, hlength, hlabel, htext, htext']

namespace Assembly

/-- A walk that ends without a fault has found none in what was read. -/
lemma faults_of_clean_walk {file : String} {lines : List Line} {faults : List Diagnostic}
    (hl : ∀ l ∈ lines, l.Sound) (h : (walk (.init file) lines faults).Clean) : faults = [] := by
  rw [State.walk_eq] at h
  have hrun := (State.extends_self (State.start file lines.length faults)).run_lines rfl hl
  exact (State.clean_start file _ faults).mp (hrun.resolveDeferred.resolveBranches.clean h)

/-- A source that assembles is made of the lines of its program. -/
lemma linesFrom_of_ok {source : String} {a : Assembly} (h : ofSource source = .ok a) :
    ∃ lexemes lines, tokenize source = .ok lexemes ∧ LinesFrom lines lexemes ∧
      (finish (walk (.init unnamedFile) lines [])).value = .ok a := by
  rcases ht : tokenize source with faults | lexemes
  · simp [ofSource, ofNamedSource, ht] at h
  · rw [ofSource_eq ht] at h
    have hsound := (Parser.parse_of (LineMap.ofString source) lexemes).sound
    have hfaults := faults_of_clean_walk hsound (finish_eq_ok.mp h).1
    rw [hfaults] at h
    exact ⟨lexemes, _, rfl, linesFrom_program (.start _ lexemes) hfaults, h⟩

lemma source_codeLines {file : String} {lines : List Line} {faults : List Diagnostic}
    {a : Assembly} (h : (finish (walk (.init file) lines faults)).value = .ok a) :
    Listing.source a.codeLines =
      String.join (lines.map fun l => Listing.sourceLine l.heading.1 l.heading.2) := by
  obtain ⟨-, rfl⟩ := finish_eq_ok.mp h
  have hheadings := congrArg (List.map fun p => Listing.sourceLine p.1 p.2)
    (walk_headings file lines faults)
  rw [List.map_map, List.map_map] at hheadings
  exact congrArg String.join hheadings

/-- **A listing assembles again**: of a source that assembles, the labels and the texts of the
lines are a source of the same memory, the same lines and the same symbols. -/
theorem listing_reassembles (source : String) (a : Assembly) (h : ofSource source = .ok a) :
    ∃ b, ofSource (Listing.source a.codeLines) = .ok b ∧ b.blocks = a.blocks ∧
      b.codeLines.map (fun l => (l.start, l.length, l.label, l.text)) =
        a.codeLines.map (fun l => (l.start, l.length, l.label, l.text)) ∧
      b.symbols.value? = a.symbols.value? := by
  obtain ⟨lexemes, lines, ht, hlines, hfinish⟩ := linesFrom_of_ok h
  obtain ⟨words, htokens, hrelined⟩ :=
    Listing.relined_of_linesFrom hlines (spells_of_tokenize ht)
  obtain ⟨lexemes', ht', hwords⟩ := tokenize_of_tokens htokens
  rw [← source_codeLines hfinish, String.ofList_toList] at ht'
  obtain ⟨hfaults, halike⟩ := program_of_relined (hrelined lexemes' hwords)
    (c := .start (LineMap.ofString (Listing.source a.codeLines)) lexemes') rfl
  obtain ⟨b, hb, hab⟩ := finish_alike (walk_alike unnamedFile unnamedFile halike .nil) hfinish
  refine ⟨b, ?_, hab.blocks.symm, ?_, hab.symbols.symm⟩
  · rw [ofSource_eq ht', Parser.parse, hfaults]
    exact hb
  · have hfields := hab.codeLines.flip.imp fun l' l => CodeLine.Alike.fields
    exact eq_of_forall₂ (fun _ _ heq => heq)
      (List.forall₂_map_left_iff.mpr (List.forall₂_map_right_iff.mpr hfields))

/-- Several lines in a row, tokens that touch, an operand that waits, and labels on their own. -/
def crowded : String :=
  ".org $800 loop:LDX#%101 LDA[$10],Y STA tbl+1,X BNE loop ;again\n" ++
  "n=7%4 .BYTE\"a, b\",';',n*(2+%1)\n\n tbl: end:  .word tbl-loop"

/-- The same in rows of its own. -/
def uncrowded : String :=
  ".org $800\nloop: LDX #%101\nLDA [ $10 ],Y\nSTA tbl + 1,X\nBNE loop\n" ++
  "n = 7 % 4\n.BYTE \"a, b\", ';', n * ( 2 + %1 )\ntbl: \nend: .word tbl - loop\n"

theorem listing_reassembles_crowded :
    ∃ a b, ofSource crowded = .ok a ∧ Listing.source a.codeLines = uncrowded ∧
      ofSource uncrowded = .ok b ∧ b.blocks = a.blocks ∧
      b.codeLines.map (fun l => (l.start, l.length, l.label, l.text)) =
        a.codeLines.map (fun l => (l.start, l.length, l.label, l.text)) ∧
      b.symbols.value? = a.symbols.value? := by
  have hrun : (ofSource crowded).toOption.any
      (fun a => Listing.source a.codeLines == uncrowded) = true := by decide +kernel
  obtain ⟨a, hok, hsource⟩ := exists_ok_iff.mpr hrun
  have hsource : Listing.source a.codeLines = uncrowded := by simpa using hsource
  obtain ⟨b, hb, hresult⟩ := listing_reassembles crowded a hok
  exact ⟨a, b, hok, hsource, hsource ▸ hb, hresult⟩

end Assembly

end CrossAsm
