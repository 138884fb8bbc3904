import Mathlib.Data.List.Dedup
import Mathlib.Data.List.Induction
import Mathlib.Tactic.Common
import CrossAsm.Proofs.Definitions
import CrossAsm.Proofs.Utf8

/-!
Histories of a symbol table. Whatever the definitions are that were tried, a name stands for the
first of them: later ones fail and say which one they met. The table lists what it holds in the
order of the names' bytes. Main statement: `first_definition_wins`.
-/

namespace CrossAsm.SymbolTable

/-- The table after a definition was tried; one that fails leaves it alone. -/
def attempt (t : SymbolTable) (s : Symbol) : SymbolTable := (t.define s).toOption.getD t

/-- The table after some definitions were tried on an empty one. -/
def history (calls : List Symbol) : SymbolTable := calls.foldl attempt empty

/-- The first definition of a name. -/
def first (calls : List Symbol) (name : String) : Option Symbol := calls.find? (·.name = name)

/-! ### One definition -/

variable {t : SymbolTable} {s : Symbol}

lemma define_taken {previous : Symbol} (h : t.resolve s.name = some previous) :
    t.define s = .error previous := by
  simp only [define, h]

lemma attempt_taken {previous : Symbol} (h : t.resolve s.name = some previous) :
    t.attempt s = t := by
  rw [attempt, define_taken h]
  rfl

lemma define_untaken (h : t.resolve s.name = none) : t.define s = .ok (t.attempt s) := by
  rw [attempt, define_fresh (value?_eq_none.mpr h)]
  rfl

/-- A definition adds what it says, unless there is something already. -/
lemma resolve_attempt (t : SymbolTable) (s : Symbol) (name : String) :
    (t.attempt s).resolve name =
      (t.resolve name).or (if s.name = name then some s else none) := by
  rcases h : t.resolve s.name with _ | previous
  · rw [attempt, define_fresh (value?_eq_none.mpr h), Except.toOption, Option.getD_some,
      resolve_insert]
    by_cases hname : s.name = name
    · subst hname
      simp [h]
    · simp [hname, Ne.symm hname]
  · rw [attempt_taken h]
    by_cases hname : s.name = name
    · subst hname
      simp [h]
    · simp [hname]

/-! ### All definitions -/

lemma history_append (calls : List Symbol) (s : Symbol) :
    history (calls ++ [s]) = (history calls).attempt s := by
  rw [history, List.foldl_append]
  rfl

lemma resolve_history (calls : List Symbol) (name : String) :
    (history calls).resolve name = first calls name := by
  induction calls using List.reverseRecOn with
  | nil => simp [history, resolve, empty, first]
  | append_singleton calls s ih =>
    rw [history_append, resolve_attempt, ih, first, first, List.find?_append]
    congr 1
    by_cases hname : s.name = name
    · simp [hname]
    · simp [hname]

lemma name_of_first {calls : List Symbol} {name : String} (h : first calls name = some s) :
    s.name = name := by
  simpa using List.find?_some h

/-! ### The list of symbols -/

lemma toList_eq (t : SymbolTable) : t.toList = t.entries.toList.map Prod.snd := by
  have h : t.toList = t.entries.foldr (fun _ s l => s :: l) [] := rfl
  rw [h, Std.TreeMap.foldr_eq_foldr_toList]
  induction t.entries.toList with
  | nil => rfl
  | cons p rest ih => rw [List.foldr_cons, ih, List.map_cons]

lemma length_toList (t : SymbolTable) : t.toList.length = t.size := by
  rw [toList_eq, List.length_map, Std.TreeMap.length_toList]
  rfl

/-- Every symbol stands under its own name. -/
def Named (t : SymbolTable) : Prop := ∀ name s, t.resolve name = some s → s.name = name

lemma named_history (calls : List Symbol) : (history calls).Named := by
  intro name s h
  rw [resolve_history] at h
  exact name_of_first h

namespace Named

lemma mem_toList (h : t.Named) : s ∈ t.toList ↔ t.resolve s.name = some s := by
  rw [toList_eq, List.mem_map]
  constructor
  · rintro ⟨⟨name, _⟩, hmem, rfl⟩
    have hget := Std.TreeMap.mem_toList_iff_getElem?_eq_some.mp hmem
    rw [h name _ hget]
    exact hget
  · intro hget
    exact ⟨(s.name, s), Std.TreeMap.mem_toList_iff_getElem?_eq_some.mpr hget, rfl⟩

/-- The symbols come in the order of their names. -/
lemma pairwise_toList (h : t.Named) : t.toList.Pairwise fun s s' => s.name < s'.name := by
  rw [toList_eq, List.pairwise_map]
  refine Std.TreeMap.ordered_keys_toList.imp_of_mem ?_
  rintro ⟨name, s⟩ ⟨name', s'⟩ hmem hmem' hlt
  have hname := h name s (Std.TreeMap.mem_toList_iff_getElem?_eq_some.mp hmem)
  have hname' := h name' s' (Std.TreeMap.mem_toList_iff_getElem?_eq_some.mp hmem')
  subst hname hname'
  exact compareOfLessAndEq_eq_lt.mp hlt

end Named

variable (calls : List Symbol)

lemma mem_names_history (name : String) :
    name ∈ (history calls).toList.map (·.name) ↔ name ∈ calls.map (·.name) := by
  rw [List.mem_map, List.mem_map]
  constructor
  · rintro ⟨s, hs, rfl⟩
    rw [(named_history calls).mem_toList, resolve_history] at hs
    exact ⟨s, List.mem_of_find?_eq_some hs, rfl⟩
  · rintro ⟨c, hc, rfl⟩
    obtain ⟨s, hs⟩ : ∃ s, first calls c.name = some s := by
      rw [← Option.isSome_iff_exists, first, List.find?_isSome]
      exact ⟨c, hc, decide_eq_true rfl⟩
    have hname := name_of_first hs
    refine ⟨s, ?_, hname⟩
    rw [(named_history calls).mem_toList, resolve_history, hname, hs]

/-- There are as many symbols as there are names. -/
lemma size_history : (history calls).size = (calls.map (·.name)).dedup.length := by
  have hsorted := (named_history calls).pairwise_toList
  have hnodup : ((history calls).toList.map (·.name)).Nodup := by
    rw [List.Nodup, List.pairwise_map]
    refine hsorted.imp fun {s t} hlt heq => ?_
    rw [heq] at hlt
    exact String.lt_irrefl _ hlt
  have hperm : ((history calls).toList.map (·.name)).Perm (calls.map (·.name)).dedup := by
    rw [List.perm_ext_iff_of_nodup hnodup (List.nodup_dedup _)]
    intro name
    rw [mem_names_history, List.mem_dedup]
  rw [← length_toList, ← hperm.length_eq, List.length_map]

/-- **The first definition wins.** Whatever was tried before, a definition fails just if its name
was used, with the first definition of that name as the reason, and adds itself otherwise. A name
is resolved to its first definition. The symbols are these first definitions, one for each name and
in the order of the names' bytes. -/
theorem first_definition_wins :
    (∀ s previous, (history calls).define s = .error previous ↔
      first calls s.name = some previous) ∧
    (∀ s, (history calls).define s = .ok (history (calls ++ [s])) ↔
      ∀ c ∈ calls, c.name ≠ s.name) ∧
    (∀ name, (history calls).resolve name = first calls name) ∧
    (∀ s, s ∈ (history calls).toList ↔ first calls s.name = some s) ∧
    (∀ name, name ∈ (history calls).toList.map (·.name) ↔ name ∈ calls.map (·.name)) ∧
    ((history calls).toList.Pairwise fun s t =>
      s.name.toUTF8.data.toList < t.name.toUTF8.data.toList) ∧
    (history calls).size = (calls.map (·.name)).dedup.length ∧
    (history calls).toList.length = (history calls).size := by
  have hnone (name : String) : first calls name = none ↔ ∀ c ∈ calls, c.name ≠ name := by
    simp [first]
  refine ⟨fun s previous => ?_, fun s => ?_, resolve_history calls, fun s => ?_,
    mem_names_history calls, ?_, size_history calls, length_toList _⟩
  · rw [← resolve_history]
    rcases h : (history calls).resolve s.name with _ | p
    · simp [define_untaken h]
    · simp [define_taken h]
  · rw [← hnone, ← resolve_history, history_append]
    rcases h : (history calls).resolve s.name with _ | p
    · simp [define_untaken h]
    · simp [define_taken h]
  · rw [(named_history calls).mem_toList, resolve_history]
  · refine (named_history calls).pairwise_toList.imp fun hlt => ?_
    rw [toUTF8_eq_encode, toUTF8_eq_encode]
    exact encode_lt (String.lt_iff.mp hlt)

/-- Names of one to four bytes, one of them twice. By units of 16 bits, the one with four bytes
would come before the one with three. -/
def manyNames : List Symbol :=
  [⟨"𐀀", 1, 1, 1⟩, ⟨"z", 2, 2, 1⟩, ⟨"ﾡ", 3, 3, 1⟩, ⟨"ä", 4, 4, 1⟩, ⟨"z", 5, 5, 1⟩]

theorem first_definition_wins_manyNames :
    (history manyNames).define ⟨"z", 6, 6, 9⟩ = .error ⟨"z", 2, 2, 1⟩ ∧
    (history manyNames).define ⟨"Z", 6, 6, 9⟩ = .ok (history (manyNames ++ [⟨"Z", 6, 6, 9⟩])) ∧
    (history manyNames).resolve "ä" = some ⟨"ä", 4, 4, 1⟩ ∧
    (history manyNames).toList.map (·.name) = ["z", "ä", "ﾡ", "𐀀"] ∧
    (history manyNames).size = 4 := by
  obtain ⟨herror, hok, hresolve, -, -, -, hsize, -⟩ := first_definition_wins manyNames
  refine ⟨(herror _ _).mpr rfl, (hok _).mpr (by decide), hresolve _, by decide +kernel, ?_⟩
  rw [hsize]
  rfl

end CrossAsm.SymbolTable
