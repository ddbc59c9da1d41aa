import Toolwhip.Distcc.MacroExpansion

/-! # Tables that grow

The evaluation of an expression has a result unless a definition that cannot be expanded is come to. A
definition that is added takes no value away. -/

namespace Toolwhip.Distcc.MacroEval
open Lib.CNumber Lib.WordTemplates Lib.OpenRecursion Lib.PossibleValues List
set_option autoImplicit false

variable {symbol_table symbol_table' : SymbolTable} {call : Call} {expr : Text} {values : Values}

theorem exists_results (symbol_table : SymbolTable) : ∃ result : Call → Except Raised Values,
    (∀ call, Settles (fun depth => EvalExprHelper symbol_table depth call) (result call)) ∧
      ∀ call, Computes (result call) (Sound symbol_table call) (Value symbol_table call) := by
  obtain ⟨result, hsettles, heq⟩ :=
    settles_of_goesDown (evalCall_goesDown symbol_table) (.error .RuntimeError)
  refine ⟨result, hsettles, ?_⟩
  have hall : ∀ r, ∀ call, rank symbol_table call = r →
      Computes (result call) (Sound symbol_table call) (Value symbol_table call) := by
    intro r
    induction r using WellFoundedLT.induction with
    | ind r ih =>
      rintro call rfl
      rw [heq call]
      apply (evalCall_meets fun call' hstep => ih _ (step_rank hstep) call' rfl).congr
      · exact sound_iff.symm
      · exact fun _ => Iff.rfl
  exact fun call => hall _ call rfl

def Returns (symbol_table : SymbolTable) (expr : Text) (values : Values) : Prop :=
  ∃ enough, ∀ depth, enough ≤ depth → EvalExpression depth expr symbol_table = .ok values

theorem returns_iff_sound : (∃ values, Returns symbol_table expr values) ↔
    Sound symbol_table ⟨expr, []⟩ := by
  obtain ⟨result, hsettles, hmeets⟩ := exists_results symbol_table
  constructor
  · rintro ⟨values, hreturns⟩
    exact (hmeets ⟨expr, []⟩).onlyIf values ((hsettles _).unique hreturns)
  · intro hsound
    obtain ⟨values, hvalues⟩ := (hmeets ⟨expr, []⟩).returns hsound
    refine ⟨values, ?_⟩
    have h := hsettles ⟨expr, []⟩
    rwa [hvalues] at h

theorem mem_of_returns (h : Returns symbol_table expr values) (v : Text) :
    v ∈ values ↔ Value symbol_table ⟨expr, []⟩ v := by
  obtain ⟨result, hsettles, hmeets⟩ := exists_results symbol_table
  exact (hmeets ⟨expr, []⟩).exact values ((hsettles _).unique h) v

theorem definitions_add (symbol_table : SymbolTable) (lhs : Text) (df : Definition) (s : Text) :
    (symbol_table.add lhs df).definitions s =
      if lhs = s then some ((symbol_table.definitions s).getD [] ++ [df])
      else symbol_table.definitions s := by
  induction symbol_table with
  | nil =>
    rfl
  | cons entry more ih =>
    obtain ⟨symbol, defs⟩ := entry
    simp only [SymbolTable.add]
    by_cases hsymbol : symbol = lhs
    · subst hsymbol
      simp only [if_true, SymbolTable.definitions]
      by_cases hs : symbol = s
      · simp [hs]
      · simp [hs]
    rw [if_neg hsymbol]
    simp only [SymbolTable.definitions, ih]
    by_cases hs : symbol = s
    · subst hs
      simp [Ne.symm hsymbol]
    · simp [hs]

/-- Every definition of the one is one of the other, and a symbol that is new there has one. -/
structure Extends (symbol_table symbol_table' : SymbolTable) : Prop where
  keeps : ∀ s defs, symbol_table.definitions s = some defs →
    ∃ defs', symbol_table'.definitions s = some defs' ∧ defs ⊆ defs'
  adds : ∀ s defs', symbol_table'.definitions s = some defs' → symbol_table.definitions s = none →
    defs' ≠ []

theorem extends_add (symbol_table : SymbolTable) (lhs : Text) (df : Definition) :
    Extends symbol_table (symbol_table.add lhs df) where
  keeps s defs hdefs := by
    rw [definitions_add]
    split
    · rw [hdefs]
      exact ⟨defs ++ [df], rfl, subset_append_left _ _⟩
    · exact ⟨defs, hdefs, List.Subset.refl _⟩
  adds s defs' hdefs' hnone := by
    rw [definitions_add] at hdefs'
    split at hdefs'
    · cases hdefs'
      simp
    · rw [hnone] at hdefs'
      cases hdefs'

theorem extends_insert {lhs : Text} {rhs : Option Text}
    (h : InsertMacroDefInTable lhs rhs symbol_table = .ok symbol_table') :
    Extends symbol_table symbol_table' := by
  unfold InsertMacroDefInTable at h
  split at h
  · cases h
  split at h
  · cases h
  split at h
  · cases h
    exact extends_add _ _ _
  split at h
  · cases h
  cases h
  exact extends_add _ _ _

theorem enabled_extends {m : Match} {definition : Definition} (h : Extends symbol_table symbol_table')
    (henabled : Enabled symbol_table call m definition) : Enabled symbol_table' call m definition := by
  obtain ⟨hfree, defs, hdefs, hmem⟩ := henabled
  obtain ⟨defs', hdefs', hsubset⟩ := h.keeps _ defs hdefs
  exact ⟨hfree, defs', hdefs', hsubset hmem⟩

/-- Only symbols of the table are disabled, so a symbol that is new in the larger one is not. -/
theorem value_extends {v : Text} (h : Extends symbol_table symbol_table')
    (hdisabled : ∀ s ∈ call.disabled, symbol_table.definitions s ≠ none)
    (hvalue : Value symbol_table call v) :
    Value symbol_table' call v := by
  induction hvalue with
  | plain hsearch => exact .plain hsearch
  | itself => exact value_self symbol_table' _
  | @unevaluated call m v hsearch hpass _ ih =>
    apply Value.unevaluated hsearch _ (ih hdisabled)
    cases hpass with
    | inl hnone =>
      cases hdefs' : symbol_table'.definitions m.group with
      | none => exact Or.inl hdefs'
      | some defs' =>
        obtain ⟨definition, hmem⟩ := exists_mem_of_ne_nil _ (h.adds _ defs' hdefs' hnone)
        exact Or.inr ⟨definition, fun hdisables => hdisabled _ hdisables hnone, defs', hdefs', hmem⟩
    | inr hpass =>
      obtain ⟨definition, henabled⟩ := hpass
      exact Or.inr ⟨definition, enabled_extends h henabled⟩
  | expanded hsearch henabled harguments hlength _ hexpansion _ _ ihargs ihafter ihagain =>
    apply Value.expanded hsearch (enabled_extends h henabled) harguments hlength _ hexpansion
      (ihafter hdisabled)
    · apply ihagain
      rw [forall_mem_cons]
      obtain ⟨_, defs, hdefs, _⟩ := henabled
      exact ⟨hdefs ▸ Option.some_ne_none defs, hdisabled⟩
    · exact fun pair hpair => ihargs pair hpair hdisabled

/-- It returns, the expression is among the values, and no value is lost when a definition is added. -/
def EvaluatesWell (symbol_table : SymbolTable) (expr : Text) : Prop :=
  ∃ values, Returns symbol_table expr values ∧ expr ∈ values ∧
    ∀ lhs rhs symbol_table' values', InsertMacroDefInTable lhs rhs symbol_table = .ok symbol_table' →
      Returns symbol_table' expr values' → values ⊆ values'

/-- An evaluation does what it should exactly if it does not come to a definition that cannot be
expanded. -/
theorem evaluatesWell_iff (symbol_table : SymbolTable) (expr : Text) :
    EvaluatesWell symbol_table expr ↔ Sound symbol_table ⟨expr, []⟩ := by
  constructor
  · rintro ⟨values, hreturns, _⟩
    exact returns_iff_sound.mp ⟨values, hreturns⟩
  · intro hsound
    obtain ⟨values, hreturns⟩ := returns_iff_sound.mpr hsound
    refine ⟨values, hreturns, (mem_of_returns hreturns expr).mpr (value_self _ ⟨expr, []⟩), ?_⟩
    intro lhs rhs symbol_table' values' hinsert hreturns' v hv
    apply (mem_of_returns hreturns' v).mpr
    exact value_extends (extends_insert hinsert) nofun ((mem_of_returns hreturns v).mp hv)

theorem search_word {s : Text} (hne : s ≠ []) (hword : ∀ b ∈ s, isWord b = true) :
    SYMBOL_RE_search s = some ⟨0, s.length, s⟩ := by
  obtain ⟨b, rest, rfl⟩ := exists_cons_of_ne_nil hne
  have hfirst := hword b mem_cons_self
  have hall : (b :: rest).takeWhile isWord = b :: rest := List.takeWhile_eq_self_iff.mpr hword
  simp [SYMBOL_RE_search, hfirst, hall]

theorem not_sound_of_empty {s : Text} {defs : List Definition} (hne : s ≠ [])
    (hword : ∀ b ∈ s, isWord b = true) (hdefs : symbol_table.definitions s = some defs)
    (hmem : .object none ∈ defs) : ¬ Sound symbol_table ⟨s, []⟩ := by
  intro hsound
  obtain ⟨_, hexpansion⟩ := hsound _ .refl ⟨0, s.length, s⟩ (.object none) [] (s.drop s.length) []
    (search_word hne hword) ⟨not_mem_nil, defs, hdefs, hmem⟩ rfl .nil
  cases hexpansion

/-- `#define A`, and the expression `A`. -/
theorem evaluates_empty : ¬ ∀ symbol_table expr, Produced symbol_table →
    EvaluatesWell symbol_table expr := by
  intro hclaim
  have hinsert : InsertMacroDefInTable (ascii "A") (ParseFine_rhs []) [] =
      .ok [(ascii "A", [.object none])] := by
    decide
  obtain ⟨values, hreturns, _⟩ := hclaim _ (ascii "A") (.insert .empty hinsert)
  exact not_sound_of_empty (by decide) (by decide +kernel) rfl (mem_singleton_self _)
    (returns_iff_sound.mp ⟨values, hreturns⟩)

end Toolwhip.Distcc.MacroEval
