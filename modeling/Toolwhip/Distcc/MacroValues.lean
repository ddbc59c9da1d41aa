import Mathlib.Data.Finset.Card
import Mathlib.Data.Prod.Lex
import Toolwhip.Lib.PossibleValues
import Toolwhip.Distcc.MacroEval

/-! # What an expression can stand for

The values of an expression as a relation: a symbol stays, or a definition of it that is in effect takes
its place, with a value of each argument, before a value of what follows. The values are computed unless
a call is come to in which a definition cannot be expanded. -/

namespace Toolwhip.Distcc.MacroEval
open Lib.WordTemplates Lib.OpenRecursion List
set_option autoImplicit false
variable {defs : List Definition} {args vs : List Text}

/-! ## Definitions in effect -/

/-- The arguments of a call of the macro, and what follows them. -/
def Definition.arguments (call : Call) (m : Match) : Definition → Option (List Text × Text)
  | .object _ => some ([], call.expr.drop m.stop)
  | .function lhs _ =>
    match ParseArgs call.expr m.stop with
    | (none, _) => none
    | (some args_list, args_end) =>
      if args_list = [] ∨ lhs.length ≠ args_list.length then none
      else some (args_list, call.expr.drop args_end)

def substituted (lhs args : List Text) (rhs : Option Text) : Except Raised (Option Text) :=
  (lhs.zip args).foldlM (fun expansion pair => do
    let text ← SubstituteSymbolInString pair.1 pair.2 expansion
    .ok (some text)) rhs

def Definition.expansion (args : List Text) : Definition → Except Raised Text
  | .object none => .error .AssertionError
  | .object (some rhs) => .ok rhs
  | .function lhs rhs => substituted lhs args rhs >>= MassageAccordingToPoundSigns

section Meaning
variable (symbol_table : SymbolTable)

def Enabled (call : Call) (m : Match) (definition : Definition) : Prop :=
  m.group ∉ call.disabled ∧ ∃ defs, symbol_table.definitions m.group = some defs ∧ definition ∈ defs

def Passes (call : Call) (m : Match) : Prop :=
  symbol_table.definitions m.group = none ∨ ∃ definition, Enabled symbol_table call m definition

inductive Value : Call → Text → Prop
  | plain {call : Call} (h : SYMBOL_RE_search call.expr = none) : Value call call.expr
  | itself {call : Call} {m : Match} {defs : List Definition} (h : SYMBOL_RE_search call.expr = some m)
      (hdefs : symbol_table.definitions m.group = some defs) : Value call call.expr
  | unevaluated {call : Call} {m : Match} {v : Text} (h : SYMBOL_RE_search call.expr = some m)
      (hpass : Passes symbol_table call m) (hrest : Value ⟨call.expr.drop m.stop, call.disabled⟩ v) :
      Value call (call.expr.take m.stop ++ v)
  | expanded {call : Call} {m : Match} {definition : Definition} {args vs : List Text}
      {after expansion a v : Text} (h : SYMBOL_RE_search call.expr = some m)
      (henabled : Enabled symbol_table call m definition)
      (harguments : definition.arguments call m = some (args, after)) (hlength : args.length = vs.length)
      (hargs : ∀ pair ∈ args.zip vs, Value ⟨pair.1, call.disabled⟩ pair.2)
      (hexpansion : definition.expansion vs = .ok expansion)
      (hafter : Value ⟨after, call.disabled⟩ a)
      (hagain : Value ⟨expansion ++ a, m.group :: call.disabled⟩ v) :
      Value call (call.expr.take m.start ++ v)

def Chosen (call : Call) (args vs : List Text) : Prop :=
  List.Forall₂ (fun arg v => Value symbol_table ⟨arg, call.disabled⟩ v) args vs

/-- The calls that a call makes. -/
inductive Step : Call → Call → Prop
  | rest {call : Call} {m : Match} (h : SYMBOL_RE_search call.expr = some m)
      (hpass : Passes symbol_table call m) : Step call ⟨call.expr.drop m.stop, call.disabled⟩
  | arg {call : Call} {m : Match} {definition : Definition} {args : List Text} {after arg : Text}
      (h : SYMBOL_RE_search call.expr = some m) (henabled : Enabled symbol_table call m definition)
      (harguments : definition.arguments call m = some (args, after)) (harg : arg ∈ args) :
      Step call ⟨arg, call.disabled⟩
  | after {call : Call} {m : Match} {definition : Definition} {args : List Text} {after : Text}
      (h : SYMBOL_RE_search call.expr = some m) (henabled : Enabled symbol_table call m definition)
      (harguments : definition.arguments call m = some (args, after)) : Step call ⟨after, call.disabled⟩
  | again {call : Call} {m : Match} {definition : Definition} {args vs : List Text}
      {after expansion a : Text} (h : SYMBOL_RE_search call.expr = some m)
      (henabled : Enabled symbol_table call m definition)
      (harguments : definition.arguments call m = some (args, after))
      (hchosen : Chosen symbol_table call args vs) (hexpansion : definition.expansion vs = .ok expansion)
      (hafter : Value symbol_table ⟨after, call.disabled⟩ a) :
      Step call ⟨expansion ++ a, m.group :: call.disabled⟩

/-- Each definition in effect can be expanded, whatever the arguments stand for. -/
def Expandable (call : Call) : Prop :=
  ∀ m definition args after vs, SYMBOL_RE_search call.expr = some m →
    Enabled symbol_table call m definition →
    definition.arguments call m = some (args, after) → Chosen symbol_table call args vs →
    ∃ expansion, definition.expansion vs = .ok expansion

def Sound (call : Call) : Prop :=
  ∀ call', Relation.ReflTransGen (Step symbol_table) call call' → Expandable symbol_table call'

end Meaning

variable {symbol_table : SymbolTable} {call : Call} {m : Match}

theorem sound_iff : Sound symbol_table call ↔
    Expandable symbol_table call ∧ ∀ call', Step symbol_table call call' → Sound symbol_table call' := by
  constructor
  · intro h
    refine ⟨h call .refl, ?_⟩
    intro call' hstep call'' hrun
    exact h call'' (.head hstep hrun)
  · rintro ⟨hhere, hnext⟩ call' hrun
    cases hrun using Relation.ReflTransGen.head_induction_on with
    | refl => exact hhere
    | head hstep hrun => exact hnext _ hstep call' hrun

theorem chosen_of_zip (hlength : args.length = vs.length)
    (h : ∀ pair ∈ args.zip vs, Value symbol_table ⟨pair.1, call.disabled⟩ pair.2) :
    Chosen symbol_table call args vs := by
  rw [Chosen, forall₂_iff_zip]
  exact ⟨hlength, fun {_ _} hpair => h _ hpair⟩

theorem zip_of_chosen (h : Chosen symbol_table call args vs) :
    args.length = vs.length ∧ ∀ pair ∈ args.zip vs,
      Value symbol_table ⟨pair.1, call.disabled⟩ pair.2 := by
  rw [Chosen, forall₂_iff_zip] at h
  exact ⟨h.1, fun _ hpair => h.2 hpair⟩

theorem search_stop (h : SYMBOL_RE_search call.expr = some m) :
    (call.expr.drop m.stop).length < call.expr.length := by
  simp only [SYMBOL_RE_search] at h
  split at h
  · cases h
  rename_i hne
  cases h
  have hpos := List.length_pos_iff.mpr hne
  have hle := (takeWhile_sublist (l := call.expr.drop
    (call.expr.takeWhile fun b => !isWord b).length) isWord).length_le
  rw [length_drop] at hle ⊢
  dsimp only
  omega

theorem parseArgs_shorter {string : Text} {pos args_end : Nat} {args : List Text}
    (h : ParseArgs string pos = (some args, args_end)) :
    (∀ arg ∈ args, arg.length < string.length) ∧ (string.drop args_end).length < string.length := by
  rw [ParseArgs] at h
  split at h
  · cases h
  rename_i hopen
  have hpos : 0 < string.length := by
    apply List.length_pos_iff.mpr
    rintro rfl
    exact hopen (by simp)
  split at h
  · cases h
  cases h
  constructor
  · intro arg harg
    obtain ⟨place, _, rfl⟩ := List.mem_map.mp harg
    rw [length_take, length_drop]
    omega
  · rw [length_drop]
    omega

theorem arguments_shorter {definition : Definition} {args : List Text} {after : Text}
    (h : SYMBOL_RE_search call.expr = some m)
    (harguments : definition.arguments call m = some (args, after)) :
    (∀ arg ∈ args, arg.length < call.expr.length) ∧ after.length < call.expr.length := by
  cases definition with
  | object rhs =>
    cases harguments
    exact ⟨nofun, search_stop h⟩
  | function lhs rhs =>
    rw [Definition.arguments] at harguments
    split at harguments
    · cases harguments
    rename_i hparse
    split at harguments
    · cases harguments
    cases harguments
    exact parseArgs_shorter hparse

def rank (symbol_table : SymbolTable) (call : Call) : ℕ ×ₗ ℕ :=
  toLex (((symbol_table.map Prod.fst).toFinset \ call.disabled.toFinset).card, call.expr.length)

theorem mem_of_definitions {s : Text} (h : symbol_table.definitions s = some defs) :
    s ∈ symbol_table.map Prod.fst := by
  induction symbol_table with
  | nil => cases h
  | cons entry more ih =>
    rw [SymbolTable.definitions] at h
    split at h
    · rename_i heq
      rw [← heq]
      exact mem_cons_self
    · exact mem_cons_of_mem _ (ih h)

theorem rank_shorter {expr : Text} (h : expr.length < call.expr.length) :
    rank symbol_table ⟨expr, call.disabled⟩ < rank symbol_table call := by
  rw [rank, rank, Prod.Lex.toLex_lt_toLex]
  exact Or.inr ⟨rfl, h⟩

theorem rank_disabled {s : Text} (hdefs : symbol_table.definitions s = some defs)
    (hfree : s ∉ call.disabled) (expr : Text) :
    rank symbol_table ⟨expr, s :: call.disabled⟩ < rank symbol_table call := by
  rw [rank, rank, Prod.Lex.toLex_lt_toLex]
  apply Or.inl
  dsimp only
  apply Finset.card_lt_card
  rw [Finset.ssubset_iff_of_subset]
  · refine ⟨s, ?_, ?_⟩
    · rw [Finset.mem_sdiff, mem_toFinset, mem_toFinset]
      exact ⟨mem_of_definitions hdefs, hfree⟩
    · simp
  · apply Finset.sdiff_subset_sdiff (Finset.Subset.refl _)
    intro t ht
    rw [mem_toFinset] at ht ⊢
    exact mem_cons_of_mem _ ht

theorem step_rank {call' : Call} (h : Step symbol_table call call') :
    rank symbol_table call' < rank symbol_table call := by
  cases h with
  | rest h _ => exact rank_shorter (search_stop h)
  | arg h _ harguments harg => exact rank_shorter ((arguments_shorter h harguments).1 _ harg)
  | after h _ harguments => exact rank_shorter (arguments_shorter h harguments).2
  | again _ henabled _ _ _ _ =>
    obtain ⟨hfree, defs, hdefs, _⟩ := henabled
    exact rank_disabled hdefs hfree _

section Settling
variable {run : Nat → Call → Except Raised Values} {result : Call → Except Raised Values}
variable {defs : List Definition}

theorem reEval_settles (h : ∀ call', rank symbol_table call' < rank symbol_table call →
      Settles (fun limit => run limit call') (result call'))
    (hdefs : symbol_table.definitions m.group = some defs) (hfree : m.group ∉ call.disabled)
    {after : Text}
    (hafter : after.length < call.expr.length) (expansion : Text) :
    Settles (fun limit => ReEvalRecursivelyForExpansion (run limit) call m after expansion)
      (ReEvalRecursivelyForExpansion result call m after expansion) := by
  apply (h _ (rank_shorter hafter)).bind
  intro after_expansions _
  apply Settles.bind
  · apply Settles.mapM
    intro after_expansion _
    exact h _ (rank_disabled hdefs hfree _)
  · intro sets _
    exact .const _

theorem evalDefinition_settles (definition : Definition)
    (h : ∀ call', rank symbol_table call' < rank symbol_table call →
      Settles (fun limit => run limit call') (result call'))
    (hsearch : SYMBOL_RE_search call.expr = some m)
    (hdefs : symbol_table.definitions m.group = some defs) (hfree : m.group ∉ call.disabled) :
    Settles (fun limit => evalDefinition (run limit) call m definition)
      (evalDefinition result call m definition) := by
  cases definition with
  | object rhs =>
    cases rhs with
    | none => exact .const _
    | some rhs => exact reEval_settles h hdefs hfree (search_stop hsearch) rhs
  | function lhs rhs =>
    simp only [evalDefinition]
    cases hparse : ParseArgs call.expr m.stop with
    | mk args_list args_end =>
      cases args_list with
      | none => exact .const _
      | some args_list =>
        obtain ⟨hargs, hafter⟩ := parseArgs_shorter hparse
        simp only
        split
        · exact .const _
        apply Settles.bind
        · apply Settles.mapM
          intro arg harg
          exact h _ (rank_shorter (hargs arg harg))
        · intro args_expand _
          apply (Settles.const _).bind
          intro expansions _
          apply Settles.bind
          · apply Settles.mapM
            intro expansion _
            apply (Settles.const _).bind
            intro real_expansion _
            exact reEval_settles h hdefs hfree hafter real_expansion
          · intro sets _
            exact .const _

theorem evalCall_goesDown (symbol_table : SymbolTable) :
    GoesDown (rank symbol_table) (evalCall symbol_table) := by
  intro run result call h
  simp only [evalCall]
  cases hsearch : SYMBOL_RE_search call.expr with
  | none => exact .const _
  | some m =>
    have hrest := h _ (rank_shorter (search_stop hsearch))
    cases hdefs : symbol_table.definitions m.group with
    | none =>
      simp only [hdefs]
      apply hrest.bind
      intro rest _
      exact .const _
    | some defs =>
      simp only [hdefs]
      split
      · exact .const _
      rename_i hfree
      apply Settles.bind
      · apply Settles.mapM
        intro definition _
        apply hrest.bind
        intro unevaluated _
        apply (evalDefinition_settles definition h hsearch hdefs hfree).bind
        intro expanded _
        exact .const _
      · intro sets _
        exact .const _

end Settling
end Toolwhip.Distcc.MacroEval
