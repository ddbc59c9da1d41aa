import Toolwhip.Distcc.MacroValues

/-! # The evaluation of macros

`EvalExpression` returns exactly if no call is come to in which a definition cannot be expanded, and then
the values of the expression. The expression is one of them, and more definitions give no fewer. -/

namespace Toolwhip.Distcc.MacroEval
open Lib.WordTemplates Lib.PossibleValues Lib.ThrowingFold List
set_option autoImplicit false

variable {symbol_table : SymbolTable} {call : Call} {m : Match}

theorem value_self (symbol_table : SymbolTable) (call : Call) : Value symbol_table call call.expr := by
  induction hlength : call.expr.length using Nat.strong_induction_on generalizing call with
  | _ n ih =>
    subst hlength
    cases h : SYMBOL_RE_search call.expr with
    | none => exact .plain h
    | some m =>
      cases hdefs : symbol_table.definitions m.group with
      | some defs => exact .itself h hdefs
      | none =>
        have hrest := ih _ (search_stop h) ⟨call.expr.drop m.stop, call.disabled⟩ rfl
        have hvalue := Value.unevaluated h (Or.inl hdefs) hrest
        rwa [take_append_drop] at hvalue

theorem chosen_self (args : List Text) : Chosen symbol_table call args args := by
  rw [Chosen, forall₂_same]
  intro arg _
  exact value_self symbol_table ⟨arg, call.disabled⟩

/-! ## Substitution -/

variable {x : Text} {lhs : List Text}

theorem substituted_cons {v : Text} {vs : List Text} {rhs out : Option Text} :
    substituted (x :: lhs) (v :: vs) rhs = .ok out ↔
      ∃ text, SubstituteSymbolInString x v rhs = .ok text ∧ substituted lhs vs (some text) = .ok out := by
  rw [substituted, zip_cons_cons, foldlM_cons_ok]
  simp only [bind_eq_ok]
  constructor
  · rintro ⟨_, ⟨text, htext, heq⟩, hout⟩
    cases heq
    exact ⟨text, htext, hout⟩
  · rintro ⟨text, htext, hout⟩
    exact ⟨some text, ⟨text, htext, rfl⟩, hout⟩

variable {sets : List Values}

theorem exists_members (hne : ∀ set ∈ sets, set ≠ []) :
    ∃ vs, List.Forall₂ (fun v set => v ∈ set) vs sets := by
  induction sets with
  | nil => exact ⟨[], .nil⟩
  | cons set sets ih =>
    obtain ⟨v, hv⟩ := exists_mem_of_ne_nil _ (hne set mem_cons_self)
    obtain ⟨vs, hvs⟩ := ih fun s hs => hne s (mem_cons_of_mem _ hs)
    exact ⟨v :: vs, .cons hv hvs⟩

def Replaces (x : Text) (set : Values) (expansions : List (Option Text)) (text : Text) : Prop :=
  ∃ expansion ∈ expansions, ∃ arg ∈ set, SubstituteSymbolInString x arg expansion = .ok text

def ReplacesAll (lhs : List Text) (sets : List Values) (expansion out : Option Text) : Prop :=
  ∃ vs, List.Forall₂ (fun v set => v ∈ set) vs sets ∧ substituted lhs vs expansion = .ok out

def NeverThrows (lhs : List Text) (sets : List Values) (expansion : Option Text) : Prop :=
  ∀ vs, List.Forall₂ (fun v set => v ∈ set) vs sets → ∃ out, substituted lhs vs expansion = .ok out

theorem neverThrows_cons {set : Values}
    (hne : ∀ set ∈ sets, set ≠ []) (expansions : List (Option Text)) :
    ((∀ expansion ∈ expansions, ∀ arg ∈ set, ∃ text,
      SubstituteSymbolInString x arg expansion = .ok text) ∧
      ∀ text, Replaces x set expansions text → NeverThrows lhs sets (some text)) ↔
    ∀ expansion ∈ expansions, NeverThrows (x :: lhs) (set :: sets) expansion := by
  constructor
  · rintro ⟨hfirst, hnext⟩ expansion hmem vs hvs
    cases hvs with
    | cons hv hvs =>
      obtain ⟨text, htext⟩ := hfirst expansion hmem _ hv
      obtain ⟨out, hout⟩ := hnext text ⟨expansion, hmem, _, hv, htext⟩ _ hvs
      exact ⟨out, substituted_cons.mpr ⟨text, htext, hout⟩⟩
  · intro h
    constructor
    · intro expansion hmem arg harg
      obtain ⟨vs, hvs⟩ := exists_members hne
      obtain ⟨out, hout⟩ := h expansion hmem _ (.cons harg hvs)
      obtain ⟨text, htext, _⟩ := substituted_cons.mp hout
      exact ⟨text, htext⟩
    · rintro text ⟨expansion, hmem, arg, harg, htext⟩ vs hvs
      obtain ⟨out, hout⟩ := h expansion hmem _ (.cons harg hvs)
      obtain ⟨text', htext', hout⟩ := substituted_cons.mp hout
      cases htext.symm.trans htext'
      exact ⟨out, hout⟩

theorem replacesAll_cons {set : Values} {expansions : List (Option Text)} {out : Option Text} :
    (∃ text, Replaces x set expansions text ∧ ReplacesAll lhs sets (some text) out) ↔
      ∃ expansion ∈ expansions, ReplacesAll (x :: lhs) (set :: sets) expansion out := by
  constructor
  · rintro ⟨text, ⟨expansion, hmem, arg, harg, htext⟩, vs, hvs, hout⟩
    exact ⟨expansion, hmem, arg :: vs, .cons harg hvs, substituted_cons.mpr ⟨text, htext, hout⟩⟩
  · rintro ⟨expansion, hmem, vs, hvs, hout⟩
    cases hvs with
    | cons harg hvs =>
      obtain ⟨text, htext, hout⟩ := substituted_cons.mp hout
      exact ⟨text, ⟨expansion, hmem, _, harg, htext⟩, _, hvs, hout⟩

theorem substitutions_meets (hlength : lhs.length = sets.length)
    (hne : ∀ set ∈ sets, set ≠ []) (expansions : List (Option Text)) :
    Computes (substitutions (lhs.zip sets) expansions)
      (∀ expansion ∈ expansions, NeverThrows lhs sets expansion)
      (fun out => ∃ expansion ∈ expansions, ReplacesAll lhs sets expansion out) := by
  induction sets generalizing lhs expansions with
  | nil =>
    cases lhs with
    | cons x lhs => cases hlength
    | nil =>
      apply (Computes.pure expansions).congr
      · apply iff_of_true trivial
        intro expansion _ vs hvs
        cases hvs
        exact ⟨expansion, rfl⟩
      · intro out
        constructor
        · intro hmem
          exact ⟨out, hmem, [], .nil, rfl⟩
        · rintro ⟨expansion, hmem, vs, hvs, hout⟩
          cases hvs
          cases hout
          exact hmem
  | cons set sets ih =>
    cases lhs with
    | nil => cases hlength
    | cons x lhs =>
      rw [forall_mem_cons] at hne
      have hfirst : Computes (do
          let lists ← expansions.mapM fun expansion => set.mapM fun arg =>
            SubstituteSymbolInString x arg expansion
          .ok lists.flatten)
          (∀ expansion ∈ expansions, ∀ arg ∈ set, ∃ text,
            SubstituteSymbolInString x arg expansion = .ok text)
          (Replaces x set expansions) :=
        Computes.union fun expansion _ => Computes.collect set fun arg =>
          SubstituteSymbolInString x arg expansion
      have hnext : ∀ texts : List Text, (∀ text, text ∈ texts ↔ Replaces x set expansions text) →
          Computes (substitutions (lhs.zip sets) (texts.map some))
            (∀ text, Replaces x set expansions text → NeverThrows lhs sets (some text))
            (fun out => ∃ text, Replaces x set expansions text ∧
              ReplacesAll lhs sets (some text) out) := by
        intro texts htexts
        apply (ih (Nat.succ.inj hlength) hne.2 (texts.map some)).congr
        · simp only [forall_mem_map, htexts]
        · intro out
          simp only [mem_map, htexts, exists_exists_and_eq_and]
      apply (hfirst.bind hnext).last.congr
      · exact neverThrows_cons hne.2 expansions
      · exact fun out => replacesAll_cons

section OneCall
variable {result : Call → Except Raised Values} {c : Call → Prop}

def Reevaluates (symbol_table : SymbolTable) (c : Call → Prop) (call : Call) (m : Match)
    (after expansion : Text) : Prop :=
  c ⟨after, call.disabled⟩ ∧ ∀ a, Value symbol_table ⟨after, call.disabled⟩ a →
    c ⟨expansion ++ a, m.group :: call.disabled⟩

def Splices (symbol_table : SymbolTable) (call : Call) (m : Match) (after expansion v : Text) : Prop :=
  ∃ a w, Value symbol_table ⟨after, call.disabled⟩ a ∧
    Value symbol_table ⟨expansion ++ a, m.group :: call.disabled⟩ w ∧ call.expr.take m.start ++ w = v

theorem reEval_meets {after expansion : Text}
    (hafter : Computes (result ⟨after, call.disabled⟩) (c ⟨after, call.disabled⟩)
      (Value symbol_table ⟨after, call.disabled⟩))
    (hagain : ∀ a, Value symbol_table ⟨after, call.disabled⟩ a →
      Computes (result ⟨expansion ++ a, m.group :: call.disabled⟩)
        (c ⟨expansion ++ a, m.group :: call.disabled⟩)
        (Value symbol_table ⟨expansion ++ a, m.group :: call.disabled⟩)) :
    Computes (ReEvalRecursivelyForExpansion result call m after expansion)
      (Reevaluates symbol_table c call m after expansion)
      (Splices symbol_table call m after expansion) := by
  apply hafter.bind
  intro as has
  have hunion := Computes.union fun a hmem => hagain a ((has a).mp hmem)
  apply (hunion.map (call.expr.take m.start ++ ·)).last.congr
  · simp only [has]
  · intro v
    simp only [has]
    constructor
    · rintro ⟨w, ⟨a, ha, hw⟩, heq⟩
      exact ⟨a, w, ha, hw, heq⟩
    · rintro ⟨a, w, ha, hw, heq⟩
      exact ⟨w, ⟨a, ha, hw⟩, heq⟩

theorem members_iff_chosen {args : List Text} {sets : List Values}
    (h : List.Forall₂ (fun arg set => ∀ v, v ∈ set ↔ Value symbol_table ⟨arg, call.disabled⟩ v) args sets)
    (vs : List Text) : List.Forall₂ (fun v set => v ∈ set) vs sets ↔
    Chosen symbol_table call args vs := by
  unfold Chosen
  induction h generalizing vs with
  | nil => simp
  | cons hset _ ih =>
    cases vs with
    | nil => simp
    | cons v vs => rw [forall₂_cons, forall₂_cons, hset, ih]

/-- The definition can be expanded, and the calls for it satisfy `c`. -/
def Evaluates (symbol_table : SymbolTable) (c : Call → Prop) (call : Call) (m : Match)
    (definition : Definition) (args : List Text) (after : Text) : Prop :=
  (∀ arg ∈ args, c ⟨arg, call.disabled⟩) ∧
    ∀ vs, Chosen symbol_table call args vs → ∃ expansion, definition.expansion vs = .ok expansion ∧
      Reevaluates symbol_table c call m after expansion

def Expands (symbol_table : SymbolTable) (call : Call) (m : Match) (definition : Definition)
    (args : List Text) (after v : Text) : Prop :=
  ∃ vs expansion, Chosen symbol_table call args vs ∧ definition.expansion vs = .ok expansion ∧
    Splices symbol_table call m after expansion v

variable {definition : Definition} {args : List Text} {after : Text}

theorem evalFunction_meets {lhs : List Text} {rhs : Option Text} {args_end : Nat}
    (h : ∀ call', Step symbol_table call call' → Computes (result call') (c call')
      (Value symbol_table call'))
    (hsearch : SYMBOL_RE_search call.expr = some m)
    (henabled : Enabled symbol_table call m (.function lhs rhs))
    (hparse : ParseArgs call.expr m.stop = (some args, args_end)) (hne : args ≠ [])
    (hlength : lhs.length = args.length) :
    Computes (evalDefinition result call m (.function lhs rhs))
      (Evaluates symbol_table c call m (.function lhs rhs) args (call.expr.drop args_end))
      (Expands symbol_table call m (.function lhs rhs) args (call.expr.drop args_end)) := by
  have hbad : ¬ (args = [] ∨ lhs.length ≠ args.length) := by
    rintro (hnil | hdiffers)
    · exact hne hnil
    · exact hdiffers hlength
  have harguments : (Definition.function lhs rhs).arguments call m =
      some (args, call.expr.drop args_end) := by
    simp only [Definition.arguments, hparse, if_neg hbad]
  simp only [evalDefinition, hparse, if_neg hbad]
  apply Computes.each
  · intro arg harg
    exact h _ (.arg hsearch henabled harguments harg)
  · intro sets hsets
    have hmembers := members_iff_chosen hsets
    have hnonempty : ∀ set ∈ sets, set ≠ [] := by
      intro set hset
      obtain ⟨arg, _, hvalues⟩ := (exists_of_forall₂ hsets).2 set hset
      exact ne_nil_of_mem ((hvalues arg).mpr (value_self symbol_table ⟨arg, call.disabled⟩))
    have hsubstitutions := substitutions_meets (hlength.trans hsets.length_eq) hnonempty [rhs]
    have hnext : ∀ expansions : List (Option Text),
        (∀ expansion, expansion ∈ expansions ↔ ∃ e ∈ [rhs], ReplacesAll lhs sets e expansion) →
        Computes (do
          let sets ← expansions.mapM fun expansion => do
            let real_expansion ← MassageAccordingToPoundSigns expansion
            ReEvalRecursivelyForExpansion result call m (call.expr.drop args_end) real_expansion
          .ok (BigUnion sets))
        (∀ vs out, Chosen symbol_table call args vs → substituted lhs vs rhs = .ok out →
          ∃ expansion, MassageAccordingToPoundSigns out = .ok expansion ∧
            Reevaluates symbol_table c call m (call.expr.drop args_end) expansion)
        (Expands symbol_table call m (.function lhs rhs) args (call.expr.drop args_end)) := by
      intro expansions hexpansions
      have hmem : ∀ expansion, expansion ∈ expansions ↔
          ∃ vs, Chosen symbol_table call args vs ∧ substituted lhs vs rhs = .ok expansion := by
        intro expansion
        rw [hexpansions]
        simp only [mem_singleton, exists_eq_left, ReplacesAll, hmembers]
      have honce : ∀ out ∈ expansions, Computes
          (MassageAccordingToPoundSigns out >>= fun real_expansion =>
            ReEvalRecursivelyForExpansion result call m (call.expr.drop args_end) real_expansion)
          (∃ expansion, MassageAccordingToPoundSigns out = .ok expansion ∧
            Reevaluates symbol_table c call m (call.expr.drop args_end) expansion)
          (fun v => ∃ expansion, MassageAccordingToPoundSigns out = .ok expansion ∧
            Splices symbol_table call m (call.expr.drop args_end) expansion v) := by
        intro out hout
        obtain ⟨vs, hchosen, hsubstituted⟩ := (hmem out).mp hout
        apply Computes.once
        intro expansion hexpansion
        apply reEval_meets (h _ (.after hsearch henabled harguments))
        intro a ha
        exact h _ (.again hsearch henabled harguments hchosen
          (bind_eq_ok.mpr ⟨out, hsubstituted, hexpansion⟩) ha)
      apply (Computes.union honce).congr
      · constructor
        · intro hall vs out hchosen hout
          exact hall out ((hmem out).mpr ⟨vs, hchosen, hout⟩)
        · intro hall out hout
          obtain ⟨vs, hchosen, hsubstituted⟩ := (hmem out).mp hout
          exact hall vs out hchosen hsubstituted
      · intro v
        constructor
        · rintro ⟨out, hout, expansion, hexpansion, hsplices⟩
          obtain ⟨vs, hchosen, hsubstituted⟩ := (hmem out).mp hout
          exact ⟨vs, expansion, hchosen, bind_eq_ok.mpr ⟨out, hsubstituted, hexpansion⟩, hsplices⟩
        · rintro ⟨vs, expansion, hchosen, hexpansion, hsplices⟩
          obtain ⟨out, hsubstituted, hexpansion⟩ := bind_eq_ok.mp hexpansion
          exact ⟨out, (hmem out).mpr ⟨vs, hchosen, hsubstituted⟩, expansion, hexpansion, hsplices⟩
    apply (hsubstitutions.bind hnext).congr
    · simp only [mem_singleton, forall_eq, NeverThrows, hmembers]
      constructor
      · rintro ⟨hall, hnext⟩ vs hchosen
        obtain ⟨out, hout⟩ := hall vs hchosen
        obtain ⟨expansion, hexpansion, hcalls⟩ := hnext vs out hchosen hout
        exact ⟨expansion, bind_eq_ok.mpr ⟨out, hout, hexpansion⟩, hcalls⟩
      · intro hall
        constructor
        · intro vs hchosen
          obtain ⟨expansion, hexpansion, _⟩ := hall vs hchosen
          obtain ⟨out, hout, _⟩ := bind_eq_ok.mp hexpansion
          exact ⟨out, hout⟩
        · intro vs out hchosen hout
          obtain ⟨expansion, hexpansion, hcalls⟩ := hall vs hchosen
          obtain ⟨out', hout', hmassage⟩ := bind_eq_ok.mp hexpansion
          cases hout.symm.trans hout'
          exact ⟨expansion, hmassage, hcalls⟩
    · exact fun _ => Iff.rfl

theorem evalObject_meets {rhs : Option Text}
    (h : ∀ call', Step symbol_table call call' → Computes (result call') (c call')
      (Value symbol_table call'))
    (hsearch : SYMBOL_RE_search call.expr = some m)
    (henabled : Enabled symbol_table call m (.object rhs)) :
    Computes (evalDefinition result call m (.object rhs))
      (Evaluates symbol_table c call m (.object rhs) [] (call.expr.drop m.stop))
      (Expands symbol_table call m (.object rhs) [] (call.expr.drop m.stop)) := by
  have harguments : (Definition.object rhs).arguments call m = some ([], call.expr.drop m.stop) := rfl
  have hnone : Chosen symbol_table call [] [] := .nil
  cases rhs with
  | none =>
    apply (Computes.throw _ _).congr
    · apply iff_of_false id
      rintro ⟨_, hall⟩
      obtain ⟨_, hexpansion, _⟩ := hall [] hnone
      cases hexpansion
    · intro v
      apply iff_of_false id
      rintro ⟨_, _, _, hexpansion, _⟩
      cases hexpansion
  | some rhs =>
    have hmeets : Computes (ReEvalRecursivelyForExpansion result call m (call.expr.drop m.stop) rhs)
        (Reevaluates symbol_table c call m (call.expr.drop m.stop) rhs)
        (Splices symbol_table call m (call.expr.drop m.stop) rhs) := by
      apply reEval_meets (h _ (.after hsearch henabled harguments))
      intro a ha
      exact h _ (.again hsearch henabled harguments hnone rfl ha)
    apply hmeets.congr
    · constructor
      · intro hcalls
        refine ⟨nofun, ?_⟩
        intro vs _
        exact ⟨rhs, rfl, hcalls⟩
      · rintro ⟨_, hall⟩
        obtain ⟨expansion, hexpansion, hcalls⟩ := hall [] hnone
        cases hexpansion
        exact hcalls
    · intro v
      constructor
      · intro hsplices
        exact ⟨[], rhs, hnone, rfl, hsplices⟩
      · rintro ⟨vs, expansion, _, hexpansion, hsplices⟩
        cases hexpansion
        exact hsplices

theorem evalDefinition_meets
    (h : ∀ call', Step symbol_table call call' → Computes (result call') (c call')
      (Value symbol_table call'))
    (hsearch : SYMBOL_RE_search call.expr = some m) (henabled : Enabled symbol_table call m definition) :
    Computes (evalDefinition result call m definition)
      (∀ args after, definition.arguments call m = some (args, after) →
        Evaluates symbol_table c call m definition args after)
      (fun v => ∃ args after, definition.arguments call m = some (args, after) ∧
        Expands symbol_table call m definition args after v) := by
  have hsome : ∀ args after, definition.arguments call m = some (args, after) →
      Computes (evalDefinition result call m definition)
        (Evaluates symbol_table c call m definition args after)
        (Expands symbol_table call m definition args after) →
      Computes (evalDefinition result call m definition)
        (∀ args after, definition.arguments call m = some (args, after) →
          Evaluates symbol_table c call m definition args after)
        (fun v => ∃ args after, definition.arguments call m = some (args, after) ∧
          Expands symbol_table call m definition args after v) := by
    intro args after harguments hmeets
    rw [harguments]
    apply hmeets.congr <;> simp
  have hnone : definition.arguments call m = none → evalDefinition result call m definition = .ok [] →
      Computes (evalDefinition result call m definition)
        (∀ args after, definition.arguments call m = some (args, after) →
          Evaluates symbol_table c call m definition args after)
        (fun v => ∃ args after, definition.arguments call m = some (args, after) ∧
          Expands symbol_table call m definition args after v) := by
    intro harguments heval
    rw [harguments, heval]
    apply (Computes.pure []).congr <;> simp
  cases definition with
  | object rhs => exact hsome _ _ rfl (evalObject_meets h hsearch henabled)
  | function lhs rhs =>
    cases hparse : ParseArgs call.expr m.stop with
    | mk args_list args_end =>
      cases args_list with
      | none =>
        apply hnone
        · simp only [Definition.arguments, hparse]
        · simp only [evalDefinition, hparse]
      | some args =>
        by_cases hbad : args = [] ∨ lhs.length ≠ args.length
        · apply hnone
          · simp only [Definition.arguments, hparse, if_pos hbad]
          · simp only [evalDefinition, hparse, if_pos hbad]
        have hgood := not_or.mp hbad
        apply hsome args (call.expr.drop args_end)
        · simp only [Definition.arguments, hparse, if_neg hbad]
        · exact evalFunction_meets h hsearch henabled hparse hgood.1 (not_not.mp hgood.2)

variable {defs : List Definition}

theorem enabled_iff (hdefs : symbol_table.definitions m.group = some defs)
    (hfree : m.group ∉ call.disabled) : Enabled symbol_table call m definition ↔ definition ∈ defs := by
  constructor
  · rintro ⟨_, defs', hdefs', hmem⟩
    cases hdefs.symm.trans hdefs'
    exact hmem
  · intro hmem
    exact ⟨hfree, defs, hdefs, hmem⟩

theorem not_enabled_of_none (hdefs : symbol_table.definitions m.group = none) :
    ¬ Enabled symbol_table call m definition := by
  rintro ⟨_, defs, hdefs', _⟩
  cases hdefs.symm.trans hdefs'

/-- Nothing is done in a call whose symbol has no definition in effect, but to go on behind it. -/
theorem calls_iff_of_none (hsearch : SYMBOL_RE_search call.expr = some m)
    (hnone : ∀ definition, ¬ Enabled symbol_table call m definition) :
    (Passes symbol_table call m → c ⟨call.expr.drop m.stop, call.disabled⟩) ↔
      Expandable symbol_table call ∧ ∀ call', Step symbol_table call call' → c call' := by
  constructor
  · intro hrest
    constructor
    · intro m' definition _ _ _ hsearch' henabled
      cases hsearch.symm.trans hsearch'
      exact absurd henabled (hnone definition)
    · intro call' hstep
      cases hstep with
      | rest hsearch' hpass =>
        cases hsearch.symm.trans hsearch'
        exact hrest hpass
      | arg hsearch' henabled | after hsearch' henabled | again hsearch' henabled =>
        cases hsearch.symm.trans hsearch'
        exact absurd henabled (hnone _)
  · rintro ⟨_, hcalls⟩ hpass
    exact hcalls _ (.rest hsearch hpass)

theorem calls_iff (hsearch : SYMBOL_RE_search call.expr = some m)
    (hdefs : symbol_table.definitions m.group = some defs) (hfree : m.group ∉ call.disabled) :
    (∀ definition ∈ defs, c ⟨call.expr.drop m.stop, call.disabled⟩ ∧
      ∀ args after, definition.arguments call m = some (args, after) →
        Evaluates symbol_table c call m definition args after) ↔
      Expandable symbol_table call ∧ ∀ call', Step symbol_table call call' → c call' := by
  constructor
  · intro hall
    constructor
    · intro m' definition args after vs hsearch' henabled harguments hchosen
      cases hsearch.symm.trans hsearch'
      have hdefinition := (hall definition ((enabled_iff hdefs hfree).mp henabled)).2
      obtain ⟨expansion, hexpansion, _⟩ := (hdefinition args after harguments).2 vs hchosen
      exact ⟨expansion, hexpansion⟩
    · intro call' hstep
      cases hstep with
      | rest hsearch' hpass =>
        cases hsearch.symm.trans hsearch'
        cases hpass with
        | inl hnone => cases hdefs.symm.trans hnone
        | inr hpass =>
          obtain ⟨definition, henabled⟩ := hpass
          exact (hall definition ((enabled_iff hdefs hfree).mp henabled)).1
      | arg hsearch' henabled harguments harg =>
        cases hsearch.symm.trans hsearch'
        exact ((hall _ ((enabled_iff hdefs hfree).mp henabled)).2 _ _ harguments).1 _ harg
      | after hsearch' henabled harguments =>
        cases hsearch.symm.trans hsearch'
        have hdefinition := (hall _ ((enabled_iff hdefs hfree).mp henabled)).2 _ _ harguments
        obtain ⟨_, _, hafter, _⟩ := hdefinition.2 _ (chosen_self _)
        exact hafter
      | again hsearch' henabled harguments hchosen hexpansion ha =>
        cases hsearch.symm.trans hsearch'
        have hdefinition := (hall _ ((enabled_iff hdefs hfree).mp henabled)).2 _ _ harguments
        obtain ⟨_, hexpansion', _, hagain⟩ := hdefinition.2 _ hchosen
        cases hexpansion.symm.trans hexpansion'
        exact hagain _ ha
  · rintro ⟨hexpandable, hcalls⟩ definition hmem
    have henabled : Enabled symbol_table call m definition := (enabled_iff hdefs hfree).mpr hmem
    refine ⟨hcalls _ (.rest hsearch (Or.inr ⟨definition, henabled⟩)), ?_⟩
    intro args after harguments
    refine ⟨fun arg harg => hcalls _ (.arg hsearch henabled harguments harg), ?_⟩
    intro vs hchosen
    obtain ⟨expansion, hexpansion⟩ := hexpandable m definition args after vs hsearch henabled
      harguments hchosen
    refine ⟨expansion, hexpansion, hcalls _ (.after hsearch henabled harguments), ?_⟩
    intro a ha
    exact hcalls _ (.again hsearch henabled harguments hchosen hexpansion ha)

theorem value_iff {v : Text} (hsearch : SYMBOL_RE_search call.expr = some m)
    (hdefs : symbol_table.definitions m.group = some defs) (hfree : m.group ∉ call.disabled) :
    (v = call.expr ∨ ∃ definition ∈ defs,
      (∃ u, Value symbol_table ⟨call.expr.drop m.stop, call.disabled⟩ u ∧
        call.expr.take m.stop ++ u = v) ∨
        ∃ args after, definition.arguments call m = some (args, after) ∧
          Expands symbol_table call m definition args after v) ↔ Value symbol_table call v := by
  constructor
  · rintro (rfl | ⟨definition, hmem,
      ⟨u, hu, rfl⟩ | ⟨args, after, harguments, vs, expansion, hchosen, hexpansion,
      a, w, ha, hw, rfl⟩⟩)
    · exact value_self symbol_table call
    · exact .unevaluated hsearch (Or.inr ⟨definition, (enabled_iff hdefs hfree).mpr hmem⟩) hu
    · obtain ⟨hlength, hargs⟩ := zip_of_chosen hchosen
      exact .expanded hsearch ((enabled_iff hdefs hfree).mpr hmem) harguments hlength hargs
        hexpansion ha hw
  · intro hvalue
    cases hvalue with
    | plain => exact Or.inl rfl
    | itself => exact Or.inl rfl
    | unevaluated hsearch' hpass hu =>
      cases hsearch.symm.trans hsearch'
      cases hpass with
      | inl hnone => cases hdefs.symm.trans hnone
      | inr hpass =>
        obtain ⟨definition, henabled⟩ := hpass
        exact Or.inr ⟨definition, (enabled_iff hdefs hfree).mp henabled, Or.inl ⟨_, hu, rfl⟩⟩
    | expanded hsearch' henabled harguments hlength hargs hexpansion ha hw =>
      cases hsearch.symm.trans hsearch'
      exact Or.inr ⟨_, (enabled_iff hdefs hfree).mp henabled, Or.inr ⟨_, _, harguments, _, _,
        chosen_of_zip hlength hargs, hexpansion, _, _, ha, hw, rfl⟩⟩

theorem evalMacro_meets
    (h : ∀ call', Step symbol_table call call' → Computes (result call') (c call')
      (Value symbol_table call'))
    (hsearch : SYMBOL_RE_search call.expr = some m) (henabled : Enabled symbol_table call m definition) :
    Computes (EvalMacro result call m definition)
      (c ⟨call.expr.drop m.stop, call.disabled⟩ ∧
        ∀ args after, definition.arguments call m = some (args, after) →
          Evaluates symbol_table c call m definition args after)
      (fun v => (∃ u, Value symbol_table ⟨call.expr.drop m.stop, call.disabled⟩ u ∧
          call.expr.take m.stop ++ u = v) ∨
        ∃ args after, definition.arguments call m = some (args, after) ∧
          Expands symbol_table call m definition args after v) := by
  have hrest := h _ (.rest hsearch (Or.inr ⟨definition, henabled⟩))
  have hmap := hrest.map (call.expr.take m.stop ++ ·)
  exact (hmap.append (evalDefinition_meets h hsearch henabled)).last

theorem evalCall_meets
    (h : ∀ call', Step symbol_table call call' → Computes (result call') (c call')
      (Value symbol_table call')) :
    Computes (evalCall symbol_table result call)
      (Expandable symbol_table call ∧ ∀ call', Step symbol_table call call' → c call')
      (Value symbol_table call) := by
  have hself : ∀ v, v ∈ [call.expr] → Value symbol_table call v := by
    intro v hv
    rw [mem_singleton] at hv
    rw [hv]
    exact value_self symbol_table call
  cases hsearch : SYMBOL_RE_search call.expr with
  | none =>
    simp only [evalCall, hsearch]
    apply (Computes.pure _).congr
    · apply iff_of_true trivial
      constructor
      · intro m _ _ _ _ hsearch'
        cases hsearch.symm.trans hsearch'
      · intro call' hstep
        cases hstep with
        | rest hsearch' | arg hsearch' | after hsearch' | again hsearch' =>
          cases hsearch.symm.trans hsearch'
    · intro v
      refine ⟨hself v, ?_⟩
      intro hvalue
      cases hvalue with
      | plain => exact mem_singleton_self _
      | itself => exact mem_singleton_self _
      | unevaluated hsearch' => cases hsearch.symm.trans hsearch'
      | expanded hsearch' => cases hsearch.symm.trans hsearch'
  | some m =>
    cases hdefs : symbol_table.definitions m.group with
    | none =>
      have hnone : ∀ definition, ¬ Enabled symbol_table call m definition := fun _ =>
        not_enabled_of_none hdefs
      have hpass : Passes symbol_table call m := Or.inl hdefs
      simp only [evalCall, hsearch, hdefs]
      apply ((h _ (.rest hsearch hpass)).map (call.expr.take m.stop ++ ·)).congr
      · rw [← calls_iff_of_none hsearch hnone]
        exact ⟨fun hrest _ => hrest, fun hrest => hrest hpass⟩
      · intro v
        constructor
        · rintro ⟨u, hu, rfl⟩
          exact .unevaluated hsearch hpass hu
        · intro hvalue
          cases hvalue with
          | plain hsearch' => cases hsearch.symm.trans hsearch'
          | itself hsearch' hdefs' =>
            cases hsearch.symm.trans hsearch'
            cases hdefs.symm.trans hdefs'
          | unevaluated hsearch' _ hu =>
            cases hsearch.symm.trans hsearch'
            exact ⟨_, hu, rfl⟩
          | expanded hsearch' henabled =>
            cases hsearch.symm.trans hsearch'
            exact absurd henabled (hnone _)
    | some defs =>
      by_cases hfree : m.group ∈ call.disabled
      · have hnone : ∀ definition, ¬ Enabled symbol_table call m definition := fun _ henabled =>
          henabled.1 hfree
        have hstays : ¬ Passes symbol_table call m := by
          rintro (hnone' | ⟨definition, henabled⟩)
          · cases hdefs.symm.trans hnone'
          · exact hnone definition henabled
        simp only [evalCall, hsearch, hdefs, if_pos hfree]
        apply (Computes.pure _).congr
        · rw [← calls_iff_of_none hsearch hnone]
          exact iff_of_true trivial fun hpass => absurd hpass hstays
        · intro v
          refine ⟨hself v, ?_⟩
          intro hvalue
          cases hvalue with
          | plain => exact mem_singleton_self _
          | itself => exact mem_singleton_self _
          | unevaluated hsearch' hpass =>
            cases hsearch.symm.trans hsearch'
            exact absurd hpass hstays
          | expanded hsearch' henabled =>
            cases hsearch.symm.trans hsearch'
            exact absurd henabled (hnone _)
      · simp only [evalCall, hsearch, hdefs, if_neg hfree]
        have hunion := Computes.union fun definition (hmem : definition ∈ defs) =>
          evalMacro_meets h hsearch ((enabled_iff hdefs hfree).mpr hmem)
        apply (hunion.andThen (k := (call.expr :: ·)) fun values hvalues v =>
          (show v ∈ call.expr :: values ↔ Value symbol_table call v by
            rw [mem_cons, hvalues, value_iff hsearch hdefs hfree])).last.congr
        · exact calls_iff hsearch hdefs hfree
        · exact fun _ => Iff.rfl

end OneCall
end Toolwhip.Distcc.MacroEval
