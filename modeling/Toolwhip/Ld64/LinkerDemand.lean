import Toolwhip.Ld64.LinkerSteps

/-! # The names that a link demands

Without dead stripping every name that an atom refers to is in the symbol table from the
moment the atom is added. `fRequireCount` counts the names that were put there without an
atom, and a name that has none is one of them. -/

set_option autoImplicit false

namespace Toolwhip.Ld64
open Lib.ThrowingFold

namespace SymbolTable
variable {value : Option AtomPtr} {a : AtomPtr}

def HasKey (t : SymbolTable) (name : String) : Prop := (t.fTable.lookup name).isSome

/-- In the table with the value `NULL`. -/
def Undefined (t : SymbolTable) (name : String) : Prop := t.fTable.lookup name = some none

variable {t : SymbolTable} {name other : String}

theorem HasKey.undefined (h : t.HasKey name) (hfind : t.find name = none) : t.Undefined name := by
  unfold HasKey at h
  unfold find at hfind
  unfold Undefined
  cases hl : t.fTable.lookup name with
  | none =>
    rw [hl] at h
    cases h
  | some value =>
    rw [hl] at hfind
    cases value with
    | none => rfl
    | some a => cases hfind

theorem Undefined.hasKey (h : t.Undefined name) : t.HasKey name := by
  unfold HasKey
  rw [h]
  rfl

theorem Undefined.find (h : t.Undefined name) : t.find name = none := by
  unfold SymbolTable.find
  rw [h]
  rfl

theorem hasKey_of_find (h : t.find name = some a) : t.HasKey name := by
  unfold SymbolTable.find at h
  unfold HasKey
  cases hl : t.fTable.lookup name with
  | none =>
    rw [hl] at h
    cases h
  | some value => rfl

theorem Undefined.mem_getNeededNames (h : t.Undefined name) : name ∈ t.getNeededNames := by
  unfold getNeededNames
  rw [List.mem_filter, h.find]
  refine ⟨AList.lookup_isSome.mp ?_, rfl⟩
  exact h.hasKey

variable {t' : SymbolTable}

theorem hasKey_insert (h : t'.fTable = t.fTable.insert name value) :
    t'.HasKey other ↔ other = name ∨ t.HasKey other := by
  unfold HasKey
  rw [h]
  by_cases hne : other = name
  · subst hne
    simp [AList.lookup_insert]
  · simp [AList.lookup_insert_ne hne, hne]

theorem undefined_insert (h : t'.fTable = t.fTable.insert name value) :
    t'.Undefined other ↔ (other = name ∧ value = none) ∨ (other ≠ name ∧ t.Undefined other) := by
  unfold Undefined
  rw [h]
  by_cases hne : other = name
  · subst hne
    simp [AList.lookup_insert]
  · simp [AList.lookup_insert_ne hne, hne]

/-- A step that counts no name and takes the atom of none. -/
structure Settles (t t' : SymbolTable) : Prop where
  count : t'.fRequireCount = t.fRequireCount
  keys : ∀ name, t.HasKey name → t'.HasKey name
  undefined : ∀ name, t'.Undefined name → t.Undefined name

theorem Settles.refl (t : SymbolTable) : Settles t t :=
  ⟨rfl, fun _ h => h, fun _ h => h⟩

theorem Settles.of_fTable (hcount : t'.fRequireCount = t.fRequireCount)
    (h : t'.fTable = t.fTable) : Settles t t' := by
  refine ⟨hcount, ?_, ?_⟩
  · intro n hn
    unfold HasKey
    rw [h]
    exact hn
  · intro n hn
    unfold Undefined
    rw [← h]
    exact hn

theorem Settles.of_set (hcount : t'.fRequireCount = t.fRequireCount)
    (h : t'.fTable = t.fTable.insert name (some a)) : Settles t t' := by
  refine ⟨hcount, ?_, ?_⟩
  · intro n hn
    exact (hasKey_insert h).mpr (Or.inr hn)
  · intro n hn
    rcases (undefined_insert h).mp hn with ⟨-, hnone⟩ | ⟨-, hold⟩
    · cases hnone
    · exact hold

theorem fRequireCount_noteExternal (t : SymbolTable) (scope : Scope) (kind : DefinitionKind) :
    (t.noteExternal scope kind).fRequireCount = t.fRequireCount := by
  unfold noteExternal
  split <;> rfl

section
variable {objs : Objects} {mode : CommonsMode} {scope : Scope} {a : AtomPtr} {r : AddResult}
    (h : add objs mode scope t a = .ok r)
include h

theorem settles_add : Settles t r.table := by
  have hcount := fRequireCount_noteExternal t scope (objs.atom a).getDefinitionKind
  have htable := fTable_noteExternal t scope (objs.atom a).getDefinitionKind
  have hfTable : ((t.noteExternal scope (objs.atom a).getDefinitionKind).set
      (objs.nameOf a) a).fTable = t.fTable.insert (objs.nameOf a) (some a) := by
    unfold set
    rw [htable]
  have hset : Settles t ((t.noteExternal scope (objs.atom a).getDefinitionKind).set
      (objs.nameOf a) a) := Settles.of_set hcount hfTable
  unfold add at h
  dsimp only at h
  split at h
  · cases h
    exact hset
  obtain ⟨b, -, h⟩ := bind_eq_ok.mp h
  cases b with
  | true =>
    cases h
    exact hset
  | false =>
    cases h
    exact Settles.of_fTable hcount htable

theorem find_add_self : (r.table.find (objs.nameOf a)).isSome := by
  cases add_cases h with
  | isNew _ hfind _ => rw [hfind]; rfl
  | replaces _ _ _ hfind _ => rw [hfind]; rfl
  | keeps _ _ _ hfind _ => rw [hfind]; rfl

end

end SymbolTable

def References (objs : Objects) (a : AtomPtr) (name : String) : Prop :=
  ∃ sl ∈ objs.slots a, objs.byName sl = some name

variable {σ : Type}

/-- The counter counts the names in `required`, all of them among `names`; nothing is bound
yet. -/
structure Counted (ld : Linker σ) (names required : Finset String) (s : LinkerState σ) : Prop where
  bound : s.bound = ld.objs.initialBinding
  scope : ∀ a, s.getScope a = .scopeTranslationUnit ↔
    (ld.objs.atom a).getScope = .scopeTranslationUnit
  subset : required ⊆ names
  keys : ∀ name ∈ required, s.fGlobalSymbolTable.HasKey name
  count : s.fGlobalSymbolTable.fRequireCount = required.card
  undefined : ∀ name, s.fGlobalSymbolTable.Undefined name → name ∈ required

/-- What a step of loading does to the table: it counts further names, and no name loses its
atom. -/
structure Extends (ld : Linker σ) (names : Finset String) (s s' : LinkerState σ) : Prop where
  counted : ∀ required, Counted ld names required s →
    ∃ required', required ⊆ required' ∧ Counted ld names required' s'
  keys : ∀ name, s.fGlobalSymbolTable.HasKey name → s'.fGlobalSymbolTable.HasKey name
  defined : ∀ name, (s.find name).isSome → (s'.find name).isSome

namespace Extends
variable {ld : Linker σ} {names : Finset String} {s t u : LinkerState σ}

theorem refl (s : LinkerState σ) : Extends ld names s s where
  counted required h := ⟨required, Finset.Subset.refl _, h⟩
  keys _ h := h
  defined _ h := h

theorem trans (hst : Extends ld names s t) (htu : Extends ld names t u) : Extends ld names s u where
  counted required h := by
    obtain ⟨r, hr, ht⟩ := hst.counted required h
    obtain ⟨r', hr', hu⟩ := htu.counted r ht
    exact ⟨r', Finset.Subset.trans hr hr', hu⟩
  keys name h := htu.keys name (hst.keys name h)
  defined name h := htu.defined name (hst.defined name h)

theorem find_isSome_of_settles {t t' : SymbolTable} (h : SymbolTable.Settles t t') {name : String}
    (hfind : (t.find name).isSome) : (t'.find name).isSome := by
  cases hold : t.find name with
  | none =>
    rw [hold] at hfind
    cases hfind
  | some a =>
    cases hnew : t'.find name with
    | some b => rfl
    | none =>
      have hkey := h.keys name (SymbolTable.hasKey_of_find hold)
      have hundef := h.undefined name (hkey.undefined hnew)
      rw [hundef.find] at hold
      cases hold

theorem of_settles (hbound : t.bound = s.bound)
    (hscope : ∀ a, t.getScope a = .scopeTranslationUnit ↔ s.getScope a = .scopeTranslationUnit)
    (h : SymbolTable.Settles s.fGlobalSymbolTable t.fGlobalSymbolTable) : Extends ld names s t where
  counted required hs :=
    ⟨required, Finset.Subset.refl _, {
      bound := hbound.trans hs.bound
      scope := fun a => (hscope a).trans (hs.scope a)
      subset := hs.subset
      keys := fun name hname => h.keys name (hs.keys name hname)
      count := h.count.trans hs.count
      undefined := fun name hname => hs.undefined name (h.undefined name hname) }⟩
  keys := h.keys
  defined _ := find_isSome_of_settles h

theorem of_same (hbound : t.bound = s.bound) (hscope : t.getScope = s.getScope)
    (htable : t.fGlobalSymbolTable = s.fGlobalSymbolTable) : Extends ld names s t := by
  refine of_settles hbound ?_ ?_
  · intro a
    rw [hscope]
  · rw [htable]
    exact SymbolTable.Settles.refl _

end Extends

theorem require_extends {ld : Linker σ} {names : Finset String} (hsmall : names.card < 2 ^ 32)
    {s : LinkerState σ} {name : String} (hname : name ∈ names) :
    Extends ld names s (s.require name) ∧ (s.require name).fGlobalSymbolTable.HasKey name := by
  cases hl : s.fGlobalSymbolTable.fTable.lookup name with
  | some value =>
    have hsame : s.fGlobalSymbolTable.require name = s.fGlobalSymbolTable := by
      unfold SymbolTable.require
      rw [hl]
    refine ⟨Extends.of_same rfl rfl hsame, ?_⟩
    change (s.fGlobalSymbolTable.require name).HasKey name
    rw [hsame]
    unfold SymbolTable.HasKey
    rw [hl]
    rfl
  | none =>
    have hnew : s.fGlobalSymbolTable.require name =
        { s.fGlobalSymbolTable with
          fTable := s.fGlobalSymbolTable.fTable.insert name none
          fRequireCount := (s.fGlobalSymbolTable.fRequireCount + 1) % 2 ^ 32 } := by
      unfold SymbolTable.require
      rw [hl]
    have htable : (s.require name).fGlobalSymbolTable.fTable =
        s.fGlobalSymbolTable.fTable.insert name none := by
      change (s.fGlobalSymbolTable.require name).fTable = _
      rw [hnew]
    have hcount : (s.require name).fGlobalSymbolTable.fRequireCount =
        (s.fGlobalSymbolTable.fRequireCount + 1) % 2 ^ 32 := by
      change (s.fGlobalSymbolTable.require name).fRequireCount = _
      rw [hnew]
    have hkey : ∀ n, (s.require name).fGlobalSymbolTable.HasKey n ↔
        n = name ∨ s.fGlobalSymbolTable.HasKey n :=
      fun n => SymbolTable.hasKey_insert htable
    refine ⟨⟨?_, ?_, ?_⟩, (hkey name).mpr (Or.inl rfl)⟩
    · intro required hs
      have hfresh : name ∉ required := by
        intro hmem
        have hold := hs.keys name hmem
        unfold SymbolTable.HasKey at hold
        rw [hl] at hold
        cases hold
      have hsub : insert name required ⊆ names := Finset.insert_subset hname hs.subset
      refine ⟨insert name required, Finset.subset_insert _ _, hs.bound, hs.scope, hsub, ?_, ?_, ?_⟩
      · intro n hn
        rw [hkey]
        rcases Finset.mem_insert.mp hn with rfl | hn
        · exact Or.inl rfl
        · exact Or.inr (hs.keys n hn)
      · have hcard := Finset.card_le_card hsub
        rw [Finset.card_insert_of_notMem hfresh] at hcard ⊢
        rw [hcount, hs.count, Nat.mod_eq_of_lt (by omega)]
      · intro n hn
        rcases (SymbolTable.undefined_insert htable).mp hn with ⟨rfl, -⟩ | ⟨-, hold⟩
        · exact Finset.mem_insert_self _ _
        · exact Finset.mem_insert_of_mem (hs.undefined n hold)
    · intro n hn
      exact (hkey n).mpr (Or.inr hn)
    · intro n hn
      change ((s.fGlobalSymbolTable.require name).find n).isSome
      rw [SymbolTable.find_require]
      exact hn

/-! ## What the loading functions demand

One lemma for each function that adds atoms: it extends the table, and an atom that is added
has its names in the table afterwards. -/

open List

variable {σ : Type}

def Closed (ld : Linker σ) (s : LinkerState σ) : Prop :=
  ∀ a ∈ s.fAllAtoms, ∀ name, References ld.objs a name → s.fGlobalSymbolTable.HasKey name

/-- What a phase that adds atoms does. -/
structure Demands (ld : Linker σ) (names : Finset String) (s s' : LinkerState σ) : Prop
    extends Extends ld names s s' where
  bound : s'.bound = s.bound
  closed : s.bound = ld.objs.initialBinding → Closed ld s → Closed ld s'

namespace Demands
variable {ld : Linker σ} {names : Finset String} {s t u : LinkerState σ}

theorem refl (s : LinkerState σ) : Demands ld names s s :=
  { Extends.refl s with bound := rfl, closed := fun _ h => h }

theorem trans (hst : Demands ld names s t) (htu : Demands ld names t u) : Demands ld names s u :=
  { hst.toExtends.trans htu.toExtends with
    bound := htu.bound.trans hst.bound
    closed := fun hbound h => htu.closed (hst.bound.trans hbound) (hst.closed hbound h) }

theorem of_same (hbound : t.bound = s.bound) (hscope : t.getScope = s.getScope)
    (htable : t.fGlobalSymbolTable = s.fGlobalSymbolTable) (hall : t.fAllAtoms = s.fAllAtoms) :
    Demands ld names s t :=
  { Extends.of_same hbound hscope htable with
    bound := hbound
    closed := by
      intro _ h a ha name hname
      rw [hall] at ha
      rw [htable]
      exact h a ha name hname }

theorem foldlM {α : Type} {f : LinkerState σ → α → Except LinkError (LinkerState σ)} {l : List α}
    (hstep : ∀ u, ∀ a ∈ l, ∀ v, f u a = .ok v → Demands ld names u v)
    (h : l.foldlM f s = .ok t) : Demands ld names s t :=
  foldlM_relates refl (fun _ _ _ => trans) (fun u a v ha => hstep u a ha v) h

end Demands

theorem Objects.initialBinding_of_byName {objs : Objects} {sl : Slot} {name : String}
    (h : objs.byName sl = some name) : objs.initialBinding sl = none := by
  unfold Objects.byName at h
  split at h
  · cases h
  unfold Objects.slotName at h
  unfold Objects.initialBinding
  cases href : objs.reference sl with
  | none => rfl
  | some ref =>
    rw [href] at h
    have hto := ref.toByName
    have hfrom := ref.fromByName
    cases hside : sl.side with
    | target =>
      simp only [Option.bind_some, hside] at h ⊢
      rcases hto with hto | hto
      · rw [hto] at h
        cases h
      · exact hto
    | fromTarget =>
      simp only [Option.bind_some, hside] at h ⊢
      rcases hfrom with hfrom | hfrom
      · rw [hfrom] at h
        cases h
      · exact hfrom

namespace Linker
variable {ld : Linker σ} {names : Finset String} {s s' : LinkerState σ} {a : AtomPtr}
variable {p : AtomPtr × Nat}

theorem noteReferences_extends (hsmall : names.card < 2 ^ 32) (s : LinkerState σ)
    (hnames : ∀ name, References ld.objs a name → name ∈ names) :
    Extends ld names s (ld.noteReferences s a) ∧ (s.bound = ld.objs.initialBinding →
      ∀ name, References ld.objs a name →
        (ld.noteReferences s a).fGlobalSymbolTable.HasKey name) := by
  unfold noteReferences
  dsimp only
  unfold References at hnames ⊢
  generalize ld.objs.slots a = slots at hnames ⊢
  induction slots generalizing s with
  | nil =>
    refine ⟨Extends.of_same rfl rfl rfl, ?_⟩
    rintro _ name ⟨sl, hsl, -⟩
    cases hsl
  | cons sl slots ih =>
    have hrest : ∀ name, (∃ sl ∈ slots, ld.objs.byName sl = some name) → name ∈ names := by
      rintro name ⟨sl', hsl', hname⟩
      exact hnames name ⟨sl', mem_cons_of_mem sl hsl', hname⟩
    rw [foldl_cons]
    split
    · rename_i name hunbound
      have hname := (unboundName_eq_some.mp hunbound).2
      obtain ⟨hext, hkey⟩ := @require_extends σ ld names hsmall s name
        (hnames name ⟨sl, mem_cons_self, hname⟩)
      obtain ⟨hext', hkeys⟩ := ih (s.require name) hrest
      refine ⟨hext.trans hext', ?_⟩
      rintro hbound other ⟨sl', hsl', hother⟩
      rcases List.mem_cons.mp hsl' with rfl | hsl'
      · rw [hname] at hother
        rw [← Option.some.inj hother]
        exact hext'.keys name hkey
      · exact hkeys hbound other ⟨sl', hsl', hother⟩
    · rename_i hnone
      obtain ⟨p, hp⟩ := addSlotProbe_frame ld s sl
      rw [hp]
      obtain ⟨hext', hkeys⟩ := ih { s with probes := p } hrest
      have hext : Extends ld names s { s with probes := p } := Extends.of_same rfl rfl rfl
      refine ⟨hext.trans hext', ?_⟩
      rintro hbound other ⟨sl', hsl', hother⟩
      rcases List.mem_cons.mp hsl' with rfl | hsl'
      · -- a side with a name is not bound yet
        have hfree : s.bound sl' = none := by
          rw [hbound]
          exact Objects.initialBinding_of_byName hother
        rw [unboundName_eq_some.mpr ⟨hfree, hother⟩] at hnone
        cases hnone
      · exact hkeys hbound other ⟨sl', hsl', hother⟩

theorem addToSymbolTable_extends (h : ld.addToSymbolTable s a = .ok s') :
    Extends ld names s s' ∧ (s'.find (ld.objs.nameOf a)).isSome := by
  obtain ⟨r, hr, h⟩ := bind_eq_ok.mp h
  have hsettles := SymbolTable.settles_add hr
  have hself := SymbolTable.find_add_self hr
  have hext : Extends ld names s { s with fGlobalSymbolTable := r.table } :=
    Extends.of_settles rfl (fun _ => Iff.rfl) hsettles
  split at h
  · cases h
    exact ⟨hext, hself⟩
  have hgrows := (markDead_spec h).1
  rw [hgrows.frame]
  exact ⟨hext.trans (Extends.of_same rfl rfl rfl), hself⟩

def Defines (ld : Linker σ) (a : AtomPtr) (name : String) : Prop :=
  (ld.objs.atom a).getName = some name ∧ (ld.objs.atom a).getScope ≠ .scopeTranslationUnit ∧
    ld.inSymbolTable a = true

section
variable (hoff : ld.fOptions.deadStrip = .kDeadStripOff) (hsmall : names.card < 2 ^ 32)
    (hnames : ∀ name, References ld.objs a name → name ∈ names) (h : ld.addAtom s a = .ok s')
include hoff hsmall hnames h

theorem addAtom_extends : Extends ld names s s' ∧
      (s.bound = ld.objs.initialBinding →
        ∀ name, References ld.objs a name → s'.fGlobalSymbolTable.HasKey name) ∧
      ((s.getScope a = .scopeTranslationUnit ↔
          (ld.objs.atom a).getScope = .scopeTranslationUnit) →
        ∀ name, ld.Defines a name → (s'.find name).isSome) := by
  have hlist : ld.listAtom s a = ld.noteReferences (s.push a) a := if_pos hoff
  obtain ⟨hnoted, hkeys⟩ := @noteReferences_extends σ ld names a hsmall (s.push a) hnames
  have hpush : Extends ld names s (s.push a) := Extends.of_same rfl rfl rfl
  have hscope : (ld.noteReferences (s.push a) a).getScope = s.getScope := by
    obtain ⟨t, p, heq, -⟩ := noteReferences_frame ld (s.push a) a
    rw [heq]
    rfl
  unfold addAtom at h
  rw [hlist] at h
  dsimp only at h
  split at h
  · rename_i hnone
    cases h
    refine ⟨hpush.trans hnoted, hkeys, ?_⟩
    intro _ name hdef
    rw [hdef.1] at hnone
    cases hnone
  · rename_i name hname
    split at h
    · rename_i hunit
      cases h
      refine ⟨hpush.trans hnoted, hkeys, ?_⟩
      intro hstatic other hdef
      rw [hscope] at hunit
      exact absurd (hstatic.mp hunit) hdef.2.1
    · obtain ⟨scope, heq, hiff⟩ := restrictScope_frame ld (ld.noteReferences (s.push a) a) a name
      have hrestrict : Extends ld names (ld.noteReferences (s.push a) a)
          (ld.restrictScope (ld.noteReferences (s.push a) a) a name) := by
        rw [heq]
        exact Extends.of_settles rfl hiff (SymbolTable.Settles.refl _)
      split at h
      · obtain ⟨hext, hself⟩ := @addToSymbolTable_extends σ ld names _ _ _ h
        refine ⟨hpush.trans (hnoted.trans (hrestrict.trans hext)), ?_, ?_⟩
        · intro hbound other hother
          exact hext.keys other (hrestrict.keys other (hkeys hbound other hother))
        · intro _ other hdef
          rw [← Objects.nameOf_eq hdef.1]
          exact hself
      · rename_i hout
        cases h
        refine ⟨hpush.trans (hnoted.trans hrestrict), ?_, ?_⟩
        · intro hbound other hother
          exact hrestrict.keys other (hkeys hbound other hother)
        · intro _ other hdef
          exact absurd hdef.2.2 hout

theorem addAtom_demands : Demands ld names s s' := by
  obtain ⟨hext, hkeys, -⟩ := addAtom_extends hoff hsmall hnames h
  have hframe := (addAtom_spec h).frame
  have hall : s'.fAllAtoms = s.fAllAtoms ++ [a] := by rw [hframe]
  refine { hext with bound := by rw [hframe], closed := ?_ }
  intro hbound hclosed b hb name hname
  rw [hall] at hb
  rcases List.mem_append.mp hb with hb | hb
  · exact hext.keys name (hclosed b hb name hname)
  rw [List.mem_singleton.mp hb] at hname
  exact hkeys hbound name hname

end

theorem noteSupplier_demands {i : Nat} (h : ld.noteSupplier s a i = .ok s') :
    Demands ld names s s' := by
  unfold noteSupplier at h
  dsimp only at h
  split at h
  · obtain ⟨constraint, -, h⟩ := bind_eq_ok.mp h
    cases h
    exact Demands.of_same rfl rfl rfl rfl
  · cases h
    exact Demands.refl _

theorem addSupplied_demands (hoff : ld.fOptions.deadStrip = .kDeadStripOff)
    (hsmall : names.card < 2 ^ 32) (hnames : ∀ name, References ld.objs p.1 name → name ∈ names)
    (h : ld.addSupplied s p = .ok s') : Demands ld names s s' := by
  obtain ⟨t, ht, h⟩ := bind_eq_ok.mp h
  exact (noteSupplier_demands ht).trans (addAtom_demands hoff hsmall hnames h)

theorem mem_of_zipIdx {atoms : List AtomPtr} (h : p ∈ atoms.zipIdx) : p.1 ∈ atoms := by
  have hfst := mem_map_of_mem (f := Prod.fst) h
  rwa [zipIdx_map_fst] at hfst

section
variable (hoff : ld.fOptions.deadStrip = .kDeadStripOff) (hsmall : names.card < 2 ^ 32)
    {atoms : List AtomPtr} (hnames : ∀ a ∈ atoms, ∀ name, References ld.objs a name → name ∈ names)
include hoff hsmall hnames

theorem addAtoms_demands (h : ld.addAtoms s atoms = .ok s') : Demands ld names s s' := by
  refine Demands.foldlM ?_ h
  intro u p hp v hv
  exact addSupplied_demands hoff hsmall (hnames p.1 (mem_of_zipIdx hp)) hv

theorem addAtoms_defines
    {required : Finset String} (hs : Counted ld names required s) (ha : a ∈ atoms) {name : String}
    (hdef : ld.Defines a name) (h : ld.addAtoms s atoms = .ok s') : (s'.find name).isSome := by
  obtain ⟨i, hi, hget⟩ := List.mem_iff_getElem.mp ha
  have hp : (a, i) ∈ atoms.zipIdx := by
    rw [mk_mem_zipIdx_iff_getElem?, ← hget]
    exact getElem?_eq_getElem hi
  obtain ⟨l₁, l₂, hl⟩ := append_of_mem hp
  have hmem : ∀ q ∈ l₁ ++ (a, i) :: l₂, q.1 ∈ atoms := by
    intro q hq
    rw [← hl] at hq
    exact mem_of_zipIdx hq
  unfold addAtoms at h
  rw [hl] at h
  obtain ⟨u, hu, h⟩ := foldlM_append_ok.mp h
  obtain ⟨v, hv, ht⟩ := foldlM_cons_ok.mp h
  have hbefore : Demands ld names s u := by
    refine Demands.foldlM ?_ hu
    intro u' q hq v' hv'
    exact addSupplied_demands hoff hsmall (hnames q.1 (hmem q (mem_append_left _ hq))) hv'
  have hafter : Demands ld names v s' := by
    refine Demands.foldlM ?_ ht
    intro u' q hq v' hv'
    exact addSupplied_demands hoff hsmall
      (hnames q.1 (hmem q (mem_append_right _ (mem_cons_of_mem _ hq)))) hv'
  obtain ⟨w, hw, hadd⟩ := bind_eq_ok.mp hv
  obtain ⟨r, -, hcounted⟩ := (hbefore.trans (noteSupplier_demands hw)).counted required hs
  exact hafter.defined name
    ((addAtom_extends hoff hsmall (hnames a ha) hadd).2.2 (hcounted.scope a) name hdef)

end

end Linker
end Toolwhip.Ld64
