import Toolwhip.Ld64.DylibReader
import Toolwhip.Lib.BlockedInserts

/-! # `$ld$` symbols of a dylib -/

namespace Toolwhip.Ld64.Dylib
set_option autoImplicit false

open Lib.BlockedInserts List

inductive VersionMin where
  | kMinUnset | k10_1 | k10_2 | k10_3 | k10_4 | k10_5 | k10_6
  deriving DecidableEq, Repr

inductive MetaWarning where
  | badSymbolAction | badSymbolName | badSymbolVersion | badSymbolCondition
  deriving DecidableEq, Repr

structure SymbolTable where
  fIgnoreExports : List Path := []
  fAtoms : Path → Option (AtomAndWeak Unit) := fun _ => none
  warnings : List (MetaWarning × Path) := []

/-- What follows the first `c`, which is included. -/
def strchr (s : Path) (c : Char) : Option Path :=
  if c ∈ s then some (s.dropWhile (· ≠ c)) else none

/-- The switch over `symCond[6] - '0'` -/
def symVersionCondition (digit : Char) : VersionMin :=
  match digit.toNat - '0'.toNat with
  | 0 => .k10_1
  | 1 => .k10_1
  | 2 => .k10_2
  | 3 => .k10_3
  | 4 => .k10_4
  | 5 => .k10_5
  | 6 => .k10_6
  | _ => .kMinUnset

/-- What is done with a name: the two actions return, any other name is inserted. -/
inductive SymAction where
  | hide (symName : Path)
  | add (symName : Path)
  | export (warning : Option MetaWarning)
  deriving DecidableEq

/-- `$os10.` and a digit, up to a `$`. -/
def isVersion (symCond : Path) : Bool :=
  "$os10.".toList.isPrefixOf symCond && (symCond[6]?).any Char.isDigit && symCond[7]? == some '$'

/-- The tests of `addSymbol` on a name. -/
def symAction (fDeploymentVersionMin : VersionMin) (name : Path) : SymAction :=
  if "$ld$".toList.isPrefixOf name then
    let action := name.drop 4
    match strchr action '$' with
    | none => .export (some .badSymbolCondition)
    | some symCond =>
      if isVersion symCond then
        match strchr (symCond.drop 1) '$' with
        | none => .export (some .badSymbolName)
        | some dollar =>
          let symName := dollar.drop 1
          if fDeploymentVersionMin = symVersionCondition ((symCond[6]?).getD '0') then
            if "hide$".toList.isPrefixOf action then .hide symName
            else if "add$".toList.isPrefixOf action then .add symName
            else .export (some .badSymbolAction)
          else .export none
      else .export (some .badSymbolVersion)
  else .export none

theorem strchr_length {s t : Path} {c : Char} (h : strchr s c = some t) : t.length ≤ s.length := by
  unfold strchr at h
  split at h
  · cases h
    exact (dropWhile_suffix _).length_le
  · cases h

theorem symAction_length {v : VersionMin} {name symName : Path}
    (h : symAction v name = .add symName) : symName.length < name.length := by
  unfold symAction at h
  simp only at h
  split at h
  · rename_i hstart
    have hfront := List.isPrefixOf_iff_prefix.mp hstart
    have hlong := hfront.length_le
    split at h
    · cases h
    rename_i symCond hcond
    have hcond' := strchr_length hcond
    split at h
    · split at h
      · cases h
      rename_i dollar hdollar
      have hdollar' := strchr_length hdollar
      simp only [length_drop] at hcond' hdollar' hlong
      have hfour : "$ld$".toList.length = 4 := rfl
      split at h
      · split at h
        · cases h
        split at h
        · cases h
          simp only [length_drop]
          omega
        · cases h
      · cases h
    · cases h
  · cases h

/-- The end of `addSymbol`: an export that is not to be ignored. -/
def insertExport (name : Path) (weak : Bool) (ordinal : Nat) (st : SymbolTable) : SymbolTable :=
  if st.fIgnoreExports.contains name then st
  else { st with fAtoms := Function.update st.fAtoms name (some { weak := weak, ordinal := ordinal }) }

def warn (warning : Option MetaWarning) (name : Path) (st : SymbolTable) : SymbolTable :=
  { st with warnings := st.warnings ++ (warning.map fun w => (w, name)).toList }

def addSymbol (fDeploymentVersionMin : VersionMin) (name : Path) (weak : Bool) (ordinal : Nat)
    (st : SymbolTable) : SymbolTable :=
  match _h : symAction fDeploymentVersionMin name with
  | .hide symName => { st with fIgnoreExports := st.fIgnoreExports.insert symName }
  | .add symName => addSymbol fDeploymentVersionMin symName weak ordinal st
  | .export warning => insertExport name weak ordinal (warn warning name st)
termination_by name.length
decreasing_by exact symAction_length _h

/-- A symbol of the export table, and whether `N_WEAK_DEF` is set. -/
structure ExportedSymbol where
  name : Path
  weak : Bool
  deriving DecidableEq

def addSymbols (fDeploymentVersionMin : VersionMin) :
    Nat → List ExportedSymbol → SymbolTable → SymbolTable
  | _, [], st => st
  | index, sym :: syms, st =>
    addSymbols fDeploymentVersionMin ((index + 1) % 2 ^ 32) syms
      (addSymbol fDeploymentVersionMin sym.name sym.weak index st)

def readerOf (st : SymbolTable) : Reader Unit where
  file :=
    { fPath := [], fParentUmbrella := none, fDylibInstallPath := [], fDependentLibraryPaths := []
      fNoRexports := true, fLinkingFlat := false, fExplictReExportFound := false
      fImplicitlyLinkPublicDylibs := false, fIgnoreExports := st.fIgnoreExports
      exports := st.fAtoms, reExportedOrdinal := 0 }

/-- `getJustInTimeAtomsFor` returns an atom. -/
def findsExport (st : SymbolTable) (name : Path) : Bool :=
  ((Readers.getJustInTimeAtomsFor name 1 (fun _ => readerOf st) ()).bind Prod.fst).isSome

theorem findsExport_eq (st : SymbolTable) (name : Path) :
    findsExport st name = (st.fAtoms name).isSome := by
  unfold findsExport Readers.getJustInTimeAtomsFor
  have hatoms : (readerOf st).fAtoms name = st.fAtoms name := rfl
  simp only [hatoms]
  cases hname : st.fAtoms name with
  | some bucket => rfl
  | none =>
    simp only
    split <;> rfl

/-! ## What a symbol of the table comes to -/

def resolve (v : VersionMin) (name : Path) : InsertEvent Path :=
  match _h : symAction v name with
  | .hide symName => .block symName
  | .add symName => resolve v symName
  | .export _ => .insert name
termination_by name.length
decreasing_by exact symAction_length _h

section Resolve
variable {v : VersionMin} {name symName : Path}

theorem resolve_hide (h : symAction v name = .hide symName) : resolve v name = .block symName := by
  rw [resolve]
  split <;> grind

theorem resolve_add (h : symAction v name = .add symName) : resolve v name = resolve v symName := by
  rw [resolve]
  split <;> grind

theorem resolve_export {warning : Option MetaWarning}
    (h : symAction v name = .export warning) : resolve v name = .insert name := by
  rw [resolve]
  split <;> grind

end Resolve

/-- The table after these events. -/
structure Follows (st : SymbolTable) (es : List (InsertEvent Path)) : Prop where
  ignored : ∀ name, name ∈ st.fIgnoreExports ↔ .block name ∈ es
  stored : ∀ name, (st.fAtoms name).isSome = true ↔ Stored es name

section Follows
variable {v : VersionMin} {name : Path} {weak : Bool} {ordinal : Nat} {st : SymbolTable}
  {es : List (InsertEvent Path)}

theorem follows_empty : Follows {} [] where
  ignored := by simp
  stored := by
    intro name
    constructor
    · intro h
      cases h
    · intro h
      exact absurd h not_stored_nil

theorem Follows.hide (h : Follows st es) :
    Follows { st with fIgnoreExports := st.fIgnoreExports.insert name }
      (es ++ [.block name]) where
  ignored := by
    intro other
    rw [mem_insert_iff, h.ignored, mem_append, mem_singleton, or_comm]
    simp
  stored := by
    intro other
    rw [h.stored, stored_concat]
    simp

theorem Follows.warn {warning : Option MetaWarning} (h : Follows st es) :
    Follows (warn warning name st) es :=
  ⟨h.ignored, h.stored⟩

theorem Follows.insertExport (h : Follows st es) :
    Follows (insertExport name weak ordinal st) (es ++ [.insert name]) := by
  unfold Dylib.insertExport
  by_cases hignore : name ∈ st.fIgnoreExports
  · rw [if_pos (List.contains_iff_mem.mpr hignore)]
    have hblocked := (h.ignored name).mp hignore
    constructor
    · intro other
      simp [h.ignored]
    · intro other
      rw [stored_concat, h.stored, iff_self_or]
      intro hother
      cases hother.1
      exact absurd hblocked hother.2
  · rw [if_neg (fun hmem => hignore (List.contains_iff_mem.mp hmem))]
    constructor
    · intro other
      simp [h.ignored]
    · intro other
      rw [stored_concat]
      by_cases heq : other = name
      · subst heq
        have hfree : InsertEvent.block other ∉ es := fun hb => hignore ((h.ignored other).mpr hb)
        simp [hfree]
      have hne : InsertEvent.insert name ≠ InsertEvent.insert other := by
        intro hsame
        exact heq (InsertEvent.insert.inj hsame).symm
      simp [Function.update_of_ne heq, h.stored, hne]

theorem Follows.addSymbol (h : Follows st es) :
    Follows (addSymbol v name weak ordinal st) (es ++ [resolve v name]) := by
  fun_induction Dylib.addSymbol v name weak ordinal st with
  | case1 name symName haction =>
    rw [resolve_hide haction]
    exact h.hide
  | case2 name symName haction ih =>
    rw [resolve_add haction]
    exact ih
  | case3 name warning haction =>
    rw [resolve_export haction]
    exact h.warn.insertExport

theorem Follows.addSymbols {syms : List ExportedSymbol} (h : Follows st es) :
    Follows (addSymbols v ordinal syms st) (es ++ syms.map fun sym => resolve v sym.name) := by
  induction syms generalizing ordinal st es with
  | nil => simpa [Dylib.addSymbols] using h
  | cons sym syms ih =>
    have hfirst : Follows (Dylib.addSymbol v sym.name sym.weak ordinal st)
        (es ++ [resolve v sym.name]) := h.addSymbol
    have hrest := @ih ((ordinal + 1) % 2 ^ 32) _ _ hfirst
    rw [append_assoc] at hrest
    exact hrest

theorem findsExport_iff {syms : List ExportedSymbol} :
    findsExport (addSymbols v ordinal syms {}) name = true ↔
      Stored (syms.map fun sym => resolve v sym.name) name := by
  rw [findsExport_eq]
  exact (follows_empty.addSymbols).stored name

end Follows
/-! ## The order of the table -/

/-- `$ld$<action>$os10.N$name` -/
def metaEntry (action : Path) (digit : Char) (name : Path) : Path :=
  "$ld$".toList ++ (action ++ ("$os10.".toList ++ digit :: '$' :: name))

def hideEntry (digit : Char) (name : Path) : Path := metaEntry "hide".toList digit name

def addEntry (digit : Char) (name : Path) : Path := metaEntry "add".toList digit name

section Entries
variable {v : VersionMin} {action : Path} {digit : Char} {name : Path}

theorem strchr_append {before after : Path} {c : Char} (h : c ∉ before) :
    strchr (before ++ c :: after) c = some (c :: after) := by
  unfold strchr
  have hmem : c ∈ before ++ c :: after := by simp
  have hall : ∀ d ∈ before, decide (d ≠ c) = true := by
    intro d hd
    apply decide_eq_true
    rintro rfl
    exact h hd
  rw [if_pos hmem, dropWhile_append_of_pos hall]
  simp

theorem isVersion_entry (hdigit : digit.isDigit = true) :
    isVersion ("$os10.".toList ++ digit :: '$' :: name) = true := by
  have hstart : "$os10.".toList.isPrefixOf ("$os10.".toList ++ digit :: '$' :: name) = true :=
    List.isPrefixOf_iff_prefix.mpr (prefix_append _ _)
  have hsix : ("$os10.".toList ++ digit :: '$' :: name)[6]? = some digit := rfl
  have hseven : ("$os10.".toList ++ digit :: '$' :: name)[7]? = some '$' := rfl
  unfold isVersion
  rw [hstart, hsix, hseven, Option.any_some, hdigit]
  rfl

theorem symAction_metaEntry (haction : '$' ∉ action) (hdigit : digit.isDigit = true) :
    symAction v (metaEntry action digit name) =
      if v = symVersionCondition digit then
        if "hide$".toList.isPrefixOf (action ++ ("$os10.".toList ++ digit :: '$' :: name)) then
          .hide name
        else if "add$".toList.isPrefixOf (action ++ ("$os10.".toList ++ digit :: '$' :: name)) then
          .add name
        else .export (some .badSymbolAction)
      else .export none := by
  have hstart : "$ld$".toList.isPrefixOf (metaEntry action digit name) = true :=
    List.isPrefixOf_iff_prefix.mpr (prefix_append _ _)
  have hdrop : (metaEntry action digit name).drop 4 =
      action ++ ("$os10.".toList ++ digit :: '$' :: name) := rfl
  have hcond : strchr (action ++ ("$os10.".toList ++ digit :: '$' :: name)) '$' =
      some ("$os10.".toList ++ digit :: '$' :: name) := strchr_append haction
  have hname : '$' ∉ "os10.".toList ++ [digit] := by
    intro hmem
    rcases List.mem_append.mp hmem with h | h
    · exact absurd h (by decide)
    rw [← List.mem_singleton.mp h] at hdigit
    cases hdigit
  have hdollar : strchr (("$os10.".toList ++ digit :: '$' :: name).drop 1) '$' =
      some ('$' :: name) := strchr_append hname
  have hsix : ("$os10.".toList ++ digit :: '$' :: name)[6]? = some digit := rfl
  unfold symAction
  simp only [hstart, hdrop, hcond, isVersion_entry hdigit, hdollar, hsix, if_true]
  rfl

theorem symAction_hideEntry (hdigit : digit.isDigit = true)
    (hversion : v = symVersionCondition digit) :
    symAction v (hideEntry digit name) = .hide name := by
  unfold hideEntry
  rw [symAction_metaEntry (by decide) hdigit, if_pos hversion]
  rfl

theorem symAction_addEntry (hdigit : digit.isDigit = true)
    (hversion : v = symVersionCondition digit) : symAction v (addEntry digit name) = .add name := by
  unfold addEntry
  rw [symAction_metaEntry (by decide) hdigit, if_pos hversion]
  rfl

end Entries

section Order
variable {v : VersionMin} {table : List ExportedSymbol} {name : Path}

/-- The table has a `$ld$hide` entry of the deployment version for the name. -/
def Hidden (v : VersionMin) (table : List ExportedSymbol) (name : Path) : Prop :=
  ∃ digit, digit.isDigit = true ∧ symVersionCondition digit = v ∧
    ∃ sym ∈ table, sym.name = hideEntry digit name

/-- The table has a `$ld$add` entry of the deployment version for the name. -/
def Added (v : VersionMin) (table : List ExportedSymbol) (name : Path) : Prop :=
  ∃ digit, digit.isDigit = true ∧ symVersionCondition digit = v ∧
    ∃ sym ∈ table, sym.name = addEntry digit name

/-- What is exported does not depend on the order of the table. -/
structure OrderIndependent (v : VersionMin) (table : List ExportedSymbol) : Prop where
  same : ∀ order order' index index', order.Perm table → order'.Perm table → ∀ name,
    findsExport (addSymbols v index order {}) name =
      findsExport (addSymbols v index' order' {}) name
  hidden : ∀ order index, order.Perm table → ∀ name, Hidden v table name →
    findsExport (addSymbols v index order {}) name = false
  added : ∀ order index, order.Perm table → ∀ name, ¬ "$ld$".toList <+: name →
    Added v table name → ¬ Hidden v table name →
      findsExport (addSymbols v index order {}) name = true

def Hides (v : VersionMin) (table : List ExportedSymbol) (name : Path) : Prop :=
  ∃ sym ∈ table, resolve v sym.name = .block name

def Exports (v : VersionMin) (table : List ExportedSymbol) (name : Path) : Prop :=
  ∃ sym ∈ table, resolve v sym.name = .insert name

theorem Hidden.hides (h : Hidden v table name) : Hides v table name := by
  obtain ⟨digit, hdigit, hversion, sym, hsym, hname⟩ := h
  refine ⟨sym, hsym, ?_⟩
  rw [hname]
  exact resolve_hide (symAction_hideEntry hdigit hversion.symm)

theorem resolve_ordinary (h : ¬ "$ld$".toList <+: name) : resolve v name = .insert name := by
  apply resolve_export
  unfold symAction
  rw [if_neg]
  intro hstart
  exact h <| List.isPrefixOf_iff_prefix.mp hstart

theorem Added.exports (hordinary : ¬ "$ld$".toList <+: name) (h : Added v table name) :
    Exports v table name := by
  obtain ⟨digit, hdigit, hversion, sym, hsym, hname⟩ := h
  refine ⟨sym, hsym, ?_⟩
  rw [hname, resolve_add (symAction_addEntry hdigit hversion.symm)]
  exact resolve_ordinary hordinary

def events (v : VersionMin) (table : List ExportedSymbol) : List (InsertEvent Path) :=
  table.map fun sym => resolve v sym.name

theorem unmixed_events :
    Unmixed (events v table) ↔ ∀ name, Hides v table name → ¬ Exports v table name := by
  unfold Unmixed events Hides Exports
  simp only [mem_map]

theorem perm_events {es : List (InsertEvent Path)} (h : es.Perm (events v table)) :
    ∃ order, order.Perm table ∧ events v order = es := by
  have hcomp : Relation.Comp
      (fun es order => es = List.map (fun sym => resolve v sym.name) order) List.Perm es table := by
    rw [eq_map_comp_perm]
    exact h
  obtain ⟨order, heq, hperm⟩ := hcomp
  exact ⟨order, hperm, heq.symm⟩

theorem orderIndependent_iff :
    OrderIndependent v table ↔ ∀ name, Hides v table name → ¬ Exports v table name := by
  rw [← unmixed_events]
  constructor
  · intro h
    apply orderFree_iff.mp
    intro es es' hes hes' name
    obtain ⟨order, hperm, rfl⟩ := perm_events hes
    obtain ⟨order', hperm', rfl⟩ := perm_events hes'
    have hsame := h.same order order' 0 0 hperm hperm' name
    unfold events
    rw [← @findsExport_iff v name 0, ← @findsExport_iff v name 0, hsame]
  · intro h
    have hfound : ∀ order index, order.Perm table → ∀ name,
        findsExport (addSymbols v index order {}) name = true ↔
          .insert name ∈ events v table := by
      intro order index hperm name
      rw [findsExport_iff]
      exact h.stored_iff (hperm.map _)
    constructor
    · intro order order' index index' hperm hperm' name
      apply Bool.eq_iff_iff.mpr
      rw [hfound order index hperm, hfound order' index' hperm']
    · intro order index hperm name hhidden
      apply Bool.eq_false_iff.mpr
      intro hfind
      exact unmixed_events.mp h name hhidden.hides
        (List.mem_map.mp ((hfound order index hperm name).mp hfind))
    · intro order index hperm name hordinary hadded _
      apply (hfound order index hperm name).mpr
      exact List.mem_map.mpr (hadded.exports hordinary)

/-- `_foo` is added and hidden on 10.5; the entries are sorted by name. -/
def fooHidden : List ExportedSymbol :=
  [⟨addEntry '5' "_foo".toList, false⟩, ⟨hideEntry '5' "_foo".toList, false⟩]

theorem orderIndependent_fooHidden : ¬ ∀ v table, OrderIndependent v table := by
  intro hclaim
  have hhidden : Hidden .k10_5 fooHidden "_foo".toList :=
    ⟨'5', rfl, rfl, ⟨hideEntry '5' "_foo".toList, false⟩, by simp [fooHidden], rfl⟩
  have hnone := (hclaim .k10_5 fooHidden).hidden fooHidden 0 (List.Perm.refl _) _ hhidden
  have hfoo : resolve .k10_5 (addEntry '5' "_foo".toList) = .insert "_foo".toList := by
    have hadd : symAction .k10_5 (addEntry '5' "_foo".toList) = .add "_foo".toList :=
      symAction_addEntry rfl rfl
    rw [resolve_add hadd]
    exact resolve_ordinary (by decide)
  have hfound : findsExport (addSymbols .k10_5 0 fooHidden {}) "_foo".toList = true := by
    apply findsExport_iff.mpr
    unfold fooHidden
    rw [map_cons, hfoo]
    exact stored_cons_insert
  rw [hnone] at hfound
  cases hfound

end Order
end Toolwhip.Ld64.Dylib
