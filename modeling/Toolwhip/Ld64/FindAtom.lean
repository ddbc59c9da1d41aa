import Toolwhip.Lib.CollisionTable
import Toolwhip.Lib.Substring
import Toolwhip.Ld64.SortAtoms
import Toolwhip.Ld64.SymbolTable

/-! # Linker::findAtom

The atom that an entry of an order file means: the one in the global symbol table, or one
that a scan of all atoms finds. -/

namespace Toolwhip.Ld64
open Lib.CollisionTable Lib.Substring List
set_option autoImplicit false
variable {a : AtomPtr} {name : String} {symbol : OrderedSymbol} {canonical : List Char}

inductive FindError where
  | outOfBounds
  deriving DecidableEq, Repr

def pathLeafName (path : String) : List Char :=
  (path.toList.reverse.takeWhile (· ≠ '/')).reverse

def matchesObjectFile (objs : Objects) (atom : AtomPtr) (objectFileLeafName : Option String) :
    Bool :=
  match objectFileLeafName with
  | none => true
  | some leaf => pathLeafName (objs.pathOf atom) == leaf.toList

/-! ## Anonymous namespaces -/

def globalN : List Char := "_GLOBAL__N_".toList

def splitAnonymous (symbol : String) : Option (List Char × List Char) :=
  if "__Z".toList.isPrefixOf symbol.toList then splitFirst globalN symbol.toList else none

def usesAnonymousNamespace (symbol : String) : Bool := (splitAnonymous symbol).isSome

def decimal (digits : List Char) : Nat :=
  min (digits.foldl (fun n c => 10 * n + (c.toNat - '0'.toNat)) 0) (2 ^ 64 - 1)

/-- The digits before the mark say how much of the name, from the mark on, is left out. -/
def canonicalizeAnonymousName (inSymbol : String) : Except FindError (List Char) :=
  match splitAnonymous inSymbol with
  | none => .error .outOfBounds
  | some (before, after) =>
    let digits := (before.reverse.takeWhile Char.isDigit).reverse
    let start := (before.reverse.dropWhile Char.isDigit).reverse
    let length := decimal digits
    let rest := globalN ++ after
    if rest.length < length then .error .outOfBounds
    else .ok (start ++ '-' :: rest.drop length)

section Find
variable (objs : Objects) (getScope : AtomPtr → Scope)

structure HashTables where
  ofTranslationUnitScopedSymbols : Table String AtomPtr := fun _ => none
  ofSymbolsWithAnonymousNamespace : Table (List Char) AtomPtr := fun _ => none

def hashAtom (tables : HashTables) (atom : AtomPtr) : Except FindError HashTables :=
  match (objs.atom atom).getName with
  | none => .ok tables
  | some name =>
    if usesAnonymousNamespace name then do
      let canonicalName ← canonicalizeAnonymousName name
      .ok { tables with
        ofSymbolsWithAnonymousNamespace :=
          record tables.ofSymbolsWithAnonymousNamespace canonicalName atom }
    else if getScope atom = .scopeTranslationUnit then
      .ok { tables with
        ofTranslationUnitScopedSymbols :=
          record tables.ofTranslationUnitScopedSymbols name atom }
    else .ok tables

def buildHashTables (fAllAtoms : List AtomPtr) : Except FindError HashTables :=
  fAllAtoms.foldlM (hashAtom objs getScope) {}

def hasName (atom : AtomPtr) (name : String) : Bool := (objs.atom atom).getName == some name

def canonicalName (atom : AtomPtr) : Option (List Char) :=
  match (objs.atom atom).getName with
  | none => none
  | some name =>
    if usesAnonymousNamespace name then (canonicalizeAnonymousName name).toOption else none

def staticName (atom : AtomPtr) : Option String :=
  match (objs.atom atom).getName with
  | none => none
  | some name =>
    if usesAnonymousNamespace name then none
    else if getScope atom = .scopeTranslationUnit then some name
    else none

/-- The last two steps; a name in the table twice is looked for in all atoms. -/
def searchTables (fAllAtoms : List AtomPtr) (tables : HashTables) (symbol : OrderedSymbol) :
    Except FindError (Option AtomPtr) :=
  let accept (atom : AtomPtr) : Bool := matchesObjectFile objs atom symbol.objectFileName
  match search tables.ofTranslationUnitScopedSymbols symbol.symbolName accept
      (fAllAtoms.find? fun atom => getScope atom = .scopeTranslationUnit &&
        hasName objs atom symbol.symbolName && accept atom) with
  | some atom => .ok (some atom)
  | none =>
    if usesAnonymousNamespace symbol.symbolName then
      (canonicalizeAnonymousName symbol.symbolName).map fun canonical =>
        search tables.ofSymbolsWithAnonymousNamespace canonical accept
          (fAllAtoms.find? fun atom => canonicalName objs atom = some canonical && accept atom)
    else .ok none

def findAtom (fGlobalSymbolTable : SymbolTable) (fAllAtoms : List AtomPtr)
    (symbol : OrderedSymbol) : Except FindError (Option AtomPtr) :=
  match fGlobalSymbolTable.find symbol.symbolName with
  | some atom => .ok (if matchesObjectFile objs atom symbol.objectFileName then some atom else none)
  | none => do
    let tables ← buildHashTables objs getScope fAllAtoms
    searchTables objs getScope fAllAtoms tables symbol

end Find

/-! ## What is found -/

variable {objs : Objects} {getScope : AtomPtr → Scope}

def Canonicalizable (objs : Objects) (atoms : List AtomPtr) : Prop :=
  ∀ a ∈ atoms, ∀ name, (objs.atom a).getName = some name → usesAnonymousNamespace name = true →
    ∃ canonical, canonicalizeAnonymousName name = .ok canonical

structure TablesOf (objs : Objects) (getScope : AtomPtr → Scope) (atoms : List AtomPtr)
    (tables : HashTables) : Prop where
  statics : Holds (staticName objs getScope) atoms tables.ofTranslationUnitScopedSymbols
  anonymous : Holds (canonicalName objs) atoms tables.ofSymbolsWithAnonymousNamespace

theorem hashAtom_tables {atoms : List AtomPtr} {tables : HashTables}
    (ht : TablesOf objs getScope atoms tables)
    (ha : ∀ name, (objs.atom a).getName = some name → usesAnonymousNamespace name = true →
      ∃ canonical, canonicalizeAnonymousName name = .ok canonical) :
    ∃ tables', hashAtom objs getScope tables a = .ok tables' ∧
      TablesOf objs getScope (atoms ++ [a]) tables' := by
  unfold hashAtom
  cases hname : (objs.atom a).getName with
  | none =>
    refine ⟨tables, rfl, ht.statics.skip ?_, ht.anonymous.skip ?_⟩
    · simp only [staticName, hname]
    · simp only [canonicalName, hname]
  | some name =>
    dsimp only
    split
    · rename_i hanon
      obtain ⟨canonical, hc⟩ := ha name hname hanon
      rw [hc]
      refine ⟨_, rfl, ht.statics.skip ?_, ht.anonymous.record ?_⟩
      · simp only [staticName, hname, hanon, if_true]
      · simp only [canonicalName, hname, hanon, if_true, hc]
        rfl
    · rename_i hanon
      split
      · rename_i hstatic
        refine ⟨_, rfl, ht.statics.record ?_, ht.anonymous.skip ?_⟩
        · simp [staticName, hname, hanon, hstatic]
        · simp [canonicalName, hname, hanon]
      · rename_i hstatic
        refine ⟨tables, rfl, ht.statics.skip ?_, ht.anonymous.skip ?_⟩
        · simp [staticName, hname, hanon, hstatic]
        · simp [canonicalName, hname, hanon]

theorem foldlM_hashAtom {seen atoms : List AtomPtr} {tables : HashTables}
    (ht : TablesOf objs getScope seen tables) (h : Canonicalizable objs atoms) :
    ∃ tables', atoms.foldlM (hashAtom objs getScope) tables = .ok tables' ∧
      TablesOf objs getScope (seen ++ atoms) tables' := by
  induction atoms generalizing seen tables with
  | nil => exact ⟨tables, rfl, by rwa [append_nil]⟩
  | cons a l ih =>
    obtain ⟨tables₁, hstep, ht₁⟩ := hashAtom_tables ht (h a mem_cons_self)
    obtain ⟨tables', hrest, ht'⟩ := ih ht₁ fun b hb => h b (mem_cons_of_mem a hb)
    refine ⟨tables', ?_, ?_⟩
    · rw [foldlM_cons, hstep]
      exact hrest
    · rwa [append_assoc] at ht'

theorem buildHashTables_ok {atoms : List AtomPtr} (h : Canonicalizable objs atoms) :
    ∃ tables, buildHashTables objs getScope atoms = .ok tables ∧
      TablesOf objs getScope atoms tables := by
  have hempty : TablesOf objs getScope [] {} := ⟨holds_nil, holds_nil⟩
  exact foldlM_hashAtom hempty h

theorem staticName_eq (h : usesAnonymousNamespace name = false) :
    decide (staticName objs getScope a = some name) =
      (decide (getScope a = .scopeTranslationUnit) && hasName objs a name) := by
  unfold staticName hasName
  cases (objs.atom a).getName with
  | none => simp
  | some other =>
    by_cases hother : other = name
    · split <;> simp_all
    · split_ifs <;> simp [hother]

theorem staticName_ne (h : usesAnonymousNamespace name = true) :
    staticName objs getScope a ≠ some name := by
  unfold staticName
  cases (objs.atom a).getName with
  | none => exact nofun
  | some other =>
    dsimp only
    split
    · exact nofun
    rename_i hanon
    split
    · intro heq
      rw [Option.some.inj heq] at hanon
      exact hanon h
    · exact nofun

theorem searchTables_static {atoms : List AtomPtr} {tables : HashTables}
    (ht : TablesOf objs getScope atoms tables)
    (h : usesAnonymousNamespace symbol.symbolName = false) :
    searchTables objs getScope atoms tables symbol =
      .ok (atoms.find? fun a => decide (getScope a = .scopeTranslationUnit) &&
        hasName objs a symbol.symbolName && matchesObjectFile objs a symbol.objectFileName) := by
  have hsearch := search_eq_find ht.statics symbol.symbolName fun a =>
    matchesObjectFile objs a symbol.objectFileName
  simp only [staticName_eq h] at hsearch
  unfold searchTables
  dsimp only
  rw [hsearch, h]
  cases atoms.find? fun a => decide (getScope a = .scopeTranslationUnit) &&
      hasName objs a symbol.symbolName && matchesObjectFile objs a symbol.objectFileName with
  | none => rfl
  | some a => rfl

theorem searchTables_anonymous {atoms : List AtomPtr} {tables : HashTables}
    (ht : TablesOf objs getScope atoms tables)
    (h : usesAnonymousNamespace symbol.symbolName = true)
    (hc : canonicalizeAnonymousName symbol.symbolName = .ok canonical) :
    searchTables objs getScope atoms tables symbol =
      .ok (atoms.find? fun a => decide (canonicalName objs a = some canonical) &&
        matchesObjectFile objs a symbol.objectFileName) := by
  have hnone : tables.ofTranslationUnitScopedSymbols symbol.symbolName = none := by
    rw [ht.statics symbol.symbolName, List.filter_eq_nil_iff.mpr]
    · rfl
    · intro a _
      simpa using staticName_ne h
  have hstatic : ∀ accept scan,
      search tables.ofTranslationUnitScopedSymbols symbol.symbolName accept scan = none := by
    intro accept scan
    unfold search
    rw [hnone]
  unfold searchTables
  dsimp only
  rw [hstatic, h, hc]
  exact congrArg Except.ok (search_eq_find ht.anonymous canonical _)

/-- The name of an entry, or one that differs from it only in what the compiler made up for an
anonymous namespace. -/
def Named (objs : Objects) (a : AtomPtr) (name : String) : Prop :=
  (objs.atom a).getName = some name ∨
    ∃ canonical, canonicalName objs a = some canonical ∧
      canonicalizeAnonymousName name = .ok canonical

def TableNamed (objs : Objects) (t : SymbolTable) : Prop :=
  ∀ name a, t.find name = some a → (objs.atom a).getName = some name

theorem tableNamed_empty : TableNamed objs {} := by
  intro name a h
  cases h

/-- The table has an atom of the file for the name, or has none and the name is a static one. -/
def CanBeFound (objs : Objects) (getScope : AtomPtr → Scope) (t : SymbolTable)
    (symbol : OrderedSymbol) (a : AtomPtr) : Prop :=
  match t.find symbol.symbolName with
  | some g => matchesObjectFile objs g symbol.objectFileName = true
  | none => getScope a = .scopeTranslationUnit ∨ usesAnonymousNamespace symbol.symbolName = true

theorem find_some_of_mem {α : Type} {p : α → Bool} {l : List α} {a : α} (ha : a ∈ l)
    (hp : p a = true) : ∃ b, l.find? p = some b ∧ p b = true := by
  cases h : l.find? p with
  | none =>
    rw [find?_eq_none] at h
    exact absurd hp (h a ha)
  | some b => exact ⟨b, rfl, find?_some h⟩

theorem canonicalName_eq
    (hname : (objs.atom a).getName = some name) (h : usesAnonymousNamespace name = true)
    (hc : canonicalizeAnonymousName name = .ok canonical) :
    canonicalName objs a = some canonical := by
  simp only [canonicalName, hname, h, if_true, hc]
  rfl

/-- An atom of the file with the name of the entry makes `findAtom` find one. -/
theorem findAtom_finds {t : SymbolTable} {atoms : List AtomPtr} {symbol : OrderedSymbol}
    {a : AtomPtr} (hcanon : Canonicalizable objs atoms) (ht : TableNamed objs t)
    (ha : a ∈ atoms) (hname : (objs.atom a).getName = some symbol.symbolName)
    (hfile : matchesObjectFile objs a symbol.objectFileName = true)
    (hfound : CanBeFound objs getScope t symbol a) :
    ∃ b, findAtom objs getScope t atoms symbol = .ok (some b) ∧
      matchesObjectFile objs b symbol.objectFileName = true ∧ Named objs b symbol.symbolName := by
  unfold CanBeFound at hfound
  unfold findAtom
  cases hfind : t.find symbol.symbolName with
  | some g =>
    rw [hfind] at hfound
    refine ⟨g, ?_, hfound, Or.inl (ht _ _ hfind)⟩
    dsimp only at hfound ⊢
    rw [if_pos hfound]
  | none =>
    rw [hfind] at hfound
    obtain ⟨tables, hbuild, htables⟩ := @buildHashTables_ok objs getScope _ hcanon
    rw [hbuild]
    change ∃ b, searchTables objs getScope atoms tables symbol = _ ∧ _
    cases hanon : usesAnonymousNamespace symbol.symbolName with
    | false =>
      have hstatic : getScope a = .scopeTranslationUnit := by
        rcases hfound with h | h
        · exact h
        rw [hanon] at h
        cases h
      rw [searchTables_static htables hanon]
      obtain ⟨b, hb, hp⟩ := find_some_of_mem (p := fun a =>
        decide (getScope a = .scopeTranslationUnit) && hasName objs a symbol.symbolName &&
          matchesObjectFile objs a symbol.objectFileName) ha (by simp [hstatic, hasName, hname, hfile])
      simp only [Bool.and_eq_true, hasName, beq_iff_eq] at hp
      exact ⟨b, congrArg Except.ok hb, hp.2, Or.inl hp.1.2⟩
    | true =>
      obtain ⟨canonical, hc⟩ := hcanon a ha _ hname hanon
      rw [searchTables_anonymous htables hanon hc]
      obtain ⟨b, hb, hp⟩ := find_some_of_mem (p := fun a =>
        decide (canonicalName objs a = some canonical) &&
          matchesObjectFile objs a symbol.objectFileName) ha
        (by simp [canonicalName_eq hname hanon hc, hfile])
      simp only [Bool.and_eq_true, decide_eq_true_eq] at hp
      exact ⟨b, congrArg Except.ok hb, hp.2, Or.inr ⟨canonical, hp.1, hc⟩⟩

def HasMatch (objs : Objects) (atoms : List AtomPtr) (symbol : OrderedSymbol) : Prop :=
  ∃ a ∈ atoms, (objs.atom a).getName = some symbol.symbolName ∧
    matchesObjectFile objs a symbol.objectFileName = true

/-- What is found has the very name of the entry. -/
def FindsNamed (objs : Objects) (getScope : AtomPtr → Scope) (t : SymbolTable)
    (atoms : List AtomPtr) (symbol : OrderedSymbol) : Prop :=
  ∃ b, findAtom objs getScope t atoms symbol = .ok (some b) ∧
    (objs.atom b).getName = some symbol.symbolName ∧
    matchesObjectFile objs b symbol.objectFileName = true

def staticIn (file : ReaderPtr) (name : String) : Atom where
  getFile := file
  getName := some name
  getScope := .scopeTranslationUnit
  getDefinitionKind := .kRegularDefinition

/-- The symbols of `a.o` and `b.o`; the fourth one is global. -/
def orderObjects : Objects where
  atom a :=
    match a with
    | 1 => staticIn 1 "_f"
    | 2 => staticIn 2 "_f"
    | 3 => staticIn 2 "__ZN14_GLOBAL__N_abc1fEv"
    | 4 => { staticIn 2 "_f" with getScope := .scopeGlobal }
    | 5 => staticIn 1 "__ZN14_GLOBAL__N_xyz1fEv"
    | _ => staticIn 2 "__ZN99_GLOBAL__N_"
  getPath file := if file = 1 then "obj/a.o" else "obj/b.o"

def orderScope (a : AtomPtr) : Scope := (orderObjects.atom a).getScope

theorem static_found : ∃ b,
    findAtom orderObjects orderScope {} [1, 2] ⟨"_f", some "b.o"⟩ = .ok (some b) ∧
    matchesObjectFile orderObjects b (some "b.o") = true ∧ Named orderObjects b "_f" := by
  refine @findAtom_finds orderObjects orderScope {} [1, 2] ⟨"_f", some "b.o"⟩ 2 ?_
    tableNamed_empty (by simp) rfl (by decide +kernel) (Or.inl rfl)
  intro a ha name hname hanon
  have hplain : usesAnonymousNamespace "_f" = false := by decide +kernel
  have hf : (orderObjects.atom a).getName = some "_f" := by
    simp only [mem_cons, not_mem_nil, or_false] at ha
    rcases ha with rfl | rfl <;> rfl
  rw [hf] at hname
  rw [← Option.some.inj hname, hplain] at hanon
  cases hanon

/-- A global of another file hides the static function; a name of an anonymous namespace finds
one with the same canonical form; a length that leads out of its name is followed; and what
is neither in the table nor static is not looked for. -/
theorem findAtom_misses : (HasMatch orderObjects [1, 4] ⟨"_f", some "a.o"⟩ ∧
      ¬ FindsNamed orderObjects orderScope (SymbolTable.set {} "_f" 4) [1, 4] ⟨"_f", some "a.o"⟩) ∧
    (HasMatch orderObjects [3, 5] ⟨"__ZN14_GLOBAL__N_xyz1fEv", none⟩ ∧
      ¬ FindsNamed orderObjects orderScope {} [3, 5] ⟨"__ZN14_GLOBAL__N_xyz1fEv", none⟩) ∧
    (HasMatch orderObjects [1, 6] ⟨"_f", none⟩ ∧
      ¬ FindsNamed orderObjects orderScope {} [1, 6] ⟨"_f", none⟩) ∧
    (HasMatch orderObjects [4] ⟨"_f", none⟩ ∧
      ¬ FindsNamed orderObjects orderScope {} [4] ⟨"_f", none⟩) := by
  have hcanonical : findAtom orderObjects orderScope {} [3, 5]
      ⟨"__ZN14_GLOBAL__N_xyz1fEv", none⟩ = .ok (some 3) := by
    decide +kernel
  refine ⟨⟨⟨1, by simp, rfl, by decide +kernel⟩, ?_⟩, ⟨⟨5, by simp, rfl, rfl⟩, ?_⟩,
    ⟨⟨1, by simp, rfl, rfl⟩, ?_⟩, ⟨⟨4, by simp, rfl, rfl⟩, ?_⟩⟩
  · rintro ⟨b, hb, -⟩
    cases hb
  · rintro ⟨b, hb, hname, -⟩
    cases hb
    revert hname
    decide
  · rintro ⟨b, hb, -⟩
    cases hb
  · rintro ⟨b, hb, -⟩
    cases hb

end Toolwhip.Ld64
