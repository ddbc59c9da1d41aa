import Toolwhip.Ld64.ObjectFile
import Toolwhip.Lib.ThrowingFold

/-! # Linker::SymbolTable

The table of global names. A name that is required but not defined is present
with the value `NULL`. -/

set_option autoImplicit false

namespace Toolwhip.Ld64
open Lib.ThrowingFold

structure SymbolTable where
  fTable : AList (fun _ : String => Option AtomPtr) := ∅
  fRequireCount : Nat := 0
  fHasExternalTentativeDefinitions : Bool := false
  fHasExternalWeakDefinitions : Bool := false

namespace SymbolTable

def find (t : SymbolTable) (name : String) : Option AtomPtr :=
  (t.fTable.lookup name).join

def require (t : SymbolTable) (name : String) : SymbolTable :=
  match t.fTable.lookup name with
  | some _ => t
  | none =>
    { t with
      fTable := t.fTable.insert name none
      fRequireCount := (t.fRequireCount + 1) % 2 ^ 32 }

@[simp] theorem find_require (t : SymbolTable) (name other : String) :
    (t.require name).find other = t.find other := by
  unfold require
  cases h : t.fTable.lookup name with
  | some _ => rfl
  | none =>
    by_cases hne : other = name
    · subst other
      simp only [find, AList.lookup_insert, h, Option.join_none, Option.join_some]
    · simp only [find, AList.lookup_insert_ne hne]

/-- The names whose value is `NULL`, in the iteration order of the map. -/
def getNeededNames (t : SymbolTable) : List String :=
  t.fTable.keys.filter fun name => (t.find name).isNone

def throwDuplicate (objs : Objects) (existing new : AtomPtr) (eol : String) :
    Except LinkError Bool :=
  .error (.thrown ("duplicate symbol " ++ objs.nameOf new ++ " in " ++ objs.pathOf new ++
    " and " ++ objs.pathOf existing ++ eol))

/-- A tentative definition meets a dylib definition: whether the common stays. -/
def commonsKeepCommon (objs : Objects) (mode : CommonsMode) (common dylib : AtomPtr) :
    Except LinkError Bool :=
  match mode with
  | .kCommonsIgnoreDylibs => .ok true
  | .kCommonsOverriddenByDylibs => .ok false
  | .kCommonsConflictsDylibsError =>
    .error (.thrown ("common symbol " ++ objs.nameOf common ++ " from " ++ objs.pathOf common ++
      " conflicts with defintion from dylib " ++ objs.pathOf dylib))

/-- The switch over `AllDefinitionCombinations`: whether the new atom replaces
the existing one. -/
def useNew (objs : Objects) (mode : CommonsMode) (existing new : AtomPtr) :
    Except LinkError Bool :=
  match (objs.atom existing).getDefinitionKind, (objs.atom new).getDefinitionKind with
  | .kRegularDefinition, .kRegularDefinition => throwDuplicate objs existing new ""
  | .kRegularDefinition, .kWeakDefinition => .ok false
  | .kRegularDefinition, .kTentativeDefinition => .ok false
  | .kRegularDefinition, .kExternalDefinition => .ok false
  | .kRegularDefinition, .kExternalWeakDefinition => .ok false
  | .kRegularDefinition, .kAbsoluteSymbol => throwDuplicate objs existing new ""
  | .kWeakDefinition, .kRegularDefinition => .ok true
  | .kWeakDefinition, .kWeakDefinition =>
    .ok ((objs.atom existing).getAlignment.trailingZeros <
      (objs.atom new).getAlignment.trailingZeros)
  | .kWeakDefinition, .kTentativeDefinition => .ok true
  | .kWeakDefinition, .kExternalDefinition => .ok false
  | .kWeakDefinition, .kExternalWeakDefinition => .ok false
  | .kWeakDefinition, .kAbsoluteSymbol => .ok true
  | .kTentativeDefinition, .kRegularDefinition => .ok true
  | .kTentativeDefinition, .kWeakDefinition => .ok true
  | .kTentativeDefinition, .kTentativeDefinition =>
    .ok (¬ (objs.atom new).getSize < (objs.atom existing).getSize)
  | .kTentativeDefinition, .kExternalDefinition =>
    (commonsKeepCommon objs mode existing new).map not
  | .kTentativeDefinition, .kExternalWeakDefinition =>
    (commonsKeepCommon objs mode existing new).map not
  | .kTentativeDefinition, .kAbsoluteSymbol => .ok true
  | .kExternalDefinition, .kRegularDefinition => .ok true
  | .kExternalDefinition, .kWeakDefinition => .ok true
  | .kExternalDefinition, .kTentativeDefinition => commonsKeepCommon objs mode new existing
  | .kExternalDefinition, .kExternalDefinition => throwDuplicate objs existing new "\n"
  | .kExternalDefinition, .kExternalWeakDefinition => .ok false
  | .kExternalDefinition, .kAbsoluteSymbol => .ok true
  | .kExternalWeakDefinition, .kRegularDefinition => .ok true
  | .kExternalWeakDefinition, .kWeakDefinition => .ok true
  | .kExternalWeakDefinition, .kTentativeDefinition => commonsKeepCommon objs mode new existing
  | .kExternalWeakDefinition, .kExternalDefinition => .ok true
  | .kExternalWeakDefinition, .kExternalWeakDefinition => .ok false
  | .kExternalWeakDefinition, .kAbsoluteSymbol => .ok true
  | .kAbsoluteSymbol, .kRegularDefinition => throwDuplicate objs existing new ""
  | .kAbsoluteSymbol, .kWeakDefinition => .ok false
  | .kAbsoluteSymbol, .kTentativeDefinition => .ok false
  | .kAbsoluteSymbol, .kExternalDefinition => .ok false
  | .kAbsoluteSymbol, .kExternalWeakDefinition => .ok false
  | .kAbsoluteSymbol, .kAbsoluteSymbol => throwDuplicate objs existing new ""

/-- The two flags a global tentative or weak definition raises. -/
def noteExternal (t : SymbolTable) (scope : Scope) (kind : DefinitionKind) : SymbolTable :=
  match scope, kind with
  | .scopeGlobal, .kTentativeDefinition => { t with fHasExternalTentativeDefinitions := true }
  | .scopeGlobal, .kWeakDefinition => { t with fHasExternalWeakDefinitions := true }
  | _, _ => t

def set (t : SymbolTable) (name : String) (a : AtomPtr) : SymbolTable :=
  { t with fTable := t.fTable.insert name (some a) }

/-- What `SymbolTable::add` leaves behind: the table, the atom it hands to
`Linker::markDead`, and its return value. -/
structure AddResult where
  table : SymbolTable
  dead : Option AtomPtr
  useNew : Bool

/-- `scope` is the scope the new atom has when it is added. -/
def add (objs : Objects) (mode : CommonsMode) (scope : Scope) (t : SymbolTable)
    (newAtom : AtomPtr) : Except LinkError AddResult := do
  let name := objs.nameOf newAtom
  let t := t.noteExternal scope (objs.atom newAtom).getDefinitionKind
  match t.find name with
  | none => return ⟨t.set name newAtom, none, true⟩
  | some existing =>
    if ← useNew objs mode existing newAtom then
      return ⟨t.set name newAtom, some existing, true⟩
    else
      return ⟨t, some newAtom, false⟩

@[simp] theorem fTable_noteExternal (t : SymbolTable) (scope : Scope) (kind : DefinitionKind) :
    (t.noteExternal scope kind).fTable = t.fTable := by
  unfold noteExternal
  split <;> rfl

@[simp] theorem find_noteExternal (t : SymbolTable) (scope : Scope) (kind : DefinitionKind)
    (name : String) : (t.noteExternal scope kind).find name = t.find name := by
  simp only [find, fTable_noteExternal]

@[simp] theorem find_set_self (t : SymbolTable) (name : String) (a : AtomPtr) :
    (t.set name a).find name = some a := by
  simp only [find, set, AList.lookup_insert, Option.join_some]

theorem find_set_ne (t : SymbolTable) {name other : String} (a : AtomPtr) (h : other ≠ name) :
    (t.set name a).find other = t.find other := by
  simp only [find, set, AList.lookup_insert_ne h]

/-- All that `add` can do to the table when it returns. -/
inductive AddCases (objs : Objects) (mode : CommonsMode) (t : SymbolTable) (newAtom : AtomPtr)
    (r : AddResult) : Prop
  | isNew (h : t.find (objs.nameOf newAtom) = none)
      (hfind : r.table.find (objs.nameOf newAtom) = some newAtom) (hdead : r.dead = none)
  | replaces (existing : AtomPtr) (h : t.find (objs.nameOf newAtom) = some existing)
      (huse : useNew objs mode existing newAtom = .ok true)
      (hfind : r.table.find (objs.nameOf newAtom) = some newAtom) (hdead : r.dead = some existing)
  | keeps (existing : AtomPtr) (h : t.find (objs.nameOf newAtom) = some existing)
      (huse : useNew objs mode existing newAtom = .ok false)
      (hfind : r.table.find (objs.nameOf newAtom) = some existing) (hdead : r.dead = some newAtom)

section
variable {objs : Objects} {mode : CommonsMode} {scope : Scope} {t : SymbolTable} {newAtom : AtomPtr}
    {r : AddResult} (h : add objs mode scope t newAtom = .ok r)
include h

theorem add_cases : AddCases objs mode t newAtom r := by
  unfold add at h
  simp only [find_noteExternal] at h
  split at h
  · rename_i hf
    cases h
    exact .isNew hf (find_set_self _ _ _) rfl
  rename_i existing hf
  obtain ⟨b, hb, h⟩ := bind_eq_ok.mp h
  cases b with
  | true =>
    cases h
    exact .replaces existing hf hb (find_set_self _ _ _) rfl
  | false =>
    cases h
    exact .keeps existing hf hb (by simpa using hf) rfl

theorem find_add_ne
    {other : String} (hne : other ≠ objs.nameOf newAtom) : r.table.find other = t.find other := by
  unfold add at h
  simp only [find_noteExternal] at h
  split at h
  · cases h
    simp only [find_set_ne _ _ hne, find_noteExternal]
  · obtain ⟨b, -, h⟩ := bind_eq_ok.mp h
    cases b <;> cases h <;> simp [find_set_ne _ _ hne]

end

end SymbolTable
end Toolwhip.Ld64

/-! ## What two definitions of one name do to each other

`SymbolTable::add` folded over the definitions of one name is a fold of a partial
choice between two atoms; the kind of the atom it keeps depends on the two kinds
and the commons mode only. -/

namespace Toolwhip.Ld64.SymbolTable
open Lib.SelectiveFold List

def addAll (objs : Objects) (mode : CommonsMode) (scope : AtomPtr → Scope) (t : SymbolTable)
    (atoms : List AtomPtr) : Except LinkError SymbolTable :=
  atoms.foldlM (fun t a => (add objs mode (scope a) t a).map AddResult.table) t

def kindOf (objs : Objects) (a : AtomPtr) : DefinitionKind := (objs.atom a).getDefinitionKind

/-- Either every order of adding the atoms throws, or none does and the kind of
the definition the table is left with is the same for all of them. -/
def OrderIndependent (objs : Objects) (mode : CommonsMode) (scope : AtomPtr → Scope)
    (t : SymbolTable) (name : String) (atoms : List AtomPtr) : Prop :=
  (∀ order, order.Perm atoms → ∃ e, addAll objs mode scope t order = .error e) ∨
    ∃ kind, ∀ order, order.Perm atoms →
      ∃ t', addAll objs mode scope t order = .ok t' ∧ (t'.find name).map (kindOf objs) = kind

variable {objs : Objects} {mode : CommonsMode}

/-- The atom that survives when `new` is added while `existing` is in the table. -/
def choose (objs : Objects) (mode : CommonsMode) (existing new : AtomPtr) :
    Except LinkError AtomPtr :=
  (useNew objs mode existing new).map fun b => if b then new else existing

def outcome (objs : Objects) (mode : CommonsMode) : List AtomPtr →
    Except LinkError (Option AtomPtr)
  | [] => .ok none
  | a :: l => (l.foldlM (choose objs mode) a).map some

theorem choose_selective : Selective (choose objs mode) := by
  intro x y z h
  unfold choose at h
  cases hu : useNew objs mode x y with
  | error e =>
    rw [hu] at h
    cases h
  | ok b =>
    rw [hu] at h
    cases b <;> cases h
    · exact Or.inl rfl
    · exact Or.inr rfl

theorem map_add_eq_choose {scope : Scope} {t : SymbolTable} {a existing : AtomPtr}
    (h : t.find (objs.nameOf a) = some existing) :
    (add objs mode scope t a).map (fun r => r.table.find (objs.nameOf a)) =
      (choose objs mode existing a).map some := by
  unfold add choose
  simp only [find_noteExternal, h]
  cases hu : useNew objs mode existing a with
  | error e => rfl
  | ok b =>
    cases b with
    | true => simp [Except.map, pure, Except.pure, bind, Except.bind]
    | false => simp [Except.map, pure, Except.pure, bind, Except.bind, h]

section
variable {scope : AtomPtr → Scope} {name : String} {l : List AtomPtr}
    (hname : ∀ a ∈ l, objs.nameOf a = name) {t : SymbolTable}
include hname

theorem map_addAll_eq_foldlM {existing : AtomPtr} (ht : t.find name = some existing) :
    (addAll objs mode scope t l).map (fun t' => t'.find name) =
      (l.foldlM (choose objs mode) existing).map some := by
  induction l generalizing t existing with
  | nil => exact congrArg Except.ok ht
  | cons a l ih =>
    have ha : objs.nameOf a = name := hname a mem_cons_self
    have hstep := @map_add_eq_choose objs mode (scope a) _ _ _ (by rwa [ha] :
      t.find (objs.nameOf a) = some existing)
    unfold addAll at ih ⊢
    rw [foldlM_cons, foldlM_cons]
    cases hr : add objs mode (scope a) t a with
    | error e =>
      rw [hr] at hstep
      cases hc : choose objs mode existing a with
      | error e' =>
        rw [hc] at hstep
        cases hstep
        rfl
      | ok z =>
        rw [hc] at hstep
        cases hstep
    | ok r =>
      rw [hr] at hstep
      cases hc : choose objs mode existing a with
      | error e' =>
        rw [hc] at hstep
        cases hstep
      | ok z =>
        rw [hc] at hstep
        have hz : r.table.find name = some z := by
          rw [← ha]
          exact Except.ok.inj hstep
        exact ih (fun b hb => hname b (mem_cons_of_mem a hb)) hz

theorem map_addAll_eq_outcome (ht : t.find name = none) :
    (addAll objs mode scope t l).map (fun t' => t'.find name) = outcome objs mode l := by
  cases l with
  | nil => exact congrArg Except.ok ht
  | cons a l =>
    have ha : objs.nameOf a = name := hname a mem_cons_self
    have hadd : add objs mode (scope a) t a =
        .ok ⟨(t.noteExternal (scope a) (kindOf objs a)).set name a, none, true⟩ := by
      unfold add
      simp only [find_noteExternal, ha, ht]
      rfl
    unfold addAll outcome
    rw [foldlM_cons, hadd]
    exact map_addAll_eq_foldlM (fun b hb => hname b (mem_cons_of_mem a hb))
      (find_set_self _ _ _)

end

def strongKind (kind : DefinitionKind) : Bool :=
  kind = .kRegularDefinition || kind = .kAbsoluteSymbol

def isStrong (objs : Objects) (a : AtomPtr) : Bool := strongKind (kindOf objs a)

def isKind (objs : Objects) (kind : DefinitionKind) (a : AtomPtr) : Bool :=
  kindOf objs a = kind

def isDylib (objs : Objects) (a : AtomPtr) : Bool :=
  kindOf objs a = .kExternalDefinition || kindOf objs a = .kExternalWeakDefinition

/-- The pairs of definitions for which `add` throws. -/
def Conflict (objs : Objects) (mode : CommonsMode) (x y : AtomPtr) : Prop :=
  (isStrong objs x ∧ isStrong objs y) ∨
  (isKind objs .kExternalDefinition x ∧ isKind objs .kExternalDefinition y) ∨
  (mode = .kCommonsConflictsDylibsError ∧
    ((isKind objs .kTentativeDefinition x ∧ isDylib objs y) ∨
      (isDylib objs x ∧ isKind objs .kTentativeDefinition y)))

theorem choose_ok_iff (x y : AtomPtr) :
    (∃ z, choose objs mode x y = .ok z) ↔ ¬ Conflict objs mode x y := by
  unfold choose useNew Conflict isStrong isKind isDylib strongKind kindOf
  cases (objs.atom x).getDefinitionKind <;> cases (objs.atom y).getDefinitionKind <;>
    cases mode <;> simp [Except.map, throwDuplicate, commonsKeepCommon]

/-- The kind that is left when two definitions that do not conflict meet. -/
def survivor (mode : CommonsMode) : DefinitionKind → DefinitionKind → DefinitionKind
  | .kRegularDefinition, _ => .kRegularDefinition
  | .kAbsoluteSymbol, _ => .kAbsoluteSymbol
  | _, .kRegularDefinition => .kRegularDefinition
  | _, .kAbsoluteSymbol => .kAbsoluteSymbol
  | .kWeakDefinition, .kTentativeDefinition => .kTentativeDefinition
  | .kWeakDefinition, _ => .kWeakDefinition
  | _, .kWeakDefinition => .kWeakDefinition
  | .kTentativeDefinition, .kTentativeDefinition => .kTentativeDefinition
  | .kTentativeDefinition, k =>
    if mode = .kCommonsIgnoreDylibs then .kTentativeDefinition else k
  | k, .kTentativeDefinition =>
    if mode = .kCommonsIgnoreDylibs then .kTentativeDefinition else k
  | .kExternalDefinition, _ => .kExternalDefinition
  | .kExternalWeakDefinition, k => k

theorem survivor_self (kind : DefinitionKind) : survivor mode kind kind = kind := by
  cases kind <;> rfl

theorem kindOf_choose {x y z : AtomPtr} (h : choose objs mode x y = .ok z) :
    kindOf objs z = survivor mode (kindOf objs x) (kindOf objs y) := by
  by_cases hxy : kindOf objs x = kindOf objs y
  · rw [hxy, survivor_self]
    rcases choose_selective x y z h with rfl | rfl
    · exact hxy
    · rfl
  unfold choose useNew at h
  unfold kindOf at hxy ⊢
  cases hx : (objs.atom x).getDefinitionKind <;>
    cases hy : (objs.atom y).getDefinitionKind <;>
    cases mode <;> simp_all [survivor, Except.map, throwDuplicate, commonsKeepCommon]

theorem dominates_kind {kind : DefinitionKind} {S : DefinitionKind → Prop}
    (h : ∀ k, S k → survivor mode kind k = kind ∧ survivor mode k kind = kind) :
    Dominates (choose objs mode) (fun x => S (kindOf objs x))
      (fun x => isKind objs kind x = true) where
  keeps x y z _ hy hD hz := by
    simp only [isKind, decide_eq_true_eq] at hD ⊢
    rw [kindOf_choose hz, hD]
    exact (h _ hy).1
  takes x y z hx _ hD hz := by
    simp only [isKind, decide_eq_true_eq] at hD ⊢
    rw [kindOf_choose hz, hD]
    exact (h _ hx).2

theorem strongKind_survivor (j k : DefinitionKind) :
    strongKind (survivor mode j k) = (strongKind j || strongKind k) := by
  cases j <;> cases k <;> cases mode <;> rfl

theorem dominates_strong :
    Dominates (choose objs mode) (fun _ => True) (fun x => isStrong objs x = true) where
  keeps x y z _ _ hD hz := by
    unfold isStrong at hD ⊢
    rw [kindOf_choose hz, strongKind_survivor, hD, Bool.true_or]
  takes x y z _ _ hD hz := by
    unfold isStrong at hD ⊢
    rw [kindOf_choose hz, strongKind_survivor, hD, Bool.or_true]

end Toolwhip.Ld64.SymbolTable
