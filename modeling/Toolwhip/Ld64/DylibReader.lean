import Mathlib.Data.Fintype.EquivFin
import Toolwhip.Lib.GraphSearch
import Toolwhip.Lib.ThrowingFold

/-! # mach_o::dylib::Reader

The readers of a link are indexed by `ι`. The handler that finds a dependent library
has a state of its own and may throw. -/

namespace Toolwhip.Ld64.Dylib
set_option autoImplicit false

abbrev Path := List Char

structure PathAndFlag where
  path : Path
  reExport : Bool

structure ExportAtom (ι : Type) where
  fOwner : ι
  fName : Path
  fWeakDefinition : Bool
  fOrdinal : Nat

structure AtomAndWeak (ι : Type) where
  atom : Option (ExportAtom ι) := none
  weak : Bool
  ordinal : Nat

/-- What the constructor reads from the file. -/
structure File (ι : Type) where
  fPath : Path
  fParentUmbrella : Option Path
  fDylibInstallPath : Path
  fDependentLibraryPaths : List PathAndFlag
  fNoRexports : Bool
  fLinkingFlat : Bool
  fExplictReExportFound : Bool
  fImplicitlyLinkPublicDylibs : Bool
  fIgnoreExports : List Path
  exports : Path → Option (AtomAndWeak ι)
  reExportedOrdinal : Nat

structure Reader (ι : Type) where
  file : File ι
  fAtoms : Path → Option (AtomAndWeak ι) := file.exports
  fReExportedOrdinal : Nat := file.reExportedOrdinal
  fReExportedChildren : List ι := []
  fExplicitlyLinked : Bool := false
  fImplicitlyLinked : Bool := false
  fProvidedAtom : Bool := false

abbrev Readers (ι : Type) := ι → Reader ι

inductive LinkError where
  | cycle (path : Path)
  | handler (msg : Path)
  | outOfFuel
  deriving DecidableEq, Repr

def leafName (path : Path) : Option Path :=
  if '/' ∈ path then some (path.reverse.takeWhile (· ≠ '/')).reverse else none

def usrLib : Path := ['/', 'u', 's', 'r', '/', 'l', 'i', 'b', '/']

def systemFrameworks : Path :=
  ['/', 'S', 'y', 's', 't', 'e', 'm', '/', 'L', 'i', 'b', 'r', 'a', 'r', 'y', '/',
    'F', 'r', 'a', 'm', 'e', 'w', 'o', 'r', 'k', 's', '/']

def topLevelFramework (path : Path) : Bool :=
  if '.' ∈ path.drop 27 then
    let frameworkNameLen := ((path.drop 27).takeWhile (· ≠ '.')).length
    path.drop (path.length - frameworkNameLen - 1) == (path.drop 26).take (frameworkNameLen + 1)
  else false

namespace Reader
variable {ι : Type}

def isPublicLocation (r : Reader ι) (path : Path) : Bool :=
  r.file.fImplicitlyLinkPublicDylibs &&
    (usrLib.isPrefixOf path && '/' ∉ path.drop 9 ||
      systemFrameworks.isPrefixOf path && topLevelFramework path)

end Reader

namespace Readers
variable {ι : Type} [DecidableEq ι]

def addChild (readers : Readers ι) (this child : ι) : Readers ι :=
  Function.update readers this
    { readers this with fReExportedChildren := (readers this).fReExportedChildren ++ [child] }

def setImplicitlyLinked (readers : Readers ι) (child : ι) : Readers ι :=
  Function.update readers child { readers child with fImplicitlyLinked := true }

def ReExports (readers : Readers ι) (parent child : ι) : Prop :=
  child ∈ (readers parent).fReExportedChildren

/-- `prev` is the chain of the caller. -/
def assertNoReExportCycles (readers : Readers ι) : Nat → List ι → ι → Except LinkError Unit
  | 0, _, _ => .error .outOfFuel
  | fuel + 1, prev, this =>
    (readers this).fReExportedChildren.forM fun child =>
      if child ∈ prev then .error (.cycle (readers child).file.fPath)
      else assertNoReExportCycles readers fuel (this :: prev) child

section Process
variable {H : Type}

abbrev FindDylib (ι H : Type) := H → Path → Path → Except Path (ι × H)

def callHandler (findDylib : FindDylib ι H) (h : H) (path fromPath : Path) :
    Except LinkError (ι × H) :=
  match findDylib h path fromPath with
  | .ok r => .ok r
  | .error msg => .error (.handler msg)

def reExportChild (readers : Readers ι) (this child : ι) : Readers ι :=
  if (readers this).isPublicLocation (readers child).file.fDylibInstallPath then
    if (readers this).fExplicitlyLinked || (readers this).fImplicitlyLinked then
      readers.setImplicitlyLinked child
    else readers.addChild this child
  else readers.addChild this child

/-- A child that names this library as its umbrella is re-exported. -/
def adoptSubFramework (readers : Readers ι) (this child : ι) : Readers ι :=
  match (readers child).file.fParentUmbrella with
  | none => readers
  | some parentUmbrellaName =>
    if leafName (readers this).file.fPath = some parentUmbrellaName then
      readers.addChild this child
    else readers

/-- The body of the loop over `fDependentLibraryPaths`. -/
def processDependent (findDylib : FindDylib ι H) (this : ι) (s : Readers ι × H)
    (it : PathAndFlag) : Except LinkError (Readers ι × H) :=
  if (s.1 this).file.fLinkingFlat then do
    let r ← callHandler findDylib s.2 it.path (s.1 this).file.fPath
    .ok (s.1, r.2)
  else if (s.1 this).file.fNoRexports then .ok s
  else if it.reExport then do
    let r ← callHandler findDylib s.2 it.path (s.1 this).file.fPath
    .ok (s.1.reExportChild this r.1, r.2)
  else if (s.1 this).file.fExplictReExportFound then .ok s
  else do
    let r ← callHandler findDylib s.2 it.path (s.1 this).file.fPath
    .ok (s.1.adoptSubFramework this r.1, r.2)

def processIndirectLibraries (findDylib : FindDylib ι H) (fuel : Nat) (s : Readers ι × H)
    (this : ι) : Except LinkError (Readers ι × H) := do
  let s ← (s.1 this).file.fDependentLibraryPaths.foldlM (processDependent findDylib this) s
  s.1.assertNoReExportCycles fuel [this] this
  .ok s

end Process

/-- An atom that says this reader is the owner of a child's symbol. -/
def reExportedAtom (readers : Readers ι) (this : ι) (name : Path) (childAtom : ExportAtom ι) :
    ExportAtom ι × Readers ι :=
  (⟨this, name, childAtom.fWeakDefinition, (readers this).fReExportedOrdinal⟩,
    Function.update readers this
      { readers this with
        fReExportedOrdinal := ((readers this).fReExportedOrdinal + 1) % 2 ^ 32
        fProvidedAtom := true })

/-- The loop over the children, with the recursive call as a parameter. -/
def lookInChildren
    (getFrom : Readers ι → ι → Option (Option (ExportAtom ι) × Readers ι))
    (this : ι) (name : Path) :
    List ι → Readers ι → Option (Option (ExportAtom ι) × Readers ι)
  | [], readers => some (none, readers)
  | child :: rest, readers => do
    let r ← getFrom readers child
    match r.1 with
    | none => lookInChildren getFrom this name rest r.2
    | some childAtom =>
      some (some (r.2.reExportedAtom this name childAtom).1, (r.2.reExportedAtom this name childAtom).2)

def exportedAtom (readers : Readers ι) (this : ι) (name : Path) (bucket : AtomAndWeak ι) :
    ExportAtom ι × Readers ι :=
  match bucket.atom with
  | some atom => (atom, readers)
  | none =>
    let atom : ExportAtom ι := ⟨this, name, bucket.weak, bucket.ordinal⟩
    (atom, Function.update readers this
      { readers this with
        fAtoms := Function.update (readers this).fAtoms name (some { bucket with atom := some atom })
        fProvidedAtom := true })

def getJustInTimeAtomsFor (name : Path) :
    Nat → Readers ι → ι → Option (Option (ExportAtom ι) × Readers ι)
  | 0, _, _ => none
  | fuel + 1, readers, this =>
    match (readers this).fAtoms name with
    | some bucket =>
      some (some (readers.exportedAtom this name bucket).1, (readers.exportedAtom this name bucket).2)
    | none =>
      if name ∈ (readers this).file.fIgnoreExports then some (none, readers)
      else
        lookInChildren (fun readers child => getJustInTimeAtomsFor name fuel readers child) this name
          (readers this).fReExportedChildren readers

end Readers
/-! ## Re-exports form no cycle

The edges of a library are added when it is processed, and by nothing else; so a cycle
that a step closes goes through the library the step processes, from which the check
starts. -/

open Lib Lib.ThrowingFold Relation

namespace Readers
variable {ι : Type} [DecidableEq ι]

variable {readers : Readers ι} {fuel : Nat} {prev : List ι} {this y : ι}

theorem no_path_to_chain
    (h : readers.assertNoReExportCycles fuel prev this = .ok ()) (hy : y ∈ prev) :
    ¬ TransGen readers.ReExports this y := by
  induction fuel generalizing prev this with
  | zero => cases h
  | succ fuel ih =>
    have hchild := forM_ok h
    intro hpath
    obtain ⟨child, hedge, hrest⟩ := TransGen.head'_iff.mp hpath
    have hpass := hchild child hedge
    split at hpass
    · cases hpass
    rename_i hnotin
    cases ReflTransGen.cases_head hrest with
    | inl heq =>
      subst heq
      exact hnotin hy
    | inr hnext =>
      obtain ⟨c, hc, hcy⟩ := hnext
      exact ih hpass (List.mem_cons_of_mem this hy) (TransGen.head' hc hcy)

theorem assertNoReExportCycles_returns [Fintype ι] (h : CycleCheck.depthLeft prev this < fuel) :
    readers.assertNoReExportCycles fuel prev this ≠ .error .outOfFuel := by
  induction fuel generalizing prev this with
  | zero => exact absurd h (Nat.not_lt_zero _)
  | succ fuel ih =>
    intro herror
    obtain ⟨child, _, hchild⟩ := forM_error herror
    split at hchild
    · cases hchild
    rename_i hnotin
    have hlt := CycleCheck.depthLeft_lt (x := this) hnotin
    exact ih (by omega) hchild

theorem assertNoReExportCycles_error {e : LinkError}
    (h : readers.assertNoReExportCycles fuel prev this = .error e) :
    e = .outOfFuel ∨ ∃ child, e = .cycle (readers child).file.fPath := by
  induction fuel generalizing prev this with
  | zero =>
    cases h
    exact Or.inl rfl
  | succ fuel ih =>
    obtain ⟨child, _, hchild⟩ := forM_error h
    split at hchild
    · cases hchild
      exact Or.inr ⟨child, rfl⟩
    · exact ih hchild

variable {x : ι}

theorem reExports_addChild (readers : Readers ι) (this child : ι)
    (h : (readers.addChild this child).ReExports x y) : readers.ReExports x y ∨ x = this := by
  by_cases hx : x = this
  · exact Or.inr hx
  unfold ReExports addChild at h
  rw [Function.update_of_ne hx] at h
  exact Or.inl h

theorem reExports_setImplicitlyLinked (readers : Readers ι) (child : ι) :
    (readers.setImplicitlyLinked child).ReExports = readers.ReExports := by
  funext x y
  unfold ReExports setImplicitlyLinked
  by_cases hx : x = child
  · rw [hx, Function.update_self]
  · rw [Function.update_of_ne hx]

theorem reExports_reExportChild (readers : Readers ι) (this child : ι)
    (h : (readers.reExportChild this child).ReExports x y) : readers.ReExports x y ∨ x = this := by
  unfold reExportChild at h
  split at h
  · split at h
    · rw [reExports_setImplicitlyLinked] at h
      exact Or.inl h
    · exact reExports_addChild readers this child h
  · exact reExports_addChild readers this child h

theorem reExports_adoptSubFramework (readers : Readers ι) (this child : ι)
    (h : (readers.adoptSubFramework this child).ReExports x y) :
    readers.ReExports x y ∨ x = this := by
  unfold adoptSubFramework at h
  split at h
  · exact Or.inl h
  split at h
  · exact reExports_addChild readers this child h
  · exact Or.inl h

section Process
variable {H : Type} {findDylib : FindDylib ι H}

variable {this : ι}
variable {s t : Readers ι × H} {it : PathAndFlag}

theorem processDependent_edges
    (h : processDependent findDylib this s it = .ok t) {x y : ι} (hxy : t.1.ReExports x y) :
    s.1.ReExports x y ∨ x = this := by
  unfold processDependent at h
  split at h
  · obtain ⟨r, _, hr⟩ := bind_eq_ok.mp h
    cases hr
    exact Or.inl hxy
  split at h
  · cases h
    exact Or.inl hxy
  split at h
  · obtain ⟨r, _, hr⟩ := bind_eq_ok.mp h
    cases hr
    exact reExports_reExportChild s.1 this r.1 hxy
  split at h
  · cases h
    exact Or.inl hxy
  obtain ⟨r, _, hr⟩ := bind_eq_ok.mp h
  cases hr
  exact reExports_adoptSubFramework s.1 this r.1 hxy

theorem processIndirectLibraries_acyclic {fuel : Nat} (hacyclic : CycleCheck.Acyclic s.1.ReExports)
    (h : processIndirectLibraries findDylib fuel s this = .ok t) :
    CycleCheck.Acyclic t.1.ReExports := by
  obtain ⟨u, hfold, h⟩ := bind_eq_ok.mp h
  obtain ⟨_, hcheck, h⟩ := bind_eq_ok.mp h
  cases h
  have hedges : ∀ x y, t.1.ReExports x y → s.1.ReExports x y ∨ x = this := by
    apply foldlM_relates (R := fun s t : Readers ι × H =>
      ∀ x y, t.1.ReExports x y → s.1.ReExports x y ∨ x = this) _ _ _ hfold
    · exact fun s x y h => Or.inl h
    · intro s u t hsu hut x y hxy
      cases hut x y hxy with
      | inl h => exact hsu x y h
      | inr h => exact Or.inr h
    · intro u it v _ hstep x y hxy
      exact processDependent_edges hstep hxy
  apply CycleCheck.acyclic_of_new_edges hacyclic hedges
  exact no_path_to_chain hcheck List.mem_cons_self

variable {e : LinkError}

omit [DecidableEq ι] in
theorem callHandler_error {s : H} {path fromPath : Path}
    (h : callHandler findDylib s path fromPath = .error e) : ∃ msg, e = .handler msg := by
  unfold callHandler at h
  split at h
  · cases h
  rename_i msg _
  cases h
  exact ⟨msg, rfl⟩

omit [DecidableEq ι] in
theorem callHandler_then_error {α : Type} {s : H} {path fromPath : Path} {f : ι × H → α}
    (h : (do let r ← callHandler findDylib s path fromPath; .ok (f r)) = Except.error e) :
    ∃ msg, e = .handler msg := by
  cases bind_eq_error.mp h with
  | inl h => exact callHandler_error h
  | inr h =>
    obtain ⟨r, _, h⟩ := h
    cases h

theorem processDependent_error {s : Readers ι × H} (h : processDependent findDylib this s it = .error e) :
    ∃ msg, e = .handler msg := by
  unfold processDependent at h
  split at h
  · exact callHandler_then_error h
  split at h
  · cases h
  split at h
  · exact callHandler_then_error h
  split at h
  · cases h
  · exact callHandler_then_error h

theorem processIndirectLibraries_error [Fintype ι] {fuel : Nat} {s : Readers ι × H}
    (hfuel : 2 * Fintype.card ι + 1 < fuel)
    (h : processIndirectLibraries findDylib fuel s this = .error e) :
    (∃ path, e = .cycle path) ∨ ∃ msg, e = .handler msg := by
  cases bind_eq_error.mp h with
  | inl h =>
    obtain ⟨u, it, _, h⟩ := foldlM_error h
    exact Or.inr (processDependent_error h)
  | inr h =>
    obtain ⟨u, _, h⟩ := h
    cases bind_eq_error.mp h with
    | inl h =>
      have hreturns : u.1.assertNoReExportCycles fuel [this] this ≠ .error .outOfFuel :=
        assertNoReExportCycles_returns (Nat.lt_of_le_of_lt (CycleCheck.depthLeft_le _ _) hfuel)
      cases assertNoReExportCycles_error h with
      | inl heq => exact absurd (heq ▸ h) hreturns
      | inr hcycle =>
        obtain ⟨child, hcycle⟩ := hcycle
        exact Or.inl ⟨_, hcycle⟩
    | inr h =>
      obtain ⟨_, _, h⟩ := h
      cases h

def processAll (findDylib : FindDylib ι H) (fuel : Nat) (order : List ι)
    (s : Readers ι × H) : Except LinkError (Readers ι × H) :=
  order.foldlM (processIndirectLibraries findDylib fuel) s

end Process

section Lookup
variable {r : Option (ExportAtom ι) × Readers ι} {name : Path}

def Returns {α : Type} (f : Nat → Option α) : Prop := ∃ n r, ∀ fuel, n ≤ fuel → f fuel = some r

theorem exportedAtom_children (readers : Readers ι) (this : ι) (name : Path)
    (bucket : AtomAndWeak ι) (i : ι) :
    ((readers.exportedAtom this name bucket).2 i).fReExportedChildren =
      (readers i).fReExportedChildren := by
  unfold exportedAtom
  split
  · rfl
  by_cases hi : i = this
  · subst hi
    dsimp only
    rw [Function.update_self]
  · dsimp only
    rw [Function.update_of_ne hi]

def SameGraph (r s : Readers ι) : Prop :=
  ∀ i, (s i).fReExportedChildren = (r i).fReExportedChildren

omit [DecidableEq ι] in
theorem SameGraph.trans {r s t : Readers ι} (h : SameGraph r s) (h' : SameGraph s t) :
    SameGraph r t := fun i => (h' i).trans (h i)

theorem reExportedAtom_children (readers : Readers ι) (this : ι) (name : Path)
    (childAtom : ExportAtom ι) (i : ι) :
    ((readers.reExportedAtom this name childAtom).2 i).fReExportedChildren =
      (readers i).fReExportedChildren := by
  unfold reExportedAtom
  by_cases hi : i = this
  · subst hi
    dsimp only
    rw [Function.update_self]
  · dsimp only
    rw [Function.update_of_ne hi]

variable {readers : Readers ι}

theorem lookInChildren_sameGraph
    {getFrom : Readers ι → ι → Option (Option (ExportAtom ι) × Readers ι)} {this : ι}
    (hget : ∀ {readers child r}, getFrom readers child = some r → SameGraph readers r.2)
    {children : List ι}
    (h : lookInChildren getFrom this name children readers = some r) : SameGraph readers r.2 := by
  induction children generalizing readers with
  | nil =>
    cases h
    exact fun _ => rfl
  | cons child rest ih =>
    obtain ⟨q, hq, h⟩ := Option.bind_eq_some_iff.mp h
    apply SameGraph.trans (hget hq)
    split at h
    · exact ih h
    rename_i childAtom _
    cases h
    exact reExportedAtom_children q.2 this name childAtom

theorem getJustInTimeAtomsFor_sameGraph {fuel : Nat} {this : ι}
    (h : getJustInTimeAtomsFor name fuel readers this = some r) : SameGraph readers r.2 := by
  induction fuel generalizing readers this r with
  | zero => cases h
  | succ fuel ih =>
    rw [getJustInTimeAtomsFor] at h
    split at h
    · cases h
      exact exportedAtom_children readers this name _
    split at h
    · cases h
      exact fun _ => rfl
    · exact lookInChildren_sameGraph ih h

theorem lookInChildren_returns
    (getFrom : Nat → Readers ι → ι → Option (Option (ExportAtom ι) × Readers ι)) (this : ι)
    (name : Path) (children : List ι) (readers : Readers ι)
    (hsame : ∀ {fuel readers child r}, getFrom fuel readers child = some r → SameGraph readers r.2)
    (hget : ∀ child ∈ children, ∀ s, SameGraph readers s →
      Returns fun fuel => getFrom fuel s child) :
    Returns fun fuel => lookInChildren (getFrom fuel) this name children readers := by
  suffices ∀ s, SameGraph readers s →
      Returns fun fuel => lookInChildren (getFrom fuel) this name children s from
    this readers (fun _ => rfl)
  induction children with
  | nil =>
    intro s _
    exact ⟨0, (none, s), fun _ _ => rfl⟩
  | cons child rest ih =>
    intro s hs
    obtain ⟨n, q, hq⟩ := hget child List.mem_cons_self s hs
    have hrest := ih (fun c hc => hget c (List.mem_cons_of_mem child hc)) q.2
      (hs.trans (hsame (hq n (Nat.le_refl n))))
    obtain ⟨m, r, hr⟩ := hrest
    cases hatom : q.1 with
    | none =>
      refine ⟨max n m, r, ?_⟩
      intro fuel hfuel
      dsimp only at hq hr ⊢
      rw [lookInChildren, hq fuel (by omega), Option.bind_eq_bind, Option.bind_some, hatom]
      exact hr fuel (by omega)
    | some childAtom =>
      refine ⟨n, (some (q.2.reExportedAtom this name childAtom).1,
        (q.2.reExportedAtom this name childAtom).2), ?_⟩
      intro fuel hfuel
      dsimp only at hq ⊢
      rw [lookInChildren, hq fuel hfuel, Option.bind_eq_bind, Option.bind_some, hatom]

theorem getJustInTimeAtomsFor_returns [Finite ι]
    (hacyclic : CycleCheck.Acyclic readers.ReExports) (name : Path) (this : ι) :
    ∀ s, SameGraph readers s → Returns fun fuel => getJustInTimeAtomsFor name fuel s this := by
  induction this using hacyclic.wellFounded.induction with
  | _ this ih =>
    intro s hs
    have hedge : ∀ child ∈ (s this).fReExportedChildren, readers.ReExports this child := by
      intro child hchild
      rw [hs this] at hchild
      exact hchild
    have hloop := lookInChildren_returns
      (fun fuel s child => getJustInTimeAtomsFor name fuel s child) this name
      (s this).fReExportedChildren s getJustInTimeAtomsFor_sameGraph
      (fun child hchild t ht => ih child (hedge child hchild) t (hs.trans ht))
    obtain ⟨n, r, hr⟩ := hloop
    cases hatom : (s this).fAtoms name with
    | some bucket =>
      refine ⟨1, (some (s.exportedAtom this name bucket).1, (s.exportedAtom this name bucket).2), ?_⟩
      intro fuel hfuel
      obtain ⟨fuel, rfl⟩ := Nat.exists_eq_add_of_le' hfuel
      dsimp only
      rw [getJustInTimeAtomsFor, hatom]
    | none =>
      by_cases hignore : name ∈ (s this).file.fIgnoreExports
      · refine ⟨1, (none, s), ?_⟩
        intro fuel hfuel
        obtain ⟨fuel, rfl⟩ := Nat.exists_eq_add_of_le' hfuel
        dsimp only
        rw [getJustInTimeAtomsFor, hatom]
        exact if_pos hignore
      · refine ⟨n + 1, r, ?_⟩
        intro fuel hfuel
        obtain ⟨fuel, rfl⟩ := Nat.exists_eq_add_of_le' (Nat.le_trans (Nat.le_add_left 1 n) hfuel)
        dsimp only
        rw [getJustInTimeAtomsFor, hatom]
        rw [if_neg hignore]
        exact hr fuel (by omega)

end Lookup

def opened (files : ι → File ι) (linked : ι → Bool × Bool) : Readers ι := fun i =>
  { file := files i, fExplicitlyLinked := (linked i).1, fImplicitlyLinked := (linked i).2 }

/-- Two libraries, each of which re-exports the other. -/
def eachOther : Bool → File Bool := fun i =>
  { fPath := ['/', if i then 'a' else 'b']
    fParentUmbrella := none
    fDylibInstallPath := ['/', if i then 'a' else 'b']
    fDependentLibraryPaths := [⟨['/', if i then 'b' else 'a'], true⟩]
    fNoRexports := false
    fLinkingFlat := false
    fExplictReExportFound := true
    fImplicitlyLinkPublicDylibs := true
    fIgnoreExports := []
    exports := fun _ => none
    reExportedOrdinal := 0 }

def findByName : FindDylib Bool Unit := fun _ path _ => .ok (path == ['/', 'a'], ())

/-- The cycle is reported when the second library is processed. -/
example :
    (processAll findByName 6 [true] (opened eachOther fun _ => (true, false), ())).isOk = true ∧
      (processAll findByName 6 [true, false] (opened eachOther fun _ => (true, false), ())).isOk =
        false := by
  decide

end Readers
end Toolwhip.Ld64.Dylib
