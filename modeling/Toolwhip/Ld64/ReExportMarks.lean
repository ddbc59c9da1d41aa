import Toolwhip.Ld64.DylibReader

/-! # The libraries that a dylib re-exports

The two passes of the constructor of `mach_o::dylib::Reader` over the load commands. A name is
what its pointer points to, up to the NUL, and is shorter than `2 ^ 31`. -/

namespace Toolwhip.Ld64.Dylib
set_option autoImplicit false

open Lib.ThrowingFold List

inductive ObjcConstraint where
  | kObjcNone | kObjcRetainRelease | kObjcRetainReleaseOrGC | kObjcGC
  deriving DecidableEq, Repr

/-- A section of a segment, with the first two words of its contents. -/
structure SegmentSection where
  sectname : Path
  size : Nat
  version : BitVec 32
  flags : BitVec 32

/-- What the passes read of a load command. -/
inductive CommandBody where
  | LC_REEXPORT_DYLIB (name : Path)
  | LC_LOAD_DYLIB (name : Path)
  | LC_LOAD_WEAK_DYLIB (name : Path)
  | LC_SYMTAB (symoff stroff : Nat)
  | LC_DYSYMTAB
  | LC_ID_DYLIB (name : Path) (timestamp current_version compatibility_version : BitVec 32)
  | LC_SUB_UMBRELLA (sub_umbrella : Path)
  | LC_SUB_LIBRARY (sub_library : Path)
  | LC_SUB_FRAMEWORK (umbrella : Path)
  | LC_SEGMENT (segname : Path) (sections : List SegmentSection)
  | other

structure LoadCommand where
  body : CommandBody
  cmdsize : Nat

inductive MalformedDylib where
  /-- `load command #%d is outside size of load commands` -/
  | outsideCommands (i : Nat)
  deriving DecidableEq, Repr

/-- The fields that the two passes set, and the position of `cmd`. -/
structure Passes where
  fDependentLibraryPaths : List PathAndFlag := []
  fExplictReExportFound : Bool := false
  fParentUmbrella : Option Path := none
  fDylibInstallPath : Option Path := none
  fDylibTimeStamp : BitVec 32 := 0
  fDylibtCurrentVersion : BitVec 32 := 0
  fDylibCompatibilityVersion : BitVec 32 := 0
  fObjcContraint : ObjcConstraint := .kObjcNone
  symbolTable : Option (Nat × Nat) := none
  dynamicInfo : Bool := false
  cmd : Nat := 0

def advance (sizeofcmds i cmdsize : Nat) (s : Passes) : Except MalformedDylib Passes :=
  if sizeofcmds < s.cmd + cmdsize then .error (.outsideCommands i)
  else .ok { s with cmd := s.cmd + cmdsize }

def dependentLibrary : CommandBody → Option PathAndFlag
  | .LC_REEXPORT_DYLIB name => some ⟨name, true⟩
  | .LC_LOAD_DYLIB name => some ⟨name, false⟩
  | .LC_LOAD_WEAK_DYLIB name => some ⟨name, false⟩
  | _ => none

def collectDependent (body : CommandBody) (s : Passes) : Passes :=
  { s with
    fDependentLibraryPaths := s.fDependentLibraryPaths ++ (dependentLibrary body).toList
    fExplictReExportFound := s.fExplictReExportFound ||
      (match body with | .LC_REEXPORT_DYLIB _ => true | _ => false) }

/-- `strncmp(a, b, n) == 0` -/
def strncmpEqual (a b : Path) (n : Nat) : Bool := a.take n == b.take n

def leafStart (dylibName : Path) : Path := (leafName dylibName).getD dylibName

/-- `firstDot - leafStart`, or the length where there is no dot. -/
def baseLength (leaf : Path) : Nat := (leaf.takeWhile (· ≠ '.')).length

/-- The test in the loop for `LC_SUB_UMBRELLA`. -/
def namesUmbrella (frameworkLeafName dylibName : Path) : Bool :=
  leafName dylibName == some frameworkLeafName

/-- The test in the loop for `LC_SUB_LIBRARY`. -/
def namesLibrary (dylibBaseName dylibName : Path) : Bool :=
  strncmpEqual (leafStart dylibName) dylibBaseName (baseLength (leafStart dylibName))

def markReExports (names : Path → Bool) (it : PathAndFlag) : PathAndFlag :=
  if names it.path then { it with reExport := true } else it

def imageInfo (old : ObjcConstraint) (sect : SegmentSection) : ObjcConstraint :=
  if sect.sectname = "__image_info".toList ∧ 8 ≤ sect.size ∧ sect.version = 0 then
    if sect.flags &&& 4 = 4 then .kObjcGC
    else if sect.flags &&& 2 = 2 then .kObjcRetainReleaseOrGC
    else .kObjcRetainRelease
  else old

/-- The body of the loop of pass 2. -/
def reExportInfo (trackDependentLibraries : Bool) (body : CommandBody) (s : Passes) : Passes :=
  match body with
  | .LC_SYMTAB symoff stroff => { s with symbolTable := some (symoff, stroff) }
  | .LC_DYSYMTAB => { s with dynamicInfo := true }
  | .LC_ID_DYLIB name timestamp current compatibility =>
    { s with
      fDylibInstallPath := some name
      fDylibTimeStamp := timestamp
      fDylibtCurrentVersion := current
      fDylibCompatibilityVersion := compatibility }
  | .LC_SUB_UMBRELLA frameworkLeafName =>
    if trackDependentLibraries then
      { s with
        fDependentLibraryPaths :=
          s.fDependentLibraryPaths.map (markReExports (namesUmbrella frameworkLeafName)) }
    else s
  | .LC_SUB_LIBRARY dylibBaseName =>
    if trackDependentLibraries then
      { s with
        fDependentLibraryPaths :=
          s.fDependentLibraryPaths.map (markReExports (namesLibrary dylibBaseName)) }
    else s
  | .LC_SUB_FRAMEWORK umbrella => { s with fParentUmbrella := some umbrella }
  | .LC_SEGMENT segname sections =>
    if segname = "__OBJC".toList then
      { s with fObjcContraint := sections.foldl imageInfo s.fObjcContraint }
    else s
  | _ => s

/-- A loop over the commands; `i` counts them. -/
def overCommands (sizeofcmds : Nat) (f : CommandBody → Passes → Passes) :
    Nat → List LoadCommand → Passes → Except MalformedDylib Passes
  | _, [], s => .ok s
  | i, c :: cmds, s =>
    advance sizeofcmds i c.cmdsize (f c.body s) >>= overCommands sizeofcmds f (i + 1) cmds

/-- Pass 1 and pass 2. -/
def readCommands (fNoRexports fFlatNamespace : Bool) (sizeofcmds : Nat)
    (cmds : List LoadCommand) : Except MalformedDylib Passes :=
  let trackDependentLibraries := !fNoRexports || fFlatNamespace
  (if trackDependentLibraries then overCommands sizeofcmds collectDependent 0 cmds {}
    else .ok {}) >>= fun s =>
  overCommands sizeofcmds (reExportInfo trackDependentLibraries) 0 cmds { s with cmd := 0 }

section Passes
variable {sizeofcmds : Nat} {cmds : List LoadCommand}

theorem overCommands_fold {β : Type} {f : CommandBody → Passes → Passes} {i : Nat}
    {s t : Passes} (view : Passes → β) (g : β → CommandBody → β)
    (hview : ∀ p s, view { s with cmd := p } = view s)
    (hstep : ∀ body s, view (f body s) = g (view s) body)
    (h : overCommands sizeofcmds f i cmds s = .ok t) :
    view t = (cmds.map LoadCommand.body).foldl g (view s) := by
  induction cmds generalizing i s with
  | nil =>
    cases h
    rfl
  | cons c cmds ih =>
    obtain ⟨u, hu, hrest⟩ := bind_eq_ok.mp h
    have hview' : view u = g (view s) c.body := by
      unfold advance at hu
      split at hu
      · cases hu
      cases hu
      rw [hview, hstep]
    rw [ih hrest, hview', map_cons, foldl_cons]

def dependentLibraries (cmds : List LoadCommand) : List PathAndFlag :=
  cmds.filterMap fun c => dependentLibrary c.body

theorem foldl_collect (bodies : List CommandBody) (libs : List PathAndFlag) :
    bodies.foldl (fun libs body => libs ++ (dependentLibrary body).toList) libs =
      libs ++ bodies.filterMap dependentLibrary := by
  induction bodies generalizing libs with
  | nil => simp
  | cons body bodies ih =>
    rw [foldl_cons, ih, append_assoc]
    cases h : dependentLibrary body with
    | none => simp [h]
    | some lib => simp [h]

def marks (dylibName : Path) : CommandBody → Bool
  | .LC_SUB_UMBRELLA frameworkLeafName => namesUmbrella frameworkLeafName dylibName
  | .LC_SUB_LIBRARY dylibBaseName => namesLibrary dylibBaseName dylibName
  | _ => false

def markBy (body : CommandBody) (it : PathAndFlag) : PathAndFlag :=
  { it with reExport := it.reExport || marks it.path body }

theorem markReExports_eq (names : Path → Bool) (it : PathAndFlag) :
    markReExports names it = { it with reExport := it.reExport || names it.path } := by
  unfold markReExports
  cases names it.path <;> simp

theorem markBy_unmarked {body : CommandBody} {libs : List PathAndFlag}
    (h : ∀ path, marks path body = false) : libs.map (markBy body) = libs := by
  have hid : markBy body = id := by
    funext it
    simp [markBy, h]
  rw [hid, map_id]

theorem reExportInfo_libraries (body : CommandBody) (s : Passes) :
    (reExportInfo true body s).fDependentLibraryPaths =
      s.fDependentLibraryPaths.map (markBy body) := by
  cases body with
  | LC_SUB_UMBRELLA name =>
    apply map_congr_left
    intro it _
    exact markReExports_eq _ it
  | LC_SUB_LIBRARY name =>
    apply map_congr_left
    intro it _
    exact markReExports_eq _ it
  | LC_SEGMENT segname sections =>
    rw [markBy_unmarked (fun _ => rfl)]
    unfold reExportInfo
    simp only
    split <;> rfl
  | _ => exact (markBy_unmarked fun _ => rfl).symm

theorem foldl_mark (bodies : List CommandBody) (libs : List PathAndFlag) :
    bodies.foldl (fun libs body => libs.map (markBy body)) libs =
      libs.map fun it => { it with reExport := it.reExport || bodies.any (marks it.path) } := by
  induction bodies generalizing libs with
  | nil => simp
  | cons body bodies ih =>
    rw [foldl_cons, ih, map_map]
    simp [markBy, Bool.or_assoc]

theorem readCommands_libraries {fFlatNamespace : Bool} {t : Passes}
    (h : readCommands false fFlatNamespace sizeofcmds cmds = .ok t) :
    t.fDependentLibraryPaths = (dependentLibraries cmds).map fun it =>
      { it with reExport := it.reExport || cmds.any fun c => marks it.path c.body } := by
  obtain ⟨s, hs, ht⟩ := bind_eq_ok.mp h
  have hfirst := overCommands_fold Passes.fDependentLibraryPaths
    (fun libs body => libs ++ (dependentLibrary body).toList) (fun _ _ => rfl)
    (fun _ _ => rfl) hs
  have hsecond := overCommands_fold Passes.fDependentLibraryPaths
    (fun libs body => libs.map (markBy body)) (fun _ _ => rfl) reExportInfo_libraries ht
  rw [hsecond, foldl_mark, hfirst, foldl_collect, nil_append, filterMap_map]
  apply map_congr_left
  intro it _
  rw [any_map]
  rfl

end Passes

/-! ## Which libraries are marked for re-export -/

def baseName (dylibName : Path) : Path := (leafStart dylibName).takeWhile (· ≠ '.')

section Names
variable {cmds : List LoadCommand} {path : Path} {lib : PathAndFlag}

def SubUmbrella (cmds : List LoadCommand) (name : Path) : Prop :=
  ∃ c ∈ cmds, c.body = .LC_SUB_UMBRELLA name

def SubLibrary (cmds : List LoadCommand) (name : Path) : Prop :=
  ∃ c ∈ cmds, c.body = .LC_SUB_LIBRARY name

def NamedForReExport (cmds : List LoadCommand) (lib : PathAndFlag) : Prop :=
  lib.reExport = true ∨ SubUmbrella cmds (leafStart lib.path) ∨
    SubLibrary cmds (baseName lib.path)

/-- What the test for `LC_SUB_LIBRARY` accepts besides the base name itself. -/
def PrefixOfSubLibrary (cmds : List LoadCommand) (path : Path) : Prop :=
  ∃ name, SubLibrary cmds name ∧ baseName path <+: name ∧ baseName path ≠ name

/-- What the test for `LC_SUB_UMBRELLA` leaves out. -/
def LeafOnly (cmds : List LoadCommand) (path : Path) : Prop :=
  '/' ∉ path ∧ SubUmbrella cmds path

theorem leafName_eq_some {name : Path} :
    leafName path = some name ↔ '/' ∈ path ∧ leafStart path = name := by
  unfold leafStart leafName
  by_cases h : '/' ∈ path <;> simp [h]

theorem leafStart_of_not_mem (h : '/' ∉ path) : leafStart path = path := by
  simp [leafStart, leafName, h]

theorem strncmpEqual_takeWhile {leaf name : Path} {p : Char → Bool} :
    strncmpEqual leaf name (leaf.takeWhile p).length = true ↔ leaf.takeWhile p <+: name := by
  have htake : leaf.take (leaf.takeWhile p).length = leaf.takeWhile p :=
    (List.prefix_iff_eq_take.mp <| takeWhile_prefix p).symm
  unfold strncmpEqual
  rw [beq_iff_eq, htake]
  exact List.prefix_iff_eq_take.symm

theorem namesLibrary_iff {name : Path} : namesLibrary name path = true ↔ baseName path <+: name :=
  strncmpEqual_takeWhile

theorem namesUmbrella_iff {name : Path} :
    namesUmbrella name path = true ↔ '/' ∈ path ∧ leafStart path = name := by
  unfold namesUmbrella
  rw [beq_iff_eq]
  exact leafName_eq_some

theorem any_marks_iff : (cmds.any fun c => marks path c.body) = true ↔
    '/' ∈ path ∧ SubUmbrella cmds (leafStart path) ∨
      ∃ name, SubLibrary cmds name ∧ baseName path <+: name := by
  rw [any_eq_true]
  constructor
  · rintro ⟨c, hc, hmarks⟩
    cases hbody : c.body with
    | LC_SUB_UMBRELLA name =>
      rw [hbody] at hmarks
      obtain ⟨hslash, hleaf⟩ := namesUmbrella_iff.mp hmarks
      apply Or.inl
      exact ⟨hslash, c, hc, by rw [hbody, hleaf]⟩
    | LC_SUB_LIBRARY name =>
      rw [hbody] at hmarks
      apply Or.inr
      exact ⟨name, ⟨c, hc, hbody⟩, namesLibrary_iff.mp hmarks⟩
    | _ =>
      rw [hbody] at hmarks
      cases hmarks
  · intro h
    rcases h with ⟨hslash, c, hc, hbody⟩ | ⟨name, ⟨c, hc, hbody⟩, hstart⟩
    · refine ⟨c, hc, ?_⟩
      rw [hbody]
      exact namesUmbrella_iff.mpr ⟨hslash, rfl⟩
    · refine ⟨c, hc, ?_⟩
      rw [hbody]
      exact namesLibrary_iff.mpr hstart

/-- A name that begins a name of `LC_SUB_LIBRARY` is that name, or a mere prefix of it. -/
theorem prefix_iff : (∃ name, SubLibrary cmds name ∧ baseName path <+: name) ↔
    SubLibrary cmds (baseName path) ∨ PrefixOfSubLibrary cmds path := by
  constructor
  · intro h
    obtain ⟨name, hname, hstart⟩ := h
    by_cases heq : baseName path = name
    · apply Or.inl
      rw [heq]
      exact hname
    · exact Or.inr ⟨name, hname, hstart, heq⟩
  · intro h
    rcases h with h | ⟨name, hname, hstart, -⟩
    · exact ⟨baseName path, h, prefix_refl _⟩
    · exact ⟨name, hname, hstart⟩

theorem flag_right_iff : (((lib.reExport || cmds.any fun c => marks lib.path c.body) = true ↔
      NamedForReExport cmds lib)) ↔
    (PrefixOfSubLibrary cmds lib.path → NamedForReExport cmds lib) ∧
      (LeafOnly cmds lib.path → lib.reExport = true ∨ SubLibrary cmds (baseName lib.path) ∨
        PrefixOfSubLibrary cmds lib.path) := by
  rw [Bool.or_eq_true, any_marks_iff, prefix_iff]
  unfold NamedForReExport LeafOnly
  by_cases hslash : '/' ∈ lib.path
  · tauto
  rw [leafStart_of_not_mem hslash]
  tauto

end Names

def MarkedAsNamed (cmds : List LoadCommand) (t : Passes) : Prop :=
  List.Forall₂ (fun it lib => it.path = lib.path ∧
      (it.reExport = true ↔ NamedForReExport cmds lib))
    t.fDependentLibraryPaths (dependentLibraries cmds)

/-- A library whose flag comes out as the commands ask. -/
structure NoSlip (cmds : List LoadCommand) (lib : PathAndFlag) : Prop where
  notPrefix : PrefixOfSubLibrary cmds lib.path → NamedForReExport cmds lib
  notLeaf : LeafOnly cmds lib.path → lib.reExport = true ∨
    SubLibrary cmds (baseName lib.path) ∨ PrefixOfSubLibrary cmds lib.path

theorem reExport_marked_iff {fFlatNamespace : Bool} {sizeofcmds : Nat}
    {cmds : List LoadCommand} {t : Passes}
    (h : readCommands false fFlatNamespace sizeofcmds cmds = .ok t) :
    MarkedAsNamed cmds t ↔ ∀ lib ∈ dependentLibraries cmds, NoSlip cmds lib := by
  unfold MarkedAsNamed
  rw [readCommands_libraries h, forall₂_map_left_iff, forall₂_same]
  constructor
  · intro hmarked lib hlib
    obtain ⟨hstart, hleaf⟩ := flag_right_iff.mp (hmarked lib hlib).2
    exact ⟨hstart, hleaf⟩
  · intro hslip lib hlib
    exact ⟨rfl, flag_right_iff.mpr ⟨(hslip lib hlib).notPrefix, (hslip lib hlib).notLeaf⟩⟩

/-- `libSystem` is named, and the library loaded has this path. -/
def subLibraryOf (name : Path) : List LoadCommand :=
  [⟨.LC_LOAD_DYLIB name, 48⟩, ⟨.LC_SUB_LIBRARY "libSystem".toList, 24⟩]

def libSystem : Path := "/usr/lib/libSystem.B.dylib".toList

def libSys : Path := "/usr/lib/libSys.dylib".toList

theorem subLibrary_libSystem {name : Path} : SubLibrary (subLibraryOf name) "libSystem".toList :=
  ⟨⟨.LC_SUB_LIBRARY "libSystem".toList, 24⟩, mem_cons_of_mem _ mem_cons_self, rfl⟩

theorem reExport_marked_libSystem : ∃ t,
    readCommands false false 72 (subLibraryOf libSystem) = .ok t ∧
      MarkedAsNamed (subLibraryOf libSystem) t := by
  have hrun : ∃ t, readCommands false false 72 (subLibraryOf libSystem) = .ok t := ⟨_, rfl⟩
  obtain ⟨t, ht⟩ := hrun
  refine ⟨t, ht, (reExport_marked_iff ht).mpr ?_⟩
  intro lib hlib
  rw [List.mem_singleton.mp hlib]
  have hnamed : SubLibrary (subLibraryOf libSystem) (baseName libSystem) := subLibrary_libSystem
  exact ⟨fun _ => Or.inr (Or.inr hnamed), fun _ => Or.inr (Or.inl hnamed)⟩

/-- `libSys` is a prefix of `libSystem`, and is marked. -/
theorem reExport_marked_prefix : ¬ ∀ (fFlatNamespace : Bool) (sizeofcmds : Nat)
    (cmds : List LoadCommand) (t : Passes),
    readCommands false fFlatNamespace sizeofcmds cmds = .ok t → MarkedAsNamed cmds t := by
  intro hclaim
  have hmarked := hclaim false 72 (subLibraryOf libSys) _ rfl
  cases hmarked with
  | cons h _ =>
    rcases h.2.mp rfl with hflag | ⟨c, hc, hbody⟩ | ⟨c, hc, hbody⟩
    · cases hflag
    · rcases List.mem_pair.mp hc with rfl | rfl <;> cases hbody
    rcases List.mem_pair.mp hc with rfl | rfl
    · cases hbody
    have hname : "libSystem".toList = baseName libSys := CommandBody.LC_SUB_LIBRARY.inj hbody
    exact absurd hname (by decide)

end Toolwhip.Ld64.Dylib
