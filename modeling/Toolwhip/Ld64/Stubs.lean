import Mathlib.Data.String.Basic
import Toolwhip.Lib.SortContract
import Toolwhip.Ld64.FinalImage
import Toolwhip.Ld64.ObjectRelocs

/-! # Writer::synthesizeStubs

The walk over every reference, which makes stubs, pointers and the weak import map, and then what is
done with the atoms that it made. -/

namespace Toolwhip.Ld64.Stubs
open Function Lib.SortContract Reloc Reloc.Fixups
set_option autoImplicit false

section Kinds

def ppcStubable (hasLongBranchStubs : Bool) (target : DefinitionKind) :
    Reloc.Ppc.ReferenceKinds → Bool
  | .kBranch24 | .kBranch24WeakImport | .kBranch14 => true
  | .kPICBaseLow16 | .kPICBaseLow14 | .kPICBaseHigh16 | .kAbsLow16 | .kAbsLow14 | .kAbsHigh16
  | .kAbsHigh16AddLow => isDylibSymbol target && hasLongBranchStubs
  | _ => false

def ppc64Stubable : Reloc.Ppc.ReferenceKinds → Bool
  | .kBranch24 | .kBranch24WeakImport | .kBranch14 => true
  | _ => false

def armStubable : Arm.ReferenceKinds → Bool
  | .kBranch24 | .kBranch24WeakImport | .kThumbBranch22 | .kThumbBranch22WeakImport => true
  | _ => false

/-- By the kind of the reference, the kind of its target, and the file that it is in. -/
def stubableReference (hasLongBranchStubs : Bool) (target : DefinitionKind) :
    (A : Architecture) → A.Kinds → Bool
  | .ppc => ppcStubable hasLongBranchStubs target
  | .ppc64 => ppc64Stubable
  | .x86 => fun kind : Reloc.X86.ReferenceKinds =>
    kind == .kPCRel32 || kind == .kPCRel32WeakImport
  | .x86_64 => fun kind : Reloc.X86_64.ReferenceKinds =>
    kind == .kBranchPCRel32 || kind == .kBranchPCRel32WeakImport
  | .arm => armStubable

def weakImportReferenceKind : (A : Architecture) → A.Kinds → Bool
  | .ppc => fun kind : Reloc.Ppc.ReferenceKinds =>
    kind == .kBranch24WeakImport || kind == .kPointerWeakImport
  | .ppc64 => fun kind : Reloc.Ppc.ReferenceKinds =>
    kind == .kBranch24WeakImport || kind == .kPointerWeakImport
  | .x86 => fun kind : Reloc.X86.ReferenceKinds =>
    kind == .kPCRel32WeakImport || kind == .kPointerWeakImport
  | .x86_64 => fun kind : Reloc.X86_64.ReferenceKinds =>
    kind == .kPointerWeakImport || kind == .kBranchPCRel32WeakImport ||
      kind == .kPCRel32GOTWeakImport || kind == .kPCRel32GOTLoadWeakImport
  | .arm => fun kind : Arm.ReferenceKinds =>
    kind == .kBranch24WeakImport || kind == .kThumbBranch22WeakImport ||
      kind == .kPointerWeakImport

def GOTReferenceKind : (A : Architecture) → A.Kinds → Bool
  | .x86_64 => fun kind : Reloc.X86_64.ReferenceKinds =>
    kind == .kPCRel32GOT || kind == .kPCRel32GOTWeakImport || kind == .kPCRel32GOTLoad ||
      kind == .kPCRel32GOTLoadWeakImport
  | .ppc | .ppc64 | .x86 | .arm => fun _ => false

def optimizableGOTReferenceKind : (A : Architecture) → A.Kinds → Bool
  | .x86_64 => fun kind : Reloc.X86_64.ReferenceKinds =>
    kind == .kPCRel32GOTLoad || kind == .kPCRel32GOTLoadWeakImport
  | .ppc | .ppc64 | .x86 | .arm => fun _ => false

end Kinds

structure Reference (A : Architecture) (Target : Type) where
  getKind : A.Kinds
  getTargetBinding : TargetBinding := .kBoundByName
  getTarget : Target
  getTargetOffset : UInt64 := 0

/-- `Linker::optimize` has seen to it that every atom has a section. -/
structure Atom (A : Architecture) extends Reloc.Atom where
  getAddress := 0
  getDisplayName : String := ""
  getFile : ReaderPtr := 0
  isZeroFill : Bool := false
  getSection : Nat
  getSectionName : String
  getSegmentName : String
  getReferences : List (Reference A AtomPtr) := []

structure Reader where
  getPath : String := ""
  isLazyLoadedDylib : Bool := false
  hasLongBranchStubs : Bool := false
  /-- `linkedWeak()` of its load command in `fLibraryToLoadCommand`, if it has one. -/
  linkedWeak : Option Bool := none

structure Objects (A : Architecture) where
  atom : AtomPtr → Atom A
  reader : ReaderPtr → Reader := fun _ => {}

inductive Segment where
  | fgTextSegment
  | fgDataSegment
  | fgImportSegment
  | fgROImportSegment
  deriving DecidableEq, Repr

def Segment.getName : Segment → String
  | fgTextSegment => "__TEXT"
  | fgDataSegment => "__DATA"
  | fgImportSegment | fgROImportSegment => "__IMPORT"

/-- The target of a stub is `NULL` for the dummy ones. -/
inductive SynthesizedKind where
  | stub (fTarget : Option AtomPtr) (fForLazyDylib : Bool)
  | stubHelper
  | lazyPointer (fForLazyDylib : Bool)
  | nonLazyPointer
  deriving DecidableEq, Repr

/-- Each comes from a `new` of its own. -/
structure Synthesized where
  number : Nat
  kind : SynthesizedKind
  getName : String
  deriving DecidableEq, Repr

def atomByNameSorter (left right : Synthesized) : Bool := left.getName < right.getName

def Synthesized.getSectionName (atom : Synthesized) : String :=
  match atom.kind with
  | .stub _ _ => "__symbol_stub1"
  | .stubHelper => "__stub_helper"
  | .lazyPointer fForLazyDylib => if fForLazyDylib then "__ld_symbol_ptr" else "__la_symbol_ptr"
  | .nonLazyPointer => "__nl_symbol_ptr"

/-- An element of `fAllAtoms`, or the target of a reference. -/
inductive AtomRef where
  | given (atom : AtomPtr)
  | synthesized (atom : Synthesized)
  deriving DecidableEq

inductive WeakReferenceMismatchTreatment where
  | kWeakReferenceMismatchError
  | kWeakReferenceMismatchWeak
  | kWeakReferenceMismatchNonWeak
  deriving DecidableEq, Repr

structure StubWriter extends FinalWriter where
  slowx86Stubs : Bool := false
  readOnlyx86Stubs : Bool := false
  usingLazyDylibLinking : Bool := false
  weakReferenceMismatchTreatment : WeakReferenceMismatchTreatment := .kWeakReferenceMismatchNonWeak
  fBiggerThanTwoGigs : Bool := false
  fDyldHelper : Option AtomPtr := none
  fDyldLazyDylibHelper : Option AtomPtr := none
  /-- `std::sort` with an `AtomByNameSorter` -/
  sort : List Synthesized → List Synthesized
  sort_spec : ∀ atoms, Sorted atomByNameSorter atoms (sort atoms)

def nameSort (atoms : List Synthesized) : List Synthesized :=
  atoms.insertionSort fun left right => atomByNameSorter right left = false

theorem nameSort_spec (atoms : List Synthesized) : Sorted atomByNameSorter atoms (nameSort atoms) := by
  have hle : ∀ a b : Synthesized, atomByNameSorter b a = false ↔ a.getName ≤ b.getName := by
    intro a b
    unfold atomByNameSorter
    rw [decide_eq_false_iff_not, not_lt]
  have : Std.Total fun left right : Synthesized => atomByNameSorter right left = false := by
    constructor
    intro a b
    rw [hle, hle]
    exact le_total _ _
  have : IsTrans Synthesized fun left right => atomByNameSorter right left = false := by
    constructor
    intro a b c hab hbc
    rw [hle] at hab hbc ⊢
    exact hab.trans hbc
  exact ⟨List.perm_insertionSort _ _, List.pairwise_insertionSort _ _⟩

/-- The members that are filled. -/
structure Synthesis (A : Architecture) where
  made : Nat := 0
  fWeakImportMap : AtomPtr → Option Bool := fun _ => none
  fDylibReadersWithWeakImports : List ReaderPtr := []
  fDylibReadersWithNonWeakImports : List ReaderPtr := []
  fStubsMap : AtomPtr → Option Synthesized := fun _ => none
  fGOTMap : AtomPtr → Option Synthesized := fun _ => none
  fAllSynthesizedStubs : List Synthesized := []
  fAllSynthesizedStubHelpers : List Synthesized := []
  fAllSynthesizedLazyPointers : List Synthesized := []
  fAllSynthesizedLazyDylibPointers : List Synthesized := []
  fAllSynthesizedNonLazyPointers : List Synthesized := []
  /-- The references that were seen, with the atoms they are in and what they refer to now. -/
  references : List (AtomPtr × Reference A AtomRef) := []

/-- `new`, and the vector that the constructor puts the atom into. -/
def Synthesis.make {A : Architecture} (st : Synthesis A) (kind : SynthesizedKind) (name : String) :
    Synthesis A :=
  let atom : Synthesized := ⟨st.made, kind, name⟩
  let st := { st with made := st.made + 1 }
  match kind with
  | .stub _ _ => { st with fAllSynthesizedStubs := st.fAllSynthesizedStubs ++ [atom] }
  | .stubHelper =>
    { st with fAllSynthesizedStubHelpers := st.fAllSynthesizedStubHelpers ++ [atom] }
  | .lazyPointer true =>
    { st with fAllSynthesizedLazyDylibPointers := st.fAllSynthesizedLazyDylibPointers ++ [atom] }
  | .lazyPointer false =>
    { st with fAllSynthesizedLazyPointers := st.fAllSynthesizedLazyPointers ++ [atom] }
  | .nonLazyPointer =>
    { st with fAllSynthesizedNonLazyPointers := st.fAllSynthesizedNonLazyPointers ++ [atom] }

/-- The loop of `Writer<x86>::insertDummyStubs`, with the number of the next atom. -/
def addBetterStub (better : List Synthesized × Nat) (stub : Synthesized) : List Synthesized × Nat :=
  match better.1.length % 64 with
  | 12 | 25 | 38 | 51 =>
    (better.1 ++ [⟨better.2, .stub none false, "cache-line-crossing-stub"⟩] ++ [stub], better.2 + 1)
  | _ => (better.1 ++ [stub], better.2)

def insertDummyStubs {A : Architecture} (st : Synthesis A) : Synthesis A :=
  match A with
  | .x86 =>
    let betterStubs := st.fAllSynthesizedStubs.foldl addBetterStub ([], st.made)
    { st with fAllSynthesizedStubs := betterStubs.1, made := betterStubs.2 }
  | _ => st

section Writer
variable {A : Architecture} (w : StubWriter) (objs : Objects A)

/-- How `asprintf` writes the name of an atom. -/
def nameOf (target : AtomPtr) : String := (objs.atom target).getName.getD "(null)"

def dyldHelper (forLazyDylib : Bool) : Except WriteError AtomPtr :=
  match if forLazyDylib then w.fDyldLazyDylibHelper else w.fDyldHelper with
  | some helper => .ok helper
  | none => .error (.thrown (if forLazyDylib then
      "symbol dyld_lazy_dylib_stub_binding_helper not defined (usually in lazydylib1.o)"
    else "symbol dyld_stub_binding_helper not defined (usually in crt1.o/dylib1.o/bundle1.o)"))

def makeLazyPointer (st : Synthesis A) (target : AtomPtr) (forLazyDylib : Bool) : Synthesis A :=
  st.make (.lazyPointer forLazyDylib) (nameOf objs target ++ "$lazy_pointer")

/-- The stub goes to the `__IMPORT` segment and has no lazy pointer. -/
def isFastStub (A : Architecture) (forLazyDylib : Bool) : Bool :=
  A == .x86 && !(w.slowx86Stubs || forLazyDylib)

/-- What the constructor of a `StubAtom` does behind the stub itself. -/
def makeStubParts (st : Synthesis A) (target : AtomPtr) (forLazyDylib : Bool) :
    Except WriteError (Synthesis A) :=
  match A with
  | .ppc =>
    if w.prebind then .ok (makeLazyPointer objs st target forLazyDylib)
    else do
      let helper ← dyldHelper w forLazyDylib
      .ok (makeLazyPointer objs st helper forLazyDylib)
  | .ppc64 => do
    let helper ← dyldHelper w forLazyDylib
    .ok (makeLazyPointer objs st helper forLazyDylib)
  | .x86 =>
    if isFastStub w .x86 forLazyDylib then .ok st
    else do
      let _ ← dyldHelper w forLazyDylib
      .ok (makeLazyPointer objs st target forLazyDylib)
  | .x86_64 => do
    let _ ← dyldHelper w forLazyDylib
    .ok ((makeLazyPointer objs st target forLazyDylib).make .stubHelper
      (nameOf objs target ++ "$stubHelper"))
  | .arm =>
    if w.prebind && !forLazyDylib then .ok (makeLazyPointer objs st target forLazyDylib)
    else do
      let helper ← dyldHelper w forLazyDylib
      .ok (makeLazyPointer objs st helper forLazyDylib)

def makeStub (st : Synthesis A) (target : AtomPtr) (forLazyDylib : Bool) :
    Except WriteError (Synthesis A) :=
  makeStubParts w objs (st.make (.stub (some target) forLazyDylib) (nameOf objs target ++ "$stub"))
    target forLazyDylib

/-! ## One reference -/

def isObjcClassName (target : Atom A) : Bool :=
  match target.getName with
  | none => false
  | some name => hasPrefix ".objc_class_name_" name

def weakImport (ref : Reference A AtomPtr) : Bool :=
  let target := objs.atom ref.getTarget
  if A.isNoFixUp ref.getKind && isObjcClassName target &&
      (objs.reader target.getFile).linkedWeak == some true then true
  else weakImportReferenceKind A ref.getKind

/-- What the map says of the target now that it said `old`. -/
def newWeakness (target : AtomPtr) (old : Option Bool) (weakImport : Bool) : Except WriteError Bool :=
  match old with
  | none => .ok weakImport
  | some old =>
    if old = weakImport then .ok old
    else match w.weakReferenceMismatchTreatment with
      | .kWeakReferenceMismatchError => .error (.thrown
          ("mismatching weak references for symbol: " ++ nameOf objs target))
      | .kWeakReferenceMismatchWeak => .ok true
      | .kWeakReferenceMismatchNonWeak => .ok false

/-- Enters it, and the file of the target to one of the two sets. -/
def Synthesis.setWeakness (st : Synthesis A) (target : AtomPtr) (value : Bool) : Synthesis A :=
  let file := (objs.atom target).getFile
  let st := { st with fWeakImportMap := update st.fWeakImportMap target (some value) }
  if value then
    { st with fDylibReadersWithWeakImports := st.fDylibReadersWithWeakImports.insert file }
  else
    { st with fDylibReadersWithNonWeakImports := st.fDylibReadersWithNonWeakImports.insert file }

def recordWeakImport (st : Synthesis A) (target : AtomPtr) (weakImport : Bool) :
    Except WriteError (Synthesis A) := do
  let value ← newWeakness w objs target (st.fWeakImportMap target) weakImport
  .ok (st.setWeakness objs target value)

def needsRelocation (target : AtomPtr) : Bool :=
  w.relocationNeededInFinalLinkedImage (objs.atom target).toAtom == .kRelocExternal

def needsStub (atom : AtomPtr) (ref : Reference A AtomPtr) : Bool :=
  stubableReference (objs.reader (objs.atom atom).getFile).hasLongBranchStubs
      (objs.atom ref.getTarget).getDefinitionKind A ref.getKind &&
    ref.getTargetOffset == 0 && needsRelocation w objs ref.getTarget

def inLazyDylib (target : AtomPtr) : Bool := (objs.reader (objs.atom target).getFile).isLazyLoadedDylib

def forLazyDylib (target : AtomPtr) : Bool :=
  isDylibSymbol (objs.atom target).getDefinitionKind && inLazyDylib objs target

def useGOT (ref : Reference A AtomPtr) : Bool :=
  let mustUseGOT := needsRelocation w objs ref.getTarget
  if !optimizableGOTReferenceKind A ref.getKind then true
  else if w.fBiggerThanTwoGigs then mustUseGOT || (objs.atom ref.getTarget).isZeroFill
  else mustUseGOT

def Reference.setTarget {Target : Type} (ref : Reference A Target) (target : AtomRef)
    (offset : UInt64) : Reference A AtomRef :=
  { ref with getTarget := target, getTargetOffset := offset }

def Synthesis.see (st : Synthesis A) (atom : AtomPtr) (ref : Reference A AtomRef) : Synthesis A :=
  { st with references := st.references ++ [(atom, ref)] }

def useStub (st : Synthesis A) (atom : AtomPtr) (ref : Reference A AtomPtr) :
    Except WriteError (Synthesis A) :=
  let target := ref.getTarget
  match st.fStubsMap target with
  | some stub => .ok (st.see atom (ref.setTarget (.synthesized stub) 0))
  | none => do
    let forLazyDylib := forLazyDylib objs target
    let stub : Synthesized := ⟨st.made, .stub (some target) forLazyDylib, nameOf objs target ++ "$stub"⟩
    let st ← makeStub w objs st target forLazyDylib
    let st := { st with fStubsMap := update st.fStubsMap target (some stub) }
    .ok (st.see atom (ref.setTarget (.synthesized stub) 0))

/-- The reference is to a non-lazy pointer from now on. -/
def useNonLazyPointer (st : Synthesis A) (atom : AtomPtr) (ref : Reference A AtomPtr) : Synthesis A :=
  let target := ref.getTarget
  match st.fGOTMap target with
  | some nlp => st.see atom (ref.setTarget (.synthesized nlp) ref.getTargetOffset)
  | none =>
    let name := nameOf objs target ++ "$non_lazy_pointer"
    let nlp : Synthesized := ⟨st.made, .nonLazyPointer, name⟩
    let st := st.make .nonLazyPointer name
    let st := { st with fGOTMap := update st.fGOTMap target (some nlp) }
    st.see atom (ref.setTarget (.synthesized nlp) ref.getTargetOffset)

def keepTarget (st : Synthesis A) (atom : AtomPtr) (ref : Reference A AtomPtr) : Synthesis A :=
  st.see atom (ref.setTarget (.given ref.getTarget) ref.getTargetOffset)

/-- The stub or the pointer that a reference to a bound target needs. -/
def retarget (st : Synthesis A) (atom : AtomPtr) (ref : Reference A AtomPtr) :
    Except WriteError (Synthesis A) :=
  if needsStub w objs atom ref then useStub w objs st atom ref
  else if w.usingLazyDylibLinking && inLazyDylib objs ref.getTarget then
    .error (.thrown ("illegal reference to " ++ (objs.atom ref.getTarget).getDisplayName ++
      " in lazy loaded dylib from " ++ (objs.atom atom).getDisplayName ++ " in " ++
      (objs.reader (objs.atom atom).getFile).getPath))
  else if GOTReferenceKind A ref.getKind && useGOT w objs ref then
    .ok (useNonLazyPointer objs st atom ref)
  else .ok (keepTarget st atom ref)

def isBound (ref : Reference A AtomPtr) : Bool :=
  match ref.getTargetBinding with
  | .kUnboundByName | .kDontBind => false
  | .kBoundByName | .kBoundDirectly => true

def isImport (ref : Reference A AtomPtr) : Bool :=
  isDylibSymbol (objs.atom ref.getTarget).getDefinitionKind

def noteImport (st : Synthesis A) (ref : Reference A AtomPtr) : Except WriteError (Synthesis A) :=
  if isImport objs ref then recordWeakImport w objs st ref.getTarget (weakImport objs ref)
  else .ok st

def visit (st : Synthesis A) (seen : AtomPtr × Reference A AtomPtr) :
    Except WriteError (Synthesis A) :=
  if isBound seen.2 then do
    let st ← noteImport w objs st seen.2
    retarget w objs st seen.1 seen.2
  else .ok (keepTarget st seen.1 seen.2)

def allReferences (fAllAtoms : List AtomPtr) : List (AtomPtr × Reference A AtomPtr) :=
  fAllAtoms.flatMap fun atom => (objs.atom atom).getReferences.map fun ref => (atom, ref)

def walk (fAllAtoms : List AtomPtr) : Except WriteError (Synthesis A) :=
  (allReferences objs fAllAtoms).foldlM (visit w objs) {}

def sortSynthesized (st : Synthesis A) : Synthesis A :=
  let st := { st with fAllSynthesizedStubs := w.sort st.fAllSynthesizedStubs }
  let st := if w.slowx86Stubs then st else insertDummyStubs st
  { st with
    fAllSynthesizedLazyPointers := w.sort st.fAllSynthesizedLazyPointers
    fAllSynthesizedLazyDylibPointers := w.sort st.fAllSynthesizedLazyDylibPointers }

/-! ## Insertion into fAllAtoms -/

def getSegment (A : Architecture) (atom : Synthesized) : Segment :=
  match atom.kind with
  | .stub _ forLazyDylib =>
    if isFastStub w A forLazyDylib then
      if w.readOnlyx86Stubs then .fgROImportSegment else .fgImportSegment
    else .fgTextSegment
  | .stubHelper => .fgTextSegment
  | .lazyPointer _ | .nonLazyPointer => .fgDataSegment

/-- The section of an atom that was just made is `NULL`. -/
def sectionOf : AtomRef → Option Nat
  | .given atom => some (objs.atom atom).getSection
  | .synthesized _ => none

def sectionName : AtomRef → String
  | .given atom => (objs.atom atom).getSectionName
  | .synthesized atom => atom.getSectionName

def segmentName : AtomRef → String
  | .given atom => (objs.atom atom).getSegmentName
  | .synthesized atom => (getSegment w A atom).getName

structure Cursor where
  curSection : Option Nat := none
  prevAtom : Option AtomRef := none

/-- The scan for the place of `block`: before the first atom that begins a section and that `here`
says yes to. The list, if there is one, and where the cursor is left. -/
def insertBefore (here : Option AtomRef → AtomRef → Bool) (block : List AtomRef) :
    Cursor → List AtomRef → Option (List AtomRef) × Cursor
  | cursor, [] => (none, cursor)
  | cursor, atom :: rest =>
    let nextSection := sectionOf objs atom
    if nextSection ≠ cursor.curSection then
      if here cursor.prevAtom atom then (some (block ++ atom :: rest), cursor)
      else
        let result := insertBefore here block ⟨nextSection, some atom⟩ rest
        (result.1.map (atom :: ·), result.2)
    else
      let result := insertBefore here block ⟨cursor.curSection, some atom⟩ rest
      (result.1.map (atom :: ·), result.2)

def behindSection (name : String) (prevAtom : Option AtomRef) (_ : AtomRef) : Bool :=
  prevAtom.any fun prev => sectionName objs prev == name

/-- At the end of the `__IMPORT` segment, or before `__LINKEDIT`. -/
def behindImports (prevAtom : Option AtomRef) (atom : AtomRef) : Bool :=
  (prevAtom.any fun prev => segmentName w objs prev == "__IMPORT") ||
    segmentName w objs atom == "__LINKEDIT"

def behindPointers (prevAtom : Option AtomRef) (atom : AtomRef) : Bool :=
  behindSection objs "__dyld" prevAtom atom ||
    (behindSection objs "__data" prevAtom atom &&
      (w.outputKind == .kDyld || w.outputKind == .kStaticExecutable))

def isTextStub (A : Architecture) (stub : Synthesized) : Bool :=
  (getSegment w A stub).getName == "__TEXT"

def textStubs (st : Synthesis A) : List Synthesized :=
  st.fAllSynthesizedStubs.filter (isTextStub w A) ++ st.fAllSynthesizedStubHelpers

def importStubs (st : Synthesis A) : List Synthesized :=
  st.fAllSynthesizedStubs.filter fun stub => !isTextStub w A stub

/-- The second scan goes on with the variables of the first one. -/
def addStubs (st : Synthesis A) (fAllAtoms : List AtomRef) : List AtomRef :=
  if st.fAllSynthesizedStubs.isEmpty then fAllAtoms
  else
    let result := insertBefore objs (behindSection objs "__text")
      ((textStubs w st).map .synthesized) {} fAllAtoms
    let fAllAtoms := result.1.getD fAllAtoms
    if (importStubs w st).isEmpty then fAllAtoms
    else
      (insertBefore objs (behindImports w objs) ((importStubs w st).map .synthesized)
        result.2 fAllAtoms).1.getD fAllAtoms

def addPointers (here : Option AtomRef → AtomRef → Bool) (message : String)
    (pointers : List Synthesized) (fAllAtoms : List AtomRef) : Except WriteError (List AtomRef) :=
  if pointers.isEmpty then .ok fAllAtoms
  else match (insertBefore objs here (pointers.map .synthesized) {} fAllAtoms).1 with
    | some fAllAtoms => .ok fAllAtoms
    | none => .error (.thrown message)

/-- The members, and the atoms of the image. -/
structure Image (A : Architecture) extends Synthesis A where
  fAllAtoms : List AtomRef

def synthesizeStubs (fAllAtoms : List AtomPtr) : Except WriteError (Image A) :=
  let given := fAllAtoms.map .given
  if w.outputKind = .kObjectFile then .ok { fAllAtoms := given }
  else do
    let st ← walk w objs fAllAtoms
    let st := sortSynthesized w st
    let atoms := addStubs w objs st given
    let atoms ← addPointers objs (behindSection objs "__dyld")
      "can't insert lazy pointers, __dyld section not found" st.fAllSynthesizedLazyDylibPointers atoms
    let atoms ← addPointers objs (behindSection objs "__dyld")
      "can't insert lazy pointers, __dyld section not found" st.fAllSynthesizedLazyPointers atoms
    let atoms ← addPointers objs (behindPointers w objs)
      "can't insert non-lazy pointers, __dyld section not found" st.fAllSynthesizedNonLazyPointers atoms
    .ok { st with fAllAtoms := atoms }

end Writer
end Toolwhip.Ld64.Stubs
