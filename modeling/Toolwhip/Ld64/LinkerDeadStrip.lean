import Toolwhip.Ld64.Linker
import Toolwhip.Lib.GrowingSet

/-! # Dead stripping, and the phases of a link

The walk over the live roots binds references and loads archive members as it
goes. `markLive` recurses through the references, so its loop body is given the
recursive call. -/

namespace Toolwhip.Ld64
open Lib.GrowingSet
set_option autoImplicit false

namespace LinkerState
variable {σ : Type} (s : LinkerState σ)

def noteUnresolved (sl : Slot) (name : String) : LinkerState σ :=
  let s := (s.require name).log (.unresolved sl name)
  match sl.side with
  | .target =>
    { s with fAtomsWithUnresolvedReferences := s.fAtomsWithUnresolvedReferences ++ [sl.atom] }
  | .fromTarget => s

def insertRoots (roots : List AtomPtr) : LinkerState σ :=
  roots.foldl insertRoot s

def eraseNotLive : LinkerState σ :=
  { s with fAllAtoms := s.fAllAtoms.filter fun a => a ∈ s.fLiveAtoms }

def clearLive : LinkerState σ :=
  { s with fLiveAtoms := ∅ }

end LinkerState

namespace Linker
variable {σ : Type} (ld : Linker σ)

/-- `fLiveAtoms.insert` and the two totals. -/
def insertLive (s : LinkerState σ) (a : AtomPtr) : LinkerState σ :=
  ld.countSize
    { s with
      fLiveAtoms := insert a s.fLiveAtoms
      history := s.history ++ [.markedLive a (a ∈ s.fDeadAtoms) (a ∈ s.fAllAtoms)] } a

section Body
variable (markLive : LinkerState σ → AtomPtr → Except LinkError (LinkerState σ))

def addJustInTimeAtomsAndMarkLive (s : LinkerState σ) (name : String) :
    Except LinkError (LinkerState σ) := do
  let (atoms, s) ← ld.addJustInTimeAtoms name false s
  match atoms with
  | none => return s
  | some atoms =>
    if ld.fOptions.allGlobalsAreDeadStripRoots then
      atoms.foldlM (fun s a => if s.getScope a = .scopeGlobal then markLive s a else .ok s) s
    else return s

def loadName (s : LinkerState σ) (name : String) : Except LinkError (LinkerState σ) :=
  match s.find name with
  | some _ => .ok s
  | none => ld.addJustInTimeAtomsAndMarkLive markLive s name

/-- An unbound name is looked up, loaded if need be, and looked up again. -/
def bindSlot (s : LinkerState σ) (sl : Slot) : Except LinkError (LinkerState σ) :=
  match ld.unboundName s sl with
  | none => .ok s
  | some name => do
    let s ← ld.loadName markLive s name
    match s.find name with
    | some target => return s.bind sl target
    | none => return s.noteUnresolved sl name

def visitSlot (s : LinkerState σ) (sl : Slot) : Except LinkError (LinkerState σ) := do
  let s ← ld.bindSlot markLive s sl
  match ld.boundAtom s sl with
  | some target => markLive s target
  | none => return ld.addSlotProbe s sl

end Body

def markLive : Nat → LinkerState σ → AtomPtr → Except LinkError (LinkerState σ)
  | 0, _, _ => .error .outOfFuel
  | fuel + 1, s, a =>
    if a ∈ s.fLiveAtoms then .ok s
    else (ld.objs.slots a).foldlM (ld.visitSlot (markLive fuel)) (ld.insertLive s a)

def addLiveRoot (s : LinkerState σ) (name : String) : Except LinkError (LinkerState σ) := do
  let s ← ld.loadName (ld.markLive ld.fuel) s name
  match s.find name with
  | none => return s
  | some target => return s.insertRoot target

/-- `entryPoint(false)`: only an executable must have one. -/
def entryPoint (s : LinkerState σ) : Except LinkError (Option AtomPtr) :=
  match ld.fOptions.outputKind with
  | .kDynamicExecutable | .kStaticExecutable | .kDyld =>
    match s.find ld.fOptions.entryName with
    | some a => .ok (some a)
    | none => .error (.thrown ("could not find entry point \"" ++ ld.fOptions.entryName ++
        "\" (perhaps missing crt1.o)"))
  | .kDynamicLibrary | .kObjectFile | .kDynamicBundle => .ok none

/-- The global atoms that some wildcard exports, or every one of them. -/
def globalRoots (s : LinkerState σ) : List AtomPtr :=
  let globals := s.fAllAtoms.filter fun a => s.getScope a = .scopeGlobal ∧ a ∉ s.fDeadAtoms
  let exported := globals.filter fun a =>
    ld.fOptions.hasWildCardExportRestrictList && ld.fOptions.shouldExport (ld.objs.nameOf a)
  exported ++ if ld.fOptions.allGlobalsAreDeadStripRoots then globals else []

def addLiveRoots (s : LinkerState σ) : Except LinkError (LinkerState σ) := do
  let entryPoint ← ld.entryPoint s
  let s := s.insertRoots entryPoint.toList
  let s := s.insertRoots (s.find "dyld_stub_binding_helper").toList
  let s :=
    if ld.fOptions.usingLazyDylibLinking then
      s.insertRoots (s.find "dyld_lazy_dylib_stub_binding_helper").toList
    else s
  let s ← ld.fOptions.initialUndefines.foldlM ld.addLiveRoot s
  return s.insertRoots (ld.globalRoots s)

def visitRoot (s : LinkerState σ) (root : AtomPtr) : Except LinkError (LinkerState σ) :=
  ld.markLive ld.fuel { s with walking := some root } root

def walkLiveRoots (s : LinkerState σ) : Except LinkError (LinkerState σ) :=
  walk LinkerState.fLiveRootAtoms ld.visitRoot .outOfFuel ld.fuel none s

def markRootsLive (s : LinkerState σ) : Except LinkError (LinkerState σ) := do
  let s ← ld.addLiveRoots s
  let s ← ld.walkLiveRoots s
  return { s with walking := none }

/-- The atom is put in `fLiveAtoms` without a visit of its own references. -/
def fixUp (s : LinkerState σ) (sl : Slot) : LinkerState σ :=
  match (ld.unboundName s sl).bind s.find with
  | none => s
  | some target =>
    let s := s.bind sl target
    { s with
      fLiveAtoms := insert target s.fLiveAtoms
      history := s.history ++
        [.fixedUp target (target ∈ s.fDeadAtoms) (target ∈ s.fLiveAtoms)] }

def fixUpReferences (s : LinkerState σ) : LinkerState σ :=
  (s.fAtomsWithUnresolvedReferences.flatMap ld.objs.slots).foldl ld.fixUp s

def deadStripResolve (s : LinkerState σ) : Except LinkError (LinkerState σ) := do
  let s ← ld.markRootsLive s
  return (ld.fixUpReferences s).eraseNotLive

def loadAndResolve (s : LinkerState σ) : Except LinkError (LinkerState σ) :=
  if ld.fOptions.deadStrip = .kDeadStripOff then do
    let s ← ld.loadUndefines s
    let s ← ld.checkUndefines s
    return (ld.resolveReferences s).eraseDead
  else do
    let s ← ld.deadStripResolve s
    ld.checkUndefines s

def optimizeReader (r : LinkerState σ × List AtomPtr × List String) (reader : ReaderPtr) :
    LinkerState σ × List AtomPtr × List String :=
  let (s, newAtoms, additionalUndefines) := r
  let o := ld.files.optimize reader s.fAllAtoms s.fDeadAtoms s.files
  ({ s with fAllAtoms := o.allAtoms, files := o.files }, newAtoms ++ o.newAtoms,
    additionalUndefines ++ o.additionalUndefines)

def loadAdditionalUndefine (s : LinkerState σ) (targetName : String) :
    Except LinkError (LinkerState σ) :=
  match s.find targetName with
  | some _ => .ok s
  | none => do return (← ld.addJustInTimeAtoms targetName false (s.require targetName)).2

def loadOptimized (s : LinkerState σ) : Except LinkError (LinkerState σ) := do
  let (s, newAtoms, additionalUndefines) :=
    ld.files.fInputFiles.foldl ld.optimizeReader (s, [], [])
  let s ← ld.addAtoms s newAtoms
  additionalUndefines.foldlM ld.loadAdditionalUndefine s

def optimize (s : LinkerState σ) : Except LinkError (LinkerState σ) := do
  let s ← ld.loadOptimized s
  if ld.fOptions.deadStrip = .kDeadStripOff then
    let s ← ld.checkUndefines s
    return ld.resolveReferences s
  else ld.deadStripResolve s.clearLive

/-- What `checkObjC` throws for the first explicitly linked dylib of the kind. -/
def checkObjcDylibs (refused : ObjcConstraint) (message : String) : Except LinkError Unit :=
  let refuses (reader : ReaderPtr) : Bool :=
    ld.files.explicitlyLinked reader && ld.files.getObjCConstraint reader == refused
  match ld.files.fDylibMap.find? refuses with
  | none => .ok ()
  | some reader => .error (.thrown (message ++ ld.objs.getPath reader))

def checkObjcConstraint (constraint : ObjcConstraint) : Except LinkError Unit :=
  match constraint with
  | .kObjcNone | .kObjcRetainReleaseOrGC => .ok ()
  | .kObjcRetainRelease =>
    ld.checkObjcDylibs .kObjcGC ("this linkage unit uses Retain/Release.  " ++
      "It cannot link against the GC-only dylib: ")
  | .kObjcGC =>
    ld.checkObjcDylibs .kObjcRetainRelease ("this linkage unit requires GC.  " ++
      "It cannot link against Retain/Release dylib: ")

def checkObjC (s : LinkerState σ) : Except LinkError (LinkerState σ) := do
  ld.checkObjcConstraint s.fCurrentObjCConstraint
  if s.fCurrentObjCConstraint = .kObjcNone then return s
  else
    let made := ld.files.makeObjcInfoAtom s.fCurrentObjCConstraint s.fObjcReplacmentClasses s.files
    ld.addAtom { s with files := made.2 } made.1

/-- Sections for the static probes of both dtrace versions. -/
def processDTrace (s : LinkerState σ) : Except LinkError (LinkerState σ) :=
  let p := s.probes
  if (ld.fOptions.outputKind ≠ .kObjectFile ∧
      (p.fDtraceProbeSites ≠ [] ∨ p.fDtraceIsEnabledSites ≠ [])) ∨
      (ld.fOptions.dTrace ∧ p.fDtraceProbes ≠ []) then do
    let sections ← ld.createDof p s.fDeadAtoms
    sections.foldlM ld.addAtoms s
  else .ok s

def tooBig (size : Nat) : LinkError :=
  .thrown ("total output size exceeds 2GB (" ++ toString (size / (1024 * 1024)) ++ "MB)")

/-- Whether an atom moves to the `__huge` section of an output over 2GB. -/
def isHugeZeroFill (a : AtomPtr) : Bool :=
  (ld.objs.atom a).isZeroFill && decide (1024 * 1024 < (ld.objs.atom a).getSize) &&
  (ld.objs.atom a).getSegment.getName == "__DATA"

/-- The difference of the totals wraps as `uint64_t` does. -/
def tweakLayout (s : LinkerState σ) : Except LinkError (LinkerState σ) :=
  if s.fTotalSize > 0x7F000000 then
    let filled := (s.fTotalSize + 2 ^ 64 - s.fTotalZeroFillSize) % 2 ^ 64
    if filled > 0x7F000000 then .error (tooBig filled)
    else .ok { s with
      fBiggerThanTwoGigOutput := true
      hugeZeroFills := s.fAllAtoms.filter ld.isHugeZeroFill }
  else .ok s

end Linker
end Toolwhip.Ld64
