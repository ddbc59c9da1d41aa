import Mathlib.Data.Finset.Basic
import Toolwhip.Ld64.SymbolTable

/-! # The Linker object: its state, addAtom and markDead

Scopes and bindings are written while the linker runs, so they are part of the
state. `history` is not in the program: it records what each step met, in order,
so that a run's conditions can be stated about the states its steps started from. -/

namespace Toolwhip.Ld64
set_option autoImplicit false

inductive ObjcConstraint where
  | kObjcNone
  | kObjcRetainRelease
  | kObjcRetainReleaseOrGC
  | kObjcGC
  deriving DecidableEq, Repr

inductive Side where
  | target
  | fromTarget
  deriving DecidableEq, Repr

/-- One side of one reference of one atom. -/
structure Slot where
  atom : AtomPtr
  index : Nat
  side : Side
  deriving DecidableEq, Repr

namespace Objects
variable (objs : Objects)

def slots (a : AtomPtr) : List Slot :=
  (List.range (objs.atom a).getReferences.length).flatMap fun i =>
    [⟨a, i, .target⟩, ⟨a, i, .fromTarget⟩]

def reference (sl : Slot) : Option Reference :=
  (objs.atom sl.atom).getReferences[sl.index]?

def slotName (sl : Slot) : Option String :=
  (objs.reference sl).bind fun ref =>
    match sl.side with
    | .target => ref.fToTargetName
    | .fromTarget => ref.fFromTargetName

def initialBinding (sl : Slot) : Option AtomPtr :=
  (objs.reference sl).bind fun ref =>
    match sl.side with
    | .target => ref.fToTarget
    | .fromTarget => ref.fFromTarget

def isDtrace (sl : Slot) : Bool :=
  sl.side == .target && ((objs.reference sl).map Reference.isDtrace).getD false

def byName (sl : Slot) : Option String :=
  if objs.isDtrace sl then none else objs.slotName sl

end Objects

/-- What `optimize` of one reader leaves behind. -/
structure Optimized (σ : Type) where
  allAtoms : List AtomPtr
  newAtoms : List AtomPtr := []
  additionalUndefines : List String := []
  files : σ

/-- The readers and the writer, as the linker uses them. `σ` is the state they
keep: the archive members already supplied, the proxies already made. The
values of `fDylibMap` come in the order of their install names. -/
structure Files (σ : Type) where
  fInputFiles : List ReaderPtr
  fDylibMap : List ReaderPtr := []
  getInstallPath : ReaderPtr → Option String := fun _ => none
  implicitlyLinked : ReaderPtr → Bool := fun _ => false
  explicitlyLinked : ReaderPtr → Bool := fun _ => true
  hasWeakExternals : ReaderPtr → Bool := fun _ => false
  getObjCConstraint : ReaderPtr → ObjcConstraint := fun _ => .kObjcNone
  objcReplacementClasses : ReaderPtr → Bool := fun _ => false
  getAtoms : ReaderPtr → List AtomPtr
  writerAtoms : List AtomPtr := []
  extraSections : List (List AtomPtr) := []
  getJustInTimeAtomsFor : ReaderPtr → String → σ → Option (List AtomPtr) × σ
  getUndefinedProxyAtom : String → σ → Option AtomPtr × σ := fun _ s => (none, s)
  makeObjcInfoAtom : ObjcConstraint → Bool → σ → AtomPtr × σ := fun _ _ s => (0, s)
  optimize : ReaderPtr → List AtomPtr → Finset AtomPtr → σ → Optimized σ :=
    fun _ all _ s => { allAtoms := all, files := s }

structure DTraceProbeInfo where
  atom : AtomPtr
  offset : Nat
  probeName : String
  deriving DecidableEq, Repr

structure DTraceProbes where
  fDtraceProbes : List DTraceProbeInfo := []
  fDtraceProbeSites : List DTraceProbeInfo := []
  fDtraceIsEnabledSites : List DTraceProbeInfo := []
  fDtraceAtomToTypes : List (AtomPtr × String) := []

/-- A link: its objects, options and files. An optimizer removes no atom that must
not be stripped. `createDof` stands for the calls into libdtrace, `tableOrder` for
the iteration order of the symbol table's hash map, and `fuel` bounds every
recursion of the model. -/
structure Linker (σ : Type) where
  objs : Objects
  fOptions : Options := {}
  files : Files σ
  createDof : DTraceProbes → Finset AtomPtr → Except LinkError (List (List AtomPtr)) :=
    fun _ _ => .error (.thrown "can't use /usr/lib/libdtrace.dylib on this system")
  tableOrder : List String → List String := id
  tableOrder_perm : ∀ names, (tableOrder names).Perm names := by exact fun _ => List.Perm.refl _
  optimize_keeps : ∀ reader all dead s, ∀ a ∈ all, (objs.atom a).dontDeadStrip →
    a ∈ (files.optimize reader all dead s).allAtoms := by exact fun _ _ _ _ _ h _ => h
  fuel : Nat

/-- What a step of the run met, in the state before the step. -/
inductive Event where
  | added (atom : AtomPtr) (wasDead wasListed : Bool)
  | rootInserted (atom : AtomPtr) (walking : Option AtomPtr)
  | markedDead (atom : AtomPtr) (wasLive wasListed : Bool)
  | markedLive (atom : AtomPtr) (wasDead wasListed : Bool)
  | bound (slot : Slot) (target : AtomPtr) (wasListed : Bool)
  | unresolved (slot : Slot) (name : String)
  | fixedUp (atom : AtomPtr) (wasDead wasLive : Bool)
  deriving DecidableEq, Repr

/-- `walking` is the iterator of the loop over `fLiveRootAtoms`, and
`hugeZeroFills` holds the atoms moved to the `__huge` section. -/
structure LinkerState (σ : Type) where
  fAllAtoms : List AtomPtr := []
  fGlobalSymbolTable : SymbolTable := {}
  fDeadAtoms : Finset AtomPtr := ∅
  fLiveAtoms : Finset AtomPtr := ∅
  fLiveRootAtoms : Finset AtomPtr := ∅
  fAtomsWithUnresolvedReferences : List AtomPtr := []
  fReadersThatHaveSuppliedAtoms : List ReaderPtr := []
  fCurrentObjCConstraint : ObjcConstraint := .kObjcNone
  fObjcReplacmentClasses : Bool := false
  probes : DTraceProbes := {}
  fTotalSize : Nat := 0
  fTotalZeroFillSize : Nat := 0
  fBiggerThanTwoGigOutput : Bool := false
  hugeZeroFills : List AtomPtr := []
  getScope : AtomPtr → Scope
  bound : Slot → Option AtomPtr
  files : σ
  walking : Option AtomPtr := none
  history : List Event := []

namespace LinkerState
variable {σ : Type} (s : LinkerState σ)

def log (e : Event) : LinkerState σ :=
  { s with history := s.history ++ [e] }

def bind (sl : Slot) (target : AtomPtr) : LinkerState σ :=
  { s with
    bound := Function.update s.bound sl (some target)
    history := s.history ++ [.bound sl target (target ∈ s.fAllAtoms)] }

@[simp] theorem bound_bind (sl : Slot) (target : AtomPtr) :
    (s.bind sl target).bound sl = some target := Function.update_self _ _ _

theorem bound_bind_ne {sl sl' : Slot} (target : AtomPtr) (h : sl' ≠ sl) :
    (s.bind sl target).bound sl' = s.bound sl' := Function.update_of_ne h _ _

def require (name : String) : LinkerState σ :=
  { s with fGlobalSymbolTable := s.fGlobalSymbolTable.require name }

def find (name : String) : Option AtomPtr :=
  s.fGlobalSymbolTable.find name

/-- `fAllAtoms.push_back`. -/
def push (a : AtomPtr) : LinkerState σ :=
  { s with
    fAllAtoms := s.fAllAtoms ++ [a]
    history := s.history ++ [.added a (a ∈ s.fDeadAtoms) (a ∈ s.fAllAtoms)] }

def insertRoot (a : AtomPtr) : LinkerState σ :=
  if a ∈ s.fLiveRootAtoms then s
  else
    { s with
      fLiveRootAtoms := insert a s.fLiveRootAtoms
      history := s.history ++ [.rootInserted a s.walking] }

def insertDead (a : AtomPtr) : LinkerState σ :=
  { s with
    fDeadAtoms := insert a s.fDeadAtoms
    history := s.history ++ [.markedDead a (a ∈ s.fLiveAtoms) (a ∈ s.fAllAtoms)] }

/-- Every atom that was ever passed to `addAtom`. -/
def added : List AtomPtr :=
  s.history.filterMap fun
    | .added a _ _ => some a
    | _ => none

end LinkerState

namespace Linker
variable {σ : Type} (ld : Linker σ)

def init (files : σ) : LinkerState σ :=
  { getScope := fun a => (ld.objs.atom a).getScope
    bound := ld.objs.initialBinding
    files := files }

/-- `getTargetBinding` and `getFromTargetBinding`. -/
def binding (s : LinkerState σ) (sl : Slot) : TargetBinding :=
  match sl.side, s.bound sl, ld.objs.slotName sl with
  | .target, none, _ => if ld.objs.isDtrace sl then .kDontBind else .kUnboundByName
  | .target, some _, none => if ld.objs.isDtrace sl then .kDontBind else .kBoundDirectly
  | .target, some _, some _ => if ld.objs.isDtrace sl then .kDontBind else .kBoundByName
  | .fromTarget, none, none => .kDontBind
  | .fromTarget, none, some _ => .kUnboundByName
  | .fromTarget, some _, none => .kBoundDirectly
  | .fromTarget, some _, some _ => .kBoundByName

/-- The name of a side in the state `kUnboundByName`. -/
def unboundName (s : LinkerState σ) (sl : Slot) : Option String :=
  if ld.binding s sl = .kUnboundByName then ld.objs.slotName sl else none

/-- The atom of a side in the state `kBoundDirectly` or `kBoundByName`. -/
def boundAtom (s : LinkerState σ) (sl : Slot) : Option AtomPtr :=
  match ld.binding s sl with
  | .kBoundDirectly | .kBoundByName => s.bound sl
  | .kUnboundByName | .kDontBind => none

def getTargetName (s : LinkerState σ) (sl : Slot) : Option String :=
  match ld.objs.slotName sl with
  | some name => some name
  | none => (s.bound sl).bind fun t => (ld.objs.atom t).getName

def startsWith (name text : String) : Bool :=
  text.toList.isPrefixOf name.toList

def addDtraceProbe (s : LinkerState σ) (a : AtomPtr) (offset : Nat) (probeName : Option String) :
    LinkerState σ :=
  match probeName with
  | none => s
  | some name =>
    let info : DTraceProbeInfo := ⟨a, offset, name⟩
    let p := s.probes
    if startsWith name "___dtrace_probe$" then
      { s with probes := { p with fDtraceProbeSites := p.fDtraceProbeSites ++ [info] } }
    else if startsWith name "___dtrace_isenabled$" then
      { s with probes := { p with fDtraceIsEnabledSites := p.fDtraceIsEnabledSites ++ [info] } }
    else if startsWith name "___dtrace_" then
      { s with probes := { p with fDtraceAtomToTypes := p.fDtraceAtomToTypes ++ [(a, name)] } }
    else if ld.fOptions.dTrace && startsWith name "__dtrace_probe$" then
      { s with probes := { p with fDtraceProbes := p.fDtraceProbes ++ [info] } }
    else s

/-- The probe of a target in the state `kDontBind`. -/
def addSlotProbe (s : LinkerState σ) (sl : Slot) : LinkerState σ :=
  match ld.objs.reference sl with
  | none => s
  | some ref =>
    if sl.side = .target ∧ ld.binding s sl = .kDontBind then
      ld.addDtraceProbe s sl.atom ref.getFixUpOffset (ld.getTargetName s sl)
    else s

def readableSize (a : AtomPtr) : Nat :=
  if (ld.objs.atom a).getSegment.isContentReadable then (ld.objs.atom a).getSize else 0

def zeroFillSize (a : AtomPtr) : Nat :=
  if (ld.objs.atom a).isZeroFill then ld.readableSize a else 0

/-- Both totals are `uint64_t`. -/
def countSize (s : LinkerState σ) (a : AtomPtr) : LinkerState σ :=
  { s with
    fTotalSize := (s.fTotalSize + ld.readableSize a) % 2 ^ 64
    fTotalZeroFillSize := (s.fTotalZeroFillSize + ld.zeroFillSize a) % 2 ^ 64 }

def groupSubordinates (s : LinkerState σ) (a : AtomPtr) : List AtomPtr :=
  (ld.objs.slots a).filterMap fun sl =>
    if sl.side = .target ∧ (ld.objs.reference sl).map Reference.getKind = some kGroupSubordinate
    then s.bound sl else none

def markDead : Nat → LinkerState σ → AtomPtr → Except LinkError (LinkerState σ)
  | 0, _, _ => .error .outOfFuel
  | fuel + 1, s, a => (ld.groupSubordinates s a).foldlM (markDead fuel) (s.insertDead a)

/-- Without dead stripping the names an atom refers to are needed at once, and
its size counts. -/
def noteReferences (s : LinkerState σ) (a : AtomPtr) : LinkerState σ :=
  let note (s : LinkerState σ) (sl : Slot) : LinkerState σ :=
    match ld.unboundName s sl with
    | some name => s.require name
    | none => ld.addSlotProbe s sl
  ld.countSize ((ld.objs.slots a).foldl note s) a

def restrictScope (s : LinkerState σ) (a : AtomPtr) (name : String) : LinkerState σ :=
  if ld.fOptions.hasExportRestrictList ∧ s.getScope a = .scopeGlobal ∧
      ld.fOptions.shouldExport name = false then
    { s with getScope := Function.update s.getScope a .scopeLinkageUnit }
  else s

def addToSymbolTable (s : LinkerState σ) (a : AtomPtr) : Except LinkError (LinkerState σ) := do
  let r ← s.fGlobalSymbolTable.add ld.objs ld.fOptions.commonsMode (s.getScope a) a
  match r.dead with
  | none => return { s with fGlobalSymbolTable := r.table }
  | some dead => ld.markDead ld.fuel { s with fGlobalSymbolTable := r.table } dead

/-- `.eh` symbols stay out of the symbol table of an `ld -r`. -/
def inSymbolTable (a : AtomPtr) : Bool :=
  if ld.fOptions.outputKind = .kObjectFile then
    match (ld.objs.atom a).getSectionName with
    | none => false
    | some sectionName => sectionName != "__eh_frame"
  else true

/-- `addAtom` up to the symbol table: the atom is counted, or may be a root. -/
def listAtom (s : LinkerState σ) (a : AtomPtr) : LinkerState σ :=
  if ld.fOptions.deadStrip = .kDeadStripOff then ld.noteReferences (s.push a) a
  else if (ld.objs.atom a).dontDeadStrip then (s.push a).insertRoot a
  else s.push a

def addAtom (s : LinkerState σ) (a : AtomPtr) : Except LinkError (LinkerState σ) :=
  let s := ld.listAtom s a
  match (ld.objs.atom a).getName with
  | none => .ok s
  | some name =>
    if s.getScope a = .scopeTranslationUnit then .ok s
    else if ld.inSymbolTable a then ld.addToSymbolTable (ld.restrictScope s a name) a
    else .ok (ld.restrictScope s a name)

def objcMismatch (reader : ReaderPtr) : LinkError :=
  .thrown (ld.objs.getPath reader ++ " built with incompatible Garbage Collection settings" ++
    " to link with previous .o files")

/-- The constraint after adding a reader; only a `.o` file's counts. -/
def addObjcConstraint (reader : ReaderPtr) (current : ObjcConstraint) :
    Except LinkError ObjcConstraint :=
  if (ld.files.getInstallPath reader).isSome then .ok current
  else match ld.files.getObjCConstraint reader, current with
    | .kObjcNone, _ => .ok current
    | .kObjcRetainRelease, .kObjcGC => .error (ld.objcMismatch reader)
    | .kObjcRetainRelease, _ => .ok .kObjcRetainRelease
    | .kObjcRetainReleaseOrGC, .kObjcNone => .ok .kObjcRetainReleaseOrGC
    | .kObjcRetainReleaseOrGC, _ => .ok current
    | .kObjcGC, .kObjcRetainRelease => .error (ld.objcMismatch reader)
    | .kObjcGC, _ => .ok .kObjcGC

/-- The cpu sub-type is left out: nothing here depends on it. -/
def updateConstraints (s : LinkerState σ) (reader : ReaderPtr) :
    Except LinkError (LinkerState σ) := do
  let constraint ← ld.addObjcConstraint reader s.fCurrentObjCConstraint
  return { s with
    fCurrentObjCConstraint := constraint
    fObjcReplacmentClasses := s.fObjcReplacmentClasses || ld.files.objcReplacementClasses reader }

/-- Only with `-all_load` or `-ObjC` can one list hold atoms of several readers. -/
def scanAll : Bool :=
  ld.fOptions.fFullyLoadArchives || ld.fOptions.fLoadAllObjcObjectsFromArchives

/-- `i` is the atom's position in its list. -/
def noteSupplier (s : LinkerState σ) (a : AtomPtr) (i : Nat) : Except LinkError (LinkerState σ) :=
  let reader := (ld.objs.atom a).getFile
  if (i = 0 ∨ ld.scanAll) ∧ reader ∉ s.fReadersThatHaveSuppliedAtoms then
    ld.updateConstraints { s with
      fReadersThatHaveSuppliedAtoms := s.fReadersThatHaveSuppliedAtoms ++ [reader] } reader
  else .ok s

def addSupplied (s : LinkerState σ) (p : AtomPtr × Nat) : Except LinkError (LinkerState σ) := do
  let s ← ld.noteSupplier s p.1 p.2
  ld.addAtom s p.1

def addAtoms (s : LinkerState σ) (atoms : List AtomPtr) : Except LinkError (LinkerState σ) :=
  atoms.zipIdx.foldlM ld.addSupplied s

end Linker
/-! ## Loading atoms on demand

`addJustInTimeAtoms`, the loops that call it, and the resolver without dead
stripping. -/

def LinkerState.eraseDead {σ : Type} (s : LinkerState σ) : LinkerState σ :=
  { s with fAllAtoms := s.fAllAtoms.filter fun a => a ∉ s.fDeadAtoms }

namespace Linker
variable {σ : Type} (ld : Linker σ)

/-- One reader that `addJustInTimeAtoms` asks for a name. -/
structure Supplier where
  reader : ReaderPtr
  keepsLookingIfWeak : Bool

/-- The readers in the order they are asked. The writer comes first in the
program, and never has an answer. -/
def suppliers (dylibsOnly : Bool) : List Supplier :=
  let isDylibReader (reader : ReaderPtr) : Bool := (ld.files.getInstallPath reader).isSome
  let direct := ld.files.fInputFiles.filter fun reader => !dylibsOnly || isDylibReader reader
  let indirect :=
    if ld.fOptions.nameSpace = .kTwoLevelNameSpace then
      (ld.files.fDylibMap.filter ld.files.implicitlyLinked).map fun reader => ⟨reader, true⟩
    else
      (ld.files.fDylibMap.filter fun reader => !ld.files.explicitlyLinked reader).map
        fun reader => ⟨reader, false⟩
  direct.map (fun reader => ⟨reader, isDylibReader reader⟩) ++ indirect

def isOneExternalWeak (atoms : List AtomPtr) : Bool :=
  match atoms with
  | [a] => (ld.objs.atom a).getDefinitionKind == .kExternalWeakDefinition
  | _ => false

def askSuppliers (name : String) : List Supplier → LinkerState σ →
    Except LinkError (Option (List AtomPtr) × LinkerState σ)
  | [], s => .ok (none, s)
  | supplier :: rest, s =>
    let answer := ld.files.getJustInTimeAtomsFor supplier.reader name s.files
    let s := { s with files := answer.2 }
    match answer.1 with
    | none => askSuppliers name rest s
    | some atoms => do
      let s ← ld.addAtoms s atoms
      -- a weak definition in a dylib: a later reader may have a non-weak one
      if supplier.keepsLookingIfWeak && ld.isOneExternalWeak atoms then
        askSuppliers name rest s
      else .ok (some atoms, s)

def allowsProxy (dylibsOnly : Bool) : Bool :=
  ld.fOptions.outputKind == .kObjectFile ||
  (ld.fOptions.undefinedTreatment != .kUndefinedError && !dylibsOnly) ||
  (ld.fOptions.someAllowedUndefines && !dylibsOnly)

def addProxy (name : String) (s : LinkerState σ) : Except LinkError (LinkerState σ) :=
  let answer := ld.files.getUndefinedProxyAtom name s.files
  let s := { s with files := answer.2 }
  match answer.1 with
  | none => .ok s
  | some proxy => ld.addAtom s proxy

/-- The first component is the list of atoms found, `NULL` for a proxy. -/
def addJustInTimeAtoms (name : String) (dylibsOnly : Bool) (s : LinkerState σ) :
    Except LinkError (Option (List AtomPtr) × LinkerState σ) := do
  let (found, s) ← ld.askSuppliers name (ld.suppliers dylibsOnly) s
  match found with
  | some atoms => return (some atoms, s)
  | none =>
    if ld.allowsProxy dylibsOnly then return (none, ← ld.addProxy name s)
    else return (none, s)

def buildAtomList (s : LinkerState σ) : Except LinkError (LinkerState σ) := do
  let s := ld.fOptions.initialUndefines.foldl LinkerState.require s
  let s ← ld.addAtoms s ld.files.writerAtoms
  let s ← ld.files.fInputFiles.foldlM (fun s reader => ld.addAtoms s (ld.files.getAtoms reader)) s
  ld.files.extraSections.foldlM ld.addAtoms s

def neededNames (s : LinkerState σ) : List String :=
  ld.tableOrder s.fGlobalSymbolTable.getNeededNames

def isWanted (s : LinkerState σ) (name : String) : Bool :=
  match s.find name with
  | none => true
  | some possibleAtom =>
    (ld.objs.atom possibleAtom).getDefinitionKind == .kWeakDefinition &&
    ld.fOptions.outputKind != .kObjectFile && s.getScope possibleAtom == .scopeGlobal

def loadUndefine (s : LinkerState σ) (name : String) : Except LinkError (LinkerState σ) :=
  if ld.isWanted s name then do return (← ld.addJustInTimeAtoms name false s).2 else .ok s

def loadUndefinesLoop : Nat → Nat → LinkerState σ → Except LinkError (LinkerState σ)
  | 0, _, _ => .error .outOfFuel
  | fuel + 1, undefineCount, s =>
    if undefineCount = s.fGlobalSymbolTable.fRequireCount then .ok s
    else do
      let undefineCount := s.fGlobalSymbolTable.fRequireCount
      let s ← (ld.neededNames s).foldlM ld.loadUndefine s
      loadUndefinesLoop fuel undefineCount s

def loadUndefines (s : LinkerState σ) : Except LinkError (LinkerState σ) :=
  ld.loadUndefinesLoop ld.fuel 0xFFFFFFFF s

def exportedObjcClass (name : String) : Bool :=
  ld.fOptions.shouldExport name &&
  (startsWith name ".objc_class_name_" || startsWith name "_OBJC_CLASS_$_" ||
    startsWith name "_OBJC_METACLASS_$_")

def unresolvableUndefines (s : LinkerState σ) : List String :=
  if ld.fOptions.hasExportRestrictList then
    (ld.neededNames s).filter fun name => !ld.exportedObjcClass name
  else ld.neededNames s

/-- A dylib may export the name of a global common symbol. -/
def checkTentative (s : LinkerState σ) (name : String) : Except LinkError (LinkerState σ) :=
  match s.find name with
  | none => .ok s
  | some a =>
    if (ld.objs.atom a).getDefinitionKind = .kTentativeDefinition ∧ s.getScope a = .scopeGlobal then
      match (ld.objs.atom a).getName with
      | none => .ok s
      | some atomName => do return (← ld.addJustInTimeAtoms atomName true s).2
    else .ok s

/-- One pass over the dylibs for a name; the flag says that a weak one was found. -/
def findWeakExport (name : String) : List ReaderPtr → LinkerState σ →
    Except LinkError (Bool × LinkerState σ)
  | [], s => .ok (false, s)
  | reader :: rest, s =>
    if ld.files.hasWeakExternals reader then
      let answer := ld.files.getJustInTimeAtomsFor reader name s.files
      let s := { s with files := answer.2 }
      match answer.1 with
      | none => findWeakExport name rest s
      | some [] => .error (.thrown "vector::_M_range_check")
      | some (a :: _) =>
        if (ld.objs.atom a).getDefinitionKind = .kExternalWeakDefinition then
          let t := s.fGlobalSymbolTable
          let t := { t with fHasExternalWeakDefinitions := true }
          .ok (true, { s with fGlobalSymbolTable := t })
        else findWeakExport name rest s
    else findWeakExport name rest s

/-- Without weak symbols of its own, the output may still override a dylib's. -/
def checkWeakOverrides : List String → LinkerState σ → Except LinkError (LinkerState σ)
  | [], s => .ok s
  | name :: rest, s =>
    match s.find name with
    | none => checkWeakOverrides rest s
    | some a =>
      if (ld.objs.atom a).getDefinitionKind = .kRegularDefinition ∧
          s.getScope a = .scopeGlobal then do
        let (done, s) ← ld.findWeakExport (ld.objs.nameOf a) ld.files.fDylibMap s
        if done then return s else checkWeakOverrides rest s
      else checkWeakOverrides rest s

def tableNames (s : LinkerState σ) : List String :=
  ld.tableOrder s.fGlobalSymbolTable.fTable.keys

def checkTentatives (s : LinkerState σ) : Except LinkError (LinkerState σ) :=
  if s.fGlobalSymbolTable.fHasExternalTentativeDefinitions then
    (ld.tableNames s).foldlM ld.checkTentative s
  else .ok s

def checkUndefines (s : LinkerState σ) : Except LinkError (LinkerState σ) :=
  if ld.unresolvableUndefines s ≠ [] ∧ ld.fOptions.undefinedTreatment = .kUndefinedError then
    .error (.thrown "symbol(s) not found")
  else do
    let s ← ld.checkTentatives s
    if s.fGlobalSymbolTable.fHasExternalWeakDefinitions then return s
    else ld.checkWeakOverrides (ld.tableNames s) s

/-- `resolve` and `resolveFrom`: an undefined name stays unbound. -/
def resolve (s : LinkerState σ) (sl : Slot) : LinkerState σ :=
  match (ld.unboundName s sl).bind s.find with
  | none => s
  | some target => s.bind sl target

def resolveReferences (s : LinkerState σ) : LinkerState σ :=
  s.fAllAtoms.foldl (fun s a => (ld.objs.slots a).foldl ld.resolve s) s

end Linker
end Toolwhip.Ld64
