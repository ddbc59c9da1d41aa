import Mathlib.Data.Finmap

/-! # Atoms and references of ObjectFile.h

The static side of the linker's object graph. A pointer to an atom is its
address, so a `std::set<Atom*>` is iterated in the order of `Nat`. What the
linker changes (scopes, bindings) lives in its own state. -/

namespace Toolwhip.Ld64
set_option autoImplicit false

abbrev AtomPtr := Nat
abbrev ReaderPtr := Nat

inductive Scope where
  | scopeTranslationUnit
  | scopeLinkageUnit
  | scopeGlobal
  deriving DecidableEq, Repr

inductive DefinitionKind where
  | kRegularDefinition
  | kWeakDefinition
  | kTentativeDefinition
  | kExternalDefinition
  | kExternalWeakDefinition
  | kAbsoluteSymbol
  deriving DecidableEq, Repr

inductive TargetBinding where
  | kUnboundByName
  | kBoundDirectly
  | kBoundByName
  | kDontBind
  deriving DecidableEq, Repr

structure Alignment where
  powerOf2 : Nat
  modulus : Nat := 0
  deriving DecidableEq, Repr

/-- `__builtin_ctz`, for a non-zero argument below `2 ^ fuel`. -/
def builtinCtz : Nat → Nat → Nat
  | 0, _ => 0
  | fuel + 1, n => if n % 2 = 1 then 0 else builtinCtz fuel (n / 2) + 1

def Alignment.trailingZeros (a : Alignment) : Nat :=
  if a.modulus = 0 then a.powerOf2 % 2 ^ 8 else builtinCtz 16 a.modulus

structure Segment where
  getName : String
  isContentReadable : Bool
  deriving DecidableEq, Repr

def kFollowOn : Nat := 1
def kGroupSubordinate : Nat := 2

/-- A reference as its reader made it; the names are fixed, the atoms are the
initial bindings. A side with a name is left for the linker to bind; one that its
reader bound to the atom itself has only the atom. `isDtrace` stands for the four
kinds that are never bound. -/
structure Reference where
  getKind : Nat
  getFixUpOffset : Nat := 0
  isDtrace : Bool := false
  fToTargetName : Option String := none
  fToTarget : Option AtomPtr := none
  fFromTargetName : Option String := none
  fFromTarget : Option AtomPtr := none
  hasTarget : fToTargetName.isSome ∨ fToTarget.isSome := by decide
  toByName : fToTargetName = none ∨ fToTarget = none := by decide
  fromByName : fFromTargetName = none ∨ fFromTarget = none := by decide
  deriving DecidableEq

structure Atom where
  getFile : ReaderPtr := 0
  getName : Option String
  getScope : Scope
  getDefinitionKind : DefinitionKind
  dontDeadStrip : Bool := false
  isZeroFill : Bool := false
  getSize : Nat := 0
  getReferences : List Reference := []
  getSectionName : Option String := some "__text"
  getSegment : Segment := ⟨"__TEXT", true⟩
  getOrdinal : Nat := 0
  getAlignment : Alignment := ⟨0, 0⟩
  deriving DecidableEq

/-- Everything a pointer can be dereferenced to. -/
structure Objects where
  atom : AtomPtr → Atom
  getPath : ReaderPtr → String := fun _ => ""

/-- A name is only read where it is known not to be `NULL`. -/
def Objects.nameOf (objs : Objects) (a : AtomPtr) : String :=
  (objs.atom a).getName.getD ""

theorem Objects.nameOf_eq {objs : Objects} {a : AtomPtr} {name : String}
    (h : (objs.atom a).getName = some name) : objs.nameOf a = name := by
  simp only [Objects.nameOf, h, Option.getD_some]

def Objects.pathOf (objs : Objects) (a : AtomPtr) : String :=
  objs.getPath (objs.atom a).getFile

/-- A link ends early by a `throw` or, in the model only, by lack of fuel. -/
inductive LinkError where
  | outOfFuel
  | thrown (message : String)
  deriving DecidableEq, Repr

/-! ## Options.h

The enumerations, and the options the resolver reads. -/

inductive OutputKind where
  | kDynamicExecutable
  | kStaticExecutable
  | kDynamicLibrary
  | kDynamicBundle
  | kObjectFile
  | kDyld
  deriving DecidableEq, Repr

inductive NameSpace where
  | kTwoLevelNameSpace
  | kFlatNameSpace
  | kForceFlatNameSpace
  deriving DecidableEq, Repr

inductive CommonsMode where
  | kCommonsIgnoreDylibs
  | kCommonsOverriddenByDylibs
  | kCommonsConflictsDylibsError
  deriving DecidableEq, Repr

inductive UndefinedTreatment where
  | kUndefinedError
  | kUndefinedWarning
  | kUndefinedSuppress
  | kUndefinedDynamicLookup
  deriving DecidableEq, Repr

inductive DeadStripMode where
  | kDeadStripOff
  | kDeadStripOn
  | kDeadStripOnPlusUnusedInits
  deriving DecidableEq, Repr

inductive ExportMode where
  | kExportDefault
  | kExportSome
  | kDontExportSome
  deriving DecidableEq, Repr

/-- The answers of a `SetWithWildcards`. -/
structure SymbolSet where
  contains : String → Bool := fun _ => false
  hasWildCards : Bool := false

/-- `-dead_strip` and `-r` are refused together when the command line is read. -/
structure Options where
  outputKind : OutputKind := .kDynamicExecutable
  nameSpace : NameSpace := .kTwoLevelNameSpace
  deadStrip : DeadStripMode := .kDeadStripOff
  commonsMode : CommonsMode := .kCommonsIgnoreDylibs
  undefinedTreatment : UndefinedTreatment := .kUndefinedError
  someAllowedUndefines : Bool := false
  entryName : String := "start"
  initialUndefines : List String := []
  usingLazyDylibLinking : Bool := false
  fExportMode : ExportMode := .kExportDefault
  fExportSymbols : SymbolSet := {}
  fDontExportSymbols : SymbolSet := {}
  fFullyLoadArchives : Bool := false
  fLoadAllObjcObjectsFromArchives : Bool := false
  dTrace : Bool := false
  notRelocatable : deadStrip ≠ .kDeadStripOff → outputKind ≠ .kObjectFile := by decide

namespace Options

def hasExportRestrictList (o : Options) : Bool :=
  o.fExportMode != .kExportDefault

def hasWildCardExportRestrictList (o : Options) : Bool :=
  o.fExportMode == .kExportSome && o.fExportSymbols.hasWildCards

def allGlobalsAreDeadStripRoots (o : Options) : Bool :=
  if o.fExportMode = .kExportSome then false
  else match o.outputKind with
    | .kDynamicExecutable | .kStaticExecutable => false
    | .kDynamicLibrary | .kDynamicBundle | .kObjectFile | .kDyld => true

def shouldExport (o : Options) (symbolName : String) : Bool :=
  match o.fExportMode with
  | .kExportSome => o.fExportSymbols.contains symbolName
  | .kDontExportSome => !o.fDontExportSymbols.contains symbolName
  | .kExportDefault => true

end Options
end Toolwhip.Ld64
