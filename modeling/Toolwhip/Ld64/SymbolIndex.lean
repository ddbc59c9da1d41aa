import Mathlib.Data.List.Lex
import Toolwhip.Ld64.ObjectFile
import Toolwhip.Ld64.StringPool
import Toolwhip.Lib.SortContract
import Toolwhip.Lib.ThrowingFold

/-! # buildSymbolTable and symbolIndex

The writer fills the symbol table range by range and later recomputes the position of an atom
from its own vectors. `std::sort` may return any result that its contract allows. -/

namespace Toolwhip.Ld64
open Lib.SortContract
set_option autoImplicit false

inductive SymbolTableInclusion where
  | kSymbolTableNotIn
  | kSymbolTableIn
  | kSymbolTableInAndNeverStrip
  | kSymbolTableInAsAbsolute
  deriving DecidableEq, Repr

/-- What the writer asks an atom for; `dtraceProbes` are the offset and the target name of its
references of kind `kDtraceProbe`. -/
structure SymbolAtom where
  getName : Option CString
  getScope : Scope := .scopeGlobal
  getDefinitionKind : DefinitionKind := .kRegularDefinition
  getSymbolTableInclusion : SymbolTableInclusion := .kSymbolTableIn
  isThumb : Bool := false
  getSectionIndex : BitVec 8 := 1
  getSectionName : String := "__text"
  getSectionOffset : Nat := 0
  getAddress : Nat := 0
  getSize : Nat := 0
  alignmentPowerOf2 : Nat := 0
  dtraceProbes : List (Nat × CString) := []

structure Stab where
  atom : Option AtomPtr
  type : BitVec 8
  other : BitVec 8
  desc : BitVec 16
  value : Nat
  string : Option CString

structure Nlist where
  n_strx : Int := 0
  n_type : BitVec 8 := 0
  n_sect : BitVec 8 := 0
  n_desc : BitVec 16 := 0
  n_value : Nat := 0
  deriving DecidableEq

/-- `owner` is not in the program: it is the atom that the entry was filled for. -/
structure SymbolEntry where
  owner : Option AtomPtr := none
  nlist : Nlist := {}
  deriving DecidableEq

inductive SymbolError where
  | outOfBounds
  | thrown (message : String)
  deriving DecidableEq, Repr

/-! ## Constants -/

def N_EXT : BitVec 8 := 0x01
def N_ABS : BitVec 8 := 0x02
def N_SECT : BitVec 8 := 0x0e
def N_PBUD : BitVec 8 := 0x0c
def N_UNDF : BitVec 8 := 0x00
def N_PEXT : BitVec 8 := 0x10

def N_ARM_THUMB_DEF : BitVec 16 := 0x0008
def REFERENCED_DYNAMICALLY : BitVec 16 := 0x0010
def N_WEAK_REF : BitVec 16 := 0x0040
def N_WEAK_DEF : BitVec 16 := 0x0080
def N_REF_TO_WEAK : BitVec 16 := 0x0080
def REFERENCE_FLAG_UNDEFINED_NON_LAZY : BitVec 16 := 0
def REFERENCE_FLAG_UNDEFINED_LAZY : BitVec 16 := 1

def SET_LIBRARY_ORDINAL (n_desc : BitVec 16) (ordinal : BitVec 8) : BitVec 16 :=
  (n_desc &&& 0x00ff) ||| (ordinal.setWidth 16 <<< 8)

def SET_COMM_ALIGN (n_desc : BitVec 16) (align : BitVec 8) : BitVec 16 :=
  (n_desc &&& 0xf0ff) ||| ((align.setWidth 16 &&& 0x0f) <<< 8)

def N_FUN : BitVec 8 := 0x24
def N_STSYM : BitVec 8 := 0x26
def N_LCSYM : BitVec 8 := 0x28
def N_BNSYM : BitVec 8 := 0x2e
def N_SLINE : BitVec 8 := 0x44
def N_ENSYM : BitVec 8 := 0x4e
def N_SO : BitVec 8 := 0x64
def N_BINCL : BitVec 8 := 0x82
def N_SOL : BitVec 8 := 0x84
def N_LBRAC : BitVec 8 := 0xc0
def N_EXCL : BitVec 8 := 0xc2
def N_RBRAC : BitVec 8 := 0xe0

/-- The writer's options, its atoms and its vectors. `wordBits` is the width of an address, and
`renamesCStrings` tells `Writer<x86_64>`, which has a `symbolTableName` of its own. -/
structure SymbolWriter where
  atom : AtomPtr → SymbolAtom
  wordBits : Nat := 64
  renamesCStrings : Bool := false
  outputKind : OutputKind := .kDynamicExecutable
  keepPrivateExterns : Bool := false
  keepLocalSymbol : List UInt8 → Bool := fun _ => true
  prebind : Bool := false
  fMakeTentativeDefinitionsReal : Bool := false
  fForStatic : Bool := false
  hasStub : AtomPtr → Bool := fun _ => false
  ordinalForLibrary : AtomPtr → Except SymbolError (BitVec 8) := fun _ => .ok 1
  fWeakImportMap : AtomPtr → Bool := fun _ => false
  fStabs : List Stab := []
  fLocalSymbolAtoms : List AtomPtr := []
  fLocalExtraLabels : List Nlist := []
  fExportedAtoms : List AtomPtr := []
  fGlobalExtraLabels : List Nlist := []
  fImportedAtoms : List AtomPtr := []

/-- What changes while the table is filled. `counter` is the static one of `symbolTableName`. -/
structure FillState where
  fStringsAtom : StringPool := {}
  counter : Nat := 0
  fAnonNameIndex : Nat := 1000
  fHasWeakExports : Bool := false
  fReferencesWeakImports : Bool := false

namespace FillState
variable (s : FillState)

def add (name : List UInt8) : Except SymbolError (Int × FillState) :=
  match s.fStringsAtom.add name with
  | none => .error .outOfBounds
  | some (offset, pool) => .ok (offset, { s with fStringsAtom := pool })

def addUnique (name : List UInt8) : Except SymbolError (Int × FillState) :=
  match s.fStringsAtom.addUnique name with
  | none => .error .outOfBounds
  | some (offset, pool) => .ok (offset, { s with fStringsAtom := pool })

end FillState

def decimalDigits (n : Nat) : List UInt8 := (Nat.toDigits 10 n).map fun c => c.toNat.toUInt8

def asciiBytes (text : String) : List UInt8 := text.toList.map fun c => c.toNat.toUInt8

namespace SymbolWriter
variable (w : SymbolWriter)

/-! ## One nlist -/

def symbolTableName (a : AtomPtr) (s : FillState) : Except SymbolError (List UInt8 × FillState) :=
  match (w.atom a).getName with
  | none => .error .outOfBounds
  | some name =>
    if w.renamesCStrings ∧ asciiBytes "cstring=" <+: name.chars then
      .ok (asciiBytes "LC" ++ decimalDigits s.counter,
        { s with counter := (s.counter + 1) % 2 ^ 32 })
    else .ok (name.chars, s)

def value (n : Nat) : Nat := n % 2 ^ w.wordBits

/-- `n_value` of a definition. -/
def definedValue (a : AtomPtr) : Nat :=
  if (w.atom a).getDefinitionKind = .kAbsoluteSymbol then w.value (w.atom a).getSectionOffset
  else w.value (w.atom a).getAddress

def exportType (a : AtomPtr) : BitVec 8 :=
  let atom := w.atom a
  let type :=
    if atom.getSymbolTableInclusion = .kSymbolTableInAsAbsolute then N_EXT ||| N_ABS
    else if atom.getScope = .scopeLinkageUnit ∧ w.outputKind = .kObjectFile ∧ w.keepPrivateExterns
    then N_EXT ||| N_SECT ||| N_PEXT
    else N_EXT ||| N_SECT
  -- `__mh_execute_header` is an absolute symbol
  if atom.getSectionIndex = 0 ∧ w.outputKind = .kDynamicExecutable ∧
      atom.getSymbolTableInclusion = .kSymbolTableInAndNeverStrip then N_EXT ||| N_ABS
  else type

def thumbDesc (a : AtomPtr) : BitVec 16 := if (w.atom a).isThumb then N_ARM_THUMB_DEF else 0

def neverStripDesc (a : AtomPtr) : BitVec 16 :=
  if (w.atom a).getSymbolTableInclusion = .kSymbolTableInAndNeverStrip then REFERENCED_DYNAMICALLY
  else 0

def weakDesc (a : AtomPtr) : BitVec 16 :=
  if (w.atom a).getDefinitionKind = .kWeakDefinition then N_WEAK_DEF else 0

def setExportNlist (a : AtomPtr) (s : FillState) : Except SymbolError (Nlist × FillState) := do
  let (name, s) ← w.symbolTableName a s
  let (n_strx, s) ← s.add name
  return (
    { n_strx := n_strx
      n_type := w.exportType a
      n_sect := (w.atom a).getSectionIndex
      n_desc := w.thumbDesc a ||| w.neverStripDesc a ||| w.weakDesc a
      n_value := w.definedValue a },
    { s with
      fHasWeakExports :=
        s.fHasWeakExports || (w.atom a).getDefinitionKind = .kWeakDefinition })

def importType (a : AtomPtr) : BitVec 8 :=
  if w.outputKind = .kObjectFile ∧ (w.atom a).getScope = .scopeLinkageUnit ∧
      (w.atom a).getDefinitionKind = .kTentativeDefinition then N_UNDF ||| N_EXT ||| N_PEXT
  else if w.prebind then N_PBUD ||| N_EXT
  else N_UNDF ||| N_EXT

/-- The part of `n_desc` that depends on the kind of output. -/
def importDesc (a : AtomPtr) (name : List UInt8) : Except SymbolError (BitVec 16) :=
  if w.outputKind ≠ .kObjectFile then do
    let ordinal ← w.ordinalForLibrary a
    let desc :=
      if w.hasStub a ∨ asciiBytes ".objc_class_name_" <+: name then REFERENCE_FLAG_UNDEFINED_LAZY
      else REFERENCE_FLAG_UNDEFINED_NON_LAZY
    return SET_LIBRARY_ORDINAL desc ordinal
  else if (w.atom a).getDefinitionKind = .kTentativeDefinition then
    .ok (SET_COMM_ALIGN 0 (BitVec.ofNat 8 (w.atom a).alignmentPowerOf2))
  else .ok 0

def refersToWeak (a : AtomPtr) : Bool :=
  w.outputKind ≠ .kObjectFile ∧ (w.atom a).getDefinitionKind = .kExternalWeakDefinition

def setImportNlist (a : AtomPtr) (s : FillState) : Except SymbolError (Nlist × FillState) :=
  match (w.atom a).getName with
  | none => .error .outOfBounds
  | some name => do
    let (n_strx, s) ← s.add name.chars
    let desc ← w.importDesc a name.chars
    let weak := if w.refersToWeak a then N_REF_TO_WEAK else 0
    let weakImport := if w.fWeakImportMap a then N_WEAK_REF else 0
    return (
      { n_strx := n_strx
        n_type := w.importType a
        n_sect := 0
        n_desc := desc ||| w.thumbDesc a ||| w.neverStripDesc a ||| weak ||| weakImport
        n_value := w.value (w.atom a).getSize },
      { s with fReferencesWeakImports := s.fReferencesWeakImports || w.refersToWeak a })

def localName (name : List UInt8) (s : FillState) : List UInt8 × FillState :=
  if w.outputKind = .kObjectFile ∧ w.keepLocalSymbol name = false then
    (asciiBytes "l" ++ decimalDigits s.fAnonNameIndex,
      { s with fAnonNameIndex := (s.fAnonNameIndex + 1) % 2 ^ 32 })
  else (name, s)

def setLocalNlist (a : AtomPtr) (s : FillState) : Except SymbolError (Nlist × FillState) := do
  let atom := w.atom a
  let (name, s) ← w.symbolTableName a s
  let (name, s) := w.localName name s
  let (n_strx, s) ← s.add name
  let type := if atom.getDefinitionKind = .kAbsoluteSymbol then N_ABS else N_SECT
  let pext := if atom.getScope = .scopeLinkageUnit then N_PEXT else 0
  return (
    { n_strx := n_strx
      n_type := type ||| pext
      n_sect :=
        if atom.getSectionIndex = 0 ∧ atom.getSectionName = "._mach_header" then 1
        else atom.getSectionIndex
      n_desc := w.weakDesc a ||| w.thumbDesc a
      n_value := w.definedValue a }, s)

/-- `addLocalLabel` and `addGlobalLabel`, which differ in the type. -/
def label (type : BitVec 8) (a : AtomPtr) (offsetInAtom : Nat) (name : CString) (s : FillState) :
    Except SymbolError (Nlist × FillState) := do
  let (n_strx, s) ← s.add name.chars
  return (
    { n_strx := n_strx
      n_type := type
      n_sect := (w.atom a).getSectionIndex
      n_value := w.value ((w.atom a).getAddress + offsetInAtom) }, s)

def addLocalLabel := w.label N_SECT

def addGlobalLabel := w.label (N_SECT ||| N_EXT)

def stabAtom (stab : Stab) : Except SymbolError SymbolAtom :=
  match stab.atom with
  | none => .error .outOfBounds
  | some a => .ok (w.atom a)

def isEmptyString (string : Option CString) : Bool :=
  match string with
  | none => true
  | some name => name.chars.isEmpty

def valueForStab (stab : Stab) : Except SymbolError Nat :=
  if stab.type = N_FUN then
    if isEmptyString stab.string then (w.stabAtom stab).map SymbolAtom.getSize
    else (w.stabAtom stab).map SymbolAtom.getAddress
  else if stab.type = N_LBRAC ∨ stab.type = N_RBRAC ∨ stab.type = N_SLINE then
    match stab.atom with
    | none => .ok stab.value
    | some a => .ok ((w.atom a).getAddress + stab.value)
  else if stab.type = N_STSYM ∨ stab.type = N_LCSYM ∨ stab.type = N_BNSYM then
    (w.stabAtom stab).map SymbolAtom.getAddress
  else if stab.type = N_ENSYM then (w.stabAtom stab).map SymbolAtom.getSize
  else if stab.type = N_SO then
    match stab.atom with
    | none => .ok 0
    | some a =>
      if isEmptyString stab.string then .ok ((w.atom a).getAddress + (w.atom a).getSize)
      else .ok (w.atom a).getAddress
  else .ok stab.value

def emptyString : Int := 1

def stringOffsetForStab (stab : Stab) (s : FillState) : Except SymbolError (Int × FillState) :=
  if stab.type = N_SO ∧ isEmptyString stab.string then .ok (emptyString, s)
  else if stab.type = N_SO ∨ stab.type = N_SOL ∨ stab.type = N_BINCL ∨ stab.type = N_EXCL then
    match stab.string with
    | none => .error .outOfBounds
    | some name => s.addUnique name.chars
  else
    match stab.string with
    | none => .ok (0, s)
    | some name => if name.chars = [] then .ok (emptyString, s) else s.add name.chars

def sectionIndexForStab (stab : Stab) : BitVec 8 :=
  if stab.type = N_FUN then stab.other
  else
    match stab.atom with
    | none => stab.other
    | some a => (w.atom a).getSectionIndex

def stabNlist (stab : Stab) (s : FillState) : Except SymbolError (Nlist × FillState) := do
  let n_value ← w.valueForStab stab
  let (n_strx, s) ← stringOffsetForStab stab s
  return (
    { n_strx := n_strx
      n_type := stab.type
      n_sect := w.sectionIndexForStab stab
      n_desc := stab.desc
      n_value := w.value n_value }, s)

/-! ## The table -/

abbrev Table := List SymbolEntry

def fSymbolTableStabsStartIndex : Nat := 0
def fSymbolTableStabsCount : Nat := w.fStabs.length
def fSymbolTableLocalStartIndex : Nat := fSymbolTableStabsStartIndex + w.fSymbolTableStabsCount
def fSymbolTableLocalCount : Nat := w.fLocalSymbolAtoms.length + w.fLocalExtraLabels.length
def fSymbolTableExportStartIndex : Nat := w.fSymbolTableLocalStartIndex + w.fSymbolTableLocalCount
def fSymbolTableExportCount : Nat := w.fExportedAtoms.length + w.fGlobalExtraLabels.length
def fSymbolTableImportStartIndex : Nat := w.fSymbolTableExportStartIndex + w.fSymbolTableExportCount
def fSymbolTableImportCount : Nat := w.fImportedAtoms.length

def fSymbolTableCount : Nat :=
  w.fSymbolTableStabsCount + w.fSymbolTableLocalCount + w.fSymbolTableExportCount +
    w.fSymbolTableImportCount

/-- The entries of a range, filled one after the other. -/
def fillRange {α : Type} (owner : α → Option AtomPtr)
    (fill : α → FillState → Except SymbolError (Nlist × FillState)) :
    List α → Nat → Table → FillState → Except SymbolError (Table × FillState)
  | [], _, table, s => .ok (table, s)
  | x :: rest, i, table, s => do
    let (nlist, s) ← fill x s
    fillRange owner fill rest (i + 1) (table.set i { owner := owner x, nlist := nlist }) s

def setNlistRange (fill : AtomPtr → FillState → Except SymbolError (Nlist × FillState)) :=
  fillRange some fill

def copyNlistRange : List Nlist → Nat → Table → Table
  | [], _, table => table
  | nlist :: rest, i, table => copyNlistRange rest (i + 1) (table.set i { nlist := nlist })

def addStabs := fillRange (fun _ : Stab => none) w.stabNlist

def fillDefined (s : FillState) : Except SymbolError (Table × FillState) := do
  let table := List.replicate w.fSymbolTableCount {}
  let (table, s) ←
    setNlistRange w.setLocalNlist w.fLocalSymbolAtoms w.fSymbolTableLocalStartIndex table s
  let table := copyNlistRange w.fLocalExtraLabels
    (w.fSymbolTableLocalStartIndex + w.fLocalSymbolAtoms.length) table
  let (table, s) ←
    setNlistRange w.setExportNlist w.fExportedAtoms w.fSymbolTableExportStartIndex table s
  let table := copyNlistRange w.fGlobalExtraLabels
    (w.fSymbolTableExportStartIndex + w.fExportedAtoms.length) table
  return (table, s)

def fillUndefined (table : Table) (s : FillState) : Except SymbolError (Table × FillState) := do
  let (table, s) ←
    setNlistRange w.setImportNlist w.fImportedAtoms w.fSymbolTableImportStartIndex table s
  w.addStabs w.fStabs fSymbolTableStabsStartIndex table s

def nameIn (pool : StringPool) (entry : SymbolEntry) : List UInt8 :=
  (pool.stringForIndex entry.nlist.n_strx).getD []

/-- `strcmp` orders by the values of the bytes. -/
def nameKey (pool : StringPool) (entry : SymbolEntry) : List Nat :=
  (nameIn pool entry).map UInt8.toNat

/-- `NListNameSorter` -/
def nListNameSorter (pool : StringPool) (left right : SymbolEntry) : Bool :=
  nameKey pool left < nameKey pool right

def exportRange (table : Table) : List SymbolEntry :=
  (table.drop w.fSymbolTableExportStartIndex).take w.fSymbolTableExportCount

def Comparable (pool : StringPool) (entries : List SymbolEntry) : Prop :=
  1 < entries.length → ∀ entry ∈ entries, (pool.stringForIndex entry.nlist.n_strx).isSome

/-- The range of the exports is sorted again when there are labels in it. -/
inductive SortsExports (pool : StringPool) (table : Table) : Table → Prop
  | noLabels (h : w.fGlobalExtraLabels = []) : SortsExports pool table table
  | sorts (h : w.fGlobalExtraLabels ≠ []) (sorted : List SymbolEntry)
      (hread : Comparable pool (w.exportRange table))
      (hsort : Sorted (nListNameSorter pool) (w.exportRange table) sorted) :
      SortsExports pool table (table.take w.fSymbolTableExportStartIndex ++ sorted ++
        table.drop (w.fSymbolTableExportStartIndex + w.fSymbolTableExportCount))

/-- The tables that `buildSymbolTable` may leave in `fSymbolTable`. -/
def BuildSymbolTable (s : FillState) (table : Table) : Prop :=
  ∃ filled s₁ sorted s₂, w.fillDefined s = .ok (filled, s₁) ∧
    w.SortsExports s₁.fStringsAtom filled sorted ∧ w.fillUndefined sorted s₁ = .ok (table, s₂)

/-- A throw when the atom is in no vector. -/
def symbolIndex (a : AtomPtr) : Option Nat :=
  if a ∈ w.fImportedAtoms then some (w.fImportedAtoms.idxOf a + w.fSymbolTableImportStartIndex)
  else if a ∈ w.fLocalSymbolAtoms then
    some (w.fLocalSymbolAtoms.idxOf a + w.fSymbolTableLocalStartIndex)
  else if a ∈ w.fExportedAtoms then
    some (w.fExportedAtoms.idxOf a + w.fSymbolTableExportStartIndex)
  else none

end SymbolWriter
end Toolwhip.Ld64
