import Toolwhip.Lib.Layout
import Toolwhip.Ld64.ObjectFile

/-! # partitionIntoSections

The sorted atoms are cut into sections, and the sections into segments. The section an atom comes with
is one of the linker; the one it is put into is one of the writer. -/

namespace Toolwhip.Ld64.Sections
open Lib.AlignUp
set_option autoImplicit false

def VM_PROT_READ : Nat := 1
def VM_PROT_WRITE : Nat := 2
def VM_PROT_EXECUTE : Nat := 4

structure Segment where
  getName : String
  isContentReadable : Bool := true
  isContentWritable : Bool := false
  isContentExecutable : Bool := false
  getBaseAddress : UInt64 := 0
  hasFixedAddress : Bool := false
  /-- It is `Segment::fgStackSegment`. -/
  isStackSegment : Bool := false
  deriving DecidableEq

/-- `1 << powerOf2` is defined for the powers that an `int` can be shifted by. -/
structure Atom where
  getSection : Option Nat
  getSectionName : String
  getSegment : Segment
  isZeroFill : Bool := false
  powerOf2 : Fin 31 := 0
  modulus : UInt16 := 0
  getSize : UInt64
  deriving DecidableEq

structure SectionInfo where
  fAtoms : List (Atom × UInt64) := []
  fSegmentName : String
  fSectionName : String
  fSize : UInt64 := 0
  fAlignment : Nat
  fAllLazyPointers : Bool := false
  fAllLazyDylibPointers : Bool := false
  fAllNonLazyPointers : Bool := false
  fAllStubs : Bool := false
  fAllSelfModifyingStubs : Bool := false
  fAllZeroFill : Bool
  fVirtualSection : Bool
  fIndex : Option Nat := none

structure SegmentInfo where
  fName : String := ""
  fInitProtection : Nat
  fMaxProtection : Nat
  fBaseAddress : UInt64 := 0
  fFixedAddress : Bool := false
  fIndependentAddress : Bool := false

structure SegmentProtect where
  name : String
  max : Nat
  init : Nat

structure SectionAlignment where
  segmentName : String
  sectionName : String
  alignment : UInt8

structure SectionOptions where
  outputKind : OutputKind := .kDynamicExecutable
  readOnlyx86Stubs : Bool := false
  isArm : Bool := false
  customSegmentProtections : List SegmentProtect := []
  sectionAlignments : List SectionAlignment := []
  fEmitVirtualSections : Bool := false
  is64 : Bool := false

namespace SectionOptions
variable (o : SectionOptions)

def oneSegmentCommand : Bool := o.outputKind == .kObjectFile

/-- `__builtin_ctz(sizeof(pint_t))` -/
def pointerAlignment : Nat := if o.is64 then 3 else 2

end SectionOptions

/-- The writer, and the local variables of the loop. Segments and sections are in the order in which
they were made; the current ones are the last ones, and a section is kept with the number of its
segment. -/
structure Partition where
  fSegmentInfos : List SegmentInfo := []
  doneSections : List (Nat × SectionInfo) := []
  currentSectionInfo : Option (Nat × SectionInfo) := none
  curSection : Option Nat := none
  sectionIndex : Nat := 1
  cstringSectionInfo : Option Nat := none
  fLoadCommandsSection : Option Nat := none
  needDynamicTable : Bool := false
  fLargestAtomSize : UInt32 := 1

section Start
variable (o : SectionOptions)

def segmentProtection (segment : Segment) : Nat :=
  let initprot := (if segment.isContentReadable then VM_PROT_READ else 0) +
    (if segment.isContentWritable then VM_PROT_WRITE else 0) +
    (if segment.isContentExecutable then VM_PROT_EXECUTE else 0)
  if o.readOnlyx86Stubs && segment.getName == "__IMPORT" && segment.isContentWritable then
    initprot - VM_PROT_WRITE
  else initprot

def maxProtection (initprot : Nat) : Nat :=
  if initprot == 0 then 0
  else if o.isArm then initprot
  else VM_PROT_READ + VM_PROT_WRITE + VM_PROT_EXECUTE

def customProtection (info : SegmentInfo) (custom : SegmentProtect) : SegmentInfo :=
  if custom.name == info.fName then
    { info with fInitProtection := custom.init, fMaxProtection := custom.max }
  else info

def newSegmentInfo (atom : Atom) : SegmentInfo :=
  let initprot := segmentProtection o atom.getSegment
  let info := o.customSegmentProtections.foldl customProtection
    { fName := atom.getSegment.getName, fInitProtection := initprot
      fMaxProtection := maxProtection o initprot }
  { info with
    fBaseAddress := atom.getSegment.getBaseAddress
    fFixedAddress := atom.getSegment.hasFixedAddress
    fIndependentAddress := atom.getSegment.hasFixedAddress && atom.getSegment.isStackSegment }

def objectFileSegment : SegmentInfo where
  fInitProtection := VM_PROT_READ + VM_PROT_WRITE + VM_PROT_EXECUTE
  fMaxProtection := VM_PROT_READ + VM_PROT_WRITE + VM_PROT_EXECUTE

def segmentsFor (atom : Atom) (segments : List SegmentInfo) : List SegmentInfo :=
  if o.oneSegmentCommand then if segments = [] then [objectFileSegment] else segments
  else match segments.getLast? with
    | none => segments ++ [newSegmentInfo o atom]
    | some current =>
      if current.fName == atom.getSegment.getName then segments
      else segments ++ [newSegmentInfo o atom]

def isNamed (segmentName sectionName : String) (info : SectionInfo) : Bool :=
  info.fSegmentName == segmentName && info.fSectionName == sectionName

/-- `-sectalign`, which an object file has no use for. -/
def overriddenAlignment (atom : Atom) : Nat :=
  if o.oneSegmentCommand then atom.powerOf2
  else o.sectionAlignments.foldl (fun alignment override =>
    if override.segmentName == atom.getSegment.getName &&
        override.sectionName == atom.getSectionName then override.alignment.toNat
    else alignment) atom.powerOf2

def isVirtual (sectionName : String) : Bool := sectionName.toList.head? == some '.'

def nonLazyPointersNamed (info : SectionInfo) : Bool :=
  isNamed "__DATA" "__nl_symbol_ptr" info || isNamed "__IMPORT" "__pointers" info ||
    (o.outputKind == .kDyld && isNamed "__DATA" "__pointers" info)

def stubsNamed (info : SectionInfo) : Bool :=
  ["__picsymbolstub1", "__symbol_stub1", "__picsymbolstub2", "__symbol_stub", "__picsymbolstub4",
    "__symbol_stub4"].any fun name => isNamed "__TEXT" name info

def forcedAlignment (info : SectionInfo) : Nat :=
  if isNamed "__TEXT" "__eh_frame" info then o.pointerAlignment
  else if isNamed "__IMPORT" "__jump_table" info then 6
  else info.fAlignment

def newSectionInfo (atom : Atom) (sectionIndex : Nat) : SectionInfo :=
  let info : SectionInfo :=
    { fSegmentName := atom.getSegment.getName, fSectionName := atom.getSectionName
      fAlignment := overriddenAlignment o atom, fAllZeroFill := atom.isZeroFill
      fVirtualSection := isVirtual atom.getSectionName
      fIndex := if isVirtual atom.getSectionName && !o.fEmitVirtualSections then none
        else some sectionIndex }
  { info with
    fAllLazyPointers :=
      isNamed "__DATA" "__la_symbol_ptr" info || isNamed "__DATA" "__la_sym_ptr2" info
    fAllLazyDylibPointers := isNamed "__DATA" "__ld_symbol_ptr" info
    fAllNonLazyPointers := nonLazyPointersNamed o info
    fAllStubs := stubsNamed info
    fAllSelfModifyingStubs := isNamed "__IMPORT" "__jump_table" info
    fAlignment := forcedAlignment o info }

def needsDynamicTable (info : SectionInfo) : Bool :=
  info.fAllNonLazyPointers || info.fAllLazyPointers || info.fAllLazyDylibPointers ||
    info.fAllStubs || info.fAllSelfModifyingStubs

def Partition.sections (p : Partition) : List (Nat × SectionInfo) :=
  p.doneSections ++ p.currentSectionInfo.toList

def startSection (p : Partition) (atom : Atom) : Partition :=
  let info := newSectionInfo o atom p.sectionIndex
  let segments := segmentsFor o atom p.fSegmentInfos
  let place := p.sections.length
  { p with
    fSegmentInfos := segments
    doneSections := p.sections
    currentSectionInfo := some (segments.length - 1, info)
    curSection := atom.getSection
    sectionIndex := if info.fIndex.isSome then p.sectionIndex + 1 else p.sectionIndex
    cstringSectionInfo :=
      if o.oneSegmentCommand && isNamed "__TEXT" "__cstring" info then some place
      else p.cstringSectionInfo
    fLoadCommandsSection :=
      if isNamed "__TEXT" "._load_commands" info then some place else p.fLoadCommandsSection
    needDynamicTable := p.needDynamicTable || needsDynamicTable info }

/-- The first offset from the end of the section on that has the modulus. -/
def nextOffset (offset alignment requiredModulus : UInt64) : UInt64 :=
  let currentModulus := offset % alignment
  if currentModulus ≠ requiredModulus then
    if currentModulus < requiredModulus then offset + (requiredModulus - currentModulus)
    else offset + (requiredModulus + alignment - currentModulus)
  else offset

def Atom.alignment (atom : Atom) : UInt64 := UInt64.ofNat (2 ^ atom.powerOf2.val)

def atomOffset (info : SectionInfo) (atom : Atom) : UInt64 :=
  nextOffset info.fSize atom.alignment atom.modulus.toUInt64

def addAtom (info : SectionInfo) (atom : Atom) : SectionInfo :=
  { info with
    fAllZeroFill := info.fAllZeroFill && atom.isZeroFill
    fAlignment := if info.fAlignment < atom.powerOf2 then atom.powerOf2 else info.fAlignment
    fSize := atomOffset info atom + atom.getSize
    fAtoms := info.fAtoms ++ [(atom, atomOffset info atom)] }

/-- `none` where the name of a section is read and there is none yet. -/
def startsSection (p : Partition) (atom : Atom) : Option Bool :=
  if atom.getSection ≠ p.curSection then some true
  else if p.curSection.isNone then
    p.currentSectionInfo.map fun current => atom.getSectionName != current.2.fSectionName
  else some false

def putAtom (p : Partition) (atom : Atom) : Option Partition :=
  p.currentSectionInfo.map fun current =>
    let info := addAtom current.2 atom
    { p with
      currentSectionInfo := some (current.1, info)
      fLargestAtomSize :=
        if !info.fAllZeroFill && p.fLargestAtomSize.toUInt64 < atom.getSize then
          atom.getSize.toUInt32
        else p.fLargestAtomSize }

def partitionAtom (p : Partition) (atom : Atom) : Option Partition := do
  let starts ← startsSection p atom
  putAtom (if starts then startSection o p atom else p) atom

def relayAtoms (alignment : UInt64) : UInt64 → List (Atom × UInt64) → List (Atom × UInt64)
  | _, [] => []
  | offset, (atom, _) :: atoms =>
    (atom, alignUp64 offset alignment) ::
      relayAtoms alignment (alignUp64 offset alignment + atom.getSize) atoms

def relayEnd (alignment : UInt64) (offset : UInt64) (atoms : List (Atom × UInt64)) : UInt64 :=
  atoms.foldl (fun offset atom => alignUp64 offset alignment + atom.1.getSize) offset

def relaySection (info : SectionInfo) : SectionInfo :=
  let cstringAlignment := UInt64.ofNat (2 ^ info.fAlignment)
  if 0 < info.fAlignment then
    { info with
      fAtoms := relayAtoms cstringAlignment 0 info.fAtoms
      fSize := relayEnd cstringAlignment 0 info.fAtoms }
  else info

def relaySections (p : Partition) : List (Nat × SectionInfo) :=
  match p.cstringSectionInfo with
  | none => p.sections
  | some place => p.sections.modify place fun current => (current.1, relaySection current.2)

structure Partitioned where
  fSegmentInfos : List SegmentInfo
  sections : List (Nat × SectionInfo)
  cstringSectionInfo : Option Nat
  fLoadCommandsSection : Option Nat
  needDynamicTable : Bool
  fLargestAtomSize : UInt32

def partitionIntoSections (atoms : List Atom) : Option Partitioned := do
  let p ← atoms.foldlM (partitionAtom o) {}
  return { fSegmentInfos := p.fSegmentInfos, sections := relaySections p
           cstringSectionInfo := p.cstringSectionInfo
           fLoadCommandsSection := p.fLoadCommandsSection
           needDynamicTable := p.needDynamicTable, fLargestAtomSize := p.fLargestAtomSize }

end Start
end Toolwhip.Ld64.Sections
