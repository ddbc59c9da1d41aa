import Toolwhip.Ld64.Relocation

/-! # i386: Writer<x86> and Reader<x86> -/

namespace Toolwhip.Ld64.Reloc.X86
set_option autoImplicit false

inductive ReferenceKinds where
  | kNoFixUp
  | kFollowOn
  | kGroupSubordinate
  | kPointer
  | kPointerWeakImport
  | kPointerDiff
  | kPointerDiff16
  | kPCRel32
  | kPCRel32WeakImport
  | kAbsolute32
  | kPCRel16
  | kPCRel8
  | kDtraceProbe
  | kDtraceProbeSite
  | kDtraceIsEnabledSite
  | kDtraceTypeReference
  deriving DecidableEq, Repr

def GENERIC_RELOC_VANILLA : BitVec 4 := 0
def GENERIC_RELOC_PAIR : BitVec 4 := 1
def GENERIC_RELOC_SECTDIFF : BitVec 4 := 2
def GENERIC_RELOC_LOCAL_SECTDIFF : BitVec 4 := 4

abbrev Ref := BoundReference ReferenceKinds

section Writer
variable (w : Writer)

/-- The entry of a pointer or of a pc-relative reference: scattered where the target is
local and the target offset is not zero. -/
def vanillaReloc (atom : Atom) (ref : Ref) (num : BitVec 32) (pcrel : Bool) (length : BitVec 2) :
    Except WriteError (List RelocWords) :=
  if !w.makesExternalRelocatableReference ref.getTarget && ref.getTargetOffset != 0 then
    (scatteredInfo (Writer.relocAddress atom ref) pcrel length GENERIC_RELOC_VANILLA
      ref.getTarget.address32).map fun sreloc1 => [sreloc1]
  else
    .ok [relocationInfo (Writer.relocAddress atom ref) num pcrel length
      (w.makesExternalRelocatableReference ref.getTarget) GENERIC_RELOC_VANILLA]

def diffRelocs (atom : Atom) (ref : Ref) (length : BitVec 2) :
    Except WriteError (List RelocWords) := do
  let sreloc1 ← scatteredInfo (Writer.relocAddress atom ref) false length
    (if ref.getTarget.getScope = .scopeTranslationUnit then GENERIC_RELOC_LOCAL_SECTDIFF
      else GENERIC_RELOC_SECTDIFF) ref.getTarget.address32
  let sreloc2 ← scatteredInfo 0 false length GENERIC_RELOC_PAIR
    ((ref.getFromTarget.getAddress + ref.getFromTargetOffset).setWidth 32)
  .ok [sreloc1, sreloc2]

/-- The entries in the order in which they end up in the file. -/
def addObjectRelocs (atom : Atom) (ref : Ref) : Except WriteError (List RelocWords) := do
  let num ← w.symbolnum (w.makesExternalRelocatableReference ref.getTarget) ref.getTarget
  match ref.getKind with
  | .kNoFixUp | .kFollowOn | .kGroupSubordinate => .ok []
  | .kPointer | .kPointerWeakImport | .kAbsolute32 => vanillaReloc w atom ref num false 2
  | .kPointerDiff16 => diffRelocs atom ref 1
  | .kPointerDiff => diffRelocs atom ref 2
  | .kPCRel8 => vanillaReloc w atom ref num true 0
  | .kPCRel16 => vanillaReloc w atom ref num true 1
  | .kPCRel32WeakImport | .kPCRel32 | .kDtraceProbeSite | .kDtraceIsEnabledSite =>
    vanillaReloc w atom ref num true 2
  | .kDtraceTypeReference | .kDtraceProbe => .ok []

def targetAddress (ref : Ref) : BitVec 64 := ref.getTarget.getAddress + ref.getTargetOffset

def pointerDisplacement (ref : Ref) : BitVec 64 :=
  targetAddress ref - (ref.getFromTarget.getAddress + ref.getFromTargetOffset)

def pcrelDisplacement (ref : Ref) (inAtom : Atom) : BitVec 64 :=
  (if w.makesExternalRelocatableReference ref.getTarget then ref.getTargetOffset
    else targetAddress ref) - (inAtom.getAddress + ref.getFixUpOffset + 4)

def pointerContent (ref : Ref) (inAtom : Atom) : BitVec 64 :=
  if w.makesExternalRelocatableReference ref.getTarget then ref.getTargetOffset
  else if inAtom.fAllNonLazyPointers then
    if w.indirectSymbolIsLocal ref then targetAddress ref else 0
  else if ref.getTarget.getDefinitionKind ≠ .kTentativeDefinition then targetAddress ref
  else ref.getTargetOffset

def set8 (content : BitVec 32) (value : BitVec 8) : BitVec 32 := content.extractLsb' 8 24 ++ value
def set16 (content : BitVec 32) (value : BitVec 16) : BitVec 32 :=
  content.extractLsb' 16 16 ++ value

/-- `content` is the word at the fix-up. -/
def fixUpReferenceRelocatable (ref : Ref) (inAtom : Atom) (content : BitVec 32) :
    Except WriteError (BitVec 32) :=
  match ref.getKind with
  | .kNoFixUp | .kFollowOn | .kGroupSubordinate => .ok content
  | .kPointer | .kPointerWeakImport | .kAbsolute32 =>
    .ok ((pointerContent w ref inAtom).setWidth 32)
  | .kPointerDiff => .ok ((pointerDisplacement ref).setWidth 32)
  | .kPointerDiff16 =>
    let displacement := pointerDisplacement ref
    if outOfRange displacement 0x7FFF then .error (.thrown "16-bit pointer diff out of range")
    else .ok (set16 content (displacement.setWidth 16))
  | .kPCRel8 =>
    let displacement := pcrelDisplacement w ref inAtom + 3
    if outOfRange displacement 0x7F then .error (.thrown "rel8 out of range")
    else .ok (set8 content (displacement.setWidth 8))
  | .kPCRel16 =>
    let displacement := pcrelDisplacement w ref inAtom + 2
    if outOfRange displacement 0x7FFF then .error (.thrown "rel16 out of range")
    else .ok (set16 content (displacement.setWidth 16))
  | .kPCRel32 | .kPCRel32WeakImport | .kDtraceProbeSite | .kDtraceIsEnabledSite =>
    let displacement := pcrelDisplacement w ref inAtom
    if outOfRange displacement 0x7FFFFFFF then .error (.thrown "rel32 out of range")
    else .ok (displacement.setWidth 32)
  | .kDtraceProbe | .kDtraceTypeReference => .ok content

end Writer

section Reader
variable (rd : Reader 32) (sect : Section 32)

/-- The kind of a reference without regard to its target, and the address or the addend
that its content gives. -/
def vanillaValue (reloc : RelocWords) (srcAddr content : BitVec 32) :
    Except ReadError (ReferenceKinds × BitVec 32) :=
  if reloc.r_pcrel then
    if reloc.r_length = 0 then .ok (.kPCRel8, srcAddr + (content.setWidth 8).signExtend 32 + 1)
    else if reloc.r_length = 1 then
      .ok (.kPCRel16, srcAddr + (content.setWidth 16).signExtend 32 + 2)
    else if reloc.r_length = 2 then .ok (.kPCRel32, content + (srcAddr + 4))
    else .error (.thrown "bad pc-rel vanilla relocation length")
  else if reloc.r_length ≠ 2 then .error (.thrown "bad vanilla relocation length")
  else if sect.segname = "__TEXT" then .ok (.kAbsolute32, content)
  else .ok (.kPointer, content)

def weakImportKind (pcrel : Bool) : ReferenceKinds :=
  if pcrel then .kPCRel32WeakImport else .kPointerWeakImport

def readExternal (at_ : AtomAndOffset) (reloc : RelocWords) (kind : ReferenceKinds)
    (pointerValue : BitVec 32) : Except ReadError (Decoded ReferenceKinds) :=
  match rd.fSymbols[reloc.r_symbolnum.toNat]? with
  | none => .error .outOfBounds
  | some targetSymbol =>
    dtraceOr at_ targetSymbol.name
      (dtraceSite .kDtraceProbeSite .kDtraceIsEnabledSite targetSymbol.name)
      (addReference (newReferenceByName
        (if targetSymbol.isWeakImportSymbol then weakImportKind reloc.r_pcrel else kind)
        at_ targetSymbol.name pointerValue))

def isStubBranch (reloc : RelocWords) (atom : Atom) : Bool :=
  reloc.r_pcrel && atom.getSymbolTableInclusion = .kSymbolTableNotIn && atom.isWeakImportStub

def readLocal (at_ : AtomAndOffset) (reloc : RelocWords) (kind : ReferenceKinds)
    (pointerValue : BitVec 32) : Except ReadError (Decoded ReferenceKinds) :=
  let target := findAtomAndOffset rd.fAddrToAtom pointerValue
  match target.atom with
  | none => .error .nullAtom
  | some atom =>
    dtraceOr at_ atom.getName
      (dtraceSite .kDtraceProbeSite .kDtraceIsEnabledSite atom.getName)
      (if isStubBranch reloc atom then
        addReference (newReference .kPCRel32WeakImport at_ {} target)
      else if reloc.r_symbolnum ≠ 0 then addReference (newReference kind at_ {} target)
      else
        match rd.fAddrToAbsoluteAtom.lookup pointerValue with
        | some pos => addReference (newReferenceByName kind at_ pos.getName 0)
        | none => .error (.thrown "R_ABS reloc but no absolute symbol at target address"))

def readPlain (reloc : RelocWords) (content : BitVec 32) :
    Except ReadError (Decoded ReferenceKinds) :=
  let srcAddr := sect.addr + reloc.r_address
  let at_ := findAtomAndOffset rd.fAddrToAtom srcAddr
  if reloc.r_type = GENERIC_RELOC_VANILLA then do
    let value ← vanillaValue sect reloc srcAddr content
    if reloc.r_external then readExternal rd at_ reloc value.1 value.2
    else readLocal rd at_ reloc value.1 value.2
  else .ok { reference := none }

/-- The value of the pair that follows, and whether it is skipped then: the file format
allows it to be scattered or not. -/
def nextPair (next : RelocWords) : Option (BitVec 32) × Bool :=
  if next.r_scattered then
    if next.sr_type = GENERIC_RELOC_PAIR then (some next.sr_value, false) else (none, false)
  else if next.r_type = GENERIC_RELOC_PAIR then (some 0, true)
  else (none, false)

def readScattered (sreloc next : RelocWords) (content : BitVec 32) :
    Except ReadError (Decoded ReferenceKinds) :=
  let srcAddr := sect.addr + sreloc.sr_address
  let dstAddr := sreloc.sr_value
  let at_ := findAtomAndOffset rd.fAddrToAtom srcAddr
  let pair := nextPair next
  let added := fun r : Except ReadError (Reference ReferenceKinds) =>
    r.map fun r => ({ reference := some r, skipNext := pair.2 } : Decoded ReferenceKinds)
  if sreloc.sr_type = GENERIC_RELOC_VANILLA then
    if sreloc.sr_pcrel then
      added (newReference .kPCRel32 at_ {}
        (findWithBase rd.fAddrToAtom dstAddr (content + (srcAddr + 4))))
    else if sect.segname = "__TEXT" then
      added (newReference .kAbsolute32 at_ {} (findWithBase rd.fAddrToAtom dstAddr content))
    else added (newReference .kPointer at_ {} (findWithBase rd.fAddrToAtom dstAddr content))
  else if sreloc.sr_type = GENERIC_RELOC_SECTDIFF ∨ sreloc.sr_type = GENERIC_RELOC_LOCAL_SECTDIFF then
    match pair.1 with
    | none => .ok { reference := none, skipNext := pair.2 }
    | some nextRelocValue =>
      if sreloc.sr_length = 1 then
        added (readDifference rd .kPointerDiff16 srcAddr dstAddr nextRelocValue
          ((content.setWidth 16).setWidth 32))
      else if sreloc.sr_length = 2 then
        added (readDifference rd .kPointerDiff srcAddr dstAddr nextRelocValue content)
      else .error (.thrown "bad length for GENERIC_RELOC_SECTDIFF")
  else .ok { reference := none, skipNext := pair.2 }

/-- `content` is the word that the entry points at, `next` the entry that follows. -/
def addRelocReference (reloc next : RelocWords) (content : BitVec 32) :
    Except ReadError (Decoded ReferenceKinds) :=
  if reloc.r_scattered then readScattered rd sect reloc next content
  else readPlain rd sect reloc content

end Reader
end Toolwhip.Ld64.Reloc.X86
