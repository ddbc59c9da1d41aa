import Toolwhip.Ld64.Relocation

/-! # PowerPC: addObjectRelocs_powerpc, fixUpReference_powerpc and addRelocReference_powerpc

For ppc, whose `pint_t` has 32 bits, and for object files. -/

namespace Toolwhip.Ld64.Reloc.Ppc
set_option autoImplicit false

inductive ReferenceKinds where
  | kNoFixUp
  | kFollowOn
  | kGroupSubordinate
  | kPointer
  | kPointerWeakImport
  | kPointerDiff16
  | kPointerDiff32
  | kPointerDiff64
  | kBranch24
  | kBranch24WeakImport
  | kBranch14
  | kPICBaseLow16
  | kPICBaseLow14
  | kPICBaseHigh16
  | kAbsLow16
  | kAbsLow14
  | kAbsHigh16
  | kAbsHigh16AddLow
  | kDtraceProbe
  | kDtraceProbeSite
  | kDtraceIsEnabledSite
  | kDtraceTypeReference
  deriving DecidableEq, Repr

def PPC_RELOC_VANILLA : BitVec 4 := 0
def PPC_RELOC_PAIR : BitVec 4 := 1
def PPC_RELOC_BR14 : BitVec 4 := 2
def PPC_RELOC_BR24 : BitVec 4 := 3
def PPC_RELOC_HI16 : BitVec 4 := 4
def PPC_RELOC_LO16 : BitVec 4 := 5
def PPC_RELOC_HA16 : BitVec 4 := 6
def PPC_RELOC_LO14 : BitVec 4 := 7
def PPC_RELOC_SECTDIFF : BitVec 4 := 8
def PPC_RELOC_HI16_SECTDIFF : BitVec 4 := 10
def PPC_RELOC_LO16_SECTDIFF : BitVec 4 := 11
def PPC_RELOC_HA16_SECTDIFF : BitVec 4 := 12
def PPC_RELOC_JBSR : BitVec 4 := 13
def PPC_RELOC_LO14_SECTDIFF : BitVec 4 := 14
def PPC_RELOC_LOCAL_SECTDIFF : BitVec 4 := 15

abbrev Ref := BoundReference ReferenceKinds

/-! ## Big-endian entries -/

/-- The fields from the other end of the word; those of a scattered entry are where they
are on every processor. -/
def relocationInfo (address symbolnum : BitVec 32) (pcrel : Bool) (length : BitVec 2)
    (isExtern : Bool) (type : BitVec 4) : RelocWords where
  address := address
  other := symbolnum.setWidth 24 ++ (BitVec.ofBool pcrel ++ (length ++ (BitVec.ofBool isExtern ++
    type)))

def r_symbolnum (r : RelocWords) : BitVec 24 := r.other.extractLsb' 8 24
def r_pcrel (r : RelocWords) : Bool := r.other.extractLsb' 7 1 == 1#1
def r_length (r : RelocWords) : BitVec 2 := r.other.extractLsb' 5 2
def r_external (r : RelocWords) : Bool := r.other.extractLsb' 4 1 == 1#1
def r_type (r : RelocWords) : BitVec 4 := r.other.extractLsb' 0 4

section Writer
variable (w : Writer)

/-- Plain, or scattered with the address of the target. -/
def targetReloc (atom : Atom) (ref : Ref) (num : BitVec 32) (scattered pcrel : Bool)
    (length : BitVec 2) (type : BitVec 4) : Except WriteError RelocWords :=
  if scattered then
    scatteredInfo (Writer.relocAddress atom ref) pcrel length type ref.getTarget.address32
  else
    .ok (relocationInfo (Writer.relocAddress atom ref) num pcrel length
      (w.makesExternalRelocatableReference ref.getTarget) type)

/-- `(ref->getTargetOffset() == 0) || isExtern` is false. -/
def isOffLocal (ref : Ref) : Bool :=
  !(ref.getTargetOffset == 0 || w.makesExternalRelocatableReference ref.getTarget)

def pointerRelocs (atom : Atom) (ref : Ref) (num : BitVec 32) :
    Except WriteError (List RelocWords) :=
  (targetReloc w atom ref num (!w.makesExternalRelocatableReference ref.getTarget &&
    ref.getTarget.getSize ≤ ref.getTargetOffset) false 2 PPC_RELOC_VANILLA).map fun reloc1 =>
      [reloc1]

def branchRelocs (atom : Atom) (ref : Ref) (num : BitVec 32) (type : BitVec 4) :
    Except WriteError (List RelocWords) :=
  (targetReloc w atom ref num (isOffLocal w ref) true 2 type).map fun reloc1 => [reloc1]

def diffRelocs (atom : Atom) (ref : Ref) (length : BitVec 2) :
    Except WriteError (List RelocWords) := do
  let sreloc1 ← scatteredInfo (Writer.relocAddress atom ref) false length
    (if ref.getTarget.getScope = .scopeTranslationUnit then PPC_RELOC_LOCAL_SECTDIFF
      else PPC_RELOC_SECTDIFF) ref.getTarget.address32
  let sreloc2 ← scatteredInfo 0 false length PPC_RELOC_PAIR
    ((ref.getFromTarget.getAddress + ref.getFromTargetOffset).setWidth 32)
  .ok [sreloc1, sreloc2]

def toAddr (ref : Ref) : BitVec 32 := (ref.getTarget.getAddress + ref.getTargetOffset).setWidth 32

def fromAddr (atom : Atom) (ref : Ref) : BitVec 32 :=
  (atom.getAddress + ref.getFromTargetOffset).setWidth 32

/-- `half` is the half of the displacement that is not in the instruction. -/
def picBaseRelocs (atom : Atom) (ref : Ref) (type : BitVec 4) (half : BitVec 32) :
    Except WriteError (List RelocWords) := do
  let sreloc1 ← scatteredInfo (Writer.relocAddress atom ref) false 2 type ref.getTarget.address32
  let sreloc2 ← scatteredInfo half false 2 PPC_RELOC_PAIR (fromAddr atom ref)
  .ok [sreloc1, sreloc2]

def absRelocs (atom : Atom) (ref : Ref) (num : BitVec 32) (type : BitVec 4) (half : BitVec 32) :
    Except WriteError (List RelocWords) :=
  (targetReloc w atom ref num (isOffLocal w ref) false 2 type).map fun reloc1 =>
    [reloc1, relocationInfo half 0 false 2 false PPC_RELOC_PAIR]

def highHalf (ref : Ref) : BitVec 32 :=
  if w.makesExternalRelocatableReference ref.getTarget then
    (ref.getTargetOffset >>> 16).setWidth 32
  else toAddr ref >>> 16

def lowHalf (ref : Ref) : BitVec 32 :=
  if w.makesExternalRelocatableReference ref.getTarget then
    (ref.getTargetOffset &&& 0xFFFF).setWidth 32
  else toAddr ref &&& 0xFFFF

/-- The entries in the order in which they end up in the file. -/
def addObjectRelocs_powerpc (atom : Atom) (ref : Ref) : Except WriteError (List RelocWords) := do
  let num ← w.symbolnum (w.makesExternalRelocatableReference ref.getTarget) ref.getTarget
  match ref.getKind with
  | .kNoFixUp | .kFollowOn | .kGroupSubordinate => .ok []
  | .kPointer | .kPointerWeakImport => pointerRelocs w atom ref num
  | .kPointerDiff16 => diffRelocs atom ref 1
  | .kPointerDiff32 => diffRelocs atom ref 2
  | .kPointerDiff64 => diffRelocs atom ref 3
  | .kBranch24WeakImport | .kBranch24 | .kDtraceProbeSite | .kDtraceIsEnabledSite =>
    branchRelocs w atom ref num PPC_RELOC_BR24
  | .kBranch14 => branchRelocs w atom ref num PPC_RELOC_BR14
  | .kPICBaseLow16 =>
    picBaseRelocs atom ref PPC_RELOC_LO16_SECTDIFF
      (((toAddr ref - fromAddr atom ref) >>> 16) &&& 0xFFFF)
  | .kPICBaseLow14 =>
    picBaseRelocs atom ref PPC_RELOC_LO14_SECTDIFF
      (((toAddr ref - fromAddr atom ref) >>> 16) &&& 0xFFFF)
  | .kPICBaseHigh16 =>
    picBaseRelocs atom ref PPC_RELOC_HA16_SECTDIFF ((toAddr ref - fromAddr atom ref) &&& 0xFFFF)
  | .kAbsLow14 => absRelocs w atom ref num PPC_RELOC_LO14 (highHalf w ref)
  | .kAbsLow16 => absRelocs w atom ref num PPC_RELOC_LO16 (highHalf w ref)
  | .kAbsHigh16 => absRelocs w atom ref num PPC_RELOC_HI16 (lowHalf w ref)
  | .kAbsHigh16AddLow => absRelocs w atom ref num PPC_RELOC_HA16 (lowHalf w ref)
  | .kDtraceTypeReference | .kDtraceProbe => .ok []

def targetAddress (ref : Ref) : BitVec 64 := ref.getTarget.getAddress + ref.getTargetOffset

def picBaseAddress (ref : Ref) : BitVec 64 :=
  ref.getFromTarget.getAddress + ref.getFromTargetOffset

def relocatableAddress (ref : Ref) : BitVec 64 :=
  if w.makesExternalRelocatableReference ref.getTarget then
    targetAddress ref - ref.getTarget.getAddress
  else targetAddress ref

def pointerContent (ref : Ref) (inAtom : Atom) : Option (BitVec 64) :=
  if inAtom.fAllNonLazyPointers then
    some (if w.indirectSymbolIsLocal ref then targetAddress ref else 0)
  else if w.makesExternalRelocatableReference ref.getTarget then
    if w.prebind then
      match ref.getTarget.getDefinitionKind with
      | .kExternalDefinition | .kExternalWeakDefinition => some ref.getTargetOffset
      | .kTentativeDefinition | .kRegularDefinition | .kWeakDefinition => some (targetAddress ref)
      | .kAbsoluteSymbol => none
    else some ref.getTargetOffset
  else if ref.getTarget.getDefinitionKind ≠ .kTentativeDefinition then some (targetAddress ref)
  else some ref.getTargetOffset

def get32 (content : BitVec 64) : BitVec 32 := content.extractLsb' 32 32
def set32 (content : BitVec 64) (value : BitVec 32) : BitVec 64 := value ++ content.setWidth 32
def get16 (content : BitVec 64) : BitVec 16 := content.extractLsb' 48 16
def set16 (content : BitVec 64) (value : BitVec 16) : BitVec 64 := value ++ content.setWidth 48

def branchInstruction (instruction : BitVec 32) (displacement : BitVec 64) : BitVec 32 :=
  instruction &&& 0xFC000003 ||| displacement.setWidth 32 &&& 0x03FFFFFC

def branchDisplacement (ref : Ref) (inAtom : Atom) : BitVec 64 :=
  relocatableAddress w ref - (inAtom.getAddress + ref.getFixUpOffset)

def picBaseOutOfRange (displacement : BitVec 64) : Bool := outOfRange displacement 0x80000000

/-- `instruction & 0xFFFF0000`, with a new low half. -/
def setLow16 (instruction : BitVec 32) (instructionLowHalf : BitVec 16) : BitVec 32 :=
  instruction &&& 0xFFFF0000 ||| instructionLowHalf.setWidth 32

def setLow14 (instruction : BitVec 32) (instructionLowHalf : BitVec 16) : BitVec 32 :=
  instruction &&& 0xFFFF0003 ||| instructionLowHalf.setWidth 32

def adjustedHigh (displacement : BitVec 64) : BitVec 16 :=
  if displacement &&& 0x8000 ≠ 0 then (displacement >>> 16).setWidth 16 + 1
  else (displacement >>> 16).setWidth 16

/-- `targetAddr` may reach into the high half of the instruction. -/
def setHigh16AddLow (instruction : BitVec 32) (targetAddr : BitVec 64) : BitVec 32 :=
  let carried : BitVec 64 := if targetAddr &&& 0x8000 ≠ 0 then targetAddr + 0x10000 else targetAddr
  let high : BitVec 64 := carried >>> 16
  instruction &&& 0xFFFF0000 ||| high.setWidth 32

/-- With `finalLinkedImage` false; `content` is what is at the fix-up. -/
def fixUpReference_powerpc (ref : Ref) (inAtom : Atom) (content : BitVec 64) :
    Except WriteError (BitVec 64) :=
  let instruction := get32 content
  let displacement := targetAddress ref - picBaseAddress ref
  match ref.getKind with
  | .kNoFixUp | .kFollowOn | .kGroupSubordinate => .ok content
  | .kPointerWeakImport | .kPointer =>
    match pointerContent w ref inAtom with
    | some value => .ok (set32 content (value.setWidth 32))
    | none => .ok content
  | .kPointerDiff64 | .kPointerDiff32 => .ok (set32 content (displacement.setWidth 32))
  | .kPointerDiff16 => .ok (set16 content (displacement.setWidth 16))
  | .kDtraceProbeSite | .kDtraceIsEnabledSite =>
    .ok (set32 content (branchInstruction instruction
      (ref.getTargetOffset - (inAtom.getAddress + ref.getFixUpOffset))))
  | .kBranch24WeakImport | .kBranch24 =>
    if !w.makesExternalRelocatableReference ref.getTarget &&
        outOfRange (branchDisplacement w ref inAtom) 0x00FFFFFF then
      .error (.thrown "bl out of range (max is +/-16M)")
    else .ok (set32 content (branchInstruction instruction (branchDisplacement w ref inAtom)))
  | .kBranch14 =>
    if outOfRange (branchDisplacement w ref inAtom) 0x0000FFFF then
      .error (.thrown "bcc out of range (max is +/-64K)")
    else
      .ok (set32 content (instruction &&& 0xFFFF0003 |||
        (branchDisplacement w ref inAtom).setWidth 32 &&& 0x0000FFFC))
  | .kPICBaseLow16 =>
    if picBaseOutOfRange displacement then .error (.thrown "32-bit pic-base out of range")
    else .ok (set32 content (setLow16 instruction (displacement.setWidth 16)))
  | .kPICBaseLow14 =>
    if picBaseOutOfRange displacement then .error (.thrown "32-bit pic-base out of range")
    else if displacement &&& 0x3 ≠ 0 then
      .error (.thrown "bad offset for lo14 instruction pic-base fix-up")
    else .ok (set32 content (setLow14 instruction (displacement.setWidth 16 &&& 0xFFFC)))
  | .kPICBaseHigh16 =>
    if picBaseOutOfRange displacement then .error (.thrown "32-bit pic-base out of range")
    else .ok (set32 content (setLow16 instruction (adjustedHigh displacement)))
  | .kAbsLow16 =>
    .ok (set32 content (setLow16 instruction ((relocatableAddress w ref).setWidth 16)))
  | .kAbsLow14 =>
    if relocatableAddress w ref &&& 0x3 ≠ 0 then
      .error (.thrown "bad address for absolute lo14 instruction fix-up")
    else .ok (set32 content (setLow14 instruction ((relocatableAddress w ref).setWidth 16)))
  | .kAbsHigh16 =>
    .ok (set32 content (setLow16 instruction ((relocatableAddress w ref >>> 16).setWidth 16)))
  | .kAbsHigh16AddLow =>
    .ok (set32 content (setHigh16AddLow instruction (relocatableAddress w ref)))
  | .kDtraceTypeReference | .kDtraceProbe => .ok content

end Writer

section Reader
variable (rd : Reader 32) (sect : Section 32)

/-- The displacement of a `bl`, if it is one. -/
def branch24 (instruction : BitVec 32) : BitVec 32 :=
  if instruction &&& 0x4C000000 = 0x48000000 then
    if instruction &&& 0x02000000 ≠ 0 then instruction &&& 0x03FFFFFC ||| 0xFC000000
    else instruction &&& 0x03FFFFFC
  else 0

def branch14 (instruction : BitVec 32) : BitVec 32 :=
  if instruction &&& 0x00008000 ≠ 0 then instruction &&& 0x0000FFFC ||| 0xFFFF0000
  else instruction &&& 0x0000FFFC

def lo16 (instruction pair : BitVec 32) : BitVec 32 := pair <<< 16 ||| instruction &&& 0xFFFF
def lo14 (instruction pair : BitVec 32) : BitVec 32 := pair <<< 16 ||| instruction &&& 0xFFFC
def hi16 (instruction pair : BitVec 32) : BitVec 32 :=
  (instruction &&& 0xFFFF) <<< 16 ||| pair &&& 0xFFFF

def ha16 (instruction pair : BitVec 32) : BitVec 32 :=
  (instruction &&& 0xFFFF) <<< 16 + ((pair &&& 0xFFFF).setWidth 16).signExtend 32

def lo16Sum (instruction pair : BitVec 32) : BitVec 32 := pair <<< 16 + (instruction &&& 0xFFFF)
def lo14Sum (instruction pair : BitVec 32) : BitVec 32 := pair <<< 16 + (instruction &&& 0xFFFC)

def makeReference (kind : ReferenceKinds) (atAddr toAddr : BitVec 32) :
    Except ReadError (Reference ReferenceKinds) :=
  newReference kind (findAtomAndOffset rd.fAddrToAtom atAddr) {}
    (findAtomAndOffset rd.fAddrToAtom toAddr)

def makeReferenceWithToBase (kind : ReferenceKinds) (atAddr toAddr toBaseAddr : BitVec 32) :
    Except ReadError (Reference ReferenceKinds) :=
  newReference kind (findAtomAndOffset rd.fAddrToAtom atAddr) {}
    (findWithBase rd.fAddrToAtom toBaseAddr toAddr)

def makePicBaseReference (kind : ReferenceKinds) (atAddr fromAddr toAddr toBaseAddr : BitVec 32) :
    Except ReadError (Reference ReferenceKinds) :=
  newReference kind (findAtomAndOffset rd.fAddrToAtom atAddr)
    (findAtomAndOffset rd.fAddrToAtom fromAddr) (findWithBase rd.fAddrToAtom toBaseAddr toAddr)

def targetSymbol (reloc : RelocWords) : Except ReadError Nlist :=
  match rd.fSymbols[(r_symbolnum reloc).toNat]? with
  | none => .error .outOfBounds
  | some sym => .ok sym

def byName (kind : ReferenceKinds) (srcAddr : BitVec 32) (name : Option String)
    (offset : BitVec 32) : Except ReadError (Reference ReferenceKinds) :=
  newReferenceByName kind (findAtomAndOffset rd.fAddrToAtom srcAddr) name offset

def dtraceOrBranch (srcAddr : BitVec 32) (name : Option String)
    (other : Except ReadError (Decoded ReferenceKinds)) : Except ReadError (Decoded ReferenceKinds) :=
  dtraceOr (findAtomAndOffset rd.fAddrToAtom srcAddr) name
    (dtraceSite .kDtraceProbeSite .kDtraceIsEnabledSite name) other

def readBranch24 (reloc : RelocWords) (srcAddr instruction : BitVec 32) :
    Except ReadError (Decoded ReferenceKinds) :=
  let dstAddr := srcAddr + branch24 instruction
  if r_external reloc then do
    let sym ← targetSymbol rd reloc
    dtraceOrBranch rd srcAddr (some sym.name)
      (addReference (byName rd (if sym.isWeakImportSymbol then .kBranch24WeakImport else .kBranch24)
        srcAddr (some sym.name) dstAddr))
  else
    match (findAtomAndOffset rd.fAddrToAtom dstAddr).atom with
    | none => .error .nullAtom
    | some atom =>
      dtraceOrBranch rd srcAddr atom.getName
        (addReference (makeReference rd
          (if atom.getSymbolTableInclusion = .kSymbolTableNotIn ∧ atom.isWeakImportStub then
            .kBranch24WeakImport else .kBranch24) srcAddr dstAddr))

/-- A reference by name for an external target; an absolute symbol is looked for at the
value, if there is none the value is taken for an address. -/
def readAbs (kind : ReferenceKinds) (reloc : RelocWords) (srcAddr value localValue : BitVec 32) :
    Except ReadError (Reference ReferenceKinds) :=
  if r_external reloc then do
    let sym ← targetSymbol rd reloc
    byName rd kind srcAddr (some sym.name) value
  else if r_symbolnum reloc = 0 then
    match rd.fAddrToAbsoluteAtom.lookup localValue with
    | some pos => byName rd kind srcAddr pos.getName 0
    | none => makeReference rd kind srcAddr localValue
  else makeReference rd kind srcAddr localValue

def readPaired (next : RelocWords) (r : Except ReadError (Reference ReferenceKinds)) :
    Except ReadError (Decoded ReferenceKinds) :=
  if r_type next = PPC_RELOC_PAIR then r.map fun r => { reference := some r, skipNext := true }
  else .ok { reference := none }

def readVanilla (reloc : RelocWords) (srcAddr pointerValue : BitVec 32) :
    Except ReadError (Decoded ReferenceKinds) :=
  if r_external reloc then do
    let sym ← targetSymbol rd reloc
    addReference (byName rd (if sym.isWeakImportSymbol then .kPointerWeakImport else .kPointer)
      srcAddr (some sym.name) pointerValue)
  else addReference (makeReference rd .kPointer srcAddr pointerValue)

def readBranch14 (reloc : RelocWords) (srcAddr instruction : BitVec 32) :
    Except ReadError (Decoded ReferenceKinds) :=
  let dstAddr := srcAddr + branch14 instruction
  if r_external reloc then do
    let sym ← targetSymbol rd reloc
    addReference (byName rd .kBranch14 srcAddr (some sym.name) dstAddr)
  else addReference (makeReference rd .kBranch14 srcAddr dstAddr)

def readPlain (reloc next : RelocWords) (content : BitVec 64) :
    Except ReadError (Decoded ReferenceKinds) :=
  let srcAddr := sect.addr + reloc.r_address
  let instruction := get32 content
  let pair := next.r_address
  let type := r_type reloc
  if type = PPC_RELOC_BR24 then readBranch24 rd reloc srcAddr instruction
  else if type = PPC_RELOC_BR14 then readBranch14 rd reloc srcAddr instruction
  else if type = PPC_RELOC_PAIR then .ok { reference := none }
  else if type = PPC_RELOC_LO16 then
    readPaired next (readAbs rd .kAbsLow16 reloc srcAddr (lo16 instruction pair)
      (lo16Sum instruction pair))
  else if type = PPC_RELOC_LO14 then
    readPaired next (readAbs rd .kAbsLow14 reloc srcAddr (lo14 instruction pair)
      (lo14 instruction pair))
  else if type = PPC_RELOC_HI16 then
    readPaired next (readAbs rd .kAbsHigh16 reloc srcAddr (hi16 instruction pair)
      (hi16 instruction pair))
  else if type = PPC_RELOC_HA16 then
    readPaired next (readAbs rd .kAbsHigh16AddLow reloc srcAddr (ha16 instruction pair)
      (ha16 instruction pair))
  else if type = PPC_RELOC_VANILLA then readVanilla rd reloc srcAddr instruction
  else if type = PPC_RELOC_JBSR then readPaired next (makeReference rd .kBranch24 srcAddr pair)
  else .ok { reference := none }

/-- The `r_address` and `r_value` of the pair that follows, which may be scattered or not. -/
def nextPair (next : RelocWords) : Option (BitVec 32 × BitVec 32) :=
  if next.r_scattered then
    if next.sr_type = PPC_RELOC_PAIR then some (next.sr_address, next.sr_value) else none
  else if r_type next = PPC_RELOC_PAIR then some (next.r_address, 0)
  else none

def readScatteredPair (sreloc : RelocWords) (srcAddr nextRelocAddress nextRelocValue : BitVec 32)
    (content : BitVec 64) : Except ReadError (Option (Reference ReferenceKinds)) :=
  let dstAddr := sreloc.sr_value
  let instruction := get32 content
  let type := sreloc.sr_type
  let picBase := fun kind displacement => (makePicBaseReference rd kind srcAddr nextRelocValue
    (nextRelocValue + displacement) dstAddr).map some
  let abs := fun kind betterDstAddr =>
    (makeReferenceWithToBase rd kind srcAddr betterDstAddr dstAddr).map some
  if type = PPC_RELOC_LO16_SECTDIFF then
    picBase .kPICBaseLow16 (lo16 instruction nextRelocAddress)
  else if type = PPC_RELOC_LO14_SECTDIFF then
    picBase .kPICBaseLow14 (lo14 instruction nextRelocAddress)
  else if type = PPC_RELOC_HA16_SECTDIFF then
    picBase .kPICBaseHigh16 (ha16 instruction nextRelocAddress)
  else if type = PPC_RELOC_LO14 then abs .kAbsLow14 (lo14Sum instruction nextRelocAddress)
  else if type = PPC_RELOC_LO16 then abs .kAbsLow16 (lo16Sum instruction nextRelocAddress)
  else if type = PPC_RELOC_HA16 then abs .kAbsHigh16AddLow (ha16 instruction nextRelocAddress)
  else if type = PPC_RELOC_HI16 then abs .kAbsHigh16 (hi16 instruction nextRelocAddress)
  else if type = PPC_RELOC_SECTDIFF ∨ type = PPC_RELOC_LOCAL_SECTDIFF then
    if sreloc.sr_length = 0 then
      .error (.thrown "bad diff relocations r_length (0) for ppc architecture")
    else if sreloc.sr_length = 1 then
      (readDifference rd .kPointerDiff16 srcAddr dstAddr nextRelocValue
        ((get16 content).setWidth 32)).map some
    else if sreloc.sr_length = 2 then
      (readDifference rd .kPointerDiff32 srcAddr dstAddr nextRelocValue instruction).map some
    else
      (readDifference rd .kPointerDiff64 srcAddr dstAddr nextRelocValue
        (content.setWidth 32)).map some
  else .ok none

def readScattered (sreloc next : RelocWords) (content : BitVec 64) :
    Except ReadError (Decoded ReferenceKinds) :=
  let srcAddr := sect.addr + sreloc.sr_address
  let dstAddr := sreloc.sr_value
  let instruction := get32 content
  let pair := nextPair next
  let added := fun r : Except ReadError (Reference ReferenceKinds) =>
    r.map fun r => ({ reference := some r, skipNext := pair.isSome } : Decoded ReferenceKinds)
  if sreloc.sr_type = PPC_RELOC_VANILLA then
    added (makeReferenceWithToBase rd .kPointer srcAddr instruction dstAddr)
  else if sreloc.sr_type = PPC_RELOC_BR14 then
    added (makeReferenceWithToBase rd .kBranch14 srcAddr (srcAddr + branch14 instruction) dstAddr)
  else if sreloc.sr_type = PPC_RELOC_BR24 then
    if instruction &&& 0x4C000000 = 0x48000000 then
      added (makeReferenceWithToBase rd .kBranch24 srcAddr (srcAddr + branch24 instruction) dstAddr)
    else .ok { reference := none, skipNext := pair.isSome }
  else
    match pair with
    | none => .ok { reference := none }
    | some p =>
      (readScatteredPair rd sreloc srcAddr p.1 p.2 content).map fun r =>
        { reference := r, skipNext := true }

/-- `content` is what the entry points at, `next` the entry that follows. -/
def addRelocReference_powerpc (reloc next : RelocWords) (content : BitVec 64) :
    Except ReadError (Decoded ReferenceKinds) :=
  if reloc.r_scattered then readScattered rd sect reloc next content
  else readPlain rd sect reloc next content

end Reader
end Toolwhip.Ld64.Reloc.Ppc
