import Toolwhip.Ld64.Relocation

/-! # x86_64: Writer<x86_64> and Reader<x86_64> -/

namespace Toolwhip.Ld64.Reloc.X86_64
set_option autoImplicit false

inductive ReferenceKinds where
  | kNoFixUp
  | kFollowOn
  | kGroupSubordinate
  | kPointer
  | kPointerWeakImport
  | kPointerDiff
  | kPointerDiff32
  | kPCRel32
  | kPCRel32_1
  | kPCRel32_2
  | kPCRel32_4
  | kBranchPCRel32
  | kBranchPCRel32WeakImport
  | kPCRel32GOTLoad
  | kPCRel32GOTLoadWeakImport
  | kPCRel32GOT
  | kPCRel32GOTWeakImport
  | kBranchPCRel8
  | kDtraceProbe
  | kDtraceProbeSite
  | kDtraceIsEnabledSite
  | kDtraceTypeReference
  deriving DecidableEq, Repr

def X86_64_RELOC_UNSIGNED : BitVec 4 := 0
def X86_64_RELOC_SIGNED : BitVec 4 := 1
def X86_64_RELOC_BRANCH : BitVec 4 := 2
def X86_64_RELOC_GOT_LOAD : BitVec 4 := 3
def X86_64_RELOC_GOT : BitVec 4 := 4
def X86_64_RELOC_SUBTRACTOR : BitVec 4 := 5
def X86_64_RELOC_SIGNED_1 : BitVec 4 := 6
def X86_64_RELOC_SIGNED_2 : BitVec 4 := 7
def X86_64_RELOC_SIGNED_4 : BitVec 4 := 8

abbrev Ref := BoundReference ReferenceKinds

section Writer
variable (w : Writer)

def makesExternalRelocatableReference (target : Atom) : Bool :=
  match target.getSymbolTableInclusion with
  | .kSymbolTableNotIn => false
  | .kSymbolTableInAsAbsolute | .kSymbolTableIn | .kSymbolTableInAndNeverStrip => true

/-- Both entries of a difference in the order in which they end up in the file. -/
def diffRelocs (atom : Atom) (ref : Ref) (num : BitVec 32) (length : BitVec 2) :
    Except WriteError (List RelocWords) := do
  let fromExternal := makesExternalRelocatableReference ref.getFromTarget
  let fromSymbolIndex ← w.symbolnum fromExternal ref.getFromTarget
  .ok [relocationInfo (Writer.relocAddress atom ref) fromSymbolIndex false length fromExternal
      X86_64_RELOC_SUBTRACTOR,
    relocationInfo (Writer.relocAddress atom ref) num false length
      (makesExternalRelocatableReference ref.getTarget) X86_64_RELOC_UNSIGNED]

def addObjectRelocs (atom : Atom) (ref : Ref) : Except WriteError (List RelocWords) := do
  let num ← w.symbolnum (makesExternalRelocatableReference ref.getTarget) ref.getTarget
  let reloc1 := fun (pcrel : Bool) (length : BitVec 2) (type : BitVec 4) =>
    Except.ok [relocationInfo (Writer.relocAddress atom ref) num pcrel length
      (makesExternalRelocatableReference ref.getTarget) type]
  match ref.getKind with
  | .kNoFixUp | .kFollowOn | .kGroupSubordinate => .ok []
  | .kPointer | .kPointerWeakImport => reloc1 false 3 X86_64_RELOC_UNSIGNED
  | .kPointerDiff32 => diffRelocs w atom ref num 2
  | .kPointerDiff => diffRelocs w atom ref num 3
  | .kBranchPCRel32 | .kBranchPCRel32WeakImport | .kDtraceProbeSite | .kDtraceIsEnabledSite =>
    reloc1 true 2 X86_64_RELOC_BRANCH
  | .kPCRel32 => reloc1 true 2 X86_64_RELOC_SIGNED
  | .kPCRel32_1 => reloc1 true 2 X86_64_RELOC_SIGNED_1
  | .kPCRel32_2 => reloc1 true 2 X86_64_RELOC_SIGNED_2
  | .kPCRel32_4 => reloc1 true 2 X86_64_RELOC_SIGNED_4
  | .kBranchPCRel8 => reloc1 true 0 X86_64_RELOC_BRANCH
  | .kPCRel32GOT | .kPCRel32GOTWeakImport => reloc1 true 2 X86_64_RELOC_GOT
  | .kPCRel32GOTLoad | .kPCRel32GOTLoadWeakImport => reloc1 true 2 X86_64_RELOC_GOT_LOAD
  | .kDtraceTypeReference | .kDtraceProbe => .ok []

/-- From the end of a field of `size` bytes, or the addend for an external target. -/
def pcrelDisplacement (ref : Ref) (inAtom : Atom) (size : BitVec 64) : BitVec 64 :=
  let temp32 := ref.getTargetOffset.setWidth 32
  if makesExternalRelocatableReference ref.getTarget then temp32.signExtend 64
  else ref.getTarget.getAddress + temp32.signExtend 64 -
    (inAtom.getAddress + ref.getFixUpOffset + size)

def kindBias : ReferenceKinds → BitVec 64
  | .kPCRel32_1 => 1
  | .kPCRel32_2 => 2
  | .kPCRel32_4 => 4
  | _ => 0

def set8 (content : BitVec 64) (value : BitVec 8) : BitVec 64 := content.extractLsb' 8 56 ++ value
def set32 (content : BitVec 64) (value : BitVec 32) : BitVec 64 :=
  content.extractLsb' 32 32 ++ value

/-- `content` is the word at the fix-up. -/
def fixUpReferenceRelocatable (ref : Ref) (inAtom : Atom) (content : BitVec 64) :
    Except WriteError (BitVec 64) :=
  match ref.getKind with
  | .kNoFixUp | .kFollowOn | .kGroupSubordinate => .ok content
  | .kPointer | .kPointerWeakImport =>
    .ok (if makesExternalRelocatableReference ref.getTarget then ref.getTargetOffset
      else ref.getTarget.getAddress + ref.getTargetOffset)
  | .kPointerDiff32 =>
    .ok (set32 content ((ref.getTargetOffset - ref.getFromTargetOffset).setWidth 32))
  | .kPointerDiff => .ok (ref.getTargetOffset - ref.getFromTargetOffset)
  | .kBranchPCRel32 | .kBranchPCRel32WeakImport | .kDtraceProbeSite | .kDtraceIsEnabledSite
  | .kPCRel32 | .kPCRel32_1 | .kPCRel32_2 | .kPCRel32_4 =>
    let displacement := pcrelDisplacement ref inAtom 4 - kindBias ref.getKind
    if outOfRange displacement 0x7FFFFFFF then .error (.thrown "rel32 out of range")
    else .ok (set32 content (displacement.setWidth 32))
  | .kBranchPCRel8 =>
    let displacement := pcrelDisplacement ref inAtom 1
    if 127 < displacement.toInt || displacement.toInt < -128 then
      .error (.thrown "rel8 out of range")
    else .ok (set8 content (displacement.setWidth 8))
  | .kPCRel32GOT | .kPCRel32GOTLoad | .kPCRel32GOTWeakImport | .kPCRel32GOTLoadWeakImport =>
    .ok (set32 content (ref.getTargetOffset.setWidth 32))
  | .kDtraceTypeReference | .kDtraceProbe => .ok content

end Writer

section Reader
variable (rd : Reader 64) (sect : Section 64)

def bindsDirectly (sym : Nlist) : Bool :=
  sym.inSection && (!sym.external || sym.name.toList.head? = some 'L')

def makeReference (kind : ReferenceKinds) (atAddr toAddr : BitVec 64) :
    Except ReadError (Reference ReferenceKinds) :=
  newReference kind (findAtomAndOffset rd.fAddrToAtom atAddr) {}
    (findAtomAndOffset rd.fAddrToAtom toAddr)

def makeReferenceToSymbol (kind : ReferenceKinds) (atAddr : BitVec 64) (toSymbol : Nlist)
    (toOffset : BitVec 64) : Except ReadError (Reference ReferenceKinds) :=
  if bindsDirectly toSymbol then
    newReference kind (findAtomAndOffset rd.fAddrToAtom atAddr) {}
      (findWithBase rd.fAddrToAtom toSymbol.n_value (toSymbol.n_value + toOffset))
  else
    newReferenceByName kind (findAtomAndOffset rd.fAddrToAtom atAddr) (some toSymbol.name)
      (toOffset.setWidth 32)

def findAtomByName (name : String) : Option Atom := rd.atoms.find? fun a => a.getName = some name

def makeByNameReference (kind : ReferenceKinds) (atAddr : BitVec 64) (toName : String)
    (toOffset : BitVec 32) : Except ReadError (Reference ReferenceKinds) :=
  let at_ := findAtomAndOffset rd.fAddrToAtom atAddr
  match findAtomByName rd toName with
  | some target =>
    if target.getScope = .scopeTranslationUnit then
      newReference kind at_ {} { atom := some target, offset := toOffset }
    else newReferenceByName kind at_ (some toName) toOffset
  | none => newReferenceByName kind at_ (some toName) toOffset

/-- The kind of a branch to a dtrace symbol, and what `addDtraceExtraInfos` is given. -/
def branchSite (targetName : String) : Option (ReferenceKinds × String) :=
  if hasPrefix "___dtrace_probe$" targetName then
    some (.kDtraceProbeSite, dropPrefix "___dtrace_probe$" targetName)
  else if hasPrefix "___dtrace_isenabled$" targetName then
    some (.kDtraceIsEnabledSite, dropPrefix "___dtrace_probe$" targetName)
  else none

/-- `%08llX` -/
def hexDigits (n : BitVec 64) : String :=
  let digits := String.ofList ((Nat.toDigits 16 n.toNat).map Char.toUpper)
  "".pushn '0' (8 - digits.length) ++ digits

/-- `dstAddr` has to be in the section that the entry names. -/
def verifySection (reloc : RelocWords) (srcAddr dstAddr : BitVec 64)
    (d : Decoded ReferenceKinds) : Except ReadError (Decoded ReferenceKinds) :=
  match rd.sections[reloc.r_symbolnum.toNat - 1]? with
  | none => .error .outOfBounds
  | some targetSection =>
    if dstAddr < targetSection.addr || targetSection.addr + targetSection.size < dstAddr then
      .error (.thrown ("local relocation for address 0x" ++ hexDigits srcAddr ++ " in section " ++
        sect.sectname ++ " does not target section " ++ targetSection.sectname))
    else .ok d

def verifiedReference (reloc : RelocWords) (kind : ReferenceKinds) (srcAddr dstAddr : BitVec 64) :
    Except ReadError (Decoded ReferenceKinds) := do
  let d ← addReference (makeReference rd kind srcAddr dstAddr)
  verifySection rd sect reloc srcAddr dstAddr d

/-- `kind` for an undefined symbol that may be missing at run time. -/
def gotKind (type : BitVec 4) (weakImport : Bool) : ReferenceKinds :=
  if type = X86_64_RELOC_GOT then
    if weakImport then .kPCRel32GOTWeakImport else .kPCRel32GOT
  else
    if weakImport then .kPCRel32GOTLoadWeakImport else .kPCRel32GOTLoad

/-- The kind and the addend of an external signed displacement; old object files have the
bias of `X86_64_RELOC_SIGNED_1` and its like in the addend. -/
def externalSigned (type : BitVec 4) (addend : BitVec 64) : ReferenceKinds × BitVec 64 :=
  if type = X86_64_RELOC_SIGNED then
    if addend = -1 then (.kPCRel32_1, 0)
    else if addend = -2 then (.kPCRel32_2, 0)
    else if addend = -4 then (.kPCRel32_4, 0)
    else (.kPCRel32, addend)
  else if type = X86_64_RELOC_SIGNED_1 then (.kPCRel32_1, addend + 1)
  else if type = X86_64_RELOC_SIGNED_2 then (.kPCRel32_2, addend + 2)
  else (.kPCRel32_4, addend + 4)

def localSigned (type : BitVec 4) : ReferenceKinds × BitVec 64 :=
  if type = X86_64_RELOC_SIGNED then (.kPCRel32, 4)
  else if type = X86_64_RELOC_SIGNED_1 then (.kPCRel32_1, 5)
  else if type = X86_64_RELOC_SIGNED_2 then (.kPCRel32_2, 6)
  else (.kPCRel32_4, 8)

def isSigned (type : BitVec 4) : Bool :=
  type = X86_64_RELOC_SIGNED || type = X86_64_RELOC_SIGNED_1 || type = X86_64_RELOC_SIGNED_2 ||
    type = X86_64_RELOC_SIGNED_4

def targetSymbol (reloc : RelocWords) : Except ReadError Nlist :=
  match rd.fSymbols[reloc.r_symbolnum.toNat]? with
  | none => .error .outOfBounds
  | some sym => .ok sym

def readUnsigned (reloc : RelocWords) (srcAddr content : BitVec 64) :
    Except ReadError (Decoded ReferenceKinds) :=
  if reloc.r_pcrel then .error (.thrown "pcrel and X86_64_RELOC_UNSIGNED not supported")
  else if reloc.r_length ≠ 3 then
    .error (.thrown "length < 3 and X86_64_RELOC_UNSIGNED not supported")
  else if reloc.r_external then do
    let sym ← targetSymbol rd reloc
    addReference (makeReferenceToSymbol rd .kPointer srcAddr sym content)
  else verifiedReference rd sect reloc .kPointer srcAddr content

def readSigned (reloc : RelocWords) (srcAddr : BitVec 64) (content : BitVec 32) :
    Except ReadError (Decoded ReferenceKinds) :=
  if !reloc.r_pcrel then .error (.thrown "not pcrel and X86_64_RELOC_SIGNED* not supported")
  else if reloc.r_length ≠ 2 then
    .error (.thrown "length != 2 and X86_64_RELOC_SIGNED* not supported")
  else if reloc.r_external then do
    let sym ← targetSymbol rd reloc
    let value := externalSigned reloc.r_type (content.signExtend 64)
    addReference (makeReferenceToSymbol rd value.1 srcAddr sym value.2)
  else
    let value := localSigned reloc.r_type
    verifiedReference rd sect reloc value.1 srcAddr (srcAddr + value.2 + content.signExtend 64)

def readBranch (reloc : RelocWords) (srcAddr : BitVec 64) (content : BitVec 32) :
    Except ReadError (Decoded ReferenceKinds) :=
  if !reloc.r_pcrel then .error (.thrown "not pcrel and X86_64_RELOC_BRANCH not supported")
  else if reloc.r_length = 2 then
    let dstAddr := content.signExtend 64
    if reloc.r_external then do
      let sym ← targetSymbol rd reloc
      match branchSite sym.name with
      | some (kind, extra) =>
        (makeByNameReference rd kind srcAddr sym.name 0).map fun r =>
          { reference := some r, dtraceExtraInfos := some extra }
      | none =>
        addReference (makeReferenceToSymbol rd
          (if sym.isWeakImportSymbol then .kBranchPCRel32WeakImport else .kBranchPCRel32)
          srcAddr sym dstAddr)
    else addReference (makeReference rd .kBranchPCRel32 srcAddr (srcAddr + 4 + dstAddr))
  else if reloc.r_length = 0 then
    let dstAddr := (content.setWidth 8).signExtend 64
    if reloc.r_external then do
      let sym ← targetSymbol rd reloc
      addReference (makeReferenceToSymbol rd .kBranchPCRel8 srcAddr sym dstAddr)
    else addReference (makeReference rd .kBranchPCRel8 srcAddr (srcAddr + 1 + dstAddr))
  else
    .error (.thrown ("length=" ++ toString reloc.r_length.toNat ++
      " and X86_64_RELOC_BRANCH not supported"))

/-- `what` is the relocation's name. -/
def readGOT (what : String) (reloc : RelocWords) (srcAddr : BitVec 64) (content : BitVec 32) :
    Except ReadError (Decoded ReferenceKinds) :=
  if !reloc.r_external then .error (.thrown ("not extern and " ++ what ++ " not supported"))
  else if !reloc.r_pcrel then .error (.thrown ("not pcrel and " ++ what ++ " not supported"))
  else if reloc.r_length ≠ 2 then .error (.thrown ("length != 2 and " ++ what ++ " not supported"))
  else do
    let sym ← targetSymbol rd reloc
    addReference (makeReferenceToSymbol rd (gotKind reloc.r_type sym.isWeakImportSymbol) srcAddr sym
      (content.signExtend 64))

/-- The `to` side of a difference; a symbol named like the atom that holds it is that atom. -/
def subtractorTo (kind : ReferenceKinds) (inAtom : Atom) (next : RelocWords)
    (srcAddr dstAddr : BitVec 64) : Except ReadError (Reference ReferenceKinds) :=
  if next.r_external then do
    let sym ← targetSymbol rd next
    let ref ← makeReferenceToSymbol rd kind srcAddr sym 0
    match inAtom.getName with
    | none => .error .nullAtom
    | some name =>
      .ok (if sym.name = name then { ref with fToTarget := { atom := some inAtom } } else ref)
  else makeReference rd kind srcAddr dstAddr

def subtractorFrom (inAtom : Atom) (sym : Nlist) (ref : Reference ReferenceKinds) :
    Except ReadError (Reference ReferenceKinds) :=
  if !sym.external then
    match (findAtomAndOffset rd.fAddrToAtom sym.n_value).atom with
    | none => .error .nullAtom
    | some atom => .ok { ref with fFromTarget := { ref.fFromTarget with atom := some atom } }
  else
    match inAtom.getName with
    | none => .error .nullAtom
    | some name =>
      .ok (if sym.name = name then
          { ref with fFromTarget := { ref.fFromTarget with atom := some inAtom } }
        else { ref with fFromTargetName := some sym.name })

/-- The addend goes to the `from` side if it is negative. -/
def setAddend (negativeAddend : Bool) (dstAddr : BitVec 64) (ref : Reference ReferenceKinds) :
    Reference ReferenceKinds :=
  if negativeAddend then
    { ref with fFromTarget := { ref.fFromTarget with offset := (-dstAddr).setWidth 32 } }
  else { ref with fToTarget := { ref.fToTarget with offset := dstAddr.setWidth 32 } }

def subtractorKind (length : BitVec 2) : ReferenceKinds :=
  if length = 2 then .kPointerDiff32 else .kPointerDiff

def subtractorAddend (length : BitVec 2) (content : BitVec 64) : BitVec 64 × Bool :=
  if length = 2 then ((content.setWidth 32).setWidth 64, (content.setWidth 32).msb)
  else (content, content.msb)

def readSubtractor (reloc next : RelocWords) (srcAddr content : BitVec 64) :
    Except ReadError (Decoded ReferenceKinds) :=
  if reloc.r_pcrel then .error (.thrown "X86_64_RELOC_SUBTRACTOR cannot be pc-relative")
  else if reloc.r_length < 2 then
    .error (.thrown "X86_64_RELOC_SUBTRACTOR must have r_length of 2 or 3")
  else if !reloc.r_external then .error (.thrown "X86_64_RELOC_SUBTRACTOR must have r_extern=1")
  else if next.r_type ≠ X86_64_RELOC_UNSIGNED then
    .error (.thrown "X86_64_RELOC_SUBTRACTOR must be followed by X86_64_RELOC_UNSIGNED")
  else if next.r_pcrel then
    .error (.thrown
      "X86_64_RELOC_UNSIGNED following a X86_64_RELOC_SUBTRACTOR cannot be pc-relative")
  else if next.r_length ≠ reloc.r_length then
    .error (.thrown
      "X86_64_RELOC_UNSIGNED following a X86_64_RELOC_SUBTRACTOR must have same r_length")
  else
    let addend := subtractorAddend reloc.r_length content
    match (findAtomAndOffset rd.fAddrToAtom srcAddr).atom with
    | none => .error .nullAtom
    | some inAtom => do
      let ref ← subtractorTo rd (subtractorKind reloc.r_length) inAtom next srcAddr addend.1
      let sym ← targetSymbol rd reloc
      let ref ← subtractorFrom rd inAtom sym ref
      .ok { reference := some (setAddend addend.2 addend.1 ref), skipNext := true }

/-- `content` is the word that the entry points at, `next` the entry that follows. -/
def addRelocReference (reloc next : RelocWords) (content : BitVec 64) :
    Except ReadError (Decoded ReferenceKinds) :=
  let srcAddr := sect.addr + reloc.r_address.setWidth 64
  if reloc.r_type = X86_64_RELOC_UNSIGNED then readUnsigned rd sect reloc srcAddr content
  else if isSigned reloc.r_type then readSigned rd sect reloc srcAddr (content.setWidth 32)
  else if reloc.r_type = X86_64_RELOC_BRANCH then
    readBranch rd reloc srcAddr (content.setWidth 32)
  else if reloc.r_type = X86_64_RELOC_GOT then
    readGOT rd "X86_64_RELOC_GOT" reloc srcAddr (content.setWidth 32)
  else if reloc.r_type = X86_64_RELOC_GOT_LOAD then
    readGOT rd "X86_64_RELOC_GOT_LOAD" reloc srcAddr (content.setWidth 32)
  else if reloc.r_type = X86_64_RELOC_SUBTRACTOR then
    readSubtractor rd reloc next srcAddr content
  else .ok { reference := none }

end Reader
end Toolwhip.Ld64.Reloc.X86_64
