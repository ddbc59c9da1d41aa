import Toolwhip.Ld64.RelocsPpc
import Toolwhip.Ld64.RelocsX86
import Toolwhip.Ld64.RelocsX8664

/-! # What addObjectRelocs pushes

Every `Writer<A>::addObjectRelocs` pushes entries to the back of `fSectionRelocs` and returns their
number; the vector is reversed later. Here an entry is still known to be scattered or not. -/

namespace Toolwhip.Ld64.Reloc.Fixups
set_option autoImplicit false

/-- A `macho_relocation_info` or a `macho_scattered_relocation_info`. -/
inductive Entry where
  | plain (address symbolnum : BitVec 32) (pcrel : Bool) (length : BitVec 2) (isExtern : Bool)
    (type : BitVec 4)
  | scattered (address : BitVec 32) (pcrel : Bool) (length : BitVec 2) (type : BitVec 4)
    (value : BitVec 32)
  deriving DecidableEq

namespace Entry

def r_type : Entry → BitVec 4
  | plain _ _ _ _ _ type => type
  | scattered _ _ _ type _ => type

def r_address : Entry → BitVec 32
  | plain address _ _ _ _ _ => address
  | scattered address _ _ _ _ => address

def r_length : Entry → BitVec 2
  | plain _ _ _ length _ _ => length
  | scattered _ _ length _ _ => length

end Entry

/-- `set_r_address` of a scattered entry throws. -/
def scatteredEntry (address : BitVec 32) (pcrel : Bool) (length : BitVec 2) (type : BitVec 4)
    (value : BitVec 32) : Except WriteError Entry :=
  if 0x00FFFFFF < address then .error (.thrown "scattered reloc r_address too large")
  else .ok (.scattered address pcrel length type value)

abbrev Pushed := List Entry × BitVec 32

variable (w : Writer)

/-! ## x86_64 -/

namespace X86_64
open Reloc.X86_64

def diffEntries (atom : Atom) (ref : Ref) (num : BitVec 32) (length : BitVec 2) :
    Except WriteError Pushed := do
  let fromExternal := makesExternalRelocatableReference ref.getFromTarget
  let fromSymbolIndex ← w.symbolnum fromExternal ref.getFromTarget
  let reloc1 := Entry.plain (Writer.relocAddress atom ref) num false length
    (makesExternalRelocatableReference ref.getTarget) X86_64_RELOC_UNSIGNED
  let reloc2 := Entry.plain (Writer.relocAddress atom ref) fromSymbolIndex false length fromExternal
    X86_64_RELOC_SUBTRACTOR
  return ([reloc1, reloc2], 2)

def oneEntry (atom : Atom) (ref : Ref) (num : BitVec 32) (pcrel : Bool) (length : BitVec 2)
    (type : BitVec 4) : Except WriteError Pushed :=
  .ok ([.plain (Writer.relocAddress atom ref) num pcrel length
    (makesExternalRelocatableReference ref.getTarget) type], 1)

def addObjectRelocs (atom : Atom) (ref : Ref) : Except WriteError Pushed := do
  let num ← w.symbolnum (makesExternalRelocatableReference ref.getTarget) ref.getTarget
  match ref.getKind with
  | .kNoFixUp | .kFollowOn | .kGroupSubordinate => .ok ([], 0)
  | .kPointer | .kPointerWeakImport => oneEntry atom ref num false 3 X86_64_RELOC_UNSIGNED
  | .kPointerDiff32 => diffEntries w atom ref num 2
  | .kPointerDiff => diffEntries w atom ref num 3
  | .kBranchPCRel32 | .kBranchPCRel32WeakImport | .kDtraceProbeSite | .kDtraceIsEnabledSite =>
    oneEntry atom ref num true 2 X86_64_RELOC_BRANCH
  | .kPCRel32 => oneEntry atom ref num true 2 X86_64_RELOC_SIGNED
  | .kPCRel32_1 => oneEntry atom ref num true 2 X86_64_RELOC_SIGNED_1
  | .kPCRel32_2 => oneEntry atom ref num true 2 X86_64_RELOC_SIGNED_2
  | .kPCRel32_4 => oneEntry atom ref num true 2 X86_64_RELOC_SIGNED_4
  | .kBranchPCRel8 => oneEntry atom ref num true 0 X86_64_RELOC_BRANCH
  | .kPCRel32GOT | .kPCRel32GOTWeakImport => oneEntry atom ref num true 2 X86_64_RELOC_GOT
  | .kPCRel32GOTLoad | .kPCRel32GOTLoadWeakImport =>
    oneEntry atom ref num true 2 X86_64_RELOC_GOT_LOAD
  | .kDtraceTypeReference | .kDtraceProbe => .ok ([], 0)

end X86_64

section Generic
variable {Kinds : Type}

/-- Scattered where the target is local and the target offset is not zero. -/
def targetEntry (atom : Atom) (ref : BoundReference Kinds) (num : BitVec 32) (pcrel : Bool)
    (length : BitVec 2) (type : BitVec 4) : Except WriteError Pushed := do
  let reloc1 ←
    if !w.makesExternalRelocatableReference ref.getTarget && ref.getTargetOffset != 0 then
      scatteredEntry (Writer.relocAddress atom ref) pcrel length type ref.getTarget.address32
    else
      .ok (Entry.plain (Writer.relocAddress atom ref) num pcrel length
        (w.makesExternalRelocatableReference ref.getTarget) type)
  return ([reloc1], 1)

def diffEntries (atom : Atom) (ref : BoundReference Kinds) (length : BitVec 2)
    (local_sectdiff sectdiff pair : BitVec 4) : Except WriteError Pushed := do
  let sreloc1 ← scatteredEntry (Writer.relocAddress atom ref) false length
    (if ref.getTarget.getScope = .scopeTranslationUnit then local_sectdiff else sectdiff)
    ref.getTarget.address32
  let sreloc2 ← scatteredEntry 0 false length pair
    ((ref.getFromTarget.getAddress + ref.getFromTargetOffset).setWidth 32)
  return ([sreloc2, sreloc1], 2)

end Generic

namespace X86
open Reloc.X86

def diff (atom : Atom) (ref : Ref) (length : BitVec 2) : Except WriteError Pushed :=
  diffEntries atom ref length GENERIC_RELOC_LOCAL_SECTDIFF GENERIC_RELOC_SECTDIFF GENERIC_RELOC_PAIR

def addObjectRelocs (atom : Atom) (ref : Ref) : Except WriteError Pushed := do
  let num ← w.symbolnum (w.makesExternalRelocatableReference ref.getTarget) ref.getTarget
  match ref.getKind with
  | .kNoFixUp | .kFollowOn | .kGroupSubordinate => .ok ([], 0)
  | .kPointer | .kPointerWeakImport | .kAbsolute32 =>
    targetEntry w atom ref num false 2 GENERIC_RELOC_VANILLA
  | .kPointerDiff16 => diff atom ref 1
  | .kPointerDiff => diff atom ref 2
  | .kPCRel8 => targetEntry w atom ref num true 0 GENERIC_RELOC_VANILLA
  | .kPCRel16 => targetEntry w atom ref num true 1 GENERIC_RELOC_VANILLA
  | .kPCRel32WeakImport | .kPCRel32 | .kDtraceProbeSite | .kDtraceIsEnabledSite =>
    targetEntry w atom ref num true 2 GENERIC_RELOC_VANILLA
  | .kDtraceTypeReference | .kDtraceProbe => .ok ([], 0)

end X86

namespace Arm

inductive ReferenceKinds where
  | kNoFixUp
  | kFollowOn
  | kGroupSubordinate
  | kPointer
  | kPointerWeakImport
  | kPointerDiff
  | kReadOnlyPointer
  | kBranch24
  | kBranch24WeakImport
  | kThumbBranch22
  | kThumbBranch22WeakImport
  | kDtraceProbe
  | kDtraceProbeSite
  | kDtraceIsEnabledSite
  | kDtraceTypeReference
  deriving DecidableEq, Repr

def ARM_RELOC_VANILLA : BitVec 4 := 0
def ARM_RELOC_PAIR : BitVec 4 := 1
def ARM_RELOC_SECTDIFF : BitVec 4 := 2
def ARM_RELOC_LOCAL_SECTDIFF : BitVec 4 := 3
def ARM_RELOC_BR24 : BitVec 4 := 5
def ARM_THUMB_RELOC_BR22 : BitVec 4 := 6

abbrev Ref := BoundReference ReferenceKinds

def addObjectRelocs (atom : Atom) (ref : Ref) : Except WriteError Pushed := do
  let num ← w.symbolnum (w.makesExternalRelocatableReference ref.getTarget) ref.getTarget
  match ref.getKind with
  | .kNoFixUp | .kFollowOn | .kGroupSubordinate => .ok ([], 0)
  | .kPointer | .kReadOnlyPointer | .kPointerWeakImport =>
    targetEntry w atom ref num false 2 ARM_RELOC_VANILLA
  | .kPointerDiff =>
    diffEntries atom ref 2 ARM_RELOC_LOCAL_SECTDIFF ARM_RELOC_SECTDIFF ARM_RELOC_PAIR
  | .kBranch24WeakImport | .kBranch24 | .kDtraceProbeSite | .kDtraceIsEnabledSite =>
    targetEntry w atom ref num true 2 ARM_RELOC_BR24
  | .kThumbBranch22WeakImport | .kThumbBranch22 =>
    targetEntry w atom ref num true 2 ARM_THUMB_RELOC_BR22
  | .kDtraceTypeReference | .kDtraceProbe => .ok ([], 0)

end Arm

/-! ## ppc and ppc64 -/

namespace Ppc
open Reloc.Ppc

/-- A `pint_t` of 32 or of 64 bits. -/
def pint (ptrSize : BitVec 2) (x : BitVec 64) : BitVec 64 :=
  if ptrSize = 3 then x else (x.setWidth 32).setWidth 64

def entry (atom : Atom) (ref : Ref) (num : BitVec 32) (scattered pcrel : Bool)
    (length : BitVec 2) (type : BitVec 4) : Except WriteError Entry :=
  if scattered then
    scatteredEntry (Writer.relocAddress atom ref) pcrel length type ref.getTarget.address32
  else
    .ok (.plain (Writer.relocAddress atom ref) num pcrel length
      (w.makesExternalRelocatableReference ref.getTarget) type)

def pointer (ptrSize : BitVec 2) (atom : Atom) (ref : Ref) (num : BitVec 32) :
    Except WriteError Pushed := do
  let reloc1 ← entry w atom ref num (!w.makesExternalRelocatableReference ref.getTarget &&
    ref.getTarget.getSize ≤ ref.getTargetOffset) false ptrSize PPC_RELOC_VANILLA
  return ([reloc1], 1)

def branch (atom : Atom) (ref : Ref) (num : BitVec 32) (type : BitVec 4) :
    Except WriteError Pushed := do
  let reloc1 ← entry w atom ref num (isOffLocal w ref) true 2 type
  return ([reloc1], 1)

def diff (atom : Atom) (ref : Ref) (length : BitVec 2) : Except WriteError Pushed :=
  diffEntries atom ref length PPC_RELOC_LOCAL_SECTDIFF PPC_RELOC_SECTDIFF PPC_RELOC_PAIR

def toAddr (ptrSize : BitVec 2) (ref : Ref) : BitVec 64 :=
  pint ptrSize (ref.getTarget.getAddress + ref.getTargetOffset)

def fromAddr (ptrSize : BitVec 2) (atom : Atom) (ref : Ref) : BitVec 64 :=
  pint ptrSize (atom.getAddress + ref.getFromTargetOffset)

def displacement (ptrSize : BitVec 2) (atom : Atom) (ref : Ref) : BitVec 64 :=
  pint ptrSize (toAddr ptrSize ref - fromAddr ptrSize atom ref)

def picBase (ptrSize : BitVec 2) (atom : Atom) (ref : Ref) (type : BitVec 4) (half : BitVec 64) :
    Except WriteError Pushed := do
  let sreloc1 ← scatteredEntry (Writer.relocAddress atom ref) false 2 type ref.getTarget.address32
  let sreloc2 ← scatteredEntry ((half &&& 0xFFFF).setWidth 32) false 2 PPC_RELOC_PAIR
    ((fromAddr ptrSize atom ref).setWidth 32)
  return ([sreloc2, sreloc1], 2)

def abs (atom : Atom) (ref : Ref) (num : BitVec 32) (type : BitVec 4) (half : BitVec 64) :
    Except WriteError Pushed := do
  let reloc1 ← entry w atom ref num (isOffLocal w ref) false 2 type
  return ([.plain (half.setWidth 32) 0 false 2 false PPC_RELOC_PAIR, reloc1], 2)

def absValue (ptrSize : BitVec 2) (ref : Ref) : BitVec 64 :=
  if w.makesExternalRelocatableReference ref.getTarget then ref.getTargetOffset
  else toAddr ptrSize ref

/-- `ptrSize` is what `getRelocPointerSize` returns. -/
def addObjectRelocs_powerpc (ptrSize : BitVec 2) (atom : Atom) (ref : Ref) :
    Except WriteError Pushed := do
  let num ← w.symbolnum (w.makesExternalRelocatableReference ref.getTarget) ref.getTarget
  match ref.getKind with
  | .kNoFixUp | .kFollowOn | .kGroupSubordinate => .ok ([], 0)
  | .kPointer | .kPointerWeakImport => pointer w ptrSize atom ref num
  | .kPointerDiff16 => diff atom ref 1
  | .kPointerDiff32 => diff atom ref 2
  | .kPointerDiff64 => diff atom ref 3
  | .kBranch24WeakImport | .kBranch24 | .kDtraceProbeSite | .kDtraceIsEnabledSite =>
    branch w atom ref num PPC_RELOC_BR24
  | .kBranch14 => branch w atom ref num PPC_RELOC_BR14
  | .kPICBaseLow16 =>
    picBase ptrSize atom ref PPC_RELOC_LO16_SECTDIFF (displacement ptrSize atom ref >>> 16)
  | .kPICBaseLow14 =>
    picBase ptrSize atom ref PPC_RELOC_LO14_SECTDIFF (displacement ptrSize atom ref >>> 16)
  | .kPICBaseHigh16 =>
    picBase ptrSize atom ref PPC_RELOC_HA16_SECTDIFF (displacement ptrSize atom ref)
  | .kAbsLow14 => abs w atom ref num PPC_RELOC_LO14 (absValue w ptrSize ref >>> 16)
  | .kAbsLow16 => abs w atom ref num PPC_RELOC_LO16 (absValue w ptrSize ref >>> 16)
  | .kAbsHigh16 => abs w atom ref num PPC_RELOC_HI16 (absValue w ptrSize ref &&& 0xFFFF)
  | .kAbsHigh16AddLow => abs w atom ref num PPC_RELOC_HA16 (absValue w ptrSize ref &&& 0xFFFF)
  | .kDtraceTypeReference | .kDtraceProbe => .ok ([], 0)

end Ppc

inductive Architecture where
  | ppc
  | ppc64
  | x86
  | x86_64
  | arm
  deriving DecidableEq, Repr

namespace Architecture

def Kinds : Architecture → Type
  | ppc => Reloc.Ppc.ReferenceKinds
  | ppc64 => Reloc.Ppc.ReferenceKinds
  | x86 => Reloc.X86.ReferenceKinds
  | x86_64 => Reloc.X86_64.ReferenceKinds
  | arm => Arm.ReferenceKinds

def isNoFixUp : (A : Architecture) → A.Kinds → Bool
  | ppc => fun kind : Reloc.Ppc.ReferenceKinds => kind == .kNoFixUp
  | ppc64 => fun kind : Reloc.Ppc.ReferenceKinds => kind == .kNoFixUp
  | x86 => fun kind : Reloc.X86.ReferenceKinds => kind == .kNoFixUp
  | x86_64 => fun kind : Reloc.X86_64.ReferenceKinds => kind == .kNoFixUp
  | arm => fun kind : Arm.ReferenceKinds => kind == .kNoFixUp

def pointerLength : Architecture → BitVec 2
  | ppc64 | x86_64 => 3
  | ppc | x86 | arm => 2

def addObjectRelocs (w : Writer) : (A : Architecture) → Atom → BoundReference A.Kinds →
    Except WriteError Pushed
  | ppc, atom, ref => Ppc.addObjectRelocs_powerpc w 2 atom ref
  | ppc64, atom, ref => Ppc.addObjectRelocs_powerpc w 3 atom ref
  | x86, atom, ref => X86.addObjectRelocs w atom ref
  | x86_64, atom, ref => X86_64.addObjectRelocs w atom ref
  | arm, atom, ref => Arm.addObjectRelocs w atom ref

end Architecture

end Toolwhip.Ld64.Reloc.Fixups
