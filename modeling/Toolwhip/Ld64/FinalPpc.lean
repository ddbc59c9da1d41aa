import Toolwhip.Lib.BranchFields
import Toolwhip.Ld64.FinalImage
import Toolwhip.Ld64.RelocsPpcRoundTrip

/-! # PowerPC: fixUpReference_powerpc for both kinds of output

One function does the fix-ups of ppc and ppc64, in a final linked image and in an object file. -/

namespace Toolwhip.Ld64.Reloc.Ppc
open Lib.BranchFields
set_option autoImplicit false

/-- `finalLinkedImage`, and what is asked of the writer. In a final image a section can be made of
lazy pointers or of lazy dylib pointers. -/
inductive LinkedImage where
  | final (w : FinalWriter) (inLazyPointers : Bool)
  | relocatable (w : Writer)

namespace LinkedImage
variable {inAtom : Atom} {ref : Ref}

def finalLinkedImage : LinkedImage → Bool
  | final _ _ => true
  | relocatable _ => false

def relocateableExternal (ref : Ref) : LinkedImage → Bool
  | final w _ => w.relocationNeededInFinalLinkedImage ref.getTarget = .kRelocExternal
  | relocatable w => w.makesExternalRelocatableReference ref.getTarget

def prebind : LinkedImage → Bool
  | final w _ => w.prebind
  | relocatable w => w.prebind

def setP (is64 : Bool) (content value : BitVec 64) : BitVec 64 :=
  if is64 then value else set32 content (value.setWidth 32)

variable (image : LinkedImage)

/-- What a pointer is filled with outside of the sections of pointers, `none` where it is left
alone. -/
def plainPointer (ref : Ref) : Option (BitVec 64) :=
  if image.relocateableExternal ref then
    if image.prebind then
      match ref.getTarget.getDefinitionKind with
      | .kExternalDefinition | .kExternalWeakDefinition => some ref.getTargetOffset
      | .kTentativeDefinition | .kRegularDefinition | .kWeakDefinition => some (targetAddress ref)
      | .kAbsoluteSymbol => none
    else some ref.getTargetOffset
  else if image.finalLinkedImage || ref.getTarget.getDefinitionKind != .kTentativeDefinition then
    some (targetAddress ref)
  else some ref.getTargetOffset

def pointer (ref : Ref) (inAtom : Atom) : Option (BitVec 64) :=
  match image with
  | final _ inLazyPointers =>
    if inLazyPointers then
      if isDylibSymbol ref.getTarget.getDefinitionKind then some 0 else some (targetAddress ref)
    else image.plainPointer ref
  | relocatable w =>
    if inAtom.fAllNonLazyPointers then
      some (if w.indirectSymbolIsLocal ref then targetAddress ref else 0)
    else image.plainPointer ref

def branchDisplacement (ref : Ref) (inAtom : Atom) : BitVec 64 :=
  let displacement := targetAddress ref - (inAtom.getAddress + ref.getFixUpOffset)
  if image.relocateableExternal ref then displacement - ref.getTarget.getAddress else displacement

def absoluteAddress (ref : Ref) : BitVec 64 :=
  if image.relocateableExternal ref && !image.finalLinkedImage then
    targetAddress ref - ref.getTarget.getAddress
  else targetAddress ref

def absoluteHighAddress (ref : Ref) : Except WriteError (BitVec 64) :=
  if image.relocateableExternal ref then
    if image.finalLinkedImage then
      match ref.getTarget.getDefinitionKind with
      | .kExternalDefinition | .kExternalWeakDefinition =>
        .error (.thrown "absolute address to symbol in a different linkage unit not supported")
      | .kTentativeDefinition | .kRegularDefinition | .kWeakDefinition => .ok (targetAddress ref)
      | .kAbsoluteSymbol => .ok ref.getTarget.getSectionOffset
    else .ok (targetAddress ref - ref.getTarget.getAddress)
  else .ok (targetAddress ref)

/-- `content` is what is at the fix-up. -/
def fixUpReference_powerpc (is64 : Bool) (ref : Ref) (inAtom : Atom) (content : BitVec 64) :
    Except WriteError (BitVec 64) :=
  let instruction := get32 content
  let displacement := targetAddress ref - picBaseAddress ref
  let toAddressZero := ref.getTargetOffset - (inAtom.getAddress + ref.getFixUpOffset)
  match ref.getKind with
  | .kNoFixUp | .kFollowOn | .kGroupSubordinate => .ok content
  | .kPointerWeakImport | .kPointer =>
    match image.pointer ref inAtom with
    | some value => .ok (setP is64 content value)
    | none => .ok content
  | .kPointerDiff64 => .ok (setP is64 content displacement)
  | .kPointerDiff32 => .ok (set32 content (displacement.setWidth 32))
  | .kPointerDiff16 => .ok (set16 content (displacement.setWidth 16))
  | .kDtraceProbeSite =>
    if image.finalLinkedImage then .ok (set32 content 0x60000000)
    else .ok (set32 content (branchInstruction instruction toAddressZero))
  | .kDtraceIsEnabledSite =>
    if image.finalLinkedImage then .ok (set32 content 0x38600000)
    else .ok (set32 content (branchInstruction instruction toAddressZero))
  | .kBranch24WeakImport | .kBranch24 =>
    if !image.relocateableExternal ref &&
        outOfRange (image.branchDisplacement ref inAtom) 0x00FFFFFF then
      .error (.thrown "bl out of range (max is +/-16M)")
    else .ok (set32 content (branchInstruction instruction (image.branchDisplacement ref inAtom)))
  | .kBranch14 =>
    if outOfRange (image.branchDisplacement ref inAtom) 0x0000FFFF then
      .error (.thrown "bcc out of range (max is +/-64K)")
    else
      .ok (set32 content (instruction &&& 0xFFFF0003 |||
        (image.branchDisplacement ref inAtom).setWidth 32 &&& 0x0000FFFC))
  | .kPICBaseLow16 =>
    if picBaseOutOfRange displacement then .error (.thrown "32-bit pic-base out of range")
    else .ok (set32 content (setLow16 instruction (displacement.setWidth 16)))
  | .kPICBaseLow14 =>
    if picBaseOutOfRange displacement then .error (.thrown "32-bit pic-base out of range")
    else if displacement &&& 0x3 ≠ 0 then
      .error (.thrown "bad offset for lo14 instruction pic-base fix-up")
    else .ok (set32 content (setLow14 instruction (displacement.setWidth 16 &&& 0xFFFC)))
  | .kPICBaseHigh16 =>
    if picBaseOutOfRange displacement then .error (.thrown "32-bit pic-base out of range")
    else .ok (set32 content (setLow16 instruction (adjustedHigh displacement)))
  | .kAbsLow16 =>
    .ok (set32 content (setLow16 instruction ((image.absoluteAddress ref).setWidth 16)))
  | .kAbsLow14 =>
    if image.absoluteAddress ref &&& 0x3 ≠ 0 then
      .error (.thrown "bad address for absolute lo14 instruction fix-up")
    else .ok (set32 content (setLow14 instruction ((image.absoluteAddress ref).setWidth 16)))
  | .kAbsHigh16 => do
    let targetAddr ← image.absoluteHighAddress ref
    .ok (set32 content (setLow16 instruction ((targetAddr >>> 16).setWidth 16)))
  | .kAbsHigh16AddLow => do
    let targetAddr ← image.absoluteHighAddress ref
    .ok (set32 content (setHigh16AddLow instruction targetAddr))
  | .kDtraceTypeReference | .kDtraceProbe => .ok content

section Relocatable
variable {w : Writer} {ref : Ref} {inAtom : Atom}

theorem pointer_relocatable : (relocatable w).pointer ref inAtom = pointerContent w ref inAtom := by
  unfold pointer pointerContent plainPointer
  by_cases hexternal : w.makesExternalRelocatableReference ref.getTarget = true <;>
    by_cases hprebind : w.prebind = true <;> cases ref.getTarget.getDefinitionKind <;>
    simp [relocateableExternal, prebind, finalLinkedImage, hexternal, hprebind]

theorem branchDisplacement_relocatable :
    (relocatable w).branchDisplacement ref inAtom = Ppc.branchDisplacement w ref inAtom := by
  unfold branchDisplacement Ppc.branchDisplacement relocatableAddress relocateableExternal
  dsimp only
  split
  · bv_omega
  · rfl

theorem absoluteAddress_relocatable :
    (relocatable w).absoluteAddress ref = relocatableAddress w ref := by
  unfold absoluteAddress relocatableAddress
  simp [relocateableExternal, finalLinkedImage]

theorem absoluteHighAddress_relocatable :
    (relocatable w).absoluteHighAddress ref = .ok (relocatableAddress w ref) := by
  unfold absoluteHighAddress relocatableAddress relocateableExternal finalLinkedImage
  dsimp only
  split
  · rfl
  · rfl

theorem fixUpReference_relocatable (content : BitVec 64) :
    (relocatable w).fixUpReference_powerpc false ref inAtom content =
      Ppc.fixUpReference_powerpc w ref inAtom content := by
  unfold fixUpReference_powerpc Ppc.fixUpReference_powerpc
  rw [pointer_relocatable, branchDisplacement_relocatable, absoluteAddress_relocatable,
    absoluteHighAddress_relocatable]
  cases ref.getKind <;> rfl

end Relocatable

/-! ## Where a branch goes -/

/-- The signed displacement of a branch, a field of `n` bits above two that are zero. -/
def fieldDisplacement (n : Nat) (instruction : BitVec 32) : BitVec 64 :=
  (instruction.extractLsb' 2 n ++ 0#2).signExtend 64

def isBranch : ReferenceKinds → Bool
  | .kBranch24 | .kBranch24WeakImport | .kBranch14 => true
  | _ => false

/-- The bits of the field of a `bc`, or of a `bl`. -/
def fieldBits : ReferenceKinds → Nat
  | .kBranch14 => 14
  | _ => 24

def branchLimit : ReferenceKinds → Int
  | .kBranch14 => 0x0000FFFF
  | _ => 0x00FFFFFF

/-- A `bl` to an external target is not checked. -/
def branchRefused (ref : Ref) (inAtom : Atom) : Bool :=
  (ref.getKind == .kBranch14 || !image.relocateableExternal ref) &&
    outOfRange (image.branchDisplacement ref inAtom) (branchLimit ref.getKind)

def place (ref : Ref) (inAtom : Atom) : BitVec 64 := inAtom.getAddress + ref.getFixUpOffset

section Branch
variable {image} {is64 : Bool} {ref : Ref} {inAtom : Atom} {content : BitVec 64}

theorem branchInstruction_field (instruction : BitVec 32) (displacement : BitVec 64) :
    (branchInstruction instruction displacement).extractLsb' 2 24 =
      displacement.extractLsb' 2 24 := by
  have hfield := @extract_replaced 24 2 6 instruction (displacement.setWidth 32)
  rw [BitVec.extractLsb'_setWidth_of_le (by decide)] at hfield
  exact hfield

theorem conditional_field (instruction : BitVec 32) (displacement : BitVec 64) :
    (instruction &&& 0xFFFF0003 ||| displacement.setWidth 32 &&& 0x0000FFFC).extractLsb' 2 14 =
      displacement.extractLsb' 2 14 := by
  have hfield := @extract_replaced 14 2 16 instruction (displacement.setWidth 32)
  rw [BitVec.extractLsb'_setWidth_of_le (by decide)] at hfield
  exact hfield

theorem fixUpReference_branch (is64 : Bool) (content : BitVec 64)
    (hkind : isBranch ref.getKind = true) :
    ∃ message new, image.fixUpReference_powerpc is64 ref inAtom content =
        (if image.branchRefused ref inAtom then .error (.thrown message)
          else .ok (set32 content new)) ∧
      new.extractLsb' 2 (fieldBits ref.getKind) =
        (image.branchDisplacement ref inAtom).extractLsb' 2 (fieldBits ref.getKind) := by
  unfold fixUpReference_powerpc branchRefused
  cases hk : ref.getKind <;> rw [hk] at hkind <;> cases hkind
  case kBranch24 => exact ⟨_, _, rfl, branchInstruction_field _ _⟩
  case kBranch24WeakImport => exact ⟨_, _, rfl, branchInstruction_field _ _⟩
  case kBranch14 => exact ⟨_, _, rfl, conditional_field _ _⟩

end Branch

def BranchReaches (is64 : Bool) (ref : Ref) (inAtom : Atom) (content : BitVec 64) : Prop :=
  ∀ content', image.fixUpReference_powerpc is64 ref inAtom content = .ok content' →
    place ref inAtom + fieldDisplacement (fieldBits ref.getKind) (get32 content') =
      targetAddress ref

/-- An accepted branch is at a multiple of four, it fits the field, and the address of an external
target, that is taken off, changes none of the bits of the field. -/
def BranchFits (ref : Ref) (inAtom : Atom) : Prop :=
  image.branchRefused ref inAtom = false →
    Aligned 2 (place ref inAtom) ∧
      FitsBits (fieldBits ref.getKind + 2) (targetAddress ref - place ref inAtom) ∧
      (image.relocateableExternal ref = true →
        (-ref.getTarget.getAddress).extractLsb' 2 (fieldBits ref.getKind) = 0)

theorem fieldBits_le (kind : ReferenceKinds) : 0 < fieldBits kind ∧ fieldBits kind ≤ 24 := by
  cases kind <;> decide

/-- The address that is taken off leaves the field alone if it has none of its bits. -/
theorem branchDisplacement_field {len : Nat} (hlen : len ≤ 62)
    (hd : Aligned 2 (targetAddress ref - place ref inAtom)) :
    (targetAddress ref - place ref inAtom).extractLsb' 2 len =
        (image.branchDisplacement ref inAtom).extractLsb' 2 len ↔
      (image.relocateableExternal ref = true →
        (-ref.getTarget.getAddress).extractLsb' 2 len = 0) := by
  change _ = (if _ then targetAddress ref - place ref inAtom - _
    else targetAddress ref - place ref inAtom).extractLsb' 2 len ↔ _
  cases image.relocateableExternal ref with
  | false => simp
  | true =>
    rw [if_pos rfl, BitVec.sub_eq_add_neg _ ref.getTarget.getAddress, extract_add_of_aligned hlen hd]
    constructor
    · intro h _
      exact BitVec.add_right_eq_self.mp h.symm
    · intro h
      rw [h rfl]
      exact (BitVec.add_zero _).symm

theorem fieldDisplacement_reaches {kind : ReferenceKinds} {address target : BitVec 64}
    (instruction : BitVec 32) : address + fieldDisplacement (fieldBits kind) instruction = target ↔
      FitsBits (fieldBits kind + 2) (target - address) ∧ Aligned 2 (target - address) ∧
        (target - address).extractLsb' 2 (fieldBits kind) =
          instruction.extractLsb' 2 (fieldBits kind) := by
  have hbits := fieldBits_le kind
  have hfield := @signExtend_field_iff (target - address) _ 2 hbits.1 (by omega)
    (instruction.extractLsb' 2 (fieldBits kind))
  unfold Aligned
  rw [← hfield]
  unfold fieldDisplacement
  constructor
  · intro h
    rw [← h, BitVec.add_comm, BitVec.add_sub_cancel]
  · intro h
    rw [h, BitVec.add_comm, BitVec.sub_add_cancel]

theorem aligned_sub_iff {target address : BitVec 64} (htarget : Aligned 2 target) :
    Aligned 2 (target - address) ↔ Aligned 2 address := by
  constructor
  · intro h
    have haddress := htarget.sub (by decide) h
    rw [show target - (target - address) = address by bv_omega] at haddress
    exact haddress
  · intro h
    exact htarget.sub (by decide) h

/-- A branch goes to its target exactly if its displacement, with the address of an external target
taken off, is one of the numbers that its field can hold. -/
theorem branchReaches_iff (is64 : Bool) (ref : Ref) (inAtom : Atom) (content : BitVec 64)
    (hkind : isBranch ref.getKind = true) (htarget : Aligned 2 (targetAddress ref)) :
    image.BranchReaches is64 ref inAtom content ↔ image.BranchFits ref inAtom := by
  obtain ⟨message, new, hfix, hnew⟩ := @fixUpReference_branch image ref inAtom is64 content hkind
  have hbits := fieldBits_le ref.getKind
  unfold BranchReaches BranchFits
  rw [hfix]
  cases image.branchRefused ref inAtom with
  | true => simp
  | false =>
    have hreach := @fieldDisplacement_reaches ref.getKind (place ref inAtom) (targetAddress ref) new
    rw [hnew, aligned_sub_iff htarget] at hreach
    constructor
    · intro h _
      have hnewReaches := h _ rfl
      rw [get32_set32] at hnewReaches
      obtain ⟨hfits, haligned, hfield⟩ := hreach.mp hnewReaches
      exact ⟨haligned, hfits, (image.branchDisplacement_field (by omega)
        ((aligned_sub_iff htarget).mpr haligned)).mp hfield⟩
    · intro h content' hcontent
      obtain ⟨haligned, hfits, hexternal⟩ := h rfl
      rw [← Except.ok.inj hcontent, get32_set32]
      exact hreach.mpr ⟨hfits, haligned, (image.branchDisplacement_field (by omega)
        ((aligned_sub_iff htarget).mpr haligned)).mpr hexternal⟩

/-- A branch to a function of the same image is right if it is a `bl`; a `bc` is right up to 32K. -/
theorem branchFits_local {ref : Ref} {inAtom : Atom}
    (hlocal : image.relocateableExternal ref = false) (hplace : Aligned 2 (place ref inAtom)) :
    image.BranchFits ref inAtom ↔
      (image.branchRefused ref inAtom = false → ref.getKind = .kBranch14 →
        FitsBits 16 (targetAddress ref - place ref inAtom)) := by
  unfold BranchFits
  rw [hlocal]
  constructor
  · intro h hrefused hkind
    have hfits := (h hrefused).2.1
    rw [hkind] at hfits
    exact hfits
  · intro h hrefused
    refine ⟨hplace, ?_, fun hexternal => absurd hexternal Bool.false_ne_true⟩
    by_cases hkind : ref.getKind = .kBranch14
    · rw [hkind]
      exact h hrefused hkind
    · have hlimit : branchLimit ref.getKind = 0x00FFFFFF ∧ fieldBits ref.getKind = 24 := by
        cases hk : ref.getKind <;> first | exact absurd hk hkind | exact ⟨rfl, rfl⟩
      unfold branchRefused branchDisplacement at hrefused
      rw [hlocal, hlimit.1] at hrefused
      have hrange := outOfRange_false (by simpa using hrefused)
      rw [hlimit.2]
      unfold FitsBits place
      omega

/-- A `bc` or a `bl` at the address `0x1000`. -/
def branchRef (kind : ReferenceKinds) (address : BitVec 64) : Ref where
  getKind := kind
  fFixUpOffsetInSrc := 0
  getTarget := { pointer := 2, getName := some "_target", getAddress := address }
  fToTargetOffset := 0
  getFromTarget := { pointer := 0, getName := none, getAddress := 0 }
  fFromTargetOffset := 0

def branchAtom : Atom := { pointer := 1, getName := some "_brancher", getAddress := 0x1000 }

theorem conditional_reaches_target :
    (∃ content', (final {} false).fixUpReference_powerpc false (branchRef .kBranch14 0x2000)
      branchAtom 0x4182000000000000 = .ok content') ∧
    (final {} false).BranchReaches false (branchRef .kBranch14 0x2000) branchAtom
      0x4182000000000000 :=
  ⟨⟨_, rfl⟩, ((final {} false).branchReaches_iff false (branchRef .kBranch14 0x2000) branchAtom
    0x4182000000000000 rfl (by decide)).mpr (by unfold BranchFits FitsBits; decide)⟩

/-- A forward branch of 32K is written as a backward branch. -/
theorem conditional_misses_target : Aligned 2 (targetAddress (branchRef .kBranch14 0x9000)) ∧
      ¬ (final {} false).BranchReaches false (branchRef .kBranch14 0x9000) branchAtom
        0x4182000000000000 := by
  refine ⟨by decide, ?_⟩
  intro h
  have hreach := h _ rfl
  revert hreach
  decide

end LinkedImage
/-! ## PowerPC: the two halves of an address

An `addis` holds the high half of a displacement or of an address, and the instruction that uses
the register holds the low half, which has a sign. -/

open Lib.ThrowingFold Lib.SignedHalves

def picBaseDisplacement (ref : Ref) : BitVec 64 := targetAddress ref - picBaseAddress ref

def isPicBase : ReferenceKinds → Bool
  | .kPICBaseHigh16 | .kPICBaseLow16 | .kPICBaseLow14 => true
  | _ => false

def isLow14 : ReferenceKinds → Bool
  | .kPICBaseLow14 | .kAbsLow14 => true
  | _ => false

/-- The half that an instruction holds; the low two bits of one with a field of 14 bits are part of
its opcode. -/
def heldHalf (kind : ReferenceKinds) (instruction : BitVec 32) : BitVec 16 :=
  if isLow14 kind then instruction.setWidth 16 &&& 0xFFFC else instruction.setWidth 16

namespace LinkedImage

/-- Two references for the halves of one number. -/
structure IsPair (refHigh refLow : Ref) : Prop where
  kinds : refHigh.getKind = .kPICBaseHigh16 ∧
      (refLow.getKind = .kPICBaseLow16 ∨ refLow.getKind = .kPICBaseLow14) ∨
    refHigh.getKind = .kAbsHigh16AddLow ∧
      (refLow.getKind = .kAbsLow16 ∨ refLow.getKind = .kAbsLow14)
  target : refLow.getTarget = refHigh.getTarget
  targetOffset : refLow.fToTargetOffset = refHigh.fToTargetOffset
  fromTarget : refLow.getFromTarget = refHigh.getFromTarget
  fromTargetOffset : refLow.fFromTargetOffset = refHigh.fFromTargetOffset

variable (image : LinkedImage)

def splitValue (ref : Ref) : BitVec 64 :=
  if isPicBase ref.getKind then picBaseDisplacement ref else image.absoluteAddress ref

/-- Put together, the halves are the number: in the 64-bit registers of ppc64 if it is a displacement,
else modulo `2 ^ 32`. -/
def HalvesMean (is64 : Bool) (refHigh refLow : Ref) (atomHigh atomLow : Atom)
    (contentHigh contentLow : BitVec 64) : Prop :=
  ∀ contentHigh' contentLow',
    image.fixUpReference_powerpc is64 refHigh atomHigh contentHigh = .ok contentHigh' →
    image.fixUpReference_powerpc is64 refLow atomLow contentLow = .ok contentLow' →
    let high := heldHalf refHigh.getKind (get32 contentHigh')
    let low := heldHalf refLow.getKind (get32 contentLow')
    if is64 && isPicBase refHigh.getKind then sumHalves 64 high low = picBaseDisplacement refHigh
    else sumHalves 32 high low = (image.splitValue refHigh).setWidth 32

def BelowLastCarry (refHigh refLow : Ref) : Prop :=
  picBaseOutOfRange (picBaseDisplacement refHigh) = false →
    (isLow14 refLow.getKind = true → picBaseDisplacement refHigh &&& 0x3 = 0) →
    (picBaseDisplacement refHigh).toInt < 0x7FFF8000

theorem absoluteHighAddress_ok {ref : Ref} {address : BitVec 64}
    (h : image.absoluteHighAddress ref = .ok address) : image.absoluteAddress ref = address := by
  unfold absoluteHighAddress at h
  unfold absoluteAddress
  cases hexternal : image.relocateableExternal ref with
  | false =>
    rw [hexternal, if_neg Bool.false_ne_true] at h
    exact Except.ok.inj h
  | true =>
    rw [hexternal, if_pos rfl] at h
    cases image with
    | relocatable w => exact Except.ok.inj h
    | final w inLazyPointers =>
      cases hkind : ref.getTarget.getDefinitionKind
      case kAbsoluteSymbol =>
        unfold relocateableExternal FinalWriter.relocationNeededInFinalLinkedImage at hexternal
        rw [hkind] at hexternal
        cases hexternal
      all_goals
        rw [hkind] at h
        first | exact Except.ok.inj h | cases h

def halfOf (kind : ReferenceKinds) (x : BitVec 64) : BitVec 16 :=
  match kind with
  | .kPICBaseHigh16 | .kAbsHigh16AddLow => carriedHigh (x.setWidth 32)
  | _ => (x.setWidth 32).setWidth 16

def isSplit : ReferenceKinds → Bool
  | .kPICBaseHigh16 | .kPICBaseLow16 | .kPICBaseLow14 | .kAbsHigh16AddLow | .kAbsLow16
  | .kAbsLow14 => true
  | _ => false

section Held
variable {image} {is64 : Bool} {ref : Ref} {inAtom : Atom} {content content' : BitVec 64}
variable {kind : ReferenceKinds}

theorem held_setLow16 (h14 : isLow14 kind = false) (half : BitVec 16) :
    heldHalf kind (get32 (set32 content (setLow16 (get32 content) half))) = half := by
  unfold heldHalf
  rw [h14, if_neg Bool.false_ne_true]
  exact read_setLow16 content half

theorem held_setLow14 (h14 : isLow14 kind = true) {x : BitVec 64} (hx : x &&& 0x3 = 0) :
    heldHalf kind (get32 (set32 content (setLow14 (get32 content) (x.setWidth 16)))) =
      (x.setWidth 32).setWidth 16 := by
  have hread := congrArg (BitVec.setWidth 16) (read_setLow14 content hx)
  rw [BitVec.setWidth_and, BitVec.setWidth_setWidth_of_le _ (by decide), BitVec.setWidth_eq] at hread
  unfold heldHalf
  rw [h14, if_pos rfl]
  exact hread

theorem fixUp_split (hkind : isSplit ref.getKind = true)
    (h : image.fixUpReference_powerpc is64 ref inAtom content = .ok content') :
    heldHalf ref.getKind (get32 content') = halfOf ref.getKind (image.splitValue ref) := by
  unfold fixUpReference_powerpc at h
  unfold splitValue
  cases hk : ref.getKind <;> rw [hk] at hkind h <;> cases hkind <;> dsimp only at h
  case kPICBaseLow16 =>
    obtain ⟨-, rfl⟩ := ite_error_ok h
    exact (held_setLow16 rfl _).trans (low_setWidth _)
  case kPICBaseLow14 =>
    split at h
    · cases h
    split at h
    · cases h
    rename_i haligned
    have hx : (targetAddress ref - picBaseAddress ref) &&& 0x3 = 0 := not_not.mp haligned
    rw [← Except.ok.inj h, low14_of_aligned hx]
    exact held_setLow14 rfl hx
  case kPICBaseHigh16 =>
    obtain ⟨-, rfl⟩ := ite_error_ok h
    exact (held_setLow16 rfl _).trans (adjustedHigh_eq _)
  case kAbsLow16 =>
    rw [← Except.ok.inj h]
    exact (held_setLow16 rfl _).trans (low_setWidth _)
  case kAbsLow14 =>
    split at h
    · cases h
    rename_i haligned
    rw [← Except.ok.inj h]
    exact held_setLow14 rfl (not_not.mp haligned)
  case kAbsHigh16AddLow =>
    obtain ⟨address, haddress, hset⟩ := bind_eq_ok.mp h
    obtain rfl := image.absoluteHighAddress_ok haddress
    have hhigh := setHigh16AddLow_low (get32 content) (image.absoluteAddress ref)
    rw [adjustedHigh_eq] at hhigh
    rw [← Except.ok.inj hset]
    rw [get32_set32]
    exact hhigh

theorem fixUp_picBase (hkind : isPicBase ref.getKind = true) :
    (∃ content', image.fixUpReference_powerpc is64 ref inAtom content = .ok content') ↔
      picBaseOutOfRange (picBaseDisplacement ref) = false ∧
        (isLow14 ref.getKind = true → picBaseDisplacement ref &&& 0x3 = 0) := by
  unfold fixUpReference_powerpc
  change _ ↔ picBaseOutOfRange (targetAddress ref - picBaseAddress ref) = false ∧
    (_ → (targetAddress ref - picBaseAddress ref) &&& 0x3 = 0)
  generalize targetAddress ref - picBaseAddress ref = displacement
  cases hk : ref.getKind <;> rw [hk] at hkind <;> cases hkind <;> dsimp only <;>
    cases picBaseOutOfRange displacement <;>
    by_cases haligned : displacement &&& 3#64 = 0#64 <;> simp [isLow14, haligned]

end Held

section Pair
variable {image} {is64 : Bool} {refHigh refLow : Ref} (hpair : IsPair refHigh refLow)
include hpair

theorem IsPair.isPicBase_eq : isPicBase refLow.getKind = isPicBase refHigh.getKind := by
  rcases hpair.kinds with ⟨hhigh, hlow | hlow⟩ | ⟨hhigh, hlow | hlow⟩ <;> rw [hhigh, hlow] <;> rfl

theorem IsPair.isSplit : isSplit refHigh.getKind = true ∧ isSplit refLow.getKind = true := by
  rcases hpair.kinds with ⟨hhigh, hlow | hlow⟩ | ⟨hhigh, hlow | hlow⟩ <;> rw [hhigh, hlow] <;>
    exact ⟨rfl, rfl⟩

theorem IsPair.targetAddress_eq : targetAddress refLow = targetAddress refHigh := by
  unfold targetAddress BoundReference.getTargetOffset
  rw [hpair.target, hpair.targetOffset]

theorem IsPair.picBaseDisplacement_eq :
    picBaseDisplacement refLow = picBaseDisplacement refHigh := by
  unfold picBaseDisplacement picBaseAddress BoundReference.getFromTargetOffset
  rw [hpair.targetAddress_eq, hpair.fromTarget, hpair.fromTargetOffset]

theorem IsPair.splitValue_eq : image.splitValue refLow = image.splitValue refHigh := by
  unfold splitValue absoluteAddress relocateableExternal
  rw [hpair.isPicBase_eq, hpair.picBaseDisplacement_eq, hpair.targetAddress_eq, hpair.target]

theorem IsPair.halves (x : BitVec 64) : halfOf refHigh.getKind x = carriedHigh (x.setWidth 32) ∧
      halfOf refLow.getKind x = (x.setWidth 32).setWidth 16 := by
  rcases hpair.kinds with ⟨hhigh, hlow | hlow⟩ | ⟨hhigh, hlow | hlow⟩ <;> rw [hhigh, hlow] <;>
    exact ⟨rfl, rfl⟩

theorem IsPair.held {atomHigh atomLow : Atom}
    {contentHigh contentLow contentHigh' contentLow' : BitVec 64}
    (hhigh : image.fixUpReference_powerpc is64 refHigh atomHigh contentHigh = .ok contentHigh')
    (hlow : image.fixUpReference_powerpc is64 refLow atomLow contentLow = .ok contentLow') :
    heldHalf refHigh.getKind (get32 contentHigh') =
        carriedHigh ((image.splitValue refHigh).setWidth 32) ∧
      heldHalf refLow.getKind (get32 contentLow') =
        ((image.splitValue refHigh).setWidth 32).setWidth 16 := by
  constructor
  · rw [fixUp_split hpair.isSplit.1 hhigh, (hpair.halves _).1]
  · rw [fixUp_split hpair.isSplit.2 hlow, hpair.splitValue_eq, (hpair.halves _).2]

theorem IsPair.accepted (hbase : isPicBase refHigh.getKind = true) {atomHigh atomLow : Atom}
    (contentHigh contentLow : BitVec 64) :
    (picBaseOutOfRange (picBaseDisplacement refHigh) = false ∧
        (isLow14 refLow.getKind = true → picBaseDisplacement refHigh &&& 0x3 = 0)) ↔
      (∃ contentHigh', image.fixUpReference_powerpc is64 refHigh atomHigh contentHigh =
        .ok contentHigh') ∧
      ∃ contentLow', image.fixUpReference_powerpc is64 refLow atomLow contentLow =
        .ok contentLow' := by
  have hhigh14 : isLow14 refHigh.getKind = false := by
    rcases hpair.kinds with ⟨hhigh, -⟩ | ⟨hhigh, -⟩ <;> rw [hhigh] <;> rfl
  rw [fixUp_picBase hbase, fixUp_picBase (hpair.isPicBase_eq.trans hbase),
    hpair.picBaseDisplacement_eq, hhigh14]
  constructor
  · intro h
    exact ⟨⟨h.1, fun h14 => absurd h14 Bool.false_ne_true⟩, h⟩
  · intro h
    exact h.2

end Pair

/-- The halves of an accepted number are right, but those of a displacement in 64-bit registers only
up to 32K before the end of the range. -/
theorem halvesMean_iff (is64 : Bool) {refHigh refLow : Ref} (atomHigh atomLow : Atom)
    (contentHigh contentLow : BitVec 64) (hpair : IsPair refHigh refLow) :
    image.HalvesMean is64 refHigh refLow atomHigh atomLow contentHigh contentLow ↔
      (is64 = true → isPicBase refHigh.getKind = true → BelowLastCarry refHigh refLow) := by
  unfold HalvesMean
  cases hexact : is64 && isPicBase refHigh.getKind with
  | false =>
    apply iff_of_true
    · intro contentHigh' contentLow' hhigh hlow
      have hheld := hpair.held hhigh hlow
      rw [if_neg Bool.false_ne_true, hheld.1, hheld.2]
      exact sum_halves _
    · intro h64 hbase
      rw [h64, hbase] at hexact
      cases hexact
  | true =>
    obtain ⟨rfl, hbase⟩ := Bool.and_eq_true_iff.mp hexact
    have hvalue : image.splitValue refHigh = picBaseDisplacement refHigh := if_pos hbase
    have haccepted := @IsPair.accepted image true refHigh refLow hpair hbase atomHigh atomLow
      contentHigh contentLow
    have hbounds : picBaseOutOfRange (picBaseDisplacement refHigh) = false →
        -0x80000000 ≤ (picBaseDisplacement refHigh).toInt ∧
          (picBaseDisplacement refHigh).toInt ≤ 0x80000000 := outOfRange_false
    constructor
    · intro h _ _ hrange h14
      obtain ⟨⟨contentHigh', hhigh⟩, contentLow', hlow⟩ := haccepted.mp ⟨hrange, h14⟩
      have hsum := h _ _ hhigh hlow
      have hheld := hpair.held hhigh hlow
      rw [if_pos rfl, hheld.1, hheld.2, hvalue] at hsum
      exact (sum_eq_iff (hbounds hrange).1 (hbounds hrange).2).mp hsum
    · intro h contentHigh' contentLow' hhigh hlow
      obtain ⟨hrange, h14⟩ := haccepted.mpr ⟨⟨_, hhigh⟩, _, hlow⟩
      have hheld := hpair.held hhigh hlow
      rw [if_pos rfl, hheld.1, hheld.2, hvalue]
      exact (sum_eq_iff (hbounds hrange).1 (hbounds hrange).2).mpr (h rfl hbase hrange h14)

/-- A reference from the pic base `0x8000`. -/
def picRef (kind : ReferenceKinds) (address : BitVec 64) : Ref where
  getKind := kind
  fFixUpOffsetInSrc := 0
  getTarget := { pointer := 2, getName := some "_data", getAddress := address }
  fToTargetOffset := 0
  getFromTarget := { pointer := 1, getName := some "_function", getAddress := 0x8000 }
  fFromTargetOffset := 0

def picAtom : Atom := { pointer := 1, getName := some "_function", getAddress := 0x8000 }

theorem picRef_pair (address : BitVec 64) :
    IsPair (picRef .kPICBaseHigh16 address) (picRef .kPICBaseLow14 address) :=
  ⟨Or.inl ⟨rfl, Or.inr rfl⟩, rfl, rfl, rfl, rfl⟩

theorem near_halves_mean : (∃ contentHigh' contentLow',
      (final {} false).fixUpReference_powerpc true (picRef .kPICBaseHigh16 0x1000FF00) picAtom
        0x3C42000000000000 = .ok contentHigh' ∧
      (final {} false).fixUpReference_powerpc true (picRef .kPICBaseLow14 0x1000FF00) picAtom
        0xE842000000000000 = .ok contentLow') ∧
    (final {} false).HalvesMean true (picRef .kPICBaseHigh16 0x1000FF00)
      (picRef .kPICBaseLow14 0x1000FF00) picAtom picAtom 0x3C42000000000000 0xE842000000000000 :=
  ⟨⟨_, _, rfl, rfl⟩, ((final {} false).halvesMean_iff true picAtom picAtom 0x3C42000000000000
    0xE842000000000000 (picRef_pair 0x1000FF00)).mpr fun _ _ _ _ => by decide⟩

/-- The high half of the displacement `0x7FFF8000` becomes negative. -/
theorem far_halves_miss :
    IsPair (picRef .kPICBaseHigh16 0x80000000) (picRef .kPICBaseLow14 0x80000000) ∧
    ¬ (final {} false).HalvesMean true (picRef .kPICBaseHigh16 0x80000000)
      (picRef .kPICBaseLow14 0x80000000) picAtom picAtom 0x3C42000000000000
      0xE842000000000000 := by
  refine ⟨⟨Or.inl ⟨rfl, Or.inr rfl⟩, rfl, rfl, rfl, rfl⟩, ?_⟩
  intro h
  have hsum := h _ _ rfl rfl
  revert hsum
  decide

end LinkedImage
end Toolwhip.Ld64.Reloc.Ppc
