import Toolwhip.Ld64.FinalImage
import Toolwhip.Ld64.RelocsX86
import Toolwhip.Ld64.RelocsX8664

/-! # The fix-ups of a final linked image for x86 and x86_64 -/

set_option autoImplicit false

/-! ## i386: the fix-ups of a final linked image

The distance is measured from the end of a 32-bit field, whatever the width of the field. -/

namespace Toolwhip.Ld64.Reloc.X86
open Lib.LittleEndian Lib.ThrowingFold

def finalDisplacement (ref : Ref) (inAtom : Atom) : Except WriteError (BitVec 64) :=
  let fieldEnd := inAtom.getAddress + ref.getFixUpOffset + 4
  match ref.getTarget.getDefinitionKind with
  | .kRegularDefinition | .kWeakDefinition =>
    .ok (ref.getTarget.getAddress + ref.getTargetOffset - fieldEnd)
  | .kExternalDefinition | .kExternalWeakDefinition =>
    .error (.thrown "codegen problem, can't use rel32 to external symbol")
  | .kTentativeDefinition => .ok 0
  | .kAbsoluteSymbol => .ok (ref.getTarget.getSectionOffset + ref.getTargetOffset - fieldEnd)

def setPCRel (ref : Ref) (displacement : BitVec 64) (buffer : Memory) : Except WriteError Memory :=
  match ref.getKind with
  | .kPCRel8 =>
    if outOfRange displacement 0x7F then .error (.thrown "rel8 out of range")
    else .ok (store buffer ref.fixUp 1 (displacement.setWidth 8))
  | .kPCRel16 =>
    if outOfRange displacement 0x7FFF then .error (.thrown "rel16 out of range")
    else .ok (store buffer ref.fixUp 2 (displacement.setWidth 16))
  | _ =>
    if outOfRange displacement 0x7FFFFFFF then .error (.thrown "rel32 out of range")
    else .ok (store buffer ref.fixUp 4 (displacement.setWidth 32))

/-- What a pointer is filled with, `none` where it is left alone. -/
def finalPointer (w : FinalWriter) (ref : Ref) : Option (BitVec 64) :=
  if w.relocationNeededInFinalLinkedImage ref.getTarget = .kRelocExternal then
    if w.prebind then
      match ref.getTarget.getDefinitionKind with
      | .kExternalDefinition | .kExternalWeakDefinition => some ref.getTargetOffset
      | .kTentativeDefinition | .kRegularDefinition | .kWeakDefinition => some (targetAddress ref)
      | .kAbsoluteSymbol => none
    else some ref.getTargetOffset
  else some (targetAddress ref)

def finalAbsolute (ref : Ref) : BitVec 64 :=
  match ref.getTarget.getDefinitionKind with
  | .kRegularDefinition | .kWeakDefinition | .kTentativeDefinition => targetAddress ref
  | .kExternalDefinition | .kExternalWeakDefinition => ref.getTargetOffset
  | .kAbsoluteSymbol => ref.getTarget.getSectionOffset + ref.getTargetOffset

/-- `buffer` is counted from the start of `inAtom`. -/
def fixUpReferenceFinal (w : FinalWriter) (ref : Ref) (inAtom : Atom) (buffer : Memory) :
    Except WriteError Memory :=
  match ref.getKind with
  | .kNoFixUp | .kFollowOn | .kGroupSubordinate => .ok buffer
  | .kPointerWeakImport | .kPointer =>
    match finalPointer w ref with
    | some pointer => .ok (store buffer ref.fixUp 4 (pointer.setWidth 32))
    | none => .ok buffer
  | .kPointerDiff => .ok (store buffer ref.fixUp 4 ((pointerDisplacement ref).setWidth 32))
  | .kPointerDiff16 =>
    if outOfRange (pointerDisplacement ref) 0x7FFF then
      .error (.thrown "16-bit pointer diff out of range")
    else .ok (store buffer ref.fixUp 2 ((pointerDisplacement ref).setWidth 16))
  | .kDtraceProbeSite => .ok (setBytes buffer (ref.fixUp - 1) [0x90, 0x0F, 0x1F, 0x40, 0x00])
  | .kDtraceIsEnabledSite => .ok (setBytes buffer (ref.fixUp - 1) [0x33, 0xC0, 0x90, 0x90, 0x90])
  | .kPCRel32WeakImport | .kPCRel32 | .kPCRel16 | .kPCRel8 => do
    let displacement ← finalDisplacement ref inAtom
    setPCRel ref displacement buffer
  | .kAbsolute32 => .ok (store buffer ref.fixUp 4 ((finalAbsolute ref).setWidth 32))
  | .kDtraceTypeReference | .kDtraceProbe => .ok buffer

/-! ## What a processor makes of the field -/

def isPCRel : ReferenceKinds → Bool
  | .kPCRel32WeakImport | .kPCRel32 | .kPCRel16 | .kPCRel8 => true
  | _ => false

def fieldBytes : ReferenceKinds → Nat
  | .kPCRel8 => 1
  | .kPCRel16 => 2
  | _ => 4

def fieldLimit : ReferenceKinds → Int
  | .kPCRel8 => 0x7F
  | .kPCRel16 => 0x7FFF
  | _ => 0x7FFFFFFF

def fieldEnd (ref : Ref) (inAtom : Atom) : BitVec 64 :=
  inAtom.getAddress + ref.getFixUpOffset + BitVec.ofNat 64 (fieldBytes ref.getKind)

def finalTarget (ref : Ref) : BitVec 64 := ref.getTarget.finalAddress + ref.getTargetOffset

def pcrelField (ref : Ref) (buffer : Memory) : BitVec (8 * fieldBytes ref.getKind) :=
  load buffer ref.fixUp (fieldBytes ref.getKind)

def ReachesTarget (w : FinalWriter) (ref : Ref) (inAtom : Atom) (buffer : Memory) : Prop :=
  ∀ buffer', fixUpReferenceFinal w ref inAtom buffer = .ok buffer' →
    fieldEnd ref inAtom + (pcrelField ref buffer').signExtend 64 = finalTarget ref

theorem fieldBytes_pos (kind : ReferenceKinds) : 0 < fieldBytes kind := by
  cases kind <;> decide

theorem fieldBytes_le (kind : ReferenceKinds) : fieldBytes kind ≤ 8 := by
  cases kind <;> decide

theorem fieldLimit_lt (kind : ReferenceKinds) :
    fieldLimit kind < 2 ^ (8 * fieldBytes kind - 1) := by
  cases kind <;> decide

theorem setPCRel_eq (ref : Ref) (displacement : BitVec 64) (buffer : Memory) :
    ∃ message, setPCRel ref displacement buffer =
      if outOfRange displacement (fieldLimit ref.getKind) then .error (.thrown message)
      else .ok (store buffer ref.fixUp (fieldBytes ref.getKind) (displacement.setWidth _)) := by
  unfold setPCRel
  cases ref.getKind <;> exact ⟨_, rfl⟩

variable {ref : Ref}

theorem fixUpReferenceFinal_eq (w : FinalWriter) (inAtom : Atom) (buffer : Memory)
    (hkind : isPCRel ref.getKind = true) : fixUpReferenceFinal w ref inAtom buffer =
      finalDisplacement ref inAtom >>= fun displacement => setPCRel ref displacement buffer := by
  unfold fixUpReferenceFinal
  cases hk : ref.getKind
  case kPCRel32 => rfl
  case kPCRel32WeakImport => rfl
  case kPCRel16 => rfl
  case kPCRel8 => rfl
  all_goals rw [hk] at hkind; cases hkind

theorem reachesTarget_iff (w : FinalWriter) {inAtom : Atom} (buffer : Memory)
    (hkind : isPCRel ref.getKind = true) {displacement : BitVec 64}
    (hd : finalDisplacement ref inAtom = .ok displacement) : ReachesTarget w ref inAtom buffer ↔
      outOfRange displacement (fieldLimit ref.getKind) = true ∨
        fieldEnd ref inAtom + displacement = finalTarget ref := by
  obtain ⟨message, hset⟩ := setPCRel_eq ref displacement buffer
  unfold ReachesTarget
  rw [fixUpReferenceFinal_eq w inAtom buffer hkind, hd]
  change (∀ buffer', setPCRel ref displacement buffer = .ok buffer' → _) ↔ _
  rw [hset]
  cases hrange : outOfRange displacement (fieldLimit ref.getKind) with
  | true =>
    refine iff_of_true ?_ (Or.inl rfl)
    intro buffer' h
    cases h
  | false =>
    have hfits := fitsField_of_range (fieldLimit_lt ref.getKind) hrange
    have hfield := @load_store_signExtend buffer ref.fixUp _ displacement
      (fieldBytes_pos ref.getKind) (fieldBytes_le ref.getKind) hfits
    constructor
    · intro h
      have hreach := h _ rfl
      unfold pcrelField at hreach
      rw [hfield] at hreach
      exact Or.inr hreach
    · intro h buffer' hok
      cases hok
      unfold pcrelField
      rw [hfield]
      rcases h with h | h
      · cases h
      · exact h

def distance32 (ref : Ref) (inAtom : Atom) : BitVec 64 :=
  finalTarget ref - (inAtom.getAddress + ref.getFixUpOffset + 4)

theorem finalDisplacement_tentative (inAtom : Atom)
    (h : ref.getTarget.getDefinitionKind = .kTentativeDefinition) :
    finalDisplacement ref inAtom = .ok 0 := by
  unfold finalDisplacement
  rw [h]

theorem finalDisplacement_eq (inAtom : Atom)
    (hdylib : isDylibSymbol ref.getTarget.getDefinitionKind = false)
    (htent : ref.getTarget.getDefinitionKind ≠ .kTentativeDefinition) :
    finalDisplacement ref inAtom = .ok (distance32 ref inAtom) := by
  unfold finalDisplacement distance32 finalTarget Atom.finalAddress
  unfold isDylibSymbol at hdylib
  cases hk : ref.getTarget.getDefinitionKind <;> simp_all

theorem distance32_reaches (ref : Ref) (inAtom : Atom) :
    fieldEnd ref inAtom + distance32 ref inAtom = finalTarget ref ↔ fieldBytes ref.getKind = 4 := by
  unfold fieldEnd distance32
  generalize inAtom.getAddress + ref.getFixUpOffset = place
  generalize finalTarget ref = target
  have hcancel : ∀ k : BitVec 64, place + k + (target - (place + 4)) = target ↔ k = 4 := by
    bv_omega
  rw [hcancel]
  cases ref.getKind <;> decide

def DistanceIsRight (ref : Ref) (inAtom : Atom) : Prop :=
  if ref.getTarget.getDefinitionKind = .kTentativeDefinition then
    finalTarget ref = fieldEnd ref inAtom
  else fieldBytes ref.getKind = 4 ∨
    outOfRange (distance32 ref inAtom) (fieldLimit ref.getKind) = true

/-- A pc-relative field leads to its target exactly if it is a 32-bit field or refused as out of
range, and the target is no common symbol, unless that stands right behind the field. -/
theorem reachesTarget_iff_distance (w : FinalWriter) (ref : Ref) (inAtom : Atom) (buffer : Memory)
    (hkind : isPCRel ref.getKind = true)
    (hdylib : isDylibSymbol ref.getTarget.getDefinitionKind = false) :
    ReachesTarget w ref inAtom buffer ↔ DistanceIsRight ref inAtom := by
  unfold DistanceIsRight
  split
  · rename_i htent
    have hin : outOfRange (0 : BitVec 64) (fieldLimit ref.getKind) = false := by
      cases ref.getKind <;> decide
    have hzero : fieldEnd ref inAtom + 0 = fieldEnd ref inAtom := BitVec.add_zero _
    rw [reachesTarget_iff w buffer hkind (finalDisplacement_tentative inAtom htent), hin, hzero]
    simp [eq_comm]
  · rename_i htent
    rw [reachesTarget_iff w buffer hkind (finalDisplacement_eq inAtom hdylib htent),
      distance32_reaches, or_comm]

/-- A branch at the start of a function, to the address `0x1010`. -/
def branchRef (kind : ReferenceKinds) (target : DefinitionKind) : Ref where
  getKind := kind
  fFixUpOffsetInSrc := 1
  getTarget := { pointer := 2, getName := some "_target", getAddress := 0x1010,
                 getDefinitionKind := target }
  fToTargetOffset := 0
  getFromTarget := { pointer := 0, getName := none, getAddress := 0 }
  fFromTargetOffset := 0

def brancher : Atom := { pointer := 1, getName := some "_brancher", getAddress := 0x1000 }

theorem branch_reaches_target :
    (∃ buffer', fixUpReferenceFinal {} (branchRef .kPCRel32 .kRegularDefinition) brancher
      (fun _ => 0) = .ok buffer') ∧
    ReachesTarget {} (branchRef .kPCRel32 .kRegularDefinition) brancher (fun _ => 0) :=
  ⟨⟨_, rfl⟩, (reachesTarget_iff_distance {} (branchRef .kPCRel32 .kRegularDefinition) brancher
    (fun _ => 0) rfl rfl).mpr (Or.inl rfl)⟩

/-- A short branch lands three bytes early, and a reference to a common symbol is to the
next instruction. -/
theorem branch_misses_target :
    ¬ ReachesTarget {} (branchRef .kPCRel8 .kRegularDefinition) brancher (fun _ => 0) ∧
    ¬ ReachesTarget {} (branchRef .kPCRel32 .kTentativeDefinition) brancher (fun _ => 0) := by
  constructor
  · intro h
    have hfield := h _ rfl
    revert hfield
    decide
  · intro h
    have hfield := h _ rfl
    revert hfield
    decide

end Toolwhip.Ld64.Reloc.X86

/-! ## x86_64: the fix-ups of a final linked image

Every pc-relative field holds the distance from the end of its instruction. -/

namespace Toolwhip.Ld64.Reloc.X86_64
open Lib.LittleEndian Lib.ThrowingFold

def isPCRel : ReferenceKinds → Bool
  | .kPCRel32GOTLoad | .kPCRel32GOTLoadWeakImport | .kBranchPCRel32WeakImport | .kBranchPCRel32
  | .kBranchPCRel8 | .kPCRel32 | .kPCRel32_1 | .kPCRel32_2 | .kPCRel32_4 | .kPCRel32GOT
  | .kPCRel32GOTWeakImport => true
  | _ => false

/-- `(int32_t)ref->getTargetOffset()`, widened again. -/
def targetOffset32 (ref : Ref) : BitVec 64 := (ref.getTargetOffset.setWidth 32).signExtend 64

def rel32Displacement (ref : Ref) (inAtom : Atom) : Except WriteError (BitVec 64) :=
  let fieldEnd := inAtom.getAddress + ref.getFixUpOffset + 4
  match ref.getTarget.getDefinitionKind with
  | .kRegularDefinition | .kWeakDefinition | .kTentativeDefinition =>
    .ok (ref.getTarget.getAddress + targetOffset32 ref - fieldEnd)
  | .kAbsoluteSymbol => .ok (ref.getTarget.getSectionOffset + targetOffset32 ref - fieldEnd)
  | .kExternalDefinition | .kExternalWeakDefinition =>
    .error (.thrown "codegen problem, can't use rel32 to external symbol")

def correctForKind (kind : ReferenceKinds) (displacement : BitVec 64) : BitVec 64 :=
  match kind with
  | .kPCRel32_1 => displacement - 1
  | .kPCRel32_2 => displacement - 2
  | .kPCRel32_4 => displacement - 4
  | .kBranchPCRel8 => displacement + 3
  | _ => displacement

def setPCRel (ref : Ref) (displacement : BitVec 64) (buffer : Memory) : Except WriteError Memory :=
  if ref.getKind = .kBranchPCRel8 then
    if 127 < displacement.toInt || displacement.toInt < -128 then
      .error (.thrown "rel8 out of range")
    else .ok (store buffer ref.fixUp 1 (displacement.setWidth 8))
  else if outOfRange displacement 0x7FFFFFFF then .error (.thrown "rel32 out of range")
  else .ok (store buffer ref.fixUp 4 (displacement.setWidth 32))

def fixUpPCRel (ref : Ref) (inAtom : Atom) (buffer : Memory) : Except WriteError Memory := do
  let displacement ← rel32Displacement ref inAtom
  setPCRel ref (correctForKind ref.getKind displacement) buffer

/-- If the GOT entry was optimized away, the `movq` is made a `leaq`. -/
def removeGOTLoad (w : FinalWriter) (ref : Ref) (buffer : Memory) : Except WriteError Memory :=
  if ref.getTarget.pointer ∈ w.fAllSynthesizedNonLazyPointers then .ok buffer
  else if buffer (ref.fixUp - 2) ≠ 0x8B then
    .error (.thrown "GOT load reloc does not point to a movq instruction")
  else .ok (Function.update buffer (ref.fixUp - 2) 0x8D)

/-- `buffer` is counted from the start of `inAtom`. -/
def fixUpReferenceFinal (w : FinalWriter) (ref : Ref) (inAtom : Atom) (buffer : Memory) :
    Except WriteError Memory :=
  match ref.getKind with
  | .kNoFixUp | .kFollowOn | .kGroupSubordinate => .ok buffer
  | .kPointerWeakImport | .kPointer =>
    if w.relocationNeededInFinalLinkedImage ref.getTarget = .kRelocExternal then
      .ok (store buffer ref.fixUp 8 ref.getTargetOffset)
    else .ok (store buffer ref.fixUp 8 (ref.getTarget.getAddress + ref.getTargetOffset))
  | .kPointerDiff32 =>
    let displacement := ref.getTarget.getAddress + ref.getTargetOffset -
      (ref.getFromTarget.getAddress + ref.getFromTargetOffset)
    if outOfRange displacement 0x7FFFFFFF then
      .error (.thrown "32-bit pointer difference out of range")
    else .ok (store buffer ref.fixUp 4 (displacement.setWidth 32))
  | .kPointerDiff =>
    .ok (store buffer ref.fixUp 8 (ref.getTarget.getAddress + ref.getTargetOffset -
      (ref.getFromTarget.getAddress + ref.getFromTargetOffset)))
  | .kPCRel32GOTLoad | .kPCRel32GOTLoadWeakImport => do
    let buffer ← removeGOTLoad w ref buffer
    -- falls into the general case
    fixUpPCRel ref inAtom buffer
  | .kBranchPCRel32WeakImport | .kBranchPCRel32 | .kBranchPCRel8 | .kPCRel32 | .kPCRel32_1
  | .kPCRel32_2 | .kPCRel32_4 | .kPCRel32GOT | .kPCRel32GOTWeakImport =>
    fixUpPCRel ref inAtom buffer
  | .kDtraceProbeSite => .ok (setBytes buffer (ref.fixUp - 1) [0x90, 0x0F, 0x1F, 0x40, 0x00])
  | .kDtraceIsEnabledSite => .ok (setBytes buffer (ref.fixUp - 1) [0x48, 0x33, 0xC0, 0x90, 0x90])
  | .kDtraceTypeReference | .kDtraceProbe => .ok buffer

/-! ### What a processor makes of the field -/

def fieldBytes (kind : ReferenceKinds) : Nat := if kind = .kBranchPCRel8 then 1 else 4

def endOfInstruction (ref : Ref) (inAtom : Atom) : BitVec 64 :=
  inAtom.getAddress + ref.getFixUpOffset + BitVec.ofNat 64 (fieldBytes ref.getKind) +
    kindBias ref.getKind

def finalTarget (ref : Ref) : BitVec 64 := ref.getTarget.finalAddress + targetOffset32 ref

def pcrelField (ref : Ref) (buffer : Memory) : BitVec (8 * fieldBytes ref.getKind) :=
  load buffer ref.fixUp (fieldBytes ref.getKind)

variable {ref : Ref}

theorem rel32Displacement_eq (inAtom : Atom)
    (h : isDylibSymbol ref.getTarget.getDefinitionKind = false) : rel32Displacement ref inAtom =
      .ok (finalTarget ref - (inAtom.getAddress + ref.getFixUpOffset + 4)) := by
  unfold rel32Displacement finalTarget Atom.finalAddress
  unfold isDylibSymbol at h
  cases hk : ref.getTarget.getDefinitionKind <;> simp_all

theorem correctForKind_eq (ref : Ref) (inAtom : Atom) (target : BitVec 64) :
    correctForKind ref.getKind (target - (inAtom.getAddress + ref.getFixUpOffset + 4)) =
      target - endOfInstruction ref inAtom := by
  unfold endOfInstruction
  cases ref.getKind <;> simp only [correctForKind, kindBias, fieldBytes] <;> simp <;> bv_omega

theorem setPCRel_ok {displacement : BitVec 64} {buffer buffer' : Memory}
    (h : setPCRel ref displacement buffer = .ok buffer') :
    FitsField (fieldBytes ref.getKind) displacement ∧
      buffer' = store buffer ref.fixUp (fieldBytes ref.getKind) (displacement.setWidth _) := by
  unfold setPCRel at h
  by_cases hkind : ref.getKind = .kBranchPCRel8
  · have hbytes : fieldBytes ref.getKind = 1 := if_pos hkind
    rw [if_pos hkind] at h
    rw [hbytes]
    split at h
    · cases h
    rename_i hrange
    cases h
    simp only [Bool.or_eq_true, decide_eq_true_eq, not_or, Int.not_lt] at hrange
    refine ⟨?_, rfl⟩
    unfold FitsField
    omega
  · have hbytes : fieldBytes ref.getKind = 4 := if_neg hkind
    rw [if_neg hkind] at h
    rw [hbytes]
    split at h
    · cases h
    rename_i hrange
    cases h
    exact ⟨fitsField_of_range (by decide) (Bool.eq_false_iff.mpr hrange), rfl⟩

theorem fieldBytes_pos (kind : ReferenceKinds) : 0 < fieldBytes kind := by
  unfold fieldBytes
  split <;> decide

theorem fieldBytes_le (kind : ReferenceKinds) : fieldBytes kind ≤ 8 := by
  unfold fieldBytes
  split <;> decide

theorem fixUpPCRel_ok {inAtom : Atom} {buffer buffer' : Memory}
    (htarget : isDylibSymbol ref.getTarget.getDefinitionKind = false)
    (h : fixUpPCRel ref inAtom buffer = .ok buffer') :
    FitsField (fieldBytes ref.getKind) (finalTarget ref - endOfInstruction ref inAtom) ∧
      endOfInstruction ref inAtom + (pcrelField ref buffer').signExtend 64 = finalTarget ref := by
  unfold fixUpPCRel at h
  rw [rel32Displacement_eq inAtom htarget] at h
  have hset : setPCRel ref (finalTarget ref - endOfInstruction ref inAtom) buffer = .ok buffer' := by
    rw [← correctForKind_eq]
    exact h
  obtain ⟨hfits, rfl⟩ := setPCRel_ok hset
  refine ⟨hfits, ?_⟩
  unfold pcrelField
  rw [load_store_signExtend (fieldBytes_pos _) (fieldBytes_le _) hfits]
  bv_omega

theorem fixUpReferenceFinal_eq (w : FinalWriter) (inAtom : Atom) (buffer : Memory)
    (hkind : isPCRel ref.getKind = true) : ∃ start : Except WriteError Memory,
      fixUpReferenceFinal w ref inAtom buffer = start >>= fixUpPCRel ref inAtom := by
  unfold fixUpReferenceFinal
  cases hk : ref.getKind
  case kPCRel32GOTLoad => exact ⟨_, rfl⟩
  case kPCRel32GOTLoadWeakImport => exact ⟨_, rfl⟩
  all_goals first | exact ⟨.ok buffer, rfl⟩ | (rw [hk] at hkind; cases hkind)

/-- A pc-relative field leads from the end of the instruction to the target, and a distance
that does not fit it is refused. -/
theorem pcrel_reaches_target (w : FinalWriter) (ref : Ref) (inAtom : Atom) (buffer : Memory)
    (hkind : isPCRel ref.getKind = true)
    (htarget : isDylibSymbol ref.getTarget.getDefinitionKind = false) :
    (∀ buffer', fixUpReferenceFinal w ref inAtom buffer = .ok buffer' →
      endOfInstruction ref inAtom + (pcrelField ref buffer').signExtend 64 = finalTarget ref) ∧
    (¬ FitsField (fieldBytes ref.getKind) (finalTarget ref - endOfInstruction ref inAtom) →
      ∃ e, fixUpReferenceFinal w ref inAtom buffer = .error e) := by
  obtain ⟨start, hstart⟩ := fixUpReferenceFinal_eq w inAtom buffer hkind
  have hok : ∀ buffer', fixUpReferenceFinal w ref inAtom buffer = .ok buffer' →
      ∃ b, fixUpPCRel ref inAtom b = .ok buffer' := by
    intro buffer' h
    rw [hstart] at h
    obtain ⟨b, -, hb⟩ := bind_eq_ok.mp h
    exact ⟨b, hb⟩
  constructor
  · intro buffer' h
    obtain ⟨b, hb⟩ := hok buffer' h
    exact (fixUpPCRel_ok htarget hb).2
  · intro hfits
    cases hr : fixUpReferenceFinal w ref inAtom buffer with
    | error e => exact ⟨e, rfl⟩
    | ok buffer' =>
      obtain ⟨b, hb⟩ := hok buffer' hr
      exact absurd (fixUpPCRel_ok htarget hb).1 hfits

def callRef : Ref where
  getKind := .kBranchPCRel32
  fFixUpOffsetInSrc := 1
  getTarget := { pointer := 2, getName := some "_callee", getAddress := 0x2000 }
  fToTargetOffset := 0
  getFromTarget := { pointer := 0, getName := none, getAddress := 0 }
  fFromTargetOffset := 0

def callingAtom : Atom := { pointer := 1, getName := some "_caller", getAddress := 0x1000 }

theorem call_reaches_target :
    (∃ buffer', fixUpReferenceFinal {} callRef callingAtom (fun _ => 0) = .ok buffer') ∧
    ∀ buffer', fixUpReferenceFinal {} callRef callingAtom (fun _ => 0) = .ok buffer' →
      endOfInstruction callRef callingAtom + (pcrelField callRef buffer').signExtend 64 =
        finalTarget callRef :=
  ⟨⟨_, rfl⟩, (pcrel_reaches_target {} callRef callingAtom (fun _ => 0) rfl rfl).1⟩

end Toolwhip.Ld64.Reloc.X86_64
