import Toolwhip.Lib.BranchFields
import Toolwhip.Ld64.FinalImage
import Toolwhip.Ld64.ObjectRelocs

/-! # arm: the fix-ups of a final linked image

A branch to a function of the other instruction set is made a `blx`, and a `blx` to a function of
the same one a `bl`. -/

namespace Toolwhip.Ld64.Reloc.Arm
open Lib.LittleEndian Lib.ThrowingFold Lib.BranchFields Lib.ArmBranch BitVec
open Fixups.Arm (ReferenceKinds Ref)
set_option autoImplicit false
variable {top : BitVec 8} {d : BitVec 64} {targetIsThumb : Bool} {w : FinalWriter}

def get32 (buffer : Memory) (addr : Int) : BitVec 32 := load buffer addr 4
def set32 (buffer : Memory) (addr : Int) (value : BitVec 32) : Memory := store buffer addr 4 value

theorem get32_set32 (buffer : Memory) (addr : Int) (value : BitVec 32) :
    get32 (set32 buffer addr value) addr = value := @load_store buffer addr 4 value

def targetAddr (ref : Ref) : BitVec 64 := ref.getTarget.getAddress + ref.getTargetOffset

def pointerAddr (ref : Ref) : BitVec 64 :=
  if ref.getTarget.isThumb && ref.getTargetOffset == 0 then targetAddr ref ||| 1
  else targetAddr ref

/-- What a pointer is filled with, `none` where it is left alone. A prebound lazy pointer to another
dylib is zero. -/
def finalPointer (w : FinalWriter) (inLazyPointers : Bool) (ref : Ref) : Option (BitVec 64) :=
  if inLazyPointers then
    if isDylibSymbol ref.getTarget.getDefinitionKind then some 0 else some (pointerAddr ref)
  else if w.relocationNeededInFinalLinkedImage ref.getTarget = .kRelocExternal then
    if w.prebind then
      match ref.getTarget.getDefinitionKind with
      | .kExternalDefinition | .kExternalWeakDefinition => some ref.getTargetOffset
      | .kTentativeDefinition | .kRegularDefinition | .kWeakDefinition => some (pointerAddr ref)
      | .kAbsoluteSymbol => none
    else some ref.getTargetOffset
  else some (pointerAddr ref)

def finalReadOnlyPointer (ref : Ref) : BitVec 64 :=
  match ref.getTarget.getDefinitionKind with
  | .kRegularDefinition | .kWeakDefinition | .kTentativeDefinition => targetAddr ref
  | .kExternalDefinition | .kExternalWeakDefinition => ref.getTargetOffset
  | .kAbsoluteSymbol => ref.getTarget.getSectionOffset + ref.getTargetOffset

/-! ## Branches -/

def branchDisplacement (ref : Ref) (inAtom : Atom) : BitVec 64 :=
  targetAddr ref - (inAtom.getAddress + ref.getFixUpOffset) - 8

def branchOutOfRange (displacement : BitVec 64) : Bool :=
  33554428 < displacement.toInt || displacement.toInt < -33554432

def is_bl (instruction : BitVec 32) : Bool := instruction &&& 0xFF000000 == 0xEB000000
def is_blx (instruction : BitVec 32) : Bool := instruction &&& 0xFE000000 == 0xFA000000

/-- Arm is called with `bl`, Thumb with `blx`. -/
def branchInstruction (instruction : BitVec 32) (displacement : BitVec 64) (targetIsThumb : Bool) :
    Except WriteError (BitVec 32) :=
  let disp : BitVec 32 := (displacement.sshiftRight 2).setWidth 32 &&& 0x00FFFFFF
  if is_bl instruction && targetIsThumb then
    let h_bit : BitVec 32 := (displacement <<< 23).setWidth 32 &&& 0x01000000
    .ok (0xFA000000 ||| h_bit ||| disp)
  else if is_blx instruction && !targetIsThumb then .ok (0xEB000000 ||| disp)
  else if !is_bl instruction && !is_blx instruction && targetIsThumb then
    .error (.thrown "don't know how to convert instruction to thumb")
  else
    -- the half-word bit of a `blx` that stays one is not computed again
    .ok (instruction &&& 0xFF000000 ||| disp)

def thumbOutOfRange (displacement : BitVec 64) : Bool :=
  4194302 < displacement.toInt || displacement.toInt < -4194304

def isThumbBl (instruction : BitVec 32) : Bool := instruction &&& 0xF8000000 == 0xF8000000
def isThumbBlx (instruction : BitVec 32) : Bool := instruction &&& 0xF8000000 == 0xE8000000

/-- From the value of the pc, which is 4 ahead; to arm code the bit 1 of the target is made that of
the pc. -/
def thumbDisplacement (ref : Ref) (inAtom : Atom) : BitVec 64 :=
  let baseAddr := inAtom.getAddress + ref.getFixUpOffset + 4
  if ref.getTarget.isThumb then targetAddr ref - baseAddr
  else (targetAddr ref &&& -3 ||| baseAddr &&& 2) - baseAddr

/-- The first instruction is the low half. -/
def thumbInstruction (instruction : BitVec 32) (displacement : BitVec 64) (targetIsThumb : Bool) :
    Except WriteError (BitVec 32) :=
  let firstDisp : BitVec 32 := (displacement.sshiftRight 12).setWidth 32 &&& 0x7FF
  let nextDisp : BitVec 32 := (displacement.sshiftRight 1).setWidth 32 &&& 0x7FF
  if isThumbBl instruction && !targetIsThumb then .ok (0xE800F000#32 ||| nextDisp <<< 16 ||| firstDisp)
  else if isThumbBlx instruction && targetIsThumb then
    .ok (0xF800F000#32 ||| nextDisp <<< 16 ||| firstDisp)
  else if !isThumbBl instruction && !isThumbBlx instruction && !targetIsThumb then
    .error (.thrown "don't know how to convert instruction to arm")
  else .ok (instruction &&& 0xF800F800#32 ||| nextDisp <<< 16 ||| firstDisp)

/-- `buffer` is counted from the start of `inAtom`; `inLazyPointers` says that its section is made of
lazy pointers or of lazy dylib pointers. -/
def fixUpReferenceFinal (w : FinalWriter) (inLazyPointers : Bool) (ref : Ref) (inAtom : Atom)
    (buffer : Memory) : Except WriteError Memory :=
  match ref.getKind with
  | .kNoFixUp | .kFollowOn | .kGroupSubordinate => .ok buffer
  | .kPointerWeakImport | .kPointer =>
    match finalPointer w inLazyPointers ref with
    | some pointer => .ok (set32 buffer ref.fixUp (pointer.setWidth 32))
    | none => .ok buffer
  | .kPointerDiff =>
    .ok (set32 buffer ref.fixUp ((targetAddr ref -
      (ref.getFromTarget.getAddress + ref.getFromTargetOffset)).setWidth 32))
  | .kReadOnlyPointer => .ok (set32 buffer ref.fixUp ((finalReadOnlyPointer ref).setWidth 32))
  | .kBranch24WeakImport | .kBranch24 =>
    let displacement := branchDisplacement ref inAtom
    if branchOutOfRange displacement then .error (.thrown "b/bl/blx out of range (max is +/-32M)")
    else do
      let newInstruction ← branchInstruction (get32 buffer ref.fixUp) displacement
        ref.getTarget.isThumb
      .ok (set32 buffer ref.fixUp newInstruction)
  | .kThumbBranch22WeakImport | .kThumbBranch22 =>
    let displacement := thumbDisplacement ref inAtom
    if thumbOutOfRange displacement then
      .error (.thrown "thumb bl/blx out of range (max is +/-4M)")
    else do
      let newInstruction ← thumbInstruction (get32 buffer ref.fixUp) displacement
        ref.getTarget.isThumb
      .ok (set32 buffer ref.fixUp newInstruction)
  | .kDtraceProbeSite | .kDtraceIsEnabledSite =>
    -- NOPs
    if inAtom.isThumb then .ok (set32 buffer ref.fixUp 0x46C046C0)
    else .ok (set32 buffer ref.fixUp 0xE1A00000)
  | .kDtraceTypeReference | .kDtraceProbe => .ok buffer

/-! ## Where a branch goes -/

def place (ref : Ref) (inAtom : Atom) : BitVec 64 := inAtom.getAddress + ref.getFixUpOffset

section Arm
variable (top : BitVec 8) (imm : BitVec 24) (d : BitVec 64) (targetIsThumb : Bool)

theorem is_bl_append : is_bl (top ++ imm) = (top == 0xEB) :=
  (masked_beq top 0xFF 0xEB imm).trans (by rw [show (0xFF : BitVec 8) = BitVec.allOnes 8 from rfl,
    and_allOnes])

theorem is_blx_append : is_blx (top ++ imm) = (top &&& 0xFE == 0xFA) :=
  masked_beq top 0xFE 0xFA imm

def cannotConvert : Bool := !(top == 0xEB) && !(top &&& 0xFE == 0xFA) && targetIsThumb

/-- The top byte of the new instruction, from that of the old one and the half-word bit of the
displacement. -/
def newTop (h : BitVec 1) : BitVec 8 :=
  if top == 0xEB && targetIsThumb then 0x7D#7 ++ h
  else if top &&& 0xFE == 0xFA && !targetIsThumb then 0xEB
  else top

theorem disp_eq : (d.sshiftRight 2).setWidth 32 &&& 0x00FFFFFF = 0#8 ++ d.extractLsb' 2 24 := by
  have hmask := @and_low 8 24 ((d.sshiftRight 2).setWidth 32)
  rw [extract_sshiftRight d (by decide) (by decide)] at hmask
  exact hmask

theorem h_bit_eq : (0xFA000000 : BitVec 32) ||| (d <<< 23).setWidth 32 &&& 0x01000000 =
      0x7D#7 ++ d.extractLsb' 1 1 ++ 0#24 := by
  have hbit : ((d <<< 23).setWidth 32).extractLsb' 24 1 = d.extractLsb' 1 1 :=
    @extract_shiftLeft 64 d 32 23 1 1 (by decide) (by decide)
  have hmask := @and_middle 1 24 7 ((d <<< 23).setWidth 32)
  rw [hbit] at hmask
  have hopcode : (0xFA000000 : BitVec 32) = 0x7D#7 ++ 0#1 ++ 0#24 := by decide
  have hone : (0x01000000 : BitVec 32) = 0#7 ++ BitVec.allOnes 1 ++ 0#24 := by decide
  rw [hone, hmask, hopcode, or_append, or_append, or_zero, zero_or,
    or_zero]

theorem branchInstruction_eq : branchInstruction (top ++ imm) d targetIsThumb =
      if cannotConvert top targetIsThumb then
        .error (.thrown "don't know how to convert instruction to thumb")
      else .ok (newTop top targetIsThumb (d.extractLsb' 1 1) ++ d.extractLsb' 2 24) := by
  have hjoin : ∀ high : BitVec 8, (high ++ 0#24) ||| (0#8 ++ d.extractLsb' 2 24) =
      high ++ d.extractLsb' 2 24 := fun high => high_or_low high _
  have hkeep : (top ++ imm) &&& 0xFF000000 = top ++ 0#24 := by
    have hmask := @and_high 8 24 (top ++ imm)
    rw [Lib.BitFields.extract_high] at hmask
    exact hmask
  unfold branchInstruction newTop cannotConvert
  rw [is_bl_append, is_blx_append]
  dsimp only
  rw [disp_eq, h_bit_eq, hkeep, hjoin, hjoin,
    show (0xEB000000 : BitVec 32) = 0xEB#8 ++ 0#24 by decide, hjoin]
  generalize (top == 0xEB) = bl
  generalize (top &&& 0xFE == 0xFA) = blx
  cases bl <;> cases blx <;> cases targetIsThumb <;> rfl

variable {top imm d targetIsThumb}

theorem newTop_arm (h : BitVec 1) (hbranch : top.extractLsb' 1 3 = 5#3) :
    (newTop top false h).extractLsb' 4 4 ≠ 15#4 := by
  revert top h
  decide

theorem newTop_thumb (h : BitVec 1) (hbranch : top.extractLsb' 1 3 = 5#3)
    (hconvert : cannotConvert top true = false) : (newTop top true h).extractLsb' 4 4 = 15#4 := by
  revert top h
  decide

theorem newTop_half (h : BitVec 1) (hconvert : cannotConvert top true = false) :
    (newTop top true h).extractLsb' 0 1 =
      if top &&& 0xFE == 0xFA then top.extractLsb' 0 1 else h := by
  revert top h
  decide

theorem transfer_arm (address : BitVec 64) (h : BitVec 1) (hbranch : top.extractLsb' 1 3 = 5#3)
    (hfits : FitsBits 26 d) (haligned : Aligned 2 d) :
    transfer address (newTop top false h ++ d.extractLsb' 2 24) = ⟨address + 8 + d, false⟩ := by
  unfold transfer isBlx
  rw [condition_append, if_neg (by simpa using newTop_arm h hbranch), imm24_append,
    word_displacement hfits haligned]

/-- A `bl` gets its half-word bit from the displacement, a `blx` keeps the one it has. -/
theorem transfer_thumb (address : BitVec 64) (hbranch : top.extractLsb' 1 3 = 5#3)
    (hconvert : cannotConvert top true = false) (hfits : FitsBits 26 d) (haligned : Aligned 1 d) :
    (transfer address (newTop top true (d.extractLsb' 1 1) ++ d.extractLsb' 2 24)).destination =
        address + 8 + d ↔
      ((top &&& 0xFE == 0xFA) = true → top.extractLsb' 0 1 = d.extractLsb' 1 1) := by
  unfold transfer isBlx
  rw [condition_append, newTop_thumb _ hbranch hconvert, beq_self_eq_true, if_pos rfl,
    imm24_append, hBit_append,
    newTop_half _ hconvert]
  cases top &&& 0xFE == 0xFA with
  | false =>
    rw [if_neg Bool.false_ne_true, half_displacement hfits haligned]
    simp
  | true =>
    rw [if_pos rfl]
    constructor
    · intro h _
      have hd : (d.extractLsb' 2 24 ++ (top.extractLsb' 0 1 ++ 0#1)).signExtend 64 = d :=
        (BitVec.add_right_inj _).mp h
      exact half_displacement_bit _ _ hd
    · intro h
      rw [h rfl, half_displacement hfits haligned]

end Arm

theorem branch_fits (h : branchOutOfRange d = false) : FitsBits 26 d := by
  unfold branchOutOfRange at h
  simp only [Bool.or_eq_false_iff, decide_eq_false_iff_not, Int.not_lt] at h
  unfold FitsBits
  omega

def isBranch24 : ReferenceKinds → Bool
  | .kBranch24 | .kBranch24WeakImport => true
  | _ => false

/-- If the fix-up is made, the branch goes to the target, and is a `blx` exactly if a call was
to a Thumb function. -/
def BranchesToTarget (w : FinalWriter) (inLazyPointers : Bool) (ref : Ref) (inAtom : Atom)
    (buffer : Memory) : Prop :=
  ∀ buffer', fixUpReferenceFinal w inLazyPointers ref inAtom buffer = .ok buffer' →
    (transfer (place ref inAtom) (get32 buffer' ref.fixUp)).destination = targetAddr ref ∧
    (isBlx (get32 buffer' ref.fixUp) = true ↔
      (isBl (get32 buffer ref.fixUp) = true ∨ isBlx (get32 buffer ref.fixUp) = true) ∧
        ref.getTarget.isThumb = true)

/-- A `blx` that is to stay one has the half-word bit of its target. -/
def HalfWordBitFits (ref : Ref) (inAtom : Atom) (buffer : Memory) : Prop :=
  isBlx (get32 buffer ref.fixUp) = true → ref.getTarget.isThumb = true →
    branchOutOfRange (branchDisplacement ref inAtom) = false →
    hBit (get32 buffer ref.fixUp) = (targetAddr ref).extractLsb' 1 1

theorem fixUpReferenceFinal_branch {inLazyPointers : Bool} {ref : Ref}
    {inAtom : Atom} {buffer buffer' : Memory} (hkind : isBranch24 ref.getKind = true) :
    fixUpReferenceFinal w inLazyPointers ref inAtom buffer = .ok buffer' ↔
      branchOutOfRange (branchDisplacement ref inAtom) = false ∧
        ∃ new, branchInstruction (get32 buffer ref.fixUp) (branchDisplacement ref inAtom)
          ref.getTarget.isThumb = .ok new ∧ set32 buffer ref.fixUp new = buffer' := by
  have hcase : fixUpReferenceFinal w inLazyPointers ref inAtom buffer =
      if branchOutOfRange (branchDisplacement ref inAtom) then
        .error (.thrown "b/bl/blx out of range (max is +/-32M)")
      else branchInstruction (get32 buffer ref.fixUp) (branchDisplacement ref inAtom)
        ref.getTarget.isThumb >>= fun new => .ok (set32 buffer ref.fixUp new) := by
    unfold fixUpReferenceFinal
    cases hk : ref.getKind
    case kBranch24 => rfl
    case kBranch24WeakImport => rfl
    all_goals rw [hk] at hkind; cases hkind
  rw [hcase]
  cases branchOutOfRange (branchDisplacement ref inAtom) with
  | true => simp
  | false =>
    rw [if_neg Bool.false_ne_true, bind_eq_ok]
    simp

theorem isBlx_new (h : BitVec 1) (imm : BitVec 24)
    (hbranch : top.extractLsb' 1 3 = 5#3) (hconvert : cannotConvert top targetIsThumb = false) :
    isBlx (newTop top targetIsThumb h ++ imm) = targetIsThumb := by
  unfold isBlx
  cases targetIsThumb with
  | false => simpa using newTop_arm h hbranch
  | true => simpa using newTop_thumb h hbranch hconvert

theorem isBlx_old (imm : BitVec 24) (hbranch : top.extractLsb' 1 3 = 5#3) :
    isBlx (top ++ imm) = (top &&& 0xFE == 0xFA) := by
  unfold isBlx
  rw [condition_append]
  revert top
  decide

theorem isCall_old (imm : BitVec 24) (hbranch : top.extractLsb' 1 3 = 5#3)
    (hconvert : cannotConvert top true = false) :
    isBl (top ++ imm) = true ∨ isBlx (top ++ imm) = true := by
  unfold isBl isBlx
  rw [hBit_append, condition_append]
  revert top
  decide

theorem displacement_reaches (ref : Ref) (inAtom : Atom) :
    place ref inAtom + 8 + branchDisplacement ref inAtom = targetAddr ref := by
  unfold branchDisplacement place
  bv_omega

section Displacement
variable {ref : Ref} {inAtom : Atom} (hplace : Aligned 2 (place ref inAtom))
include hplace

theorem pc_aligned : Aligned 2 (place ref inAtom + 8) := hplace.add (by decide) (by decide)

omit hplace in
theorem displacement_eq_sub :
    branchDisplacement ref inAtom = targetAddr ref - (place ref inAtom + 8) := by
  unfold branchDisplacement place
  rw [BitVec.sub_sub]

theorem displacement_aligned {n : Nat} (hn : n ≤ 2) (htarget : Aligned n (targetAddr ref)) :
    Aligned n (branchDisplacement ref inAtom) := by
  rw [displacement_eq_sub]
  exact htarget.sub (by omega) ((pc_aligned hplace).of_le hn)

theorem displacement_bit :
    (branchDisplacement ref inAtom).extractLsb' 1 1 = (targetAddr ref).extractLsb' 1 1 := by
  have hlow := (pc_aligned hplace).extract_sub (by decide) (targetAddr ref)
  have hbit := congrArg (BitVec.extractLsb' 1 1) hlow
  rw [extract_extract _ (by decide), extract_extract _ (by decide)] at hbit
  rw [displacement_eq_sub]
  exact hbit

end Displacement

theorem newBranch_reaches
    (address : BitVec 64) (imm : BitVec 24) (hbranch : top.extractLsb' 1 3 = 5#3)
    (hconvert : cannotConvert top targetIsThumb = false) (hfits : FitsBits 26 d)
    (haligned : Aligned (if targetIsThumb then 1 else 2) d) {new : BitVec 32}
    (hnew : new = newTop top targetIsThumb (d.extractLsb' 1 1) ++ d.extractLsb' 2 24) :
    ((transfer address new).destination = address + 8 + d ∧
        (isBlx new = true ↔ (isBl (top ++ imm) = true ∨ isBlx (top ++ imm) = true) ∧
          targetIsThumb = true)) ↔
      (isBlx (top ++ imm) = true → targetIsThumb = true →
        top.extractLsb' 0 1 = d.extractLsb' 1 1) := by
  subst hnew
  rw [isBlx_new _ _ hbranch hconvert, isBlx_old imm hbranch]
  cases targetIsThumb with
  | false =>
    rw [transfer_arm address _ hbranch hfits haligned]
    simp
  | true =>
    have hcall := isCall_old imm hbranch hconvert
    rw [isBlx_old imm hbranch] at hcall
    rw [transfer_thumb address hbranch hconvert hfits haligned]
    constructor
    · intro h hblx _
      exact h.1 hblx
    · intro h
      exact ⟨fun hblx => h hblx rfl, iff_of_true rfl ⟨hcall, rfl⟩⟩

/-- A branch goes to its target exactly if it was no `blx` to a Thumb function with another
half-word bit than that function. -/
theorem branchesToTarget_iff (w : FinalWriter) (inLazyPointers : Bool) (ref : Ref) (inAtom : Atom)
    (buffer : Memory) (hkind : isBranch24 ref.getKind = true)
    (hbranch : IsBranch (get32 buffer ref.fixUp)) (hplace : Aligned 2 (place ref inAtom))
    (htarget : Aligned (if ref.getTarget.isThumb then 1 else 2) (targetAddr ref)) :
    BranchesToTarget w inLazyPointers ref inAtom buffer ↔ HalfWordBitFits ref inAtom buffer := by
  have hok := fun buffer' => @fixUpReferenceFinal_branch w inLazyPointers ref inAtom buffer buffer'
    hkind
  obtain ⟨top, imm, hold⟩ : ∃ (top : BitVec 8) (imm : BitVec 24),
      get32 buffer ref.fixUp = top ++ imm :=
    ⟨_, _, (@append_extract_fields 8 24 (get32 buffer ref.fixUp)).symm⟩
  unfold BranchesToTarget HalfWordBitFits
  rw [hold] at hok hbranch ⊢
  have htop : top.extractLsb' 1 3 = 5#3 :=
    (Lib.BitFields.extract_in_high top imm 1 3).symm.trans hbranch
  rw [hBit_append, ← displacement_bit hplace]
  cases hrange : branchOutOfRange (branchDisplacement ref inAtom) with
  | true =>
    apply iff_of_true
    · intro buffer' h
      have hin := ((hok buffer').mp h).1
      rw [hrange] at hin
      cases hin
    · intro _ _ hin
      cases hin
  | false =>
    cases hconvert : cannotConvert top ref.getTarget.isThumb with
    | true =>
      apply iff_of_true
      · intro buffer' h
        obtain ⟨-, new, hnew, -⟩ := (hok buffer').mp h
        rw [branchInstruction_eq, hconvert, if_pos rfl] at hnew
        cases hnew
      · intro hblx _ _
        rw [isBlx_old imm htop] at hblx
        unfold cannotConvert at hconvert
        rw [hblx, Bool.not_true, Bool.and_false, Bool.false_and] at hconvert
        cases hconvert
    | false =>
      have hnew := branchInstruction_eq top imm (branchDisplacement ref inAtom)
        ref.getTarget.isThumb
      rw [hconvert, if_neg Bool.false_ne_true] at hnew
      have haligned : Aligned (if ref.getTarget.isThumb then 1 else 2)
          (branchDisplacement ref inAtom) :=
        displacement_aligned hplace (by split <;> decide) htarget
      have hreaches := newBranch_reaches (place ref inAtom) imm htop hconvert
        (branch_fits hrange) haligned rfl
      rw [displacement_reaches] at hreaches
      generalize newTop top ref.getTarget.isThumb _ ++
        (branchDisplacement ref inAtom).extractLsb' 2 24 = word at hnew hreaches
      have honly : ∀ buffer', fixUpReferenceFinal w inLazyPointers ref inAtom buffer =
          .ok buffer' ↔ set32 buffer ref.fixUp word = buffer' := by
        intro buffer'
        rw [hok, hrange, hnew]
        simp
      constructor
      · intro h hblx hthumb _
        have hb := h _ ((honly _).mpr rfl)
        rw [get32_set32] at hb
        exact hreaches.mp hb hblx hthumb
      · intro h buffer' hbuffer
        rw [← (honly buffer').mp hbuffer, get32_set32]
        exact hreaches.mpr fun hblx hthumb => h hblx hthumb rfl

/-- A `blx` at the address `0x1000`, to the address `0x1014` or `0x1012`. -/
def blxRef (address : BitVec 64) : Ref where
  getKind := .kBranch24
  fFixUpOffsetInSrc := 0
  getTarget := { pointer := 2, getName := some "_thumb", getAddress := address, isThumb := true }
  fToTargetOffset := 0
  getFromTarget := { pointer := 0, getName := none, getAddress := 0 }
  fFromTargetOffset := 0

def blxAtom : Atom := { pointer := 1, getName := some "_arm", getAddress := 0x1000 }

def blxBuffer : Memory := set32 (fun _ => 0) 0 0xFA000000

theorem blx_branches_to_target :
    (∃ buffer', fixUpReferenceFinal {} false (blxRef 0x1014) blxAtom blxBuffer = .ok buffer') ∧
      BranchesToTarget {} false (blxRef 0x1014) blxAtom blxBuffer :=
  ⟨⟨_, rfl⟩, (branchesToTarget_iff {} false (blxRef 0x1014) blxAtom blxBuffer rfl (by decide)
    (by decide) (by decide)).mpr (by unfold HalfWordBitFits; decide)⟩

/-- The half-word bit is not set, so that the branch is to the address `0x1010`. -/
theorem blx_misses_target :
    Aligned 2 (place (blxRef 0x1012) blxAtom) ∧ Aligned 1 (targetAddr (blxRef 0x1012)) ∧
      IsBranch (get32 blxBuffer 0) ∧
      ¬ BranchesToTarget {} false (blxRef 0x1012) blxAtom blxBuffer := by
  refine ⟨by decide, by decide, by decide, ?_⟩
  intro h
  have hreach := (h _ rfl).1
  revert hreach
  decide

/-! ## arm: the Thumb calls of a final linked image

A pair of instructions is one word, with its first instruction in the low half. -/

section Pair
variable (op2 op1 : BitVec 5) (imm2 imm1 : BitVec 11) (d : BitVec 64)

theorem isThumbBl_pair : isThumbBl ((op2 ++ imm2) ++ (op1 ++ imm1)) = (op2 == 31) := by
  have hhigh := masked_beq (op2 ++ imm2) (31#5 ++ 0#11) (31#5 ++ 0#11) (op1 ++ imm1)
  rw [masked_beq op2 31#5 31#5 imm2, show 31#5 = BitVec.allOnes 5 from rfl, and_allOnes]
    at hhigh
  exact hhigh

theorem isThumbBlx_pair : isThumbBlx ((op2 ++ imm2) ++ (op1 ++ imm1)) = (op2 == 29) := by
  have hhigh := masked_beq (op2 ++ imm2) (31#5 ++ 0#11) (29#5 ++ 0#11) (op1 ++ imm1)
  rw [masked_beq op2 31#5 29#5 imm2, show 31#5 = BitVec.allOnes 5 from rfl, and_allOnes]
    at hhigh
  exact hhigh

theorem disp11_eq {s : Nat} (hs : s + 11 ≤ 64) :
    (d.sshiftRight s).setWidth 32 &&& 0x7FF = 0#16 ++ (0#5 ++ d.extractLsb' s 11) := by
  have hmask := @and_low_low 5 11 16 ((d.sshiftRight s).setWidth 32)
  rw [extract_sshiftRight d (by decide) (by omega)] at hmask
  exact hmask

theorem joinPair : ((op2 ++ 0#11) ++ (op1 ++ 0#11)) |||
        (((d.sshiftRight 1).setWidth 32 &&& 0x7FF) <<< 16) |||
        ((d.sshiftRight 12).setWidth 32 &&& 0x7FF) =
      (op2 ++ d.extractLsb' 1 11) ++ (op1 ++ d.extractLsb' 12 11) := by
  rw [disp11_eq d (by decide), disp11_eq d (by decide), shiftLeft_low, or_append,
    or_append, or_zero, or_zero, high_or_low, high_or_low]

/-- The second instruction of a `blx`, or of a `bl`. -/
def newOpcode (targetIsThumb : Bool) : BitVec 5 := if targetIsThumb then 31 else 29

theorem thumbInstruction_eq (targetIsThumb : Bool) (hop : op2 = 31#5 ∨ op2 = 29#5) :
    thumbInstruction ((op2 ++ imm2) ++ (30#5 ++ imm1)) d targetIsThumb =
      .ok ((newOpcode targetIsThumb ++ d.extractLsb' 1 11) ++ (30#5 ++ d.extractLsb' 12 11)) := by
  have hkeep : ((op2 ++ imm2) ++ (30#5 ++ imm1)) &&& 0xF800F800#32 = (op2 ++ 0#11) ++ (30#5 ++ 0#11) := by
    have hmask : 0xF800F800#32 =
        (BitVec.allOnes 5 ++ 0#11) ++ (BitVec.allOnes 5 ++ 0#11) := by decide
    rw [hmask, and_append, and_append, and_append, and_allOnes,
      and_allOnes, and_zero, and_zero]
  have hblx : 0xE800F000#32 = (29#5 ++ 0#11) ++ (30#5 ++ 0#11) := by decide
  have hbl : 0xF800F000#32 = (31#5 ++ 0#11) ++ (30#5 ++ 0#11) := by decide
  unfold thumbInstruction newOpcode
  rw [isThumbBl_pair, isThumbBlx_pair]
  dsimp only
  rw [hkeep, hblx, hbl, joinPair, joinPair, joinPair]
  rcases hop with rfl | rfl <;> cases targetIsThumb <;> rfl

end Pair

theorem thumb_fits (h : thumbOutOfRange d = false) : FitsBits 23 d := by
  unfold thumbOutOfRange at h
  simp only [Bool.or_eq_false_iff, decide_eq_false_iff_not, Int.not_lt] at h
  unfold FitsBits
  omega

section Displacement
variable {ref : Ref} {inAtom : Atom}

theorem thumbDisplacement_thumb (hthumb : ref.getTarget.isThumb = true) :
    thumbDisplacement ref inAtom = targetAddr ref - (place ref inAtom + 4) := by
  unfold thumbDisplacement place
  rw [hthumb]
  rfl

theorem thumbDisplacement_arm (harm : ref.getTarget.isThumb = false) :
    thumbDisplacement ref inAtom =
      (targetAddr ref &&& -3 ||| (place ref inAtom + 4) &&& 2) - (place ref inAtom + 4) := by
  unfold thumbDisplacement place
  rw [harm]
  rfl

theorem thumbDisplacement_aligned (hplace : Aligned 1 (place ref inAtom))
    (htarget : Aligned (if ref.getTarget.isThumb then 1 else 2) (targetAddr ref)) :
    Aligned 1 (thumbDisplacement ref inAtom) := by
  have hbase : Aligned 1 (place ref inAtom + 4) := hplace.add (by decide) (by decide)
  cases hthumb : ref.getTarget.isThumb with
  | true =>
    rw [hthumb] at htarget
    rw [thumbDisplacement_thumb hthumb]
    exact Aligned.sub (by decide) htarget hbase
  | false =>
    rw [hthumb] at htarget
    rw [thumbDisplacement_arm hthumb]
    exact (forced_bit_aligned htarget).sub (by decide) hbase

end Displacement

def isThumbBranch22 : ReferenceKinds → Bool
  | .kThumbBranch22 | .kThumbBranch22WeakImport => true
  | _ => false

theorem fixUpReferenceFinal_thumb {inLazyPointers : Bool} {ref : Ref}
    {inAtom : Atom} {buffer buffer' : Memory} (hkind : isThumbBranch22 ref.getKind = true)
    (h : fixUpReferenceFinal w inLazyPointers ref inAtom buffer = .ok buffer') :
    thumbOutOfRange (thumbDisplacement ref inAtom) = false ∧
      ∃ new, thumbInstruction (get32 buffer ref.fixUp) (thumbDisplacement ref inAtom)
        ref.getTarget.isThumb = .ok new ∧ set32 buffer ref.fixUp new = buffer' := by
  have hcase : (if thumbOutOfRange (thumbDisplacement ref inAtom) then
        .error (.thrown "thumb bl/blx out of range (max is +/-4M)")
      else thumbInstruction (get32 buffer ref.fixUp) (thumbDisplacement ref inAtom)
        ref.getTarget.isThumb >>= fun new => .ok (set32 buffer ref.fixUp new)) = .ok buffer' := by
    rw [← h]
    unfold fixUpReferenceFinal
    cases hk : ref.getKind
    case kThumbBranch22 => rfl
    case kThumbBranch22WeakImport => rfl
    all_goals rw [hk] at hkind; cases hkind
  cases hrange : thumbOutOfRange (thumbDisplacement ref inAtom) with
  | true =>
    rw [hrange, if_pos rfl] at hcase
    cases hcase
  | false =>
    rw [hrange, if_neg Bool.false_ne_true] at hcase
    obtain ⟨new, hnew, hset⟩ := bind_eq_ok.mp hcase
    exact ⟨rfl, new, hnew, Except.ok.inj hset⟩

/-- Whatever the pair was, it becomes a call of the target in the state of the target. -/
theorem thumb_call_reaches_target (w : FinalWriter) (inLazyPointers : Bool) (ref : Ref)
    (inAtom : Atom) (buffer buffer' : Memory) (hkind : isThumbBranch22 ref.getKind = true)
    (hpair : IsPair (get32 buffer ref.fixUp)) (hplace : Aligned 1 (place ref inAtom))
    (htarget : Aligned (if ref.getTarget.isThumb then 1 else 2) (targetAddr ref))
    (h : fixUpReferenceFinal w inLazyPointers ref inAtom buffer = .ok buffer') :
    IsPair (get32 buffer' ref.fixUp) ∧
      pairTransfer (place ref inAtom) (get32 buffer' ref.fixUp) =
        ⟨targetAddr ref, ref.getTarget.isThumb⟩ := by
  obtain ⟨hrange, new, hnew, rfl⟩ := fixUpReferenceFinal_thumb hkind h
  have hold := fields_of_pair (get32 buffer ref.fixUp)
  rw [hpair.1] at hold
  rw [← hold, thumbInstruction_eq _ _ _ _ _ hpair.2] at hnew
  rw [get32_set32, ← Except.ok.inj hnew]
  constructor
  · unfold IsPair newOpcode
    rw [firstHalf_append, secondHalf_append, opcode_append, opcode_append]
    cases ref.getTarget.isThumb <;> decide
  · rw [pairTransfer_append _ _ (thumb_fits hrange) (thumbDisplacement_aligned hplace htarget)]
    cases hthumb : ref.getTarget.isThumb with
    | true =>
      rw [thumbDisplacement_thumb hthumb, if_neg (by decide), BitVec.add_comm,
        BitVec.sub_add_cancel]
    | false =>
      rw [hthumb] at htarget
      rw [thumbDisplacement_arm hthumb, if_pos (by decide), BitVec.add_comm (_ + 4),
        BitVec.sub_add_cancel,
        clear_forced_bit htarget]

/-- A `bl` at the address `0x1002`, to arm code at the address `0x2000`. -/
def thumbRef : Ref where
  getKind := .kThumbBranch22
  fFixUpOffsetInSrc := 2
  getTarget := { pointer := 2, getName := some "_arm", getAddress := 0x2000 }
  fToTargetOffset := 0
  getFromTarget := { pointer := 0, getName := none, getAddress := 0 }
  fFromTargetOffset := 0

def thumbAtom : Atom :=
  { pointer := 1, getName := some "_thumb", getAddress := 0x1000, isThumb := true }

def thumbBuffer : Memory := set32 (fun _ => 0) 2 0xF800F000

theorem thumb_call_reaches_arm :
    ∃ buffer', fixUpReferenceFinal {} false thumbRef thumbAtom thumbBuffer = .ok buffer' ∧
      pairTransfer (place thumbRef thumbAtom) (get32 buffer' thumbRef.fixUp) =
        ⟨targetAddr thumbRef, thumbRef.getTarget.isThumb⟩ :=
  ⟨_, rfl, (thumb_call_reaches_target {} false thumbRef thumbAtom thumbBuffer _ rfl (by decide)
    (by decide) (by decide) rfl).2⟩

end Toolwhip.Ld64.Reloc.Arm
