import Toolwhip.Ld64.RelocsPpc

/-! # Reading back the halves of ppc instructions

A 32-bit value is split over an instruction and the entry that follows the one for it.
The value of an absolute reference is always put together again; the one of a pic-base
reference is, where the base is counted from the atom that holds the reference. -/

namespace Toolwhip.Ld64.Reloc.Ppc
open Lib.ThrowingFold Lib.BitFields Lib.SignedHalves List BitVec
set_option autoImplicit false

/-! ## Halves -/

theorem and_low {n : Nat} (h : 16 ≤ n) (x : BitVec n) :
    x &&& 0xFFFF = (x.setWidth 16).setWidth n := by
  have hmask : (0xFFFF : BitVec n).toNat = 2 ^ 16 - 1 := by
    have hle : 2 ^ 16 ≤ 2 ^ n := Nat.pow_le_pow_right (by decide) h
    change 0xFFFF % 2 ^ n = _
    exact Nat.mod_eq_of_lt (by omega)
  apply eq_of_toNat_eq
  rw [toNat_and, hmask, Nat.and_two_pow_sub_one_eq_mod, toNat_setWidth,
    toNat_setWidth]
  exact (Nat.mod_eq_of_lt (by omega)).symm

theorem join_halves (x y : BitVec 32) :
    x <<< 16 ||| (y.setWidth 16).setWidth 32 = x.setWidth 16 ++ y.setWidth 16 :=
  shiftLeft_or_field (m := 16) (n := 16) x y

theorem add_halves (x y : BitVec 32) :
    x <<< 16 + (y.setWidth 16).setWidth 32 = x.setWidth 16 ++ y.setWidth 16 :=
  shiftLeft_add_field (m := 16) (n := 16) x y

theorem mask_high14 : ∀ i, i < 32 → (0xFFFF0003 : BitVec 32).getLsbD i = decide (i < 2 ∨ 16 ≤ i) := by
  decide

theorem mask_low14 : ∀ i, i < 32 → (0xFFFC : BitVec 32).getLsbD i = decide (2 ≤ i ∧ i < 16) := by
  decide

theorem mask_half14 : ∀ i, i < 16 → (0xFFFC : BitVec 16).getLsbD i = decide (2 ≤ i) := by
  decide

theorem mask_two : ∀ i, i < 64 → (0x3 : BitVec 64).getLsbD i = decide (i < 2) := by
  decide

section Halves
variable {instruction pair x : BitVec 32}
variable {y : BitVec 64}

theorem keepHigh_low (instruction z : BitVec 32) :
    (instruction &&& 0xFFFF0000 ||| z).setWidth 16 = z.setWidth 16 := by
  apply eq_of_getLsbD_eq
  intro i hi
  simp [hi]

theorem setLow16_low (instruction : BitVec 32) (half : BitVec 16) :
    (setLow16 instruction half).setWidth 16 = half := by
  unfold setLow16
  rw [keepHigh_low, setWidth_setWidth_of_le _ (by decide), setWidth_eq]

theorem setLow14_low (instruction : BitVec 32) {half : BitVec 16} (h : half &&& 0xFFFC = half) :
    setLow14 instruction half &&& 0xFFFC = half.setWidth 32 := by
  apply eq_of_getLsbD_eq
  intro i hi
  have hbit := congrArg (fun y => y.getLsbD i) h
  simp only [getLsbD_and] at hbit
  unfold setLow14
  rw [getLsbD_and, getLsbD_or, getLsbD_and, mask_high14 i hi, mask_low14 i hi]
  by_cases hlow : i < 16
  · rw [mask_half14 i hlow] at hbit
    by_cases htwo : 2 ≤ i
    · simp [hlow, htwo, hi, show ¬ i < 2 by omega, show ¬ 16 ≤ i by omega]
    simp [htwo] at hbit
    simp [htwo, hbit, hi]
  · simp [hlow, getLsbD_of_ge half i (by omega)]

theorem low14_of_aligned (h : y &&& 0x3 = 0) : y.setWidth 16 &&& 0xFFFC = y.setWidth 16 := by
  apply eq_of_getLsbD_eq
  intro i hi
  have hbit := congrArg (fun z => z.getLsbD i) h
  simp only [getLsbD_and] at hbit
  rw [mask_two i (by omega)] at hbit
  rw [getLsbD_and, mask_half14 i hi]
  by_cases htwo : 2 ≤ i
  · simp [htwo]
  simp [show i < 2 by omega] at hbit
  simp [hbit]

theorem lo16_halves (hlow : instruction.setWidth 16 = x.setWidth 16)
    (hhigh : pair.setWidth 16 = (x >>> 16).setWidth 16) : lo16 instruction pair = x := by
  unfold lo16
  rw [and_low (by decide), join_halves, hlow, hhigh]
  exact append_fields (m := 16) (n := 16) x

theorem lo16Sum_halves (hlow : instruction.setWidth 16 = x.setWidth 16)
    (hhigh : pair.setWidth 16 = (x >>> 16).setWidth 16) : lo16Sum instruction pair = x := by
  unfold lo16Sum
  rw [and_low (by decide), add_halves, hlow, hhigh]
  exact append_fields (m := 16) (n := 16) x

theorem lo14_halves (hlow : instruction &&& 0xFFFC = (x.setWidth 16).setWidth 32)
    (hhigh : pair.setWidth 16 = (x >>> 16).setWidth 16) : lo14 instruction pair = x := by
  unfold lo14
  rw [hlow, join_halves, hhigh]
  exact append_fields (m := 16) (n := 16) x

theorem lo14Sum_halves (hlow : instruction &&& 0xFFFC = (x.setWidth 16).setWidth 32)
    (hhigh : pair.setWidth 16 = (x >>> 16).setWidth 16) : lo14Sum instruction pair = x := by
  unfold lo14Sum
  rw [hlow, add_halves, hhigh]
  exact append_fields (m := 16) (n := 16) x

theorem hi16_halves (hhigh : instruction.setWidth 16 = (x >>> 16).setWidth 16)
    (hlow : pair.setWidth 16 = x.setWidth 16) : hi16 instruction pair = x := by
  unfold hi16
  rw [and_low (by decide), and_low (by decide), join_halves, hhigh, hlow,
    setWidth_setWidth_of_le _ (by decide), setWidth_eq]
  exact append_fields (m := 16) (n := 16) x

theorem sign_bit (y : BitVec 64) : y &&& 0x8000 ≠ 0 ↔ (y.setWidth 16).msb = true := by
  have hbit : (0x8000 : BitVec 64) = BitVec.twoPow 64 15 := rfl
  rw [hbit, and_twoPow, msb_eq_getLsbD_last, getLsbD_setWidth]
  cases y.getLsbD 15 with
  | false => simp
  | true => simp [show BitVec.twoPow 64 15 ≠ 0#64 by decide]

theorem high_setWidth (y : BitVec 64) :
    (y >>> 16).setWidth 16 = ((y.setWidth 32) >>> 16).setWidth 16 := by
  bv_omega

theorem adjustedHigh_eq (y : BitVec 64) : adjustedHigh y = carriedHigh (y.setWidth 32) := by
  unfold adjustedHigh carriedHigh
  rw [← high_setWidth, setWidth_setWidth_of_le _ (by decide)]
  by_cases h : y &&& 0x8000 ≠ 0
  · rw [if_pos h, if_pos ((sign_bit y).mp h)]
  rw [if_neg h, if_neg fun hmsb => h ((sign_bit y).mpr hmsb)]
  exact (BitVec.add_zero _).symm

theorem setHigh16AddLow_low (instruction : BitVec 32) (y : BitVec 64) :
    (setHigh16AddLow instruction y).setWidth 16 = adjustedHigh y := by
  unfold setHigh16AddLow adjustedHigh
  simp only [keepHigh_low]
  by_cases h : y &&& 0x8000 ≠ 0
  · rw [if_pos h, if_pos h]
    bv_omega
  · rw [if_neg h, if_neg h]
    bv_omega

theorem ha16_halves (hhigh : instruction.setWidth 16 = adjustedHigh y)
    (hlow : pair.setWidth 16 = (y.setWidth 32).setWidth 16) :
    ha16 instruction pair = y.setWidth 32 := by
  unfold ha16
  rw [and_low (by decide), and_low (by decide), hhigh, setWidth_setWidth_of_le _ (by decide), setWidth_eq,
    hlow, adjustedHigh_eq]
  exact carry_halves (y.setWidth 32)

end Halves

/-! ## The entries -/

def absKinds : List ReferenceKinds := [.kAbsLow16, .kAbsLow14, .kAbsHigh16, .kAbsHigh16AddLow]

def picBaseKinds : List ReferenceKinds := [.kPICBaseLow16, .kPICBaseLow14, .kPICBaseHigh16]

def relocType : ReferenceKinds → Option (BitVec 4)
  | .kAbsLow16 => some PPC_RELOC_LO16
  | .kAbsLow14 => some PPC_RELOC_LO14
  | .kAbsHigh16 => some PPC_RELOC_HI16
  | .kAbsHigh16AddLow => some PPC_RELOC_HA16
  | .kPICBaseLow16 => some PPC_RELOC_LO16_SECTDIFF
  | .kPICBaseLow14 => some PPC_RELOC_LO14_SECTDIFF
  | .kPICBaseHigh16 => some PPC_RELOC_HA16_SECTDIFF
  | _ => none

def pairHalf (kind : ReferenceKinds) (x : BitVec 32) : BitVec 16 :=
  match kind with
  | .kAbsLow16 | .kAbsLow14 | .kPICBaseLow16 | .kPICBaseLow14 => (x >>> 16).setWidth 16
  | _ => x.setWidth 16

/-- What the two halves mean, in each of the ways in which they are put together. -/
def Means (kind : ReferenceKinds) (instruction pair x : BitVec 32) : Prop :=
  match kind with
  | .kAbsLow16 => lo16 instruction pair = x ∧ lo16Sum instruction pair = x
  | .kAbsLow14 => lo14 instruction pair = x ∧ lo14Sum instruction pair = x
  | .kPICBaseLow16 => lo16 instruction pair = x
  | .kPICBaseLow14 => lo14 instruction pair = x
  | .kAbsHigh16 => hi16 instruction pair = x
  | .kAbsHigh16AddLow | .kPICBaseHigh16 => ha16 instruction pair = x
  | _ => False

section Content
variable {w : Writer} {inAtom : Atom} {ref : Ref} {raw content : BitVec 64} {pair : BitVec 32}

theorem get32_set32 (content : BitVec 64) (value : BitVec 32) :
    get32 (set32 content value) = value :=
  extract_high value _

theorem low_setWidth (y : BitVec 64) : y.setWidth 16 = (y.setWidth 32).setWidth 16 :=
  (setWidth_setWidth_of_le _ (by decide)).symm

variable (raw) in
theorem read_setLow16 (half : BitVec 16) :
    (get32 (set32 raw (setLow16 (get32 raw) half))).setWidth 16 = half := by
  rw [get32_set32, setLow16_low]

variable (raw) in
theorem read_setLow14 {y : BitVec 64} (h : y &&& 0x3 = 0) :
    get32 (set32 raw (setLow14 (get32 raw) (y.setWidth 16))) &&& 0xFFFC =
      ((y.setWidth 32).setWidth 16).setWidth 32 := by
  rw [get32_set32, setLow14_low _ (low14_of_aligned h), low_setWidth]

theorem means_abs (hkind : ref.getKind ∈ absKinds)
    (hcontent : fixUpReference_powerpc w ref inAtom raw = .ok content)
    (hpair : pair.setWidth 16 = pairHalf ref.getKind ((relocatableAddress w ref).setWidth 32)) :
    Means ref.getKind (get32 content) pair ((relocatableAddress w ref).setWidth 32) := by
  unfold fixUpReference_powerpc at hcontent
  simp only [absKinds, mem_cons, not_mem_nil, or_false] at hkind
  rcases hkind with h | h | h | h
  all_goals
    rw [h] at hcontent hpair ⊢
    dsimp only at hcontent
  · obtain rfl := Except.ok.inj hcontent
    have hlow := (read_setLow16 raw _).trans (low_setWidth (relocatableAddress w ref))
    exact ⟨lo16_halves hlow hpair, lo16Sum_halves hlow hpair⟩
  · by_cases haligned : relocatableAddress w ref &&& 0x3 = 0
    · simp only [haligned, ne_eq, not_true_eq_false, if_false] at hcontent
      obtain rfl := Except.ok.inj hcontent
      have hlow := read_setLow14 raw haligned
      exact ⟨lo14_halves hlow hpair, lo14Sum_halves hlow hpair⟩
    · rw [if_pos haligned] at hcontent
      cases hcontent
  · obtain rfl := Except.ok.inj hcontent
    have hhigh := (read_setLow16 raw _).trans (high_setWidth (relocatableAddress w ref))
    exact hi16_halves hhigh hpair
  · obtain rfl := Except.ok.inj hcontent
    apply ha16_halves _ hpair
    rw [get32_set32, setHigh16AddLow_low]

theorem means_picBase (hkind : ref.getKind ∈ picBaseKinds)
    (hcontent : fixUpReference_powerpc w ref inAtom raw = .ok content) (hpair : pair.setWidth 16 =
      pairHalf ref.getKind ((targetAddress ref - picBaseAddress ref).setWidth 32)) :
    Means ref.getKind (get32 content) pair ((targetAddress ref - picBaseAddress ref).setWidth 32) := by
  unfold fixUpReference_powerpc at hcontent
  generalize targetAddress ref - picBaseAddress ref = displacement at hcontent hpair ⊢
  simp only [picBaseKinds, mem_cons, not_mem_nil, or_false] at hkind
  rcases hkind with h | h | h
  all_goals
    rw [h] at hcontent hpair ⊢
    dsimp only at hcontent
  · obtain ⟨_, rfl⟩ := ite_error_ok hcontent
    have hlow := (read_setLow16 raw _).trans (low_setWidth displacement)
    exact lo16_halves hlow hpair
  · by_cases haligned : displacement &&& 0x3 = 0
    · simp only [haligned, ne_eq, not_true_eq_false, if_false, low14_of_aligned haligned] at hcontent
      obtain ⟨_, rfl⟩ := ite_error_ok hcontent
      exact lo14_halves (read_setLow14 raw haligned) hpair
    · split at hcontent
      · cases hcontent
      · cases hcontent
  · obtain ⟨_, rfl⟩ := ite_error_ok hcontent
    apply ha16_halves _ hpair
    exact read_setLow16 raw (adjustedHigh displacement)

end Content

section Entries
variable {r : RelocWords} {address symbolnum value half : BitVec 32} {pcrel isExtern : Bool}
  {length : BitVec 2} {type : BitVec 4}

/-- What is read from an entry that is not scattered. -/
structure IsPlain (r : RelocWords) (address : BitVec 32) (symbolnum : BitVec 24) (isExtern : Bool)
    (type : BitVec 4) : Prop where
  address : r.r_address = address
  symbolnum : r_symbolnum r = symbolnum
  isExtern : r_external r = isExtern
  type : r_type r = type

theorem relocationInfo_plain :
    IsPlain (relocationInfo address symbolnum pcrel length isExtern type) address
      (symbolnum.setWidth 24) isExtern type where
  address := rfl
  symbolnum := extract_high (n := 8) _ _
  isExtern := by
    unfold r_external relocationInfo
    rw [extract_in_low (n := 8) _ _ (by decide), extract_in_low (n := 7) _ _ (by decide),
      extract_in_low (n := 5) _ _ (by decide), extract_high (n := 4)]
    exact ofBool_beq_one isExtern
  type := by
    unfold r_type relocationInfo
    rw [extract_in_low (n := 8) _ _ (by decide), extract_in_low (n := 7) _ _ (by decide),
      extract_in_low (n := 5) _ _ (by decide)]
    exact extract_low _ _

theorem nextPair_plain (h : half < 0x80000000) :
    nextPair (relocationInfo half symbolnum pcrel length isExtern PPC_RELOC_PAIR) = some (half, 0) := by
  have hscattered : (relocationInfo half symbolnum pcrel length isExtern
    PPC_RELOC_PAIR).r_scattered = false := r_scattered_of_lt h
  unfold nextPair
  rw [hscattered, if_neg Bool.false_ne_true, if_pos relocationInfo_plain.type]
  rfl

theorem nextPair_scattered (h : IsScattered r half pcrel length PPC_RELOC_PAIR value) :
    nextPair r = some (half, value) := by
  unfold nextPair
  rw [h.scattered, if_pos rfl, if_pos h.type, h.address, h.value]

end Entries

section Written
variable {w : Writer} {inAtom : Atom} {ref : Ref} {relocs : List RelocWords}

theorem relocatableAddress_low (w : Writer) (ref : Ref) : (relocatableAddress w ref).setWidth 32 =
      if w.makesExternalRelocatableReference ref.getTarget then ref.fToTargetOffset else toAddr ref := by
  unfold relocatableAddress
  split
  · have h : targetAddress ref - ref.getTarget.getAddress = ref.getTargetOffset := by
      unfold targetAddress
      bv_omega
    rw [h]
    exact getTargetOffset_low
  · rfl

theorem highHalf_low (w : Writer) (ref : Ref) :
    (highHalf w ref).setWidth 16 = ((relocatableAddress w ref).setWidth 32 >>> 16).setWidth 16 := by
  rw [relocatableAddress_low]
  unfold highHalf
  split
  · rw [setWidth_setWidth_of_le _ (by decide), high_setWidth, getTargetOffset_low]
  · rfl

theorem lowHalf_low (w : Writer) (ref : Ref) :
    (lowHalf w ref).setWidth 16 = ((relocatableAddress w ref).setWidth 32).setWidth 16 := by
  rw [relocatableAddress_low]
  unfold lowHalf
  split
  · rw [and_low (by decide), setWidth_setWidth_of_le _ (by decide),
      setWidth_setWidth_of_le _ (by decide), setWidth_eq, low_setWidth,
      getTargetOffset_low]
  · rw [and_low (by decide), setWidth_setWidth_of_le _ (by decide), setWidth_eq]

theorem half_lt (hlocal : w.makesExternalRelocatableReference ref.getTarget = false) :
    highHalf w ref < 0x80000000 ∧ lowHalf w ref < 0x80000000 := by
  unfold highHalf lowHalf
  rw [hlocal, if_neg Bool.false_ne_true, if_neg Bool.false_ne_true, and_low (by decide)]
  constructor
  · bv_omega
  · bv_omega

theorem addObjectRelocs_abs (hkind : ref.getKind ∈ absKinds)
    (h : addObjectRelocs_powerpc w inAtom ref = .ok relocs) :
    ∃ num type reloc half, relocType ref.getKind = some type ∧
      w.symbolnum (w.makesExternalRelocatableReference ref.getTarget) ref.getTarget = .ok num ∧
      targetReloc w inAtom ref num (isOffLocal w ref) false 2 type = .ok reloc ∧
      relocs = [reloc, relocationInfo half 0 false 2 false PPC_RELOC_PAIR] ∧
      half.setWidth 16 = pairHalf ref.getKind ((relocatableAddress w ref).setWidth 32) ∧
      (w.makesExternalRelocatableReference ref.getTarget = false → half < 0x80000000) := by
  obtain ⟨num, hnum, h⟩ := bind_eq_ok.mp h
  simp only [absKinds, mem_cons, not_mem_nil, or_false] at hkind
  rcases hkind with hk | hk | hk | hk
  all_goals
    rw [hk] at h ⊢
    obtain ⟨reloc, hreloc, hrelocs⟩ := map_eq_ok.mp h
  · exact ⟨_, _, _, _, rfl, hnum, hreloc, hrelocs.symm, highHalf_low w ref, fun h => (half_lt h).1⟩
  · exact ⟨_, _, _, _, rfl, hnum, hreloc, hrelocs.symm, highHalf_low w ref, fun h => (half_lt h).1⟩
  · exact ⟨_, _, _, _, rfl, hnum, hreloc, hrelocs.symm, lowHalf_low w ref, fun h => (half_lt h).2⟩
  · exact ⟨_, _, _, _, rfl, hnum, hreloc, hrelocs.symm, lowHalf_low w ref, fun h => (half_lt h).2⟩

theorem addObjectRelocs_picBase (hkind : ref.getKind ∈ picBaseKinds)
    (h : addObjectRelocs_powerpc w inAtom ref = .ok relocs) :
    ∃ type reloc next half, relocType ref.getKind = some type ∧ relocs = [reloc, next] ∧
      IsScattered reloc (Writer.relocAddress inAtom ref) false 2 type ref.getTarget.address32 ∧
      IsScattered next half false 2 PPC_RELOC_PAIR (fromAddr inAtom ref) ∧
      half.setWidth 16 = pairHalf ref.getKind (toAddr ref - fromAddr inAtom ref) := by
  have hlow : ∀ x : BitVec 32, (x &&& 0xFFFF).setWidth 16 = x.setWidth 16 := by
    intro x
    rw [and_low (by decide), setWidth_setWidth_of_le _ (by decide), setWidth_eq]
  obtain ⟨num, hnum, h⟩ := bind_eq_ok.mp h
  simp only [picBaseKinds, mem_cons, not_mem_nil, or_false] at hkind
  rcases hkind with hk | hk | hk
  all_goals
    rw [hk] at h ⊢
    obtain ⟨reloc, hreloc, h⟩ := bind_eq_ok.mp h
    obtain ⟨next, hnext, hrelocs⟩ := bind_eq_ok.mp h
    obtain rfl := Except.ok.inj hrelocs
    exact ⟨_, _, _, _, rfl, rfl, scatteredInfo_ok hreloc, scatteredInfo_ok hnext, hlow _⟩

end Written

section Read
variable {rd : Reader 32} {sect : Section 32} {kind : ReferenceKinds} {type : BitVec 4}
  {content : BitVec 64} {reloc next : RelocWords} {address half value x : BitVec 32}
  {num : BitVec 24} {isExtern : Bool}

theorem readPlain_abs (hkind : kind ∈ absKinds) (htype : relocType kind = some type)
    (hreloc : IsPlain reloc address num isExtern type) (hnext : r_type next = PPC_RELOC_PAIR)
    (hmeans : Means kind (get32 content) next.r_address x) : readPlain rd sect reloc next content =
      (readAbs rd kind reloc (sect.addr + address) x x).map fun r =>
        { reference := some r, skipNext := true } := by
  unfold readPlain
  simp only [hreloc.type, hreloc.address]
  simp only [absKinds, mem_cons, not_mem_nil, or_false] at hkind
  rcases hkind with rfl | rfl | rfl | rfl
  all_goals
    obtain rfl := Option.some.inj htype
  · rw [hmeans.1, hmeans.2]
    exact if_pos hnext
  · rw [hmeans.1]
    exact if_pos hnext
  · rw [hmeans]
    exact if_pos hnext
  · rw [hmeans]
    exact if_pos hnext

theorem relocType_ne (h : relocType kind = some type) :
    type ≠ PPC_RELOC_VANILLA ∧ type ≠ PPC_RELOC_BR14 ∧ type ≠ PPC_RELOC_BR24 := by
  unfold relocType at h
  split at h
  all_goals cases h
  all_goals decide

theorem readScattered_pair {v : BitVec 32} {result : Except ReadError (Reference ReferenceKinds)}
    (htype : relocType kind = some type)
    (hreloc : IsScattered reloc address false 2 type value) (hnext : nextPair next = some (half, v))
    (hread : readScatteredPair rd reloc (sect.addr + address) half v content = result.map some) :
    readScattered rd sect reloc next content =
      result.map fun r => { reference := some r, skipNext := true } := by
  obtain ⟨hvanilla, hbr14, hbr24⟩ := relocType_ne htype
  unfold readScattered
  simp only [hreloc.type, hreloc.address, hnext, hvanilla, hbr14, hbr24, if_false, hread]
  cases result with
  | error e => rfl
  | ok r => rfl

theorem readScattered_abs (hkind : kind ∈ absKinds) (htype : relocType kind = some type)
    (hreloc : IsScattered reloc address false 2 type value) (hnext : nextPair next = some (half, 0))
    (hmeans : Means kind (get32 content) half x) : readScattered rd sect reloc next content =
      (makeReferenceWithToBase rd kind (sect.addr + address) x value).map fun r =>
        { reference := some r, skipNext := true } := by
  apply readScattered_pair htype hreloc hnext
  unfold readScatteredPair
  simp only [hreloc.type, hreloc.value]
  simp only [absKinds, mem_cons, not_mem_nil, or_false] at hkind
  rcases hkind with rfl | rfl | rfl | rfl
  all_goals
    obtain rfl := Option.some.inj htype
  · rw [hmeans.2]
    rfl
  · rw [hmeans.2]
    rfl
  · rw [hmeans]
    rfl
  · rw [hmeans]
    rfl

theorem readScattered_picBase {fromAddr : BitVec 32} (hkind : kind ∈ picBaseKinds)
    (htype : relocType kind = some type) (hreloc : IsScattered reloc address false 2 type value)
    (hnext : nextPair next = some (half, fromAddr)) (hmeans : Means kind (get32 content) half x) :
    readScattered rd sect reloc next content =
      (makePicBaseReference rd kind (sect.addr + address) fromAddr (fromAddr + x) value).map fun r =>
        { reference := some r, skipNext := true } := by
  apply readScattered_pair htype hreloc hnext
  unfold readScatteredPair
  simp only [hreloc.type, hreloc.value]
  simp only [picBaseKinds, mem_cons, not_mem_nil, or_false] at hkind
  rcases hkind with rfl | rfl | rfl
  all_goals
    obtain rfl := Option.some.inj htype
    rw [hmeans]
    rfl

end Read

section RoundTrip
variable {w : Writer} {rd : Reader 32} {sect : Section 32} {inAtom : Atom} {ref : Ref}

def IsAt (rd : Reader 32) (ao : AtomAndOffset) (address : BitVec 32) : Prop :=
  ∃ a, ao.atom = some a ∧ a ∈ rd.atoms ∧ a.address32 + ao.offset = address

def Locates (rd : Reader 32) (r : Reference ReferenceKinds) (address : BitVec 32) : Prop :=
  ∃ a offset, r.PointsTo rd a offset ∧ a.address32 + offset = address

variable (ref) in
def fromTargetAddress : BitVec 32 := ref.getFromTarget.address32 + ref.fFromTargetOffset

variable (w rd ref) in
/-- A reference of the same kind with the value that was written: the addend of an external
target, and else the address of the target with the offset; a pic-base reference has
the address of its base as well. -/
def SameValue (r : Reference ReferenceKinds) : Prop :=
  r.fKind = ref.getKind ∧
    if ref.getKind ∈ picBaseKinds then
      Locates rd r (toAddr ref) ∧ IsAt rd r.fFromTarget (fromTargetAddress ref)
    else if w.makesExternalRelocatableReference ref.getTarget then
      r.fToTarget = { offset := ref.fToTargetOffset } ∧ r.fToTargetName = ref.getTarget.getName
    else if ref.getTarget.getDefinitionKind = .kAbsoluteSymbol ∧ ref.fToTargetOffset = 0 then
      r.fToTarget = {} ∧ ∃ a, rd.fAddrToAbsoluteAtom.lookup (toAddr ref) = some a ∧
        a.address32 = toAddr ref ∧ r.fToTargetName = a.getName
    else Locates rd r (toAddr ref)

theorem isAt_find (hback : ReadsBack w rd sect inAtom ref) (address : BitVec 32) :
    IsAt rd (findAtomAndOffset rd.fAddrToAtom address) address := by
  obtain ⟨zero, hzero⟩ := hback.fromZero
  obtain ⟨a, ha⟩ := find_isSome hzero address
  obtain ⟨key, hmem, hoffset⟩ := find_key ha
  have haddress : a.address32 = key := (hback.keys _ hmem).1
  refine ⟨a, ha, mem_atoms_of_entry hmem, ?_⟩
  bv_omega

theorem isAt_findWithBase (hback : ReadsBack w rd sect inAtom ref) (base address : BitVec 32) :
    IsAt rd (findWithBase rd.fAddrToAtom base address) address := by
  unfold findWithBase
  cases hlookup : rd.fAddrToAtom.entries.lookup base with
  | none => exact isAt_find hback address
  | some a =>
    have hmem := mem_of_lookup hlookup
    have haddress : a.address32 = base := (hback.keys _ hmem).1
    refine ⟨a, rfl, mem_atoms_of_entry hmem, ?_⟩
    bv_omega

theorem IsAt.unique {ao : AtomAndOffset} {address address' : BitVec 32} (h : IsAt rd ao address)
    (h' : IsAt rd ao address') : address = address' := by
  obtain ⟨a, ha, _, haddress⟩ := h
  obtain ⟨a', ha', _, haddress'⟩ := h'
  obtain rfl := Option.some.inj (ha.symm.trans ha')
  rw [← haddress, ← haddress']

theorem newReference_locates (kind : ReferenceKinds) {src toTarget : AtomAndOffset}
    (fromTarget : AtomAndOffset) {address srcAddress : BitVec 32} (hback : ReadsBack w rd sect inAtom ref)
    (hsrc : IsAt rd src srcAddress) (hto : IsAt rd toTarget address) :
    ∃ r, newReference kind src fromTarget toTarget = .ok r ∧ r.fKind = kind ∧
      r.fFromTarget = fromTarget ∧ Locates rd r address := by
  obtain ⟨s, hs, _⟩ := hsrc
  obtain ⟨a, ha, hmem, haddress⟩ := hto
  obtain ⟨r, hr, hkind, _, hfrom, _, hpoints⟩ :=
    newReference_pointsTo kind hback.namesUnique hmem hs ha
  exact ⟨r, hr, hkind, hfrom, a, _, (hpoints a _).mpr ⟨rfl, rfl⟩, haddress⟩

theorem toAddr_eq (ref : Ref) : toAddr ref = ref.getTarget.address32 + ref.fToTargetOffset := by
  unfold toAddr
  rw [setWidth_add _ _ (by decide), getTargetOffset_low]
  rfl

theorem fromAddr_eq (inAtom : Atom) (ref : Ref) :
    fromAddr inAtom ref = inAtom.address32 + ref.fFromTargetOffset := by
  unfold fromAddr BoundReference.getFromTargetOffset
  rw [setWidth_add _ _ (by decide), setWidth_setWidth_of_le _ (by decide),
    setWidth_eq]
  rfl

theorem fromAddr_eq_iff : fromAddr inAtom ref = fromTargetAddress ref ↔
    inAtom.address32 = ref.getFromTarget.address32 := by
  rw [fromAddr_eq]
  exact BitVec.add_left_inj _

theorem displacement_low (ref : Ref) :
    (targetAddress ref - picBaseAddress ref).setWidth 32 = toAddr ref - fromTargetAddress ref := by
  have hto : (targetAddress ref).setWidth 32 = toAddr ref := rfl
  have hfrom : (picBaseAddress ref).setWidth 32 = fromTargetAddress ref := by
    unfold picBaseAddress fromTargetAddress BoundReference.getFromTargetOffset
    rw [setWidth_add _ _ (by decide), setWidth_setWidth_of_le _ (by decide),
      setWidth_eq]
    rfl
  bv_omega

section PicBase
variable {raw content : BitVec 64} {relocs : List RelocWords}
variable {kind : ReferenceKinds} {srcAddr x : BitVec 32} {reloc : RelocWords}

theorem means_exists (hkind : kind ∈ picBaseKinds)
    (instruction pair : BitVec 32) : ∃ x, Means kind instruction pair x := by
  simp only [picBaseKinds, mem_cons, not_mem_nil, or_false] at hkind
  rcases hkind with rfl | rfl | rfl
  all_goals exact ⟨_, rfl⟩

theorem Means.unique (hkind : kind ∈ picBaseKinds)
    {instruction pair x x' : BitVec 32} (h : Means kind instruction pair x)
    (h' : Means kind instruction pair x') : x = x' := by
  simp only [picBaseKinds, mem_cons, not_mem_nil, or_false] at hkind
  rcases hkind with rfl | rfl | rfl
  all_goals exact h.symm.trans h'

theorem picBase_iff (hback : ReadsBack w rd sect inAtom ref) (hkind : ref.getKind ∈ picBaseKinds)
    (hrelocs : addObjectRelocs_powerpc w inAtom ref = .ok relocs)
    (hcontent : fixUpReference_powerpc w ref inAtom raw = .ok content) :
    ∃ reloc next, relocs = [reloc, next] ∧
      (Yields (addRelocReference_powerpc rd sect reloc next content) (SameValue w rd ref) ↔
        inAtom.address32 = ref.getFromTarget.address32) := by
  obtain ⟨type, reloc, next, half, htype, rfl, hreloc, hnext, hhalf⟩ :=
    addObjectRelocs_picBase hkind hrelocs
  refine ⟨reloc, next, rfl, ?_⟩
  obtain ⟨x, hmeans⟩ := means_exists hkind (get32 content) half
  have hread : addRelocReference_powerpc rd sect reloc next content = _ :=
    (if_pos hreloc.scattered).trans
      (readScattered_picBase hkind htype hreloc (nextPair_scattered hnext) hmeans)
  obtain ⟨r, hr, hrkind, hrfrom, hlocates⟩ :=
    newReference_locates ref.getKind (findAtomAndOffset rd.fAddrToAtom (fromAddr inAtom ref)) hback
      (isAt_find hback (sect.addr + Writer.relocAddress inAtom ref))
      (isAt_findWithBase hback ref.getTarget.address32 (fromAddr inAtom ref + x))
  rw [makePicBaseReference, hr] at hread
  rw [yields_iff hread rfl, SameValue, if_pos hkind, hrfrom, ← fromAddr_eq_iff]
  constructor
  · intro ⟨_, _, hfrom⟩
    exact (isAt_find hback (fromAddr inAtom ref)).unique hfrom
  · intro hfrom
    refine ⟨hrkind, ?_, ?_⟩
    · have hmeans' : Means ref.getKind (get32 content) half (toAddr ref - fromAddr inAtom ref) := by
        rw [hfrom, ← displacement_low]
        apply means_picBase hkind hcontent
        rw [hhalf, hfrom, displacement_low]
      have htarget : fromAddr inAtom ref + x = toAddr ref := by
        rw [hmeans.unique hkind hmeans']
        bv_omega
      rw [← htarget]
      exact hlocates
    · rw [← hfrom]
      exact isAt_find hback (fromAddr inAtom ref)

theorem isOffLocal_iff : isOffLocal w ref = true ↔
    ref.fToTargetOffset ≠ 0 ∧ w.makesExternalRelocatableReference ref.getTarget = false := by
  unfold isOffLocal
  rw [Ne, ← BoundReference.getTargetOffset_eq_zero]
  simp

theorem symbolnum_eq_zero (index : BitVec 8) :
    ((index.setWidth 32).setWidth 24 : BitVec 24) = 0 ↔ index = 0 := by
  bv_omega

theorem readAbs_external {num : BitVec 32}
    (hback : ReadsBack w rd sect inAtom ref) (hkind : ref.getKind ∉ picBaseKinds)
    (hexternal : w.makesExternalRelocatableReference ref.getTarget = true)
    (hnum : w.symbolIndex ref.getTarget = .ok num)
    (hreloc : r_external reloc = true) (hsymbolnum : r_symbolnum reloc = num.setWidth 24) :
    ∃ r, readAbs rd ref.getKind reloc srcAddr ref.fToTargetOffset x = .ok r ∧
      SameValue w rd ref r := by
  obtain ⟨sym, hsym, hname⟩ := hback.symbols hexternal num hnum
  obtain ⟨src, hsrc, _⟩ := isAt_find hback srcAddr
  refine ⟨{ fKind := ref.getKind, fFixUpOffsetInSrc := (findAtomAndOffset rd.fAddrToAtom srcAddr).offset,
            fToTarget := { offset := ref.fToTargetOffset }, fToTargetName := some sym.name }, ?_, rfl, ?_⟩
  · unfold readAbs targetSymbol byName
    rw [hreloc, hsymbolnum, hsym, if_pos rfl]
    exact newReferenceByName_ok hsrc _ _
  · rw [if_neg hkind, if_pos hexternal]
    exact ⟨rfl, hname.symm⟩

theorem readAbs_local (hback : ReadsBack w rd sect inAtom ref) (hkind : ref.getKind ∉ picBaseKinds)
    (hlocal : w.makesExternalRelocatableReference ref.getTarget = false)
    (hoffset : ref.fToTargetOffset = 0) (hreloc : r_external reloc = false)
    (hsymbolnum : r_symbolnum reloc = (ref.getTarget.sectionIndex.setWidth 32).setWidth 24) :
    ∃ r, readAbs rd ref.getKind reloc srcAddr x (toAddr ref) = .ok r ∧ SameValue w rd ref r := by
  have hto : toAddr ref = ref.getTarget.address32 := by
    rw [toAddr_eq, hoffset]
    exact BitVec.add_zero _
  unfold readAbs SameValue
  rw [hreloc, if_neg Bool.false_ne_true, hsymbolnum]
  simp only [symbolnum_eq_zero, hlocal, if_neg hkind, hoffset, and_true, Bool.false_eq_true, if_false]
  by_cases habsolute : ref.getTarget.getDefinitionKind = .kAbsoluteSymbol
  · obtain ⟨hsection, b, hlookup, hb, _⟩ := hback.absolute hlocal habsolute
    obtain ⟨src, hsrc, _⟩ := isAt_find hback srcAddr
    rw [if_pos hsection, hto, hlookup]
    refine ⟨_, newReferenceByName_ok hsrc _ _, rfl, ?_⟩
    rw [if_pos habsolute]
    exact ⟨rfl, b, rfl, hb, rfl⟩
  · obtain ⟨hsection, _⟩ := hback.located hlocal habsolute
    obtain ⟨r, hr, hrkind, _, hlocates⟩ :=
      newReference_locates ref.getKind {} hback (isAt_find hback srcAddr)
        (isAt_find hback (toAddr ref))
    rw [if_neg hsection]
    refine ⟨r, hr, hrkind, ?_⟩
    rw [if_neg habsolute]
    exact hlocates

theorem makeReferenceWithToBase_local (srcAddr base : BitVec 32)
    (hback : ReadsBack w rd sect inAtom ref) (hkind : ref.getKind ∉ picBaseKinds)
    (hlocal : w.makesExternalRelocatableReference ref.getTarget = false)
    (hoffset : ref.fToTargetOffset ≠ 0) :
    ∃ r, makeReferenceWithToBase rd ref.getKind srcAddr (toAddr ref) base = .ok r ∧
      SameValue w rd ref r := by
  obtain ⟨r, hr, hrkind, _, hlocates⟩ :=
    newReference_locates ref.getKind {} hback (isAt_find hback srcAddr)
      (isAt_findWithBase hback base (toAddr ref))
  refine ⟨r, hr, hrkind, ?_⟩
  rw [if_neg hkind, hlocal, if_neg Bool.false_ne_true, if_neg fun h => hoffset h.2]
  exact hlocates

theorem not_picBase (hkind : ref.getKind ∈ absKinds) : ref.getKind ∉ picBaseKinds := by
  simp only [absKinds, mem_cons, not_mem_nil, or_false] at hkind
  rcases hkind with h | h | h | h
  all_goals
    rw [h]
    decide

theorem abs_reads (hback : ReadsBack w rd sect inAtom ref) (hkind : ref.getKind ∈ absKinds)
    (hrelocs : addObjectRelocs_powerpc w inAtom ref = .ok relocs)
    (hcontent : fixUpReference_powerpc w ref inAtom raw = .ok content) :
    ∃ reloc next, relocs = [reloc, next] ∧
      Yields (addRelocReference_powerpc rd sect reloc next content) (SameValue w rd ref) := by
  have hnot := not_picBase hkind
  obtain ⟨num, type, reloc, half, htype, hnum, hreloc, rfl, hhalf, hlt⟩ :=
    addObjectRelocs_abs hkind hrelocs
  refine ⟨reloc, _, rfl, ?_⟩
  have hmeans := means_abs hkind hcontent hhalf
  rw [relocatableAddress_low] at hmeans
  unfold targetReloc at hreloc
  unfold addRelocReference_powerpc
  by_cases hoff : isOffLocal w ref = true
  · obtain ⟨hoffset, hlocal⟩ := isOffLocal_iff.mp hoff
    rw [if_pos hoff] at hreloc
    rw [hlocal, if_neg Bool.false_ne_true] at hmeans
    have hscattered := scatteredInfo_ok hreloc
    obtain ⟨r, hr, hsame⟩ := makeReferenceWithToBase_local
      (sect.addr + Writer.relocAddress inAtom ref) ref.getTarget.address32 hback hnot hlocal hoffset
    rw [if_pos hscattered.scattered, readScattered_abs hkind htype hscattered
      (nextPair_plain (hlt hlocal)) hmeans, hr]
    exact ⟨_, r, rfl, rfl, hsame⟩
  · rw [if_neg hoff] at hreloc
    obtain rfl := Except.ok.inj hreloc
    rw [r_scattered_of_lt hback.notScattered, if_neg Bool.false_ne_true,
      readPlain_abs hkind htype relocationInfo_plain relocationInfo_plain.type hmeans]
    cases hexternal : w.makesExternalRelocatableReference ref.getTarget with
    | true =>
      rw [hexternal] at hnum
      obtain ⟨r, hr, hsame⟩ := readAbs_external hback hnot hexternal hnum
        relocationInfo_plain.isExtern relocationInfo_plain.symbolnum
      rw [if_pos rfl, hr]
      exact ⟨_, r, rfl, rfl, hsame⟩
    | false =>
      have hoffset : ref.fToTargetOffset = 0 :=
        Classical.not_not.mp fun h => hoff (isOffLocal_iff.mpr ⟨h, hexternal⟩)
      rw [hexternal] at hnum
      obtain rfl := Except.ok.inj hnum
      obtain ⟨r, hr, hsame⟩ := readAbs_local hback hnot hexternal hoffset
        relocationInfo_plain.isExtern relocationInfo_plain.symbolnum
      rw [if_neg Bool.false_ne_true, hr]
      exact ⟨_, r, rfl, rfl, hsame⟩

end PicBase
/-- The value is read back from what was written, if the base of a pic-base reference is
at its offset from the atom that holds the reference. -/
theorem addRelocReference_powerpc_iff {raw content : BitVec 64} {relocs : List RelocWords}
    (hback : ReadsBack w rd sect inAtom ref) (hkind : ref.getKind ∈ absKinds ++ picBaseKinds)
    (hrelocs : addObjectRelocs_powerpc w inAtom ref = .ok relocs)
    (hcontent : fixUpReference_powerpc w ref inAtom raw = .ok content) :
    ∃ reloc next, relocs = [reloc, next] ∧
      (Yields (addRelocReference_powerpc rd sect reloc next content) (SameValue w rd ref) ↔
        (ref.getKind ∈ picBaseKinds → inAtom.address32 = ref.getFromTarget.address32)) := by
  rcases List.mem_append.mp hkind with habs | hpic
  · obtain ⟨reloc, next, hentries, hreads⟩ := abs_reads hback habs hrelocs hcontent
    refine ⟨reloc, next, hentries, ?_⟩
    exact iff_of_true hreads fun h => absurd h (not_picBase habs)
  obtain ⟨reloc, next, hentries, hiff⟩ := picBase_iff hback hpic hrelocs hcontent
  refine ⟨reloc, next, hentries, ?_⟩
  rw [hiff]
  exact ⟨fun h _ => h, fun h => h hpic⟩

end RoundTrip

/-! A load of a variable through a base that is in the function before the one that holds
the load. -/

def base : Atom := { pointer := 1, getName := some "_base", getAddress := 0 }
def load : Atom :=
  { pointer := 2, getName := some "_load", getAddress := 0x10, getSectionOffset := 0x10 }
def variable_ : Atom := { pointer := 3, getName := some "_variable", getAddress := 0x18000 }

def threeAtoms : Reader 32 where
  fAddrToAtom :=
    { entries := [(0, base), (0x10, load), (0x18000, variable_)], sorted := by decide }

def text : Section 32 := { addr := 0, size := 0x20, segname := "__TEXT", sectname := "__text" }

def reference (fromTarget : Atom) : Ref where
  getKind := .kPICBaseHigh16
  fFixUpOffsetInSrc := 4
  getTarget := variable_
  fToTargetOffset := 8
  getFromTarget := fromTarget
  fFromTargetOffset := 4

theorem threeAtoms_readsBack (fromTarget : Atom) :
    ReadsBack {} threeAtoms text load (reference fromTarget) where
  sectionAddress := by decide
  notScattered := (by decide : (0x14 : BitVec 32) < 0x80000000)
  hasRelocations := rfl
  fromZero := ⟨base, mem_cons_self⟩
  keys := by decide
  namesUnique := Reader.namesUnique_of_nodup (by decide)
  symbols := by
    intro h
    cases h
  located := by
    intro _ _
    refine ⟨(by decide : (1 : BitVec 8) ≠ 0), variable_, ?_⟩
    exact mem_cons_of_mem _ (mem_cons_of_mem _ mem_cons_self)
  absolute := by
    intro _ h
    cases h

/-- With the base in the function itself. -/
theorem addRelocReference_powerpc_own_base :
    ∃ relocs content, addObjectRelocs_powerpc {} load (reference load) = .ok relocs ∧
      fixUpReference_powerpc {} (reference load) load 0 = .ok content ∧
      ∃ reloc next, relocs = [reloc, next] ∧
        Yields (addRelocReference_powerpc threeAtoms text reloc next content)
          (SameValue {} threeAtoms (reference load)) := by
  refine ⟨_, _, rfl, rfl, ?_⟩
  obtain ⟨reloc, next, hentries, hiff⟩ :=
    addRelocReference_powerpc_iff (threeAtoms_readsBack load) (by decide) rfl rfl
  exact ⟨reloc, next, hentries, hiff.mpr fun _ => rfl⟩

/-- The base that is read back is at the offset in the wrong function. -/
theorem base_moves :
    ∃ reloc next content, addObjectRelocs_powerpc {} load (reference base) = .ok [reloc, next] ∧
      fixUpReference_powerpc {} (reference base) load 0 = .ok content ∧
      ReadsBack {} threeAtoms text load (reference base) ∧
      ¬ Yields (addRelocReference_powerpc threeAtoms text reloc next content)
        (SameValue {} threeAtoms (reference base)) := by
  refine ⟨_, _, _, rfl, rfl, threeAtoms_readsBack base, ?_⟩
  intro ⟨d, r, hd, hr, _, hsame⟩
  obtain rfl := Except.ok.inj hd
  obtain rfl := Option.some.inj hr
  obtain ⟨_, a, ha, _, haddress⟩ := hsame
  obtain rfl := Option.some.inj ha
  exact absurd haddress (by decide)

end Toolwhip.Ld64.Reloc.Ppc
