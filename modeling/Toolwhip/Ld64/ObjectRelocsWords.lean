import Toolwhip.Ld64.ObjectRelocs

/-! # The words of what addObjectRelocs pushes

The entries that are pushed for a reference, from the last to the first and as words, are those
that the writers of i386, x86_64 and ppc leave in the file. -/

namespace Toolwhip.Ld64.Reloc.Fixups
open List
set_option autoImplicit false

abbrev PlainInfo := BitVec 32 → BitVec 32 → Bool → BitVec 2 → Bool → BitVec 4 → RelocWords

/-- `info` is how the processor lays out an entry that is not scattered. -/
def Entry.words (info : PlainInfo) : Entry → RelocWords
  | plain address symbolnum pcrel length isExtern type =>
    info address symbolnum pcrel length isExtern type
  | scattered address pcrel length type value =>
    ⟨1#1 ++ (BitVec.ofBool pcrel ++ (length ++ (type ++ address.setWidth 24))), value⟩

def fileWords (info : PlainInfo) (pushed : Pushed) : List RelocWords :=
  pushed.1.reverse.map (Entry.words info)

variable {w : Writer} {atom : Atom} {info : PlainInfo} {α β γ : Type}

theorem map_bind_except {x : Except WriteError α} (f : α → Except WriteError β) (g : β → γ) :
    (x >>= f).map g = x >>= fun a => (f a).map g := by
  cases x with
  | error e => rfl
  | ok a => rfl

theorem bind_ok_eq_map {x : Except WriteError α} (f : α → β) : (x >>= fun a => .ok (f a)) = x.map f := by
  cases x with
  | error e => rfl
  | ok a => rfl

theorem scatteredEntry_words (address : BitVec 32) (pcrel : Bool) (length : BitVec 2) (type : BitVec 4)
    (value : BitVec 32) : (scatteredEntry address pcrel length type value).map (Entry.words info) =
      scatteredInfo address pcrel length type value := by
  unfold scatteredEntry scatteredInfo
  split
  · rfl
  · rfl

theorem bind_words {x : Except WriteError Entry} {x' : Except WriteError RelocWords}
    (f : Entry → Except WriteError Pushed) (g : RelocWords → Except WriteError (List RelocWords))
    (hx : x.map (Entry.words info) = x') (h : ∀ e, (f e).map (fileWords info) = g (e.words info)) :
    (x >>= f).map (fileWords info) = x' >>= g := by
  subst hx
  cases x with
  | error e => rfl
  | ok e => exact h e

section Generic
variable {Kinds : Type} {ref : BoundReference Kinds}

/-- Both entries of a difference. -/
theorem diffEntries_words (length : BitVec 2) (local_sectdiff sectdiff pair : BitVec 4) :
    (diffEntries atom ref length local_sectdiff sectdiff pair).map (fileWords info) = (do
      let sreloc1 ← scatteredInfo (Writer.relocAddress atom ref) false length
        (if ref.getTarget.getScope = .scopeTranslationUnit then local_sectdiff else sectdiff)
        ref.getTarget.address32
      let sreloc2 ← scatteredInfo 0 false length pair
        ((ref.getFromTarget.getAddress + ref.getFromTargetOffset).setWidth 32)
      .ok [sreloc1, sreloc2]) := by
  refine bind_words _ _ (scatteredEntry_words ..) fun sreloc1 => ?_
  exact bind_words _ _ (scatteredEntry_words ..) fun sreloc2 => rfl

end Generic

theorem X86_64.addObjectRelocs_words (ref : Reloc.X86_64.Ref) :
    (X86_64.addObjectRelocs w atom ref).map (fileWords relocationInfo) =
    Reloc.X86_64.addObjectRelocs w atom ref := by
  have hdiff (num : BitVec 32) (length : BitVec 2) :
      (X86_64.diffEntries w atom ref num length).map (fileWords relocationInfo) =
        Reloc.X86_64.diffRelocs w atom ref num length := by
    unfold X86_64.diffEntries Reloc.X86_64.diffRelocs
    rw [map_bind_except]
    rfl
  unfold X86_64.addObjectRelocs Reloc.X86_64.addObjectRelocs
  rw [map_bind_except]
  congr 1
  funext num
  cases ref.getKind with
  | kPointerDiff => exact hdiff num 3
  | kPointerDiff32 => exact hdiff num 2
  | _ => rfl

theorem X86.addObjectRelocs_words (ref : Reloc.X86.Ref) :
    (X86.addObjectRelocs w atom ref).map (fileWords relocationInfo) =
      Reloc.X86.addObjectRelocs w atom ref := by
  have htarget (num : BitVec 32) (pcrel : Bool) (length : BitVec 2) :
      (targetEntry w atom ref num pcrel length Reloc.X86.GENERIC_RELOC_VANILLA).map
        (fileWords relocationInfo) =
        Reloc.X86.vanillaReloc w atom ref num pcrel length := by
    unfold targetEntry Reloc.X86.vanillaReloc
    split
    · rw [← bind_ok_eq_map]
      exact bind_words _ _ (scatteredEntry_words ..) fun sreloc1 => rfl
    · rfl
  unfold X86.addObjectRelocs Reloc.X86.addObjectRelocs
  rw [map_bind_except]
  congr 1
  funext num
  cases ref.getKind with
  | kNoFixUp | kFollowOn | kGroupSubordinate | kDtraceTypeReference | kDtraceProbe => rfl
  | kPointerDiff16 => exact diffEntries_words 1 _ _ _
  | kPointerDiff => exact diffEntries_words 2 _ _ _
  | _ => exact htarget num _ _

/-! ## ppc -/

namespace Ppc
open Reloc.Ppc
variable {ref : Reloc.Ppc.Ref}

theorem setWidth_pint (x : BitVec 64) : pint 2 x = (x.setWidth 32).setWidth 64 := rfl

theorem low_shift (x : BitVec 32) : ((x.setWidth 64) >>> 16).setWidth 32 = x >>> 16 := by
  apply BitVec.eq_of_toNat_eq
  simp [Nat.shiftRight_eq_div_pow]
  omega

theorem low_and (x : BitVec 64) : (x &&& 0xFFFF).setWidth 32 = x.setWidth 32 &&& 0xFFFF := by
  rw [BitVec.setWidth_and]
  rfl

theorem displacement_eq :
    displacement 2 atom ref = (Reloc.Ppc.toAddr ref - Reloc.Ppc.fromAddr atom ref).setWidth 64 := by
  have hsub (x y : BitVec 64) : (x - y).setWidth 32 = x.setWidth 32 - y.setWidth 32 := by
    apply BitVec.eq_of_toNat_eq
    simp only [BitVec.toNat_setWidth, BitVec.toNat_sub]
    omega
  have hback (x : BitVec 64) : ((x.setWidth 32).setWidth 64).setWidth 32 = x.setWidth 32 := by simp
  rw [displacement, toAddr, fromAddr, setWidth_pint, setWidth_pint, setWidth_pint, hsub, hback, hback]
  rfl

theorem absHalf_eq : (absValue w 2 ref >>> 16).setWidth 32 = highHalf w ref ∧
    (absValue w 2 ref &&& 0xFFFF).setWidth 32 = lowHalf w ref := by
  unfold absValue highHalf lowHalf
  split
  · exact ⟨rfl, rfl⟩
  · rw [toAddr, setWidth_pint, low_shift, low_and]
    exact ⟨rfl, by simp [Reloc.Ppc.toAddr]⟩

theorem entry_words (num : BitVec 32) (scattered pcrel : Bool) (length : BitVec 2) (type : BitVec 4) :
    (entry w atom ref num scattered pcrel length type).map (Entry.words Reloc.Ppc.relocationInfo) =
      targetReloc w atom ref num scattered pcrel length type := by
  unfold entry targetReloc
  split
  · exact scatteredEntry_words ..
  · rfl

theorem picBase_words (type : BitVec 4) {half : BitVec 64} {low : BitVec 32}
    (h : (half &&& 0xFFFF).setWidth 32 = low) :
    (picBase 2 atom ref type half).map (fileWords Reloc.Ppc.relocationInfo) =
    picBaseRelocs atom ref type low := by
  have hfrom : (fromAddr 2 atom ref).setWidth 32 = Reloc.Ppc.fromAddr atom ref := by
    rw [fromAddr, setWidth_pint]
    simp [Reloc.Ppc.fromAddr]
  subst h
  unfold picBase picBaseRelocs
  rw [hfrom]
  refine bind_words _ _ (scatteredEntry_words ..) fun sreloc1 => ?_
  exact bind_words _ _ (scatteredEntry_words ..) fun sreloc2 => rfl

theorem abs_words (num : BitVec 32) (type : BitVec 4) {half : BitVec 64} {low : BitVec 32}
    (h : half.setWidth 32 = low) :
    (abs w atom ref num type half).map (fileWords Reloc.Ppc.relocationInfo) =
      absRelocs w atom ref num type low := by
  subst h
  unfold abs absRelocs
  rw [← bind_ok_eq_map]
  exact bind_words _ _ (entry_words ..) fun reloc1 => rfl

theorem one_words (num : BitVec 32) (scattered pcrel : Bool) (length : BitVec 2) (type : BitVec 4) :
    (do return ([← entry w atom ref num scattered pcrel length type], 1) : Except WriteError Pushed).map
      (fileWords Reloc.Ppc.relocationInfo) =
      (targetReloc w atom ref num scattered pcrel length type).map fun reloc1 => [reloc1] := by
  rw [← bind_ok_eq_map]
  exact bind_words _ _ (entry_words ..) fun reloc1 => rfl

theorem addObjectRelocs_powerpc_words (ref : Reloc.Ppc.Ref) :
    (addObjectRelocs_powerpc w 2 atom ref).map (fileWords Reloc.Ppc.relocationInfo) =
      Reloc.Ppc.addObjectRelocs_powerpc w atom ref := by
  unfold addObjectRelocs_powerpc Reloc.Ppc.addObjectRelocs_powerpc
  rw [map_bind_except]
  congr 1
  funext num
  cases ref.getKind with
  | kNoFixUp | kFollowOn | kGroupSubordinate | kDtraceTypeReference | kDtraceProbe => rfl
  | kPointer | kPointerWeakImport => exact one_words num _ _ _ _
  | kBranch24WeakImport | kBranch24 | kDtraceProbeSite | kDtraceIsEnabledSite | kBranch14 =>
    exact one_words num _ _ _ _
  | kPointerDiff16 => exact diffEntries_words 1 _ _ _
  | kPointerDiff32 => exact diffEntries_words 2 _ _ _
  | kPointerDiff64 => exact diffEntries_words 3 _ _ _
  | kPICBaseLow16 | kPICBaseLow14 =>
    apply picBase_words
    rw [displacement_eq, low_and, low_shift]
  | kPICBaseHigh16 =>
    apply picBase_words
    rw [displacement_eq, low_and]
    simp
  | kAbsLow14 | kAbsLow16 => exact abs_words num _ absHalf_eq.1
  | kAbsHigh16 | kAbsHigh16AddLow => exact abs_words num _ absHalf_eq.2

end Ppc

end Toolwhip.Ld64.Reloc.Fixups
