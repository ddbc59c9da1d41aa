import Toolwhip.Ld64.ObjectRelocs

/-! # Counts and pairs

What every addObjectRelocs returns is the number of the entries it pushes, and in the reversed
order an entry that needs a second one is followed by it. -/

namespace Toolwhip.Ld64.Reloc.Fixups
open Lib.ThrowingFold List
set_option autoImplicit false
variable {atom : Atom} {e : Entry}

namespace Architecture
open Reloc.Ppc Reloc.X86_64 Reloc.X86 Fixups.Arm

/-- The types whose entries say only half of what is relocated. -/
def needsPair : Architecture → BitVec 4 → Bool
  | ppc | ppc64 => fun type =>
    [PPC_RELOC_HI16, PPC_RELOC_LO16, PPC_RELOC_HA16, PPC_RELOC_LO14, PPC_RELOC_SECTDIFF,
      PPC_RELOC_HI16_SECTDIFF, PPC_RELOC_LO16_SECTDIFF, PPC_RELOC_HA16_SECTDIFF,
      PPC_RELOC_LO14_SECTDIFF, PPC_RELOC_LOCAL_SECTDIFF].contains type
  | x86 => fun type => [GENERIC_RELOC_SECTDIFF, GENERIC_RELOC_LOCAL_SECTDIFF].contains type
  | arm => fun type => [ARM_RELOC_SECTDIFF, ARM_RELOC_LOCAL_SECTDIFF].contains type
  | x86_64 => fun type => type == X86_64_RELOC_SUBTRACTOR

def pairType : Architecture → BitVec 4
  | ppc | ppc64 => PPC_RELOC_PAIR
  | x86 => GENERIC_RELOC_PAIR
  | arm => ARM_RELOC_PAIR
  | x86_64 => X86_64_RELOC_UNSIGNED

def IsPairOf (A : Architecture) (e p : Entry) : Prop :=
  p.r_type = A.pairType ∧ p.r_length = e.r_length ∧ (A = x86_64 → p.r_address = e.r_address)

theorem pairType_alone (A : Architecture) : A.needsPair A.pairType = false := by
  cases A <;> rfl

end Architecture

def Paired (A : Architecture) (l : List Entry) : Prop :=
  ∀ (i : Nat) (e : Entry), l[i]? = some e → A.needsPair e.r_type = true →
    ∃ p, l[i + 1]? = some p ∧ A.IsPairOf e p

variable {A : Architecture}

theorem Paired.nil : Paired A [] := by
  intro i e he
  cases he

theorem Paired.append {l m : List Entry} (hl : Paired A l) (hm : Paired A m) :
    Paired A (l ++ m) := by
  intro i e he hneeds
  rcases Nat.lt_or_ge i l.length with hi | hi
  · rw [getElem?_append_left hi] at he
    obtain ⟨p, hp, hpair⟩ := hl i e he hneeds
    have hnext := (List.getElem?_eq_some_iff.mp hp).1
    refine ⟨p, ?_, hpair⟩
    rw [getElem?_append_left hnext]
    exact hp
  · rw [getElem?_append_right hi] at he
    obtain ⟨p, hp, hpair⟩ := hm _ e he hneeds
    refine ⟨p, ?_, hpair⟩
    rw [getElem?_append_right (by omega), Nat.sub_add_comm hi]
    exact hp

theorem Paired.single (h : A.needsPair e.r_type = false) : Paired A [e] := by
  intro i f hf hneeds
  obtain ⟨hi, rfl⟩ := List.getElem?_eq_some_iff.mp hf
  rw [getElem_singleton, h] at hneeds
  cases hneeds

theorem Paired.pair {e p : Entry} (h : A.IsPairOf e p) : Paired A [e, p] := by
  intro i f hf hneeds
  obtain ⟨hi, rfl⟩ := List.getElem?_eq_some_iff.mp hf
  rw [length_cons, length_singleton] at hi
  obtain rfl | rfl : i = 0 ∨ i = 1 := by omega
  · exact ⟨p, rfl, h⟩
  have hp : A.needsPair p.r_type = true := hneeds
  rw [h.1, A.pairType_alone] at hp
  cases hp

def WellPushed (A : Architecture) (pushed : Pushed) : Prop :=
  pushed.2 = BitVec.ofNat 32 pushed.1.length ∧ Paired A pushed.1.reverse

theorem WellPushed.none : WellPushed A ([], 0) := ⟨rfl, Paired.nil⟩

theorem WellPushed.one (h : A.needsPair e.r_type = false) : WellPushed A ([e], 1) :=
  ⟨rfl, Paired.single h⟩

theorem WellPushed.two {e p : Entry} (h : A.IsPairOf e p) : WellPushed A ([p, e], 2) :=
  ⟨rfl, Paired.pair h⟩

theorem scatteredEntry_ok {address value : BitVec 32} {pcrel : Bool} {length : BitVec 2}
    {type : BitVec 4} (h : scatteredEntry address pcrel length type value = .ok e) :
    e.r_type = type ∧ e.r_length = length := by
  unfold scatteredEntry at h
  split at h
  · cases h
  cases h
  exact ⟨rfl, rfl⟩

variable {w : Writer} {pushed : Pushed}

namespace X86_64
variable {ref : Reloc.X86_64.Ref} {atom : Atom} {length : BitVec 2} {num : BitVec 32}

theorem diffEntries_well
    (h : diffEntries w atom ref num length = .ok pushed) : WellPushed .x86_64 pushed := by
  obtain ⟨fromSymbolIndex, -, hpushed⟩ := bind_eq_ok.mp h
  cases hpushed
  apply WellPushed.two
  exact ⟨rfl, rfl, fun _ => rfl⟩

theorem oneEntry_well {pcrel : Bool}
    {type : BitVec 4} (htype : Architecture.needsPair .x86_64 type = false)
    (h : oneEntry atom ref num pcrel length type = .ok pushed) : WellPushed .x86_64 pushed := by
  cases h
  apply WellPushed.one
  exact htype

theorem addObjectRelocs_well
    (h : addObjectRelocs w atom ref = .ok pushed) : WellPushed .x86_64 pushed := by
  obtain ⟨num, -, h⟩ := bind_eq_ok.mp h
  split at h
  all_goals first
    | exact diffEntries_well h
    | exact oneEntry_well rfl h
    | cases h
      exact WellPushed.none

end X86_64

section Generic
variable {Kinds : Type} {atom : Atom} {ref : BoundReference Kinds} {length : BitVec 2}

theorem targetEntry_well {num : BitVec 32} {pcrel : Bool} {type : BitVec 4}
    (htype : A.needsPair type = false)
    (h : targetEntry w atom ref num pcrel length type = .ok pushed) : WellPushed A pushed := by
  unfold targetEntry at h
  split at h
  · obtain ⟨reloc1, hreloc, hpushed⟩ := bind_eq_ok.mp h
    cases hpushed
    apply WellPushed.one
    rw [(scatteredEntry_ok hreloc).1]
    exact htype
  · cases h
    apply WellPushed.one
    exact htype

theorem diffEntries_well {local_sectdiff sectdiff pair : BitVec 4} (hA : A ≠ .x86_64)
    (hpair : pair = A.pairType)
    (h : diffEntries atom ref length local_sectdiff sectdiff pair = .ok pushed) :
    WellPushed A pushed := by
  obtain ⟨sreloc1, h1, h⟩ := bind_eq_ok.mp h
  obtain ⟨sreloc2, h2, hpushed⟩ := bind_eq_ok.mp h
  cases hpushed
  apply WellPushed.two
  refine ⟨(scatteredEntry_ok h2).1.trans hpair, ?_, fun hx => absurd hx hA⟩
  rw [(scatteredEntry_ok h1).2, (scatteredEntry_ok h2).2]

end Generic

theorem X86.addObjectRelocs_well {ref : Reloc.X86.Ref}
    (h : X86.addObjectRelocs w atom ref = .ok pushed) : WellPushed .x86 pushed := by
  obtain ⟨num, -, h⟩ := bind_eq_ok.mp h
  split at h
  all_goals first
    | exact targetEntry_well rfl h
    | exact diffEntries_well (by decide) rfl h
    | cases h
      exact WellPushed.none

theorem Arm.addObjectRelocs_well {ref : Arm.Ref}
    (h : Arm.addObjectRelocs w atom ref = .ok pushed) : WellPushed .arm pushed := by
  obtain ⟨num, -, h⟩ := bind_eq_ok.mp h
  split at h
  all_goals first
    | exact targetEntry_well rfl h
    | exact diffEntries_well (by decide) rfl h
    | cases h
      exact WellPushed.none

/-! ## ppc and ppc64 -/

namespace Ppc
open Reloc.Ppc

def IsPowerpc (A : Architecture) : Prop := A = .ppc ∨ A = .ppc64

variable {ptrSize : BitVec 2} {atom : Atom} {ref : Ref} {num : BitVec 32} {type : BitVec 4}

theorem IsPowerpc.needsPair (hA : IsPowerpc A) : A.needsPair = Architecture.needsPair .ppc := by
  rcases hA with rfl | rfl <;> rfl

theorem IsPowerpc.pairType (hA : IsPowerpc A) : A.pairType = PPC_RELOC_PAIR := by
  rcases hA with rfl | rfl <;> rfl

theorem IsPowerpc.not_x86_64 (hA : IsPowerpc A) : A ≠ .x86_64 := by
  rcases hA with rfl | rfl <;> decide

theorem entry_ok {scattered pcrel : Bool} {length : BitVec 2} {e : Entry}
    (h : entry w atom ref num scattered pcrel length type = .ok e) :
    e.r_type = type ∧ e.r_length = length := by
  unfold entry at h
  split at h
  · exact scatteredEntry_ok h
  cases h
  exact ⟨rfl, rfl⟩

section
variable (hA : IsPowerpc A)
variable {half : BitVec 64}
include hA

theorem one_well {e : Entry} (htype : e.r_type = type)
    (hneeds : Architecture.needsPair .ppc type = false) : WellPushed A ([e], 1) := by
  apply WellPushed.one
  rw [htype, hA.needsPair]
  exact hneeds

theorem pointer_well (h : pointer w ptrSize atom ref num = .ok pushed) : WellPushed A pushed := by
  obtain ⟨reloc1, hreloc, hpushed⟩ := bind_eq_ok.mp h
  cases hpushed
  exact one_well hA (entry_ok hreloc).1 rfl

theorem branch_well (hneeds : Architecture.needsPair .ppc type = false)
    (h : branch w atom ref num type = .ok pushed) : WellPushed A pushed := by
  obtain ⟨reloc1, hreloc, hpushed⟩ := bind_eq_ok.mp h
  cases hpushed
  exact one_well hA (entry_ok hreloc).1 hneeds

theorem diff_well {length : BitVec 2}
    (h : diff atom ref length = .ok pushed) : WellPushed A pushed :=
  diffEntries_well hA.not_x86_64 hA.pairType.symm h

theorem two_well {e p : Entry} (htype : p.r_type = PPC_RELOC_PAIR)
    (hlength : p.r_length = e.r_length) : WellPushed A ([p, e], 2) := by
  apply WellPushed.two
  exact ⟨htype.trans hA.pairType.symm, hlength, fun hx => absurd hx hA.not_x86_64⟩

theorem picBase_well
    (h : picBase ptrSize atom ref type half = .ok pushed) : WellPushed A pushed := by
  obtain ⟨sreloc1, h1, h⟩ := bind_eq_ok.mp h
  obtain ⟨sreloc2, h2, hpushed⟩ := bind_eq_ok.mp h
  cases hpushed
  apply two_well hA (scatteredEntry_ok h2).1
  rw [(scatteredEntry_ok h1).2, (scatteredEntry_ok h2).2]

theorem abs_well (h : abs w atom ref num type half = .ok pushed) : WellPushed A pushed := by
  obtain ⟨reloc1, hreloc, hpushed⟩ := bind_eq_ok.mp h
  cases hpushed
  exact two_well hA rfl (entry_ok hreloc).2.symm

theorem addObjectRelocs_powerpc_well
    (h : addObjectRelocs_powerpc w ptrSize atom ref = .ok pushed) : WellPushed A pushed := by
  obtain ⟨num, -, h⟩ := bind_eq_ok.mp h
  split at h
  all_goals first
    | exact pointer_well hA h
    | exact diff_well hA h
    | exact branch_well hA rfl h
    | exact picBase_well hA h
    | exact abs_well hA h
    | cases h
      exact WellPushed.none

end

end Ppc

theorem addObjectRelocs_well {ref : BoundReference A.Kinds}
    (h : A.addObjectRelocs w atom ref = .ok pushed) : WellPushed A pushed := by
  cases A with
  | ppc => exact Ppc.addObjectRelocs_powerpc_well (Or.inl rfl) h
  | ppc64 => exact Ppc.addObjectRelocs_powerpc_well (Or.inr rfl) h
  | x86 => exact X86.addObjectRelocs_well h
  | x86_64 => exact X86_64.addObjectRelocs_well h
  | arm => exact Arm.addObjectRelocs_well h

end Toolwhip.Ld64.Reloc.Fixups
