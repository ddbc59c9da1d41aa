import Toolwhip.Ld64.BranchIslandsPlaced
import Toolwhip.Ld64.FinalPpc

/-! # Where the chains end -/

namespace Toolwhip.Ld64.BranchIslands
open Lib.BranchFields Lib.PassedMarks Reloc.Ppc.LinkedImage List BitVec
set_option autoImplicit false

section Ends
variable {seg : TextSegment} {atoms : AtomPtr → Atom} {final : TargetAndOffset}
variable {seen : AtomPtr × Reference}

/-- From island to island to the target. -/
inductive EndsAt (islands : List BranchIslandAtom) (final : TargetAndOffset) : Target → Prop where
  | atom : EndsAt islands final (.atom final)
  | island {number i : Nat} {next : Target} (hisland : islands[number]? = some ⟨i, next⟩)
      (hnext : EndsAt islands final next) : EndsAt islands final (.island number)

variable {st : Islands} {i : Nat} {target : Target}

theorem Consistent.endsAt (h : Consistent seg atoms st)
    (htarget : toward st final (some i) = some target) : ∃ next, Linked seg atoms st final i next ∧
      (EndsAt st.islands final next → EndsAt st.islands final target) := by
  obtain ⟨number, hentry, rfl⟩ := Option.map_eq_some_iff.mp htarget
  obtain ⟨next, hisland, hlinked⟩ := h i final number hentry
  exact ⟨next, hlinked, .island hisland⟩

theorem forward_ends (h : Consistent seg atoms st) (n : Nat) :
    ∀ {i : Nat}, seg.kIslandRegionsCount - i ≤ n → NearForward seg atoms final i →
      ∀ {target : Target}, toward st final (some i) = some target →
        EndsAt st.islands final target := by
  induction n with
  | zero =>
    intro i hn hnear
    have := hnear.1
    omega
  | succ n ih =>
    intro i hn hnear target htarget
    obtain ⟨next, hlinked, hends⟩ := h.endsAt htarget
    have hnext := hlinked.forward hnear
    apply hends
    unfold nextForward at hnext
    split at hnext
    · rename_i hnear'
      exact ih (by omega) hnear' hnext
    · obtain rfl := Option.some.inj hnext
      exact .atom

theorem back_ends (h : Consistent seg atoms st) (hnear : NearBack seg atoms final i)
    (htarget : toward st final (some i) = some target) : EndsAt st.islands final target := by
  induction i generalizing target with
  | zero =>
    obtain ⟨next, hlinked, hends⟩ := h.endsAt htarget
    have hnext := hlinked.back hnear
    apply hends
    obtain rfl := Option.some.inj hnext
    exact .atom
  | succ i ih =>
    obtain ⟨next, hlinked, hends⟩ := h.endsAt htarget
    have hnext := hlinked.back hnear
    apply hends
    unfold nextBack at hnext
    split at hnext
    · rename_i hprev
      exact ih hprev.2 hnext
    · obtain rfl := Option.some.inj hnext
      exact .atom

theorem firstRegion_near (h : firstRegion seg atoms seen = some i) :
    NearForward seg atoms seen.2.finalTargetAndOffset i ∨
      NearBack seg atoms seen.2.finalTargetAndOffset i := by
  unfold firstRegion at h
  dsimp only at h
  split at h
  · cases h
  split at h
  · obtain ⟨hi, hrange, -⟩ := firstForward_some h
    exact Or.inl ⟨hi, ((inForwardRange_iff _ _ _).mp hrange).1⟩
  split at h
  · unfold firstBack at h
    rw [Option.map_id_fun, id] at h
    obtain ⟨hi, hrange, -⟩ := lastBefore_some h
    exact Or.inr ⟨hi, ((inBackRange_iff _ _ _).mp hrange).1⟩
  · cases h

theorem Recorded.endsAt (h : Recorded seg atoms st) (hmem : (seen, target) ∈ st.references) :
    EndsAt st.islands seen.2.finalTargetAndOffset target := by
  have hgoes := h.goes seen target hmem
  cases hfirst : firstRegion seg atoms seen with
  | none =>
    rw [hfirst] at hgoes
    obtain rfl := Option.some.inj hgoes
    exact .atom
  | some i =>
    rw [hfirst] at hgoes
    rcases firstRegion_near hfirst with hnear | hnear
    · exact forward_ends h.consistent _ (Nat.le_refl _) hnear hgoes
    · exact back_ends h.consistent hnear hgoes

end Ends

/-! ## The instruction of an island -/

def Target.offset : Target → BitVec 32
  | .atom target => target.offset
  | .island _ => 0

theorem setWidth_displacement (targetAddress getAddress : BitVec 64) (fTargetOffset : BitVec 32) :
    (targetAddress + fTargetOffset.setWidth 64 - getAddress).setWidth 32 =
      (targetAddress + fTargetOffset.signExtend 64 - getAddress).setWidth 32 := by
  have hzero : (fTargetOffset.setWidth 64).setWidth 32 = fTargetOffset :=
    setWidth_setWidth_of_le fTargetOffset (by decide)
  have hsign : (fTargetOffset.signExtend 64).setWidth 32 = fTargetOffset := by
    apply eq_of_getLsbD_eq
    intro i hi
    rw [getLsbD_setWidth, getLsbD_signExtend]
    simp [hi, show i < 64 by omega]
  bv_omega

theorem copyRawContent_field (targetAddress getAddress : BitVec 64) (fTargetOffset : BitVec 32) :
    (BranchIslandAtom.copyRawContent targetAddress fTargetOffset getAddress).extractLsb' 2 24 =
      (targetAddress + fTargetOffset.signExtend 64 - getAddress).extractLsb' 2 24 := by
  have hfield := branchInstruction_field 0x48000000
    (targetAddress + fTargetOffset.setWidth 64 - getAddress)
  have hlow := congrArg (BitVec.extractLsb' 2 24)
    (setWidth_displacement targetAddress getAddress fTargetOffset)
  rw [extractLsb'_setWidth_of_le (by decide), extractLsb'_setWidth_of_le (by decide)]
    at hlow
  rw [← hlow, ← hfield]
  rfl

theorem copyRawContent_reaches {targetAddress getAddress : BitVec 64} {fTargetOffset : BitVec 32}
    (hfits : FitsBits 26 (targetAddress + fTargetOffset.signExtend 64 - getAddress))
    (haligned : Aligned 2 (targetAddress + fTargetOffset.signExtend 64 - getAddress)) :
    getAddress + fieldDisplacement 24
        (BranchIslandAtom.copyRawContent targetAddress fTargetOffset getAddress) =
      targetAddress + fTargetOffset.signExtend 64 :=
  (@fieldDisplacement_reaches .kBranch24 _ _ _).mpr
    ⟨hfits, haligned, (copyRawContent_field targetAddress getAddress fTargetOffset).symm⟩

section Right
variable {seg : TextSegment} {atoms : AtomPtr → Atom} (textSection : TextSection seg atoms)
variable {crossed : Nat → Prop} {st : Islands}

def Reached (i : Nat) : Prop :=
  ∀ j < i, i - j ≤ beyond (regionMark seg) (atomAddresses textSection) j

/-- Every island is in the section once, and nothing overlaps it; the other atoms are in their order
and aligned. The chains end where the branches went, and the instruction of an island goes to its
target, if that is no farther than a branch reaches. -/
structure Right (result : Islands × TextContent) : Prop where
  once : ∀ number < result.1.islands.length,
    (result.2.fAtoms.map Prod.fst).count (.island number) = 1
  apart : result.2.fAtoms.Pairwise fun a b => a.2 + a.1.getSize ≤ b.2
  order : result.2.fAtoms.filterMap original = textSection.fAtoms
  aligned : ∀ a offset, (TextAtom.atom a, offset) ∈ result.2.fAtoms →
    offset % 2 ^ a.powerOf2 = a.modulus % 2 ^ a.powerOf2
  ends : ∀ seen target, (seen, target) ∈ result.1.references →
    EndsAt result.1.islands seen.2.finalTargetAndOffset target
  branches : ∀ island ∈ result.1.islands, ∀ targetAddress getAddress : BitVec 64,
    FitsBits 26 (targetAddress + island.fTarget.offset.signExtend 64 - getAddress) →
    Aligned 2 (targetAddress + island.fTarget.offset.signExtend 64 - getAddress) →
    getAddress + fieldDisplacement 24
        (BranchIslandAtom.copyRawContent targetAddress island.fTarget.offset getAddress) =
      targetAddress + island.fTarget.offset.signExtend 64

variable {textSection}

theorem reached_iff {i : Nat} : Reached textSection i ↔ i ≤ passedRegions textSection :=
  (le_passed_iff regionMark_mono atomAddresses_sorted).symm

theorem lt_placedRegions_iff {i : Nat} (hi : i < seg.kIslandRegionsCount) :
    i < placedRegions textSection ↔ Reached textSection i := by
  rw [reached_iff]
  unfold placedRegions
  split <;> omega

theorem count_island (list : List (TextAtom × Nat)) (number : Nat) :
    (list.map Prod.fst).count (.island number) = (list.filterMap islandNumber).count number := by
  induction list with
  | nil => rfl
  | cons a list ih =>
    obtain ⟨a, offset⟩ := a
    rw [map_cons, count_cons, ih]
    cases a with
    | atom placed =>
      rw [if_neg]
      · rfl
      · intro h
        cases beq_iff_eq.mp h
    | island number' =>
      change _ = (number' :: list.filterMap islandNumber).count number
      rw [count_cons]
      simp only [beq_iff_eq, TextAtom.island.injEq]

theorem MadeFor.count_eq_one_iff (h : MadeFor crossed st)
    {number : Nat} {island : BranchIslandAtom} (hisland : st.islands[number]? = some island)
    (m : Nat) :
    ((List.range m).flatMap st.regionsIslands).count number = 1 ↔ island.islandRegion < m := by
  have hregion : ∀ i, number ∈ st.regionsIslands i ↔ i = island.islandRegion := by
    intro i
    rw [h.mem]
    constructor
    · rintro ⟨island', hisland', rfl⟩
      rw [hisland] at hisland'
      rw [Option.some.inj hisland']
    · rintro rfl
      exact ⟨island, hisland, rfl⟩
  have hnodup : ((List.range m).flatMap st.regionsIslands).Nodup := by
    apply List.nodup_flatMap.mpr
    refine ⟨fun i _ => h.nodup i, ?_⟩
    apply List.nodup_range.pairwise_of_forall_ne
    intro i _ j _ hij number' hi hj
    obtain ⟨island', hisland', rfl⟩ := (h.mem i number').mp hi
    obtain ⟨island'', hisland'', rfl⟩ := (h.mem j number').mp hj
    rw [hisland'] at hisland''
    exact hij (congrArg BranchIslandAtom.islandRegion (Option.some.inj hisland''))
  have hmem : number ∈ (List.range m).flatMap st.regionsIslands ↔ island.islandRegion < m := by
    rw [mem_flatMap]
    constructor
    · rintro ⟨i, hi, hnumber⟩
      rw [← (hregion i).mp hnumber]
      exact List.mem_range.mp hi
    · intro hlt
      exact ⟨_, List.mem_range.mpr hlt, (hregion _).mpr rfl⟩
  rw [hnodup.count, ← hmem]
  split
  · rename_i hplaced
    exact iff_of_true rfl hplaced
  · rename_i hplaced
    exact iff_of_false Nat.zero_ne_one hplaced

theorem aligned_moved {a : PlacedAtom} (ha : a ∈ textSection.fAtoms) {slide : Nat}
    (hslide : textSectionAlignment textSection ∣ slide) :
    (a.getSectionOffset + slide) % 2 ^ a.powerOf2 = a.modulus % 2 ^ a.powerOf2 := by
  obtain ⟨hle, hmodulus⟩ := textSection.aligned a ha
  have hdvd : 2 ^ a.powerOf2 ∣ slide := Nat.dvd_trans (Nat.pow_dvd_pow 2 hle) hslide
  rw [Nat.add_mod, Nat.mod_eq_zero_of_dvd hdvd, Nat.add_zero, Nat.mod_mod]
  exact hmodulus

theorem insertIslands_kept (st : Islands) :
    (insertIslands textSection st).fAtoms.Pairwise (fun a b => a.2 + a.1.getSize ≤ b.2) ∧
      (insertIslands textSection st).fAtoms.filterMap original = textSection.fAtoms ∧
      ∀ a offset, (TextAtom.atom a, offset) ∈ (insertIslands textSection st).fAtoms →
        offset % 2 ^ a.powerOf2 = a.modulus % 2 ^ a.powerOf2 := by
  unfold insertIslands
  split
  · have hfilled : Filled textSection st.regionsIslands
      (insertRemaining textSection st.regionsIslands (insertAtoms textSection st.regionsIslands)) :=
      insertRemaining_filled
    refine ⟨hfilled.apart, hfilled.originals, ?_⟩
    intro a offset ha
    obtain ⟨slide, hslide, rfl⟩ := hfilled.moved a offset ha
    apply aligned_moved _ hslide
    rw [← hfilled.originals]
    exact List.mem_filterMap.mpr ⟨_, ha, rfl⟩
  · refine ⟨List.pairwise_map.mpr textSection.apart, ?_, ?_⟩
    · rw [filterMap_map]
      exact filterMap_some
    · intro a offset ha
      obtain ⟨a', ha', hsame⟩ := List.mem_map.mp ha
      cases hsame
      exact aligned_moved ha' (Nat.dvd_zero _)

theorem insertIslands_once_iff (h : MadeFor crossed st)
    (hcount : ∀ i, crossed i → i < seg.kIslandRegionsCount) : (∀ number < st.islands.length,
      ((insertIslands textSection st).fAtoms.map Prod.fst).count (.island number) = 1) ↔
        ∀ (number : Nat) island, st.islands[number]? = some island →
          Reached textSection island.islandRegion := by
  by_cases hnone : st.islands.length > 0
  · have hfilled : Filled textSection st.regionsIslands
      (insertRemaining textSection st.regionsIslands (insertAtoms textSection st.regionsIslands)) :=
      insertRemaining_filled
    unfold insertIslands
    rw [if_pos hnone]
    simp only [count_island, hfilled.islands]
    constructor
    · intro honce number island hisland
      have hlt := hcount _ (h.region number island hisland)
      rw [← lt_placedRegions_iff hlt, ← h.count_eq_one_iff hisland]
      exact honce number (List.getElem?_eq_some_iff.mp hisland).1
    · intro hreached number hnumber
      have hisland := List.getElem?_eq_getElem hnumber
      rw [h.count_eq_one_iff hisland, lt_placedRegions_iff (hcount _ (h.region _ _ hisland))]
      exact hreached number _ hisland
  · constructor
    · intro _ number island hisland
      have := (List.getElem?_eq_some_iff.mp hisland).1
      omega
    · intro _ number hnumber
      omega

theorem right_iff_once {result : Islands × TextContent}
    (hcontent : result.2 = insertIslands textSection result.1)
    (hends : ∀ seen target, (seen, target) ∈ result.1.references →
      EndsAt result.1.islands seen.2.finalTargetAndOffset target) :
    Right textSection result ↔ ∀ number < result.1.islands.length,
      (result.2.fAtoms.map Prod.fst).count (.island number) = 1 := by
  constructor
  · exact Right.once
  · intro honce
    obtain ⟨hapart, horder, haligned⟩ := @insertIslands_kept seg atoms textSection result.1
    rw [← hcontent] at hapart horder haligned
    exact ⟨honce, hapart, horder, haligned, hends, fun _ _ _ _ => copyRawContent_reaches⟩

/-- Everything is right exactly if the walk over the section comes to every region that a branch
crosses, or to the one before it. -/
theorem addPPCBranchIslands_right_iff (seg : TextSegment) (atoms : AtomPtr → Atom)
    (textSection : TextSection seg atoms) (fAllAtoms : List AtomPtr) :
    Right textSection (addPPCBranchIslands textSection fAllAtoms) ↔
      seg.fSize ≤ 16000000 ∨ ∀ seen ∈ allReferences atoms fAllAtoms, ∀ i,
        Crosses seg atoms seen i → Reached textSection i := by
  by_cases hsmall : seg.fSize > 16000000
  · have hislands : createIslands seg atoms fAllAtoms =
        (allReferences atoms fAllAtoms).foldl (visitReference seg atoms) {} := if_pos hsmall
    have hrecorded : Recorded seg atoms (createIslands seg atoms fAllAtoms) := by
      rw [hislands]
      exact (recorded_start.visits _).1
    have hmade : MadeByRun seg atoms (allReferences atoms fAllAtoms)
        (createIslands seg atoms fAllAtoms) := by
      rw [hislands]
      exact madeByRun_start.visits _
    rw [right_iff_once rfl fun seen target => hrecorded.endsAt]
    change (∀ number < (createIslands seg atoms fAllAtoms).islands.length,
      ((insertIslands textSection (createIslands seg atoms fAllAtoms)).fAtoms.map Prod.fst).count
        (.island number) = 1) ↔ _
    rw [insertIslands_once_iff hmade.made fun i ⟨seen, _, hcrosses⟩ => hcrosses.1]
    constructor
    · intro h
      right
      intro seen hseen i hcrosses
      obtain ⟨number, island, hisland, rfl⟩ :=
        (hmade.region_iff hrecorded.consistent i).mpr ⟨seen, hseen, hcrosses⟩
      exact h number island hisland
    · rintro (hle | h) number island hisland
      · omega
      · obtain ⟨seen, hseen, hcrosses⟩ :=
          (hmade.region_iff hrecorded.consistent _).mp ⟨number, island, hisland, rfl⟩
        exact h seen hseen _ hcrosses
  · refine iff_of_true ?_ (Or.inl (Nat.le_of_not_lt hsmall))
    have hnone : createIslands seg atoms fAllAtoms =
        { references := List.map (fun seen => (seen, .atom seen.2.finalTargetAndOffset))
            (allReferences atoms fAllAtoms) } := if_neg hsmall
    apply (right_iff_once rfl ?_).mpr
    · intro number hnumber
      change number < (createIslands seg atoms fAllAtoms).islands.length at hnumber
      rw [hnone] at hnumber
      cases hnumber
    · intro seen target hmem
      change (seen, target) ∈ (createIslands seg atoms fAllAtoms).references at hmem
      rw [hnone] at hmem
      obtain ⟨seen', -, hsame⟩ := List.mem_map.mp hmem
      cases hsame
      exact .atom

end Right

/-! ## One large atom -/

theorem tableText_base_le : 0x1000 ≤ 0x2000 := by decide

theorem tableText_size_lt : 0x3200000 < 2 ^ 32 := by decide

def tableText : TextSegment := ⟨0x1000, 0x3200000, 0x2000, tableText_base_le, tableText_size_lt⟩

def branchAcross : Reference := ⟨.kBranch24, 0, ⟨2, 0⟩⟩

def aroundTable : List PlacedAtom :=
  [⟨0, 0, 16, 2, 0⟩, ⟨1, 16, 48 * 1024 * 1024, 4, 0⟩, ⟨2, 16 + 48 * 1024 * 1024, 4, 2, 0⟩]

def tableAtoms : AtomPtr → Atom
  | 0 => ⟨0x2000, [branchAcross]⟩
  | 1 => ⟨0x2010, []⟩
  | _ => ⟨0x2010 + 48 * 1024 * 1024, []⟩

theorem aroundTable_address :
    ∀ a ∈ aroundTable, (tableAtoms a.atom).getAddress = tableText.textBase + a.getSectionOffset := by
  decide

theorem aroundTable_apart :
    aroundTable.Pairwise fun a b => a.getSectionOffset + a.getSize ≤ b.getSectionOffset := by decide

theorem aroundTable_inside :
    ∀ a ∈ aroundTable, a.getSectionOffset + a.getSize ≤ 20 + 48 * 1024 * 1024 := by decide

theorem aroundTable_aligned : ∀ a ∈ aroundTable, a.powerOf2 ≤ 4 ∧
    a.getSectionOffset % 2 ^ a.powerOf2 = a.modulus % 2 ^ a.powerOf2 := by decide

theorem aroundTable_in_segment :
    tableText.textBase + (20 + 48 * 1024 * 1024) ≤ tableText.fBaseAddress + tableText.fSize := by
  decide

def tableSection : TextSection tableText tableAtoms where
  fAtoms := aroundTable
  fSize := 20 + 48 * 1024 * 1024
  fAlignment := 4
  address := aroundTable_address
  apart := aroundTable_apart
  inside := aroundTable_inside
  aligned := aroundTable_aligned
  in_segment := aroundTable_in_segment

/-- The branch crosses three regions. The one function behind the table takes the islands of the first
one, those of the second go to the end, and the island of the third is in the section nowhere. -/
theorem aroundTable_loses_island : ¬ ∀ (seg : TextSegment) (atoms : AtomPtr → Atom)
    (textSection : TextSection seg atoms) (fAllAtoms : List AtomPtr),
    Right textSection (addPPCBranchIslands textSection fAllAtoms) := by
  intro h
  have honce := (h tableText tableAtoms tableSection [0, 1, 2]).once 0 (by decide)
  revert honce
  decide

end Toolwhip.Ld64.BranchIslands
