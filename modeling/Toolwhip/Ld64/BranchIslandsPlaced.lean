import Toolwhip.Lib.Layout
import Toolwhip.Lib.PassedMarks
import Toolwhip.Ld64.BranchIslandsReach

/-! # addPPCBranchIslands: the section with its islands

The atoms of the `__text` section are visited in order. The islands of the next region are put before
the first atom that is beyond it, and what follows them is moved. -/

namespace Toolwhip.Ld64.BranchIslands
open Lib.AlignUp Lib.RunningLayout List
set_option autoImplicit false

structure PlacedAtom where
  atom : AtomPtr
  getSectionOffset : Nat
  getSize : Nat
  powerOf2 : Nat
  modulus : Nat
  deriving DecidableEq

/-- The `__text` section, as `partitionIntoSections` has laid it out in its segment. -/
structure TextSection (seg : TextSegment) (atoms : AtomPtr → Atom) where
  fAtoms : List PlacedAtom
  fSize : Nat
  fAlignment : Nat
  address : ∀ a ∈ fAtoms, (atoms a.atom).getAddress = seg.textBase + a.getSectionOffset
  apart : fAtoms.Pairwise fun a b => a.getSectionOffset + a.getSize ≤ b.getSectionOffset
  inside : ∀ a ∈ fAtoms, a.getSectionOffset + a.getSize ≤ fSize
  aligned : ∀ a ∈ fAtoms, a.powerOf2 ≤ fAlignment ∧
    a.getSectionOffset % 2 ^ a.powerOf2 = a.modulus % 2 ^ a.powerOf2
  in_segment : seg.textBase + fSize ≤ seg.fBaseAddress + seg.fSize

/-- What the section consists of afterwards. -/
inductive TextAtom where
  | atom (atom : PlacedAtom)
  | island (number : Nat)
  deriving DecidableEq

def islandSize (_ : Nat) : Nat := 4

def TextAtom.getSize : TextAtom → Nat
  | .atom placed => placed.getSize
  | .island number => islandSize number

def placeIsland (_ sectionOffset : Nat) : Nat := alignUp (2 ^ 2) sectionOffset

def placedIslands (sectionOffset : Nat) (regionIslands : List Nat) : List (TextAtom × Nat) :=
  (offsets placeIsland islandSize sectionOffset regionIslands).map fun island =>
    (.island island.1, island.2)

structure Insertion where
  newAtomList : List (TextAtom × Nat) := []
  islandRegionAddr : Nat
  regionIndex : Nat := 0
  atomSlide : Nat := 0

section Insert
variable {seg : TextSegment} {atoms : AtomPtr → Atom} (textSection : TextSection seg atoms)
  (regionsIslands : Nat → List Nat)

def textSectionAlignment : Nat := 2 ^ textSection.fAlignment

def insertRegion (st : Insertion) (islandStartOffset : Nat) : Insertion :=
  let regionIslands := regionsIslands st.regionIndex
  let sectionOffset := layoutEnd placeIsland islandSize islandStartOffset regionIslands
  let islandRegionAlignmentBlocks :=
    (sectionOffset - islandStartOffset + textSectionAlignment textSection - 1) /
      textSectionAlignment textSection
  { newAtomList := st.newAtomList ++ placedIslands islandStartOffset regionIslands
    islandRegionAddr := st.islandRegionAddr + kBetweenRegions
    regionIndex := st.regionIndex + 1
    atomSlide := st.atomSlide + islandRegionAlignmentBlocks * textSectionAlignment textSection }

def insertAtom (st : Insertion) (atom : PlacedAtom) : Insertion :=
  let st := if (atoms atom.atom).getAddress > st.islandRegionAddr then
      insertRegion textSection regionsIslands st (atom.getSectionOffset + st.atomSlide)
    else st
  { st with newAtomList := st.newAtomList ++ [(.atom atom, atom.getSectionOffset + st.atomSlide)] }

def insertAtoms : Insertion :=
  textSection.fAtoms.foldl (insertAtom textSection regionsIslands)
    { islandRegionAddr := kBetweenRegions + seg.textBase }

structure TextContent where
  fAtoms : List (TextAtom × Nat)
  fSize : Nat

def insertRemaining (st : Insertion) : TextContent :=
  let sectionOffset := textSection.fSize + st.atomSlide
  if st.regionIndex < seg.kIslandRegionsCount then
    let regionIslands := regionsIslands st.regionIndex
    ⟨st.newAtomList ++ placedIslands sectionOffset regionIslands,
      layoutEnd placeIsland islandSize sectionOffset regionIslands⟩
  else ⟨st.newAtomList, sectionOffset⟩

def insertIslands (st : Islands) : TextContent :=
  if st.islands.length > 0 then
    insertRemaining textSection st.regionsIslands (insertAtoms textSection st.regionsIslands)
  else ⟨textSection.fAtoms.map fun a => (.atom a, a.getSectionOffset), textSection.fSize⟩

def addPPCBranchIslands (fAllAtoms : List AtomPtr) : Islands × TextContent :=
  let st := createIslands seg atoms fAllAtoms
  (st, insertIslands textSection st)

end Insert

def BranchIslandAtom.copyRawContent (targetAddress : BitVec 64) (fTargetOffset : BitVec 32)
    (getAddress : BitVec 64) : BitVec 32 :=
  let displacement := targetAddress + fTargetOffset.setWidth 64 - getAddress
  0x48000000 ||| (displacement.setWidth 32 &&& 0x03FFFFFC)

/-! ## Where the islands end up

An island is put into the section with its region, if the walk comes to that region. -/

open Function Lib.PassedMarks

section Made
variable {seg : TextSegment} {atoms : AtomPtr → Atom}
variable {st : Islands} {seens : List (AtomPtr × Reference)} {target : TargetAndOffset}
  {st' : Islands × Target} {done : Nat → Prop}

/-- Every island is for a region with the property, and among the islands of its region once. -/
structure MadeFor (crossed : Nat → Prop) (st : Islands) : Prop where
  region : ∀ (number : Nat) island, st.islands[number]? = some island → crossed island.islandRegion
  nodup : ∀ i, (st.regionsIslands i).Nodup
  mem : ∀ i number, number ∈ st.regionsIslands i ↔
    ∃ island, st.islands[number]? = some island ∧ island.islandRegion = i

theorem getElem?_concat {α : Type} {xs : List α} {x y : α} {n : Nat} :
    (xs ++ [x])[n]? = some y ↔ xs[n]? = some y ∨ n = xs.length ∧ y = x := by
  rcases Nat.lt_trichotomy n xs.length with hlt | rfl | hgt
  · rw [getElem?_append_left hlt]
    constructor
    · exact Or.inl
    · rintro (h | ⟨h, -⟩)
      · exact h
      · omega
  · rw [getElem?_concat_length, getElem?_eq_none (Nat.le_refl _)]
    constructor
    · intro h
      exact Or.inr ⟨rfl, (Option.some.inj h).symm⟩
    · rintro (h | ⟨-, rfl⟩)
      · cases h
      · rfl
  · rw [getElem?_eq_none (by rw [length_append, length_singleton]; omega),
      getElem?_eq_none (Nat.le_of_lt hgt)]
    constructor
    · intro h
      cases h
    · rintro (h | ⟨h, -⟩)
      · cases h
      · omega

variable {crossed : Nat → Prop}

theorem MadeFor.weaken {crossed' : Nat → Prop} (h : MadeFor crossed st)
    (hcrossed : ∀ i, crossed i → crossed' i) : MadeFor crossed' st :=
  ⟨fun number island hisland => hcrossed _ (h.region number island hisland), h.nodup, h.mem⟩

theorem addIsland_made (h : MadeFor crossed st) {i : Nat}
    (hi : crossed i) (target : TargetAndOffset) (next : Target) :
    MadeFor crossed (addIsland st target i next) := by
  have hislands : ∀ {number : Nat} {island : BranchIslandAtom},
      (addIsland st target i next).islands[number]? = some island ↔
        st.islands[number]? = some island ∨ number = st.islands.length ∧ island = ⟨i, next⟩ :=
    getElem?_concat
  have hregions : ∀ i', (addIsland st target i next).regionsIslands i' =
      if i' = i then st.regionsIslands i ++ [st.islands.length] else st.regionsIslands i' := by
    intro i'
    change update st.regionsIslands i _ i' = _
    by_cases hsame : i' = i
    · subst hsame
      rw [update_self, if_pos rfl]
    · rw [update_of_ne hsame, if_neg hsame]
  refine ⟨?_, ?_, ?_⟩
  · intro number island hisland
    rcases hislands.mp hisland with hold | ⟨-, rfl⟩
    · exact h.region number island hold
    · exact hi
  · intro i'
    rw [hregions]
    split
    · rw [nodup_append]
      refine ⟨h.nodup i, nodup_singleton _, ?_⟩
      intro a ha b hb hab
      rw [List.mem_singleton.mp hb] at hab
      obtain ⟨island, hisland, -⟩ := (h.mem i a).mp ha
      rw [hab, getElem?_eq_none (Nat.le_refl _)] at hisland
      cases hisland
    · exact h.nodup i'
  · intro i' number
    simp only [hislands, hregions]
    split
    · rename_i hsame
      rw [mem_append, mem_singleton, h.mem]
      constructor
      · rintro (⟨island, hisland, hregion⟩ | rfl)
        · exact ⟨island, Or.inl hisland, hregion.trans hsame.symm⟩
        · exact ⟨_, Or.inr ⟨rfl, rfl⟩, hsame.symm⟩
      · rintro ⟨island, hisland | ⟨hnumber, -⟩, hregion⟩
        · exact Or.inl ⟨island, hisland, hregion.trans hsame⟩
        · exact Or.inr hnumber
    · rename_i hother
      rw [h.mem]
      constructor
      · rintro ⟨island, hisland, hregion⟩
        exact ⟨island, Or.inl hisland, hregion⟩
      · rintro ⟨island, hisland | ⟨-, rfl⟩, hregion⟩
        · exact ⟨island, hisland, hregion⟩
        · exact absurd hregion.symm hother

/-- One loop, from its start on. -/
structure Looped (crossed : Nat → Prop) (target : TargetAndOffset) (st : Islands) (done : Nat → Prop)
    (st' : Islands × Target) : Prop where
  made : MadeFor crossed st'.1
  grows : Grows st st'.1
  references : st'.1.references = st.references
  entries : ∀ i, done i → ∃ number, st'.1.regionsMap i target = some number

theorem Looped.visitRegion
    {inRange : Nat → Bool}
    (h : Looped crossed target st done st') {i : Nat} (hi : inRange i = true → crossed i) :
    Looped crossed target st (fun i' => done i' ∨ i' = i ∧ inRange i = true)
      (visitRegion target inRange st' i) := by
  unfold BranchIslands.visitRegion
  split
  · rename_i hrange
    unfold findOrAddIsland
    cases hentry : st'.1.regionsMap i target with
    | some number =>
      refine ⟨h.made, h.grows, h.references, ?_⟩
      rintro i' (hdone | ⟨rfl, -⟩)
      · exact h.entries i' hdone
      · exact ⟨number, hentry⟩
    | none =>
      have hgrows := addIsland_grows st'.2 hentry
      refine ⟨addIsland_made h.made (hi hrange) target st'.2, h.grows.trans hgrows, h.references, ?_⟩
      rintro i' (hdone | ⟨rfl, -⟩)
      · obtain ⟨number, hnumber⟩ := h.entries i' hdone
        exact ⟨number, hgrows.entries i' target number hnumber⟩
      · refine ⟨st'.1.islands.length, ?_⟩
        change (addIsland st'.1 target i' st'.2).regionsMap i' target = _
        rw [addIsland_entry, if_pos ⟨rfl, rfl⟩]
  · rename_i hrange
    refine ⟨h.made, h.grows, h.references, ?_⟩
    rintro i' (hdone | ⟨-, hrange'⟩)
    · exact h.entries i' hdone
    · exact absurd hrange' hrange

theorem Looped.visitRegions
    (inRange : Nat → Bool) (regions : List Nat)
    (hcrossed : ∀ i ∈ regions, inRange i = true → crossed i)
    (h : Looped crossed target st done st') :
    Looped crossed target st (fun i => done i ∨ i ∈ regions ∧ inRange i = true)
      (regions.foldl (BranchIslands.visitRegion target inRange) st') := by
  induction regions generalizing st' done with
  | nil =>
    refine ⟨h.made, h.grows, h.references, ?_⟩
    rintro i (hdone | ⟨hmem, -⟩)
    · exact h.entries i hdone
    · cases hmem
  | cons i regions ih =>
    have hnext := ih (fun i' hi' => hcrossed i' (mem_cons_of_mem i hi'))
      (h.visitRegion (hcrossed i mem_cons_self))
    refine ⟨hnext.made, hnext.grows, hnext.references, ?_⟩
    rintro i' (hdone | ⟨hmem, hrange⟩)
    · exact hnext.entries i' (Or.inl (Or.inl hdone))
    · rcases List.mem_cons.mp hmem with rfl | hmem
      · exact hnext.entries i' (Or.inl (Or.inr ⟨rfl, hrange⟩))
      · exact hnext.entries i' (Or.inr ⟨hmem, hrange⟩)

variable (seg atoms) in
/-- The way from a `bl` to a target that is far away crosses a region, as its loop has it. -/
def Crosses (seen : AtomPtr × Reference) (i : Nat) : Prop :=
  let srcAddr := srcAddr atoms seen.1 seen.2
  let dstAddr := dstAddr atoms seen.2.finalTargetAndOffset
  i < seg.kIslandRegionsCount ∧ isBranch24Reference seen.2.getKind = true ∧
    (dstAddr - srcAddr > kBetweenRegions ∧ inForwardRange seg srcAddr dstAddr i = true ∨
      dstAddr - srcAddr < -kBetweenRegions ∧ inBackRange srcAddr dstAddr i = true)

theorem retarget_looped (h : MadeFor crossed st)
    (seen : AtomPtr × Reference) (hcrossed : ∀ i, Crosses seg atoms seen i → crossed i) :
    Looped crossed seen.2.finalTargetAndOffset st (Crosses seg atoms seen)
      (if isBranch24Reference seen.2.getKind then retarget seg atoms st seen.1 seen.2
        else (st, .atom seen.2.finalTargetAndOffset)) := by
  have hstay : Looped crossed seen.2.finalTargetAndOffset st (fun _ => False)
      (st, .atom seen.2.finalTargetAndOffset) := ⟨h, Grows.refl st, rfl, fun _ hfalse => hfalse.elim⟩
  unfold retarget
  by_cases hkind : isBranch24Reference seen.2.getKind = true
  · rw [if_pos hkind]
    dsimp only
    split
    · rename_i hforward
      have hloop := hstay.visitRegions (inForwardRange seg (srcAddr atoms seen.1 seen.2)
        (dstAddr atoms seen.2.finalTargetAndOffset)) (List.range seg.kIslandRegionsCount).reverse ?_
      · refine ⟨hloop.made, hloop.grows, hloop.references, ?_⟩
        rintro i ⟨hi, -, ⟨-, hrange⟩ | ⟨hback, -⟩⟩
        · apply hloop.entries i
          exact Or.inr ⟨List.mem_reverse.mpr (List.mem_range.mpr hi), hrange⟩
        · omega
      · intro i hi hrange
        apply hcrossed
        exact ⟨List.mem_range.mp (List.mem_reverse.mp hi), hkind, Or.inl ⟨hforward, hrange⟩⟩
    · rename_i hforward
      split
      · rename_i hback
        have hloop := hstay.visitRegions (inBackRange (srcAddr atoms seen.1 seen.2)
          (dstAddr atoms seen.2.finalTargetAndOffset)) (List.range seg.kIslandRegionsCount) ?_
        · refine ⟨hloop.made, hloop.grows, hloop.references, ?_⟩
          rintro i ⟨hi, -, ⟨hforward', -⟩ | ⟨-, hrange⟩⟩
          · exact absurd hforward' hforward
          · apply hloop.entries i
            exact Or.inr ⟨List.mem_range.mpr hi, hrange⟩
        · intro i hi hrange
          apply hcrossed
          exact ⟨List.mem_range.mp hi, hkind, Or.inr ⟨hback, hrange⟩⟩
      · rename_i hback
        refine ⟨hstay.made, hstay.grows, hstay.references, ?_⟩
        rintro i ⟨-, -, ⟨hforward', -⟩ | ⟨hback', -⟩⟩
        · exact absurd hforward' hforward
        · exact absurd hback' hback
  · rw [if_neg hkind]
    refine ⟨hstay.made, hstay.grows, hstay.references, ?_⟩
    rintro i ⟨-, hkind', -⟩
    exact absurd hkind' hkind

variable (seg atoms) in
/-- There are islands where a reference that was seen crosses a region, and only there. -/
structure MadeByRun (seens : List (AtomPtr × Reference)) (st : Islands) : Prop where
  made : MadeFor (fun i => ∃ seen ∈ seens, Crosses seg atoms seen i) st
  entries : ∀ seen ∈ seens, ∀ i, Crosses seg atoms seen i →
    ∃ number, st.regionsMap i seen.2.finalTargetAndOffset = some number

theorem MadeByRun.visit (h : MadeByRun seg atoms seens st) (seen : AtomPtr × Reference) :
    MadeByRun seg atoms (seens ++ [seen]) (visitReference seg atoms st seen) := by
  have hlast : seen ∈ seens ++ [seen] := mem_append_right _ (mem_singleton_self seen)
  have hbefore : MadeFor (fun i => ∃ seen' ∈ seens ++ [seen], Crosses seg atoms seen' i) st := by
    apply h.made.weaken
    rintro i ⟨seen', hseen', hcrosses⟩
    exact ⟨seen', mem_append_left _ hseen', hcrosses⟩
  have hloop := retarget_looped hbefore seen fun i hcrosses => ⟨seen, hlast, hcrosses⟩
  refine ⟨⟨hloop.made.region, hloop.made.nodup, hloop.made.mem⟩, ?_⟩
  intro seen' hseen' i hcrosses
  rcases List.mem_append.mp hseen' with hold | hnew
  · obtain ⟨number, hnumber⟩ := h.entries seen' hold i hcrosses
    exact ⟨number, hloop.grows.entries i _ number hnumber⟩
  · obtain rfl := List.mem_singleton.mp hnew
    exact hloop.entries i hcrosses

theorem MadeByRun.visits (h : MadeByRun seg atoms seens st) (rest : List (AtomPtr × Reference)) :
    MadeByRun seg atoms (seens ++ rest) (rest.foldl (visitReference seg atoms) st) := by
  induction rest generalizing seens st with
  | nil =>
    rw [append_nil]
    exact h
  | cons seen rest ih =>
    have hnext := ih (h.visit seen)
    rw [append_assoc] at hnext
    exact hnext

theorem madeByRun_start : MadeByRun seg atoms [] {} := by
  refine ⟨⟨?_, fun _ => nodup_nil, ?_⟩, ?_⟩
  · intro number island hisland
    cases hisland
  · intro i number
    constructor
    · intro hmem
      cases hmem
    · rintro ⟨island, hisland, -⟩
      cases hisland
  · intro seen hseen
    cases hseen

theorem MadeByRun.region_iff
    (h : MadeByRun seg atoms seens st) (hconsistent : Consistent seg atoms st) (i : Nat) :
    (∃ (number : Nat) (island : BranchIslandAtom),
      st.islands[number]? = some island ∧ island.islandRegion = i) ↔
        ∃ seen ∈ seens, Crosses seg atoms seen i := by
  constructor
  · rintro ⟨number, island, hisland, rfl⟩
    exact h.made.region number island hisland
  · rintro ⟨seen, hseen, hcrosses⟩
    obtain ⟨number, hentry⟩ := h.entries seen hseen i hcrosses
    obtain ⟨next, hisland, -⟩ := hconsistent i _ number hentry
    exact ⟨number, _, hisland, rfl⟩

end Made

section Walk
variable {seg : TextSegment} {atoms : AtomPtr → Atom} {textSection : TextSection seg atoms}
  {regionsIslands : Nat → List Nat}
variable {st : Insertion} {visited : List PlacedAtom} {next : PlacedAtom}

def original : TextAtom × Nat → Option PlacedAtom
  | (.atom placed, _) => some placed
  | (.island _, _) => none

def islandNumber : TextAtom × Nat → Option Nat
  | (.atom _, _) => none
  | (.island number, _) => some number

variable (textSection regionsIslands) in
structure Walked (visited : List PlacedAtom) (st : Insertion) : Prop where
  region : st.islandRegionAddr = kBetweenRegions * (st.regionIndex + 1) + seg.textBase
  index : st.regionIndex = passed (fun i => kBetweenRegions * (i + 1) + seg.textBase)
    (visited.map fun a => seg.textBase + a.getSectionOffset)
  slide : textSectionAlignment textSection ∣ st.atomSlide
  originals : st.newAtomList.filterMap original = visited
  islands : st.newAtomList.filterMap islandNumber = (List.range st.regionIndex).flatMap regionsIslands
  apart : st.newAtomList.Pairwise fun a b => a.2 + a.1.getSize ≤ b.2
  within : ∀ stop, (∀ a ∈ visited, a.getSectionOffset + a.getSize ≤ stop) →
    ∀ a ∈ st.newAtomList, a.2 + a.1.getSize ≤ stop + st.atomSlide
  moved : ∀ a offset, (TextAtom.atom a, offset) ∈ st.newAtomList →
    ∃ slide, textSectionAlignment textSection ∣ slide ∧ offset = a.getSectionOffset + slide

theorem le_placeIsland (number sectionOffset : Nat) :
    sectionOffset ≤ placeIsland number sectionOffset := le_alignUp (by decide) sectionOffset

theorem placedIslands_original (sectionOffset : Nat) (regionIslands : List Nat) :
    (placedIslands sectionOffset regionIslands).filterMap original = [] := by
  unfold placedIslands
  rw [filterMap_map]
  apply List.filterMap_eq_nil_iff.mpr
  intro a _
  rfl

theorem placedIslands_number (sectionOffset : Nat) (regionIslands : List Nat) :
    (placedIslands sectionOffset regionIslands).filterMap islandNumber = regionIslands := by
  unfold placedIslands
  rw [filterMap_map]
  change List.filterMap (some ∘ Prod.fst) _ = _
  rw [filterMap_eq_map, map_fst_offsets]

theorem placedIslands_apart (sectionOffset : Nat) (regionIslands : List Nat) :
    (placedIslands sectionOffset regionIslands).Pairwise fun a b => a.2 + a.1.getSize ≤ b.2 :=
  List.pairwise_map.mpr (offsets_apart islandSize le_placeIsland sectionOffset regionIslands)

variable {regionIslands : List Nat}

theorem placedIslands_bounds {sectionOffset : Nat} {a : TextAtom × Nat}
    (ha : a ∈ placedIslands sectionOffset regionIslands) : sectionOffset ≤ a.2 ∧
      a.2 + a.1.getSize ≤ layoutEnd placeIsland islandSize sectionOffset regionIslands := by
  obtain ⟨island, hisland, rfl⟩ := List.mem_map.mp ha
  exact offset_bounds islandSize le_placeIsland hisland

theorem not_mem_placedIslands {sectionOffset offset : Nat}
    {a : PlacedAtom} : (TextAtom.atom a, offset) ∉ placedIslands sectionOffset regionIslands := by
  intro ha
  obtain ⟨island, -, hisland⟩ := List.mem_map.mp ha
  cases hisland

theorem apart_append {list : List (TextAtom × Nat)} {start : Nat}
    (hlist : list.Pairwise fun a b => a.2 + a.1.getSize ≤ b.2)
    (hstart : ∀ a ∈ list, a.2 + a.1.getSize ≤ start) :
    (list ++ placedIslands start regionIslands).Pairwise fun a b => a.2 + a.1.getSize ≤ b.2 := by
  apply List.pairwise_append.mpr
  refine ⟨hlist, placedIslands_apart start regionIslands, ?_⟩
  intro a ha b hb
  have := hstart a ha
  have := (placedIslands_bounds hb).1
  omega

variable (textSection regionsIslands) in
structure Ready (visited : List PlacedAtom) (next : PlacedAtom) (st : Insertion) : Prop where
  region : st.islandRegionAddr = kBetweenRegions * (st.regionIndex + 1) + seg.textBase
  slide : textSectionAlignment textSection ∣ st.atomSlide
  originals : st.newAtomList.filterMap original = visited
  islands : st.newAtomList.filterMap islandNumber = (List.range st.regionIndex).flatMap regionsIslands
  apart : st.newAtomList.Pairwise fun a b => a.2 + a.1.getSize ≤ b.2
  within : ∀ a ∈ st.newAtomList, a.2 + a.1.getSize ≤ next.getSectionOffset + st.atomSlide
  moved : ∀ a offset, (TextAtom.atom a, offset) ∈ st.newAtomList →
    ∃ slide, textSectionAlignment textSection ∣ slide ∧ offset = a.getSectionOffset + slide

theorem Walked.ready (h : Walked textSection regionsIslands visited st)
    (hnext : ∀ a ∈ visited, a.getSectionOffset + a.getSize ≤ next.getSectionOffset) :
    Ready textSection regionsIslands visited next st :=
  ⟨h.region, h.slide, h.originals, h.islands, h.apart, h.within _ hnext, h.moved⟩

theorem le_alignmentBlocks (size : Nat) :
    size ≤ (size + textSectionAlignment textSection - 1) / textSectionAlignment textSection *
      textSectionAlignment textSection := by
  have hpos : 0 < textSectionAlignment textSection := Nat.two_pow_pos _
  have hle := le_alignUp hpos size
  unfold alignUp at hle
  rw [← Nat.add_sub_assoc hpos] at hle
  exact hle

section
variable {visited : List PlacedAtom} {next : PlacedAtom} {st : Insertion}
    (h : Ready textSection regionsIslands visited next st)
include h

theorem Ready.insertRegion : Ready textSection regionsIslands visited next
      (insertRegion textSection regionsIslands st (next.getSectionOffset + st.atomSlide)) := by
  constructor
  · change st.islandRegionAddr + kBetweenRegions = kBetweenRegions * (st.regionIndex + 1 + 1) + _
    rw [h.region, Nat.mul_add _ (st.regionIndex + 1) 1]
    omega
  · exact Nat.dvd_add h.slide (Nat.dvd_mul_left _ _)
  · change (st.newAtomList ++ _).filterMap original = _
    rw [filterMap_append, placedIslands_original, append_nil, h.originals]
  · change (st.newAtomList ++ _).filterMap islandNumber = _
    rw [filterMap_append, placedIslands_number, h.islands]
    change _ = (List.range (st.regionIndex + 1)).flatMap _
    rw [range_succ, flatMap_append, flatMap_singleton]
  · exact apart_append h.apart h.within
  · intro a ha
    have hroom := @le_alignmentBlocks seg atoms textSection
      (layoutEnd placeIsland islandSize (next.getSectionOffset + st.atomSlide)
        (regionsIslands st.regionIndex) - (next.getSectionOffset + st.atomSlide))
    change _ ≤ next.getSectionOffset + (st.atomSlide + _)
    rcases List.mem_append.mp ha with ha | ha
    · have := h.within a ha
      omega
    · have := (placedIslands_bounds ha).2
      omega
  · intro a offset ha
    rcases List.mem_append.mp ha with ha | ha
    · exact h.moved a offset ha
    · exact absurd ha not_mem_placedIslands

theorem Ready.insertAtom
    (hindex : st.regionIndex = passed (fun i => kBetweenRegions * (i + 1) + seg.textBase)
      ((visited ++ [next]).map fun a => seg.textBase + a.getSectionOffset)) :
    Walked textSection regionsIslands (visited ++ [next])
      { st with newAtomList :=
          st.newAtomList ++ [(.atom next, next.getSectionOffset + st.atomSlide)] } := by
  refine ⟨h.region, hindex, h.slide, ?_, ?_, ?_, ?_, ?_⟩
  · rw [filterMap_append, h.originals]
    rfl
  · rw [filterMap_append, h.islands]
    exact append_nil _
  · apply List.pairwise_append.mpr
    refine ⟨h.apart, pairwise_singleton _ _, ?_⟩
    intro a ha b hb
    rw [List.mem_singleton.mp hb]
    exact h.within a ha
  · intro stop hstop a ha
    have hend := hstop next (mem_append_right _ (mem_singleton_self next))
    change _ ≤ stop + st.atomSlide
    rcases List.mem_append.mp ha with ha | ha
    · have := h.within a ha
      omega
    rw [List.mem_singleton.mp ha]
    change next.getSectionOffset + st.atomSlide + next.getSize ≤ _
    omega
  · intro a offset ha
    rcases List.mem_append.mp ha with ha | ha
    · exact h.moved a offset ha
    obtain ⟨hsame, rfl⟩ := Prod.mk.inj (List.mem_singleton.mp ha)
    cases hsame
    exact ⟨st.atomSlide, h.slide, rfl⟩

end

theorem Walked.insertAtom (h : Walked textSection regionsIslands visited st)
    (hnext : ∀ a ∈ visited, a.getSectionOffset + a.getSize ≤ next.getSectionOffset)
    (haddress : (atoms next.atom).getAddress = seg.textBase + next.getSectionOffset) :
    Walked textSection regionsIslands (visited ++ [next])
      (insertAtom textSection regionsIslands st next) := by
  have hready := h.ready hnext
  unfold BranchIslands.insertAtom
  rw [haddress, h.region]
  split
  · rename_i hbeyond
    apply hready.insertRegion.insertAtom
    change st.regionIndex + 1 = _
    rw [map_append, map_singleton, passed_concat, ← h.index]
    unfold passOne
    rw [if_pos hbeyond]
  · rename_i hbeyond
    apply hready.insertAtom
    rw [map_append, map_singleton, passed_concat, ← h.index]
    unfold passOne
    rw [if_neg hbeyond]

/-! #### The whole section -/

theorem Walked.insertAtoms {visited rest : List PlacedAtom}
    (h : Walked textSection regionsIslands visited st) (hall : textSection.fAtoms = visited ++ rest) :
    Walked textSection regionsIslands textSection.fAtoms
      (rest.foldl (BranchIslands.insertAtom textSection regionsIslands) st) := by
  induction rest generalizing visited st with
  | nil =>
    rw [append_nil] at hall
    rw [hall]
    exact h
  | cons next rest ih =>
    have hnext : Walked textSection regionsIslands (visited ++ [next])
        (BranchIslands.insertAtom textSection regionsIslands st next) := by
      apply h.insertAtom
      · have hapart := textSection.apart
        rw [hall] at hapart
        intro a ha
        exact (List.pairwise_append.mp hapart).2.2 a ha next mem_cons_self
      · apply textSection.address
        rw [hall]
        exact mem_append_right _ mem_cons_self
    apply ih hnext
    rw [hall, append_assoc]
    rfl

theorem walked_start : Walked textSection regionsIslands []
    { islandRegionAddr := kBetweenRegions + seg.textBase } where
  region := by rw [Nat.zero_add, Nat.mul_one]
  index := rfl
  slide := Nat.dvd_zero _
  originals := rfl
  islands := rfl
  apart := List.Pairwise.nil
  within := by
    intro stop _ a ha
    cases ha
  moved := by
    intro a offset ha
    cases ha

theorem insertAtoms_walked : Walked textSection regionsIslands textSection.fAtoms
    (insertAtoms textSection regionsIslands) :=
  walked_start.insertAtoms rfl

variable (textSection) in
def atomAddresses : List Nat := textSection.fAtoms.map fun a => seg.textBase + a.getSectionOffset

variable (seg) in
def regionMark (i : Nat) : Nat := kBetweenRegions * (i + 1) + seg.textBase

theorem regionMark_mono : Monotone (regionMark seg) := by
  intro i j hij
  unfold regionMark
  have := Nat.mul_le_mul_left kBetweenRegions (Nat.add_le_add_right hij 1)
  omega

theorem atomAddresses_sorted : (atomAddresses textSection).Pairwise (· ≤ ·) := by
  apply List.pairwise_map.mpr
  apply textSection.apart.imp
  omega

variable (textSection) in
def passedRegions : Nat := passed (regionMark seg) (atomAddresses textSection)

def placedRegions (textSection : TextSection seg atoms) : Nat :=
  if passedRegions textSection < seg.kIslandRegionsCount then passedRegions textSection + 1
  else passedRegions textSection

variable (textSection regionsIslands) in
structure Filled (content : TextContent) : Prop where
  originals : content.fAtoms.filterMap original = textSection.fAtoms
  islands : content.fAtoms.filterMap islandNumber =
    (List.range (placedRegions textSection)).flatMap regionsIslands
  apart : content.fAtoms.Pairwise fun a b => a.2 + a.1.getSize ≤ b.2
  moved : ∀ a offset, (TextAtom.atom a, offset) ∈ content.fAtoms →
    ∃ slide, textSectionAlignment textSection ∣ slide ∧ offset = a.getSectionOffset + slide

theorem insertRemaining_filled : Filled textSection regionsIslands
    (insertRemaining textSection regionsIslands (insertAtoms textSection regionsIslands)) := by
  have h : Walked textSection regionsIslands textSection.fAtoms
    (insertAtoms textSection regionsIslands) := insertAtoms_walked
  have hindex : (insertAtoms textSection regionsIslands).regionIndex = passedRegions textSection :=
    h.index
  unfold insertRemaining
  rw [hindex]
  split
  · rename_i hmore
    have hplaced : placedRegions textSection = passedRegions textSection + 1 := if_pos hmore
    constructor
    · rw [filterMap_append, placedIslands_original, append_nil, h.originals]
    · rw [filterMap_append, placedIslands_number, h.islands, hindex, hplaced,
        range_succ, flatMap_append, flatMap_singleton]
    · exact apart_append h.apart (h.within _ textSection.inside)
    · intro a offset ha
      rcases List.mem_append.mp ha with ha | ha
      · exact h.moved a offset ha
      · exact absurd ha not_mem_placedIslands
  · rename_i hmore
    have hplaced : placedRegions textSection = passedRegions textSection := if_neg hmore
    constructor
    · exact h.originals
    · rw [hplaced, ← hindex]
      exact h.islands
    · exact h.apart
    · exact h.moved

end Walk
end Toolwhip.Ld64.BranchIslands
