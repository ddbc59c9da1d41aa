import Toolwhip.Ld64.ObjectRelocsPairs
import Toolwhip.Lib.MirroredSlices

/-! # Writer::buildObjectFileFixups

The relocations of all sections are pushed to one vector, which is reversed at the end, and so are
the offsets of the sections in it. -/

namespace Toolwhip.Ld64.Reloc.Fixups
open List
set_option autoImplicit false

def INDIRECT_SYMBOL_LOCAL : BitVec 32 := 0x80000000

/-- A reference with what is asked of it beside its targets. `stubTargetTarget` is the target of
the first reference of the target, as a stub has one. -/
structure FixReference (Kinds : Type) where
  ref : BoundReference Kinds
  dontBind : Bool := false
  hasFromTarget : Bool := true
  stubTargetTarget : Atom

structure FixAtom (Kinds : Type) where
  atom : Atom
  references : List (FixReference Kinds)

structure SectionInfo (Kinds : Type) where
  fAtoms : List (FixAtom Kinds)
  fAllLazyPointers : Bool := false
  fAllLazyDylibPointers : Bool := false
  fAllNonLazyPointers : Bool := false
  fAllStubs : Bool := false
  fAllZeroFill : Bool := false
  fRelocCount : BitVec 32 := 0
  fRelocOffset : BitVec 32 := 0
  fIndirectSymbolOffset : BitVec 32 := 0

structure SegmentInfo (Kinds : Type) where
  fSections : List (SectionInfo Kinds)

structure IndirectEntry where
  indirectIndex : BitVec 32
  symbolIndex : BitVec 32
  deriving DecidableEq

structure FixupState where
  relocIndex : BitVec 32 := 0
  fSectionRelocs : List Entry := []
  fTable : List IndirectEntry := []

def FixupState.push (st : FixupState) (pushed : Pushed) : FixupState :=
  { st with
    relocIndex := st.relocIndex + pushed.2
    fSectionRelocs := st.fSectionRelocs ++ pushed.1 }

section Model
variable (A : Architecture) (w : Writer)

def SectionInfo.isIndirect {Kinds : Type} (s : SectionInfo Kinds) : Bool :=
  s.fAllNonLazyPointers || s.fAllLazyPointers || s.fAllLazyDylibPointers || s.fAllStubs

def undefinedSymbolIndex {Kinds : Type} (s : SectionInfo Kinds) (r : FixReference Kinds) :
    Except WriteError (BitVec 32) :=
  if s.fAllStubs then w.symbolIndex r.stubTargetTarget
  else if s.fAllNonLazyPointers then
    if w.indirectSymbolIsLocal r.ref then .ok INDIRECT_SYMBOL_LOCAL
    else w.symbolIndex r.ref.getTarget
  else .ok INDIRECT_SYMBOL_LOCAL

def indirectEntry {Kinds : Type} (s : SectionInfo Kinds) (atom : Atom) (r : FixReference Kinds) :
    Except WriteError IndirectEntry := do
  let symbolIndex ← undefinedSymbolIndex w s r
  let offsetInSection := atom.getSectionOffset.setWidth 32
  let indexInSection := (offsetInSection.setWidth 64 / atom.getSize).setWidth 32
  return { indirectIndex := indexInSection + s.fIndirectSymbolOffset
           symbolIndex := symbolIndex }

/-- The entry of a lazy pointer with an initial binding. -/
def lazyPointerReloc {Kinds : Type} (atom : Atom) (r : FixReference Kinds) :
    Except WriteError Pushed :=
  if !r.hasFromTarget then .ok ([], 0)
  else do
    let target := r.ref.getTarget
    let isExtern := (target.getDefinitionKind = .kExternalDefinition ∨
      target.getDefinitionKind = .kExternalWeakDefinition) ∧
        target.getSymbolTableInclusion ≠ .kSymbolTableNotIn
    let num ← w.symbolnum isExtern target
    return ([.plain (atom.getSectionOffset.setWidth 32) num false A.pointerLength isExtern
      Reloc.X86.GENERIC_RELOC_VANILLA], 1)

/-- What is pushed for a reference, and what is added to `relocIndex`. -/
def referenceRelocs (s : SectionInfo A.Kinds) (atom : Atom) (r : FixReference A.Kinds) :
    Except WriteError Pushed :=
  if s.isIndirect then
    if s.fAllLazyPointers then lazyPointerReloc A w atom r
    else if s.fAllStubs then A.addObjectRelocs w atom r.ref
    else .ok ([], 0)
  else if !A.isNoFixUp r.ref.getKind && !r.dontBind then A.addObjectRelocs w atom r.ref
  else .ok ([], 0)

def addReference (s : SectionInfo A.Kinds) (atom : Atom) (st : FixupState)
    (r : FixReference A.Kinds) : Except WriteError FixupState := do
  let fTable ←
    if s.isIndirect then (indirectEntry w s atom r).map fun entry => st.fTable ++ [entry]
    else .ok st.fTable
  let pushed ← referenceRelocs A w s atom r
  return { st with fTable := fTable }.push pushed

def addAtoms (s : SectionInfo A.Kinds) (st : FixupState) : Except WriteError FixupState :=
  s.fAtoms.foldlM (fun st a => a.references.foldlM (addReference A w s a.atom) st) st

def addSection (s : SectionInfo A.Kinds) (st : FixupState) :
    Except WriteError (SectionInfo A.Kinds × FixupState) :=
  if s.fAllZeroFill then .ok (s, st)
  else do
    let s :=
      { s with
        fIndirectSymbolOffset :=
          if s.isIndirect then BitVec.ofNat 32 st.fTable.length else s.fIndirectSymbolOffset
        fRelocOffset := st.relocIndex }
    let st ← addAtoms A w s st
    return ({ s with fRelocCount := st.relocIndex - s.fRelocOffset }, st)

def addSections : List (SectionInfo A.Kinds) → FixupState →
    Except WriteError (List (SectionInfo A.Kinds) × FixupState)
  | [], st => .ok ([], st)
  | s :: rest, st => do
    let (s, st) ← addSection A w s st
    let (others, st) ← addSections rest st
    return (s :: others, st)

def addSegments : List (SegmentInfo A.Kinds) → FixupState →
    Except WriteError (List (SegmentInfo A.Kinds) × FixupState)
  | [], st => .ok ([], st)
  | segment :: rest, st => do
    let (sections, st) ← addSections A w segment.fSections st
    let (others, st) ← addSegments rest st
    return ({ fSections := sections } :: others, st)

/-- "now reverse section reloc offsets" -/
def SectionInfo.mirror {Kinds : Type} (relocIndex : BitVec 32) (s : SectionInfo Kinds) :
    SectionInfo Kinds :=
  { s with fRelocOffset := relocIndex - s.fRelocOffset - s.fRelocCount }

def SegmentInfo.mirror {Kinds : Type} (relocIndex : BitVec 32) (segment : SegmentInfo Kinds) :
    SegmentInfo Kinds :=
  { fSections := segment.fSections.map (SectionInfo.mirror relocIndex) }

structure ObjectFixups (Kinds : Type) where
  fSegmentInfos : List (SegmentInfo Kinds)
  fSectionRelocs : List Entry
  fTable : List IndirectEntry

def buildObjectFileFixups (fSegmentInfos : List (SegmentInfo A.Kinds)) :
    Except WriteError (ObjectFixups A.Kinds) := do
  let (segments, st) ← addSegments A w fSegmentInfos {}
  return { fSegmentInfos := segments.map (SegmentInfo.mirror st.relocIndex)
           fSectionRelocs := st.fSectionRelocs.reverse
           fTable := st.fTable }

end Model

/-! ## The relocations of each section

A run of `buildObjectFileFixups` appends the relocations of one section after another. The slices
that the sections name after the reversal are the mirrored slices of these blocks. -/

open Lib.ThrowingFold Lib.MirroredSlices

section Model
variable (A : Architecture) (w : Writer)

def sectionEntries (s : SectionInfo A.Kinds) : Except WriteError (List Entry) :=
  s.fAtoms.flatMapM fun a => a.references.flatMapM fun r =>
    (referenceRelocs A w s a.atom r).map Prod.fst

end Model

variable {A : Architecture} {w : Writer}

variable {atom : Atom}

theorem lazyPointerReloc_well {r : FixReference A.Kinds} {pushed : Pushed}
    (h : lazyPointerReloc A w atom r = .ok pushed) : WellPushed A pushed := by
  unfold lazyPointerReloc at h
  split at h
  · cases h
    exact WellPushed.none
  obtain ⟨num, -, hpushed⟩ := bind_eq_ok.mp h
  cases hpushed
  apply WellPushed.one
  cases A <;> rfl

theorem referenceRelocs_well {s : SectionInfo A.Kinds} {r : FixReference A.Kinds}
    {pushed : Pushed} (h : referenceRelocs A w s atom r = .ok pushed) : WellPushed A pushed := by
  unfold referenceRelocs at h
  split at h
  · split at h
    · exact lazyPointerReloc_well h
    split at h
    · exact addObjectRelocs_well h
    cases h
    exact WellPushed.none
  · split at h
    · exact addObjectRelocs_well h
    cases h
    exact WellPushed.none

/-- From `st` to `st'` the entries are appended and counted. -/
structure Appends (A : Architecture) (st st' : FixupState) (entries : List Entry) : Prop where
  relocs : st'.fSectionRelocs = st.fSectionRelocs ++ entries
  counted : st'.relocIndex = st.relocIndex + BitVec.ofNat 32 entries.length
  paired : Paired A entries.reverse

theorem Appends.refl (st : FixupState) : Appends A st st [] where
  relocs := (append_nil _).symm
  counted := (BitVec.add_zero _).symm
  paired := Paired.nil

variable {st st' : FixupState}

theorem Appends.trans {st'' : FixupState} {l m : List Entry} (h : Appends A st st' l)
    (h' : Appends A st' st'' m) : Appends A st st'' (l ++ m) where
  relocs := by rw [h'.relocs, h.relocs, append_assoc]
  counted := by
    rw [h'.counted, h.counted, length_append, BitVec.ofNat_add, BitVec.add_assoc]
  paired := by
    rw [reverse_append]
    exact h'.paired.append h.paired

theorem addReference_appends {s : SectionInfo A.Kinds} {r : FixReference A.Kinds}
    (h : addReference A w s atom st r = .ok st') :
    ∃ entries, (referenceRelocs A w s atom r).map Prod.fst = .ok entries ∧
      Appends A st st' entries := by
  have hpush : ∃ fTable pushed, referenceRelocs A w s atom r = .ok pushed ∧
      { st with fTable := fTable }.push pushed = st' := by
    unfold addReference at h
    split at h
    all_goals
      obtain ⟨fTable, -, h⟩ := bind_eq_ok.mp h
      obtain ⟨pushed, hp, h⟩ := bind_eq_ok.mp h
      exact ⟨fTable, pushed, hp, Except.ok.inj h⟩
  obtain ⟨fTable, pushed, hp, rfl⟩ := hpush
  obtain ⟨hcount, hpaired⟩ := referenceRelocs_well hp
  refine ⟨pushed.1, map_eq_ok.mpr ⟨pushed, hp, rfl⟩, rfl, ?_, hpaired⟩
  rw [← hcount]
  rfl

theorem foldlM_appends {α : Type} {f : FixupState → α → Except WriteError FixupState}
    {g : α → Except WriteError (List Entry)} (hstep : ∀ st a st', f st a = .ok st' →
      ∃ entries, g a = .ok entries ∧ Appends A st st' entries)
    {l : List α} (h : l.foldlM f st = .ok st') :
    ∃ entries, l.flatMapM g = .ok entries ∧ Appends A st st' entries := by
  induction l generalizing st with
  | nil =>
    obtain rfl := foldlM_nil_ok.mp h
    exact ⟨[], flatMapM_nil, Appends.refl st⟩
  | cons a l ih =>
    obtain ⟨mid, hmid, hrest⟩ := foldlM_cons_ok.mp h
    obtain ⟨first, hfirst, happ⟩ := hstep st a mid hmid
    obtain ⟨others, hothers, happ'⟩ := ih hrest
    refine ⟨first ++ others, ?_, happ.trans happ'⟩
    rw [flatMapM_cons, hfirst, hothers]
    rfl

theorem addAtoms_appends {s : SectionInfo A.Kinds} (h : addAtoms A w s st = .ok st') :
    ∃ entries, sectionEntries A w s = .ok entries ∧ Appends A st st' entries := by
  apply foldlM_appends _ h
  intro st a st' ha
  apply foldlM_appends _ ha
  intro st r st' hr
  exact addReference_appends hr

/-! ### Sections -/

namespace SectionInfo
variable {Kinds : Type}

/-- What `buildObjectFileFixups` leaves as it is. -/
def unplaced (s : SectionInfo Kinds) : SectionInfo Kinds :=
  { s with fRelocCount := 0, fRelocOffset := 0, fIndirectSymbolOffset := 0 }

def slice (s : SectionInfo Kinds) : Slice := ⟨s.fRelocOffset.toNat, s.fRelocCount.toNat⟩

theorem slice_mirror {n : BitVec 32} {s : SectionInfo Kinds} (h : s.slice.Within n.toNat) :
    (s.mirror n).slice = s.slice.mirror n.toNat := by
  have hfit : s.fRelocOffset.toNat + s.fRelocCount.toNat ≤ n.toNat := h
  have hoffset : (n - s.fRelocOffset - s.fRelocCount).toNat
      = n.toNat - s.fRelocOffset.toNat - s.fRelocCount.toNat := by bv_omega
  have hslice : (s.mirror n).slice
      = ⟨(n - s.fRelocOffset - s.fRelocCount).toNat, s.fRelocCount.toNat⟩ := rfl
  rw [hslice, hoffset]
  rfl

end SectionInfo

/-- A section with contents: where its block starts, and how long it is. -/
structure Block (A : Architecture) (w : Writer) (st st' : FixupState) (s s' : SectionInfo A.Kinds)
    (entries : List Entry) : Prop where
  appends : Appends A st st' entries
  generated : sectionEntries A w s' = .ok entries
  offset : s'.fRelocOffset = st.relocIndex
  count : s'.fRelocCount = BitVec.ofNat 32 entries.length
  same : s'.unplaced = s.unplaced

theorem addSection_zeroFill {s s' : SectionInfo A.Kinds}
    (hzero : s.fAllZeroFill = true) (h : addSection A w s st = .ok (s', st')) :
    s' = s ∧ st' = st := by
  unfold addSection at h
  rw [if_pos hzero] at h
  cases h
  exact ⟨rfl, rfl⟩

theorem addSection_block {s s' : SectionInfo A.Kinds}
    (hzero : s.fAllZeroFill = false) (h : addSection A w s st = .ok (s', st')) :
    ∃ entries, Block A w st st' s s' entries := by
  unfold addSection at h
  rw [if_neg (by rw [hzero]; exact Bool.false_ne_true)] at h
  obtain ⟨last, hlast, h⟩ := bind_eq_ok.mp h
  cases h
  obtain ⟨entries, hentries, happ⟩ := addAtoms_appends hlast
  refine ⟨entries, happ, hentries, rfl, ?_, rfl⟩
  have hcount : st'.relocIndex - st.relocIndex = BitVec.ofNat 32 entries.length := by
    rw [happ.counted, BitVec.add_comm, BitVec.add_sub_cancel]
  exact hcount

def withContents {Kinds : Type} (sections : List (SectionInfo Kinds)) : List (SectionInfo Kinds) :=
  sections.filter fun s => !s.fAllZeroFill

/-- Sections that are placed one after another: one block for each section with contents. -/
structure Placed (A : Architecture) (w : Writer) (st st' : FixupState)
    (sections sections' : List (SectionInfo A.Kinds)) (blocks : List (List Entry)) : Prop where
  appends : Appends A st st' blocks.flatten
  generated : List.Forall₂ (fun s block => sectionEntries A w s = .ok block)
    (withContents sections') blocks
  places : st.relocIndex = BitVec.ofNat 32 st.fSectionRelocs.length →
    st'.fSectionRelocs.length < 2 ^ 32 →
    (withContents sections').map SectionInfo.slice = slices st.fSectionRelocs.length blocks
  same : sections'.map SectionInfo.unplaced = sections.map SectionInfo.unplaced

variable {blocks : List (List Entry)}

theorem Placed.zeroFill {s : SectionInfo A.Kinds} {rest others : List (SectionInfo A.Kinds)}
    (hzero : s.fAllZeroFill = true) (h : Placed A w st st' rest others blocks) :
    Placed A w st st' (s :: rest) (s :: others) blocks := by
  have hskip : withContents (s :: others) = withContents others := by
    unfold withContents
    rw [filter_cons, if_neg]
    rw [hzero]
    exact Bool.false_ne_true
  exact
    { appends := h.appends
      generated := hskip ▸ h.generated
      places := hskip ▸ h.places
      same := congrArg (s.unplaced :: ·) h.same }

theorem Placed.block {s s' : SectionInfo A.Kinds} {mid : FixupState}
    {rest others : List (SectionInfo A.Kinds)} {entries : List Entry}
    (hzero : s.fAllZeroFill = false) (hs : Block A w st mid s s' entries)
    (h : Placed A w mid st' rest others blocks) :
    Placed A w st st' (s :: rest) (s' :: others) (entries :: blocks) := by
  have hzero' : s'.fAllZeroFill = false := by
    have hsame := congrArg SectionInfo.fAllZeroFill hs.same
    exact hsame.trans hzero
  have hkeep : withContents (s' :: others) = s' :: withContents others := by
    unfold withContents
    rw [filter_cons, if_pos]
    rw [hzero']
    rfl
  have hmid : mid.fSectionRelocs.length = st.fSectionRelocs.length + entries.length := by
    rw [hs.appends.relocs, length_append]
  refine
    { appends := hs.appends.trans h.appends
      generated := hkeep ▸ List.Forall₂.cons hs.generated h.generated
      places := ?_
      same := ?_ }
  · intro hcounted hfew
    have hlength : st'.fSectionRelocs.length
        = mid.fSectionRelocs.length + blocks.flatten.length := by
      rw [h.appends.relocs, length_append]
    have hplace := h.places (by rw [hs.appends.counted, hcounted, hmid, BitVec.ofNat_add]) hfew
    have hslice : s'.slice = ⟨st.fSectionRelocs.length, entries.length⟩ := by
      unfold SectionInfo.slice
      rw [hs.offset, hs.count, hcounted, BitVec.toNat_ofNat, BitVec.toNat_ofNat,
        Nat.mod_eq_of_lt (by omega), Nat.mod_eq_of_lt (by omega)]
    rw [hkeep, map_cons, hplace, hslice, hmid]
    rfl
  · rw [map_cons, map_cons, hs.same, h.same]

theorem addSections_placed {sections sections' : List (SectionInfo A.Kinds)}
    (h : addSections A w sections st = .ok (sections', st')) :
    ∃ blocks, Placed A w st st' sections sections' blocks := by
  induction sections generalizing st sections' with
  | nil =>
    cases h
    exact ⟨[], Appends.refl _, List.Forall₂.nil, fun _ _ => rfl, rfl⟩
  | cons s rest ih =>
    obtain ⟨⟨s', mid⟩, hs, h⟩ := bind_eq_ok.mp h
    obtain ⟨⟨others, last⟩, hrest, h⟩ := bind_eq_ok.mp h
    cases h
    obtain ⟨blocks, hblocks⟩ := ih hrest
    cases hzero : s.fAllZeroFill with
    | true =>
      obtain ⟨rfl, rfl⟩ := addSection_zeroFill hzero hs
      exact ⟨blocks, hblocks.zeroFill hzero⟩
    | false =>
      obtain ⟨entries, hentries⟩ := addSection_block hzero hs
      exact ⟨entries :: blocks, Placed.block hzero hentries hblocks⟩

theorem addSections_append {l l' m m' : List (SectionInfo A.Kinds)} {mid : FixupState}
    (hl : addSections A w l st = .ok (l', mid)) (hm : addSections A w m mid = .ok (m', st')) :
    addSections A w (l ++ m) st = .ok (l' ++ m', st') := by
  induction l generalizing st l' with
  | nil =>
    cases hl
    exact hm
  | cons s rest ih =>
    obtain ⟨⟨s', next⟩, hs, h⟩ := bind_eq_ok.mp hl
    obtain ⟨⟨others, last⟩, hrest, h⟩ := bind_eq_ok.mp h
    cases h
    have happend := ih hrest
    rw [cons_append, addSections, hs]
    dsimp only [bind, Except.bind]
    rw [happend]
    rfl

theorem addSegments_flat {segments segments' : List (SegmentInfo A.Kinds)}
    (h : addSegments A w segments st = .ok (segments', st')) :
    addSections A w (segments.flatMap SegmentInfo.fSections) st
      = .ok (segments'.flatMap SegmentInfo.fSections, st') := by
  induction segments generalizing st segments' with
  | nil =>
    cases h
    rfl
  | cons segment rest ih =>
    obtain ⟨⟨sections, mid⟩, hs, h⟩ := bind_eq_ok.mp h
    obtain ⟨⟨others, last⟩, hrest, h⟩ := bind_eq_ok.mp h
    cases h
    exact addSections_append hs (ih hrest)

def unplacedSections {Kinds : Type} (segments : List (SegmentInfo Kinds)) :
    List (List (SectionInfo Kinds)) :=
  segments.map fun segment => segment.fSections.map SectionInfo.unplaced

theorem addSegments_same {segments segments' : List (SegmentInfo A.Kinds)}
    (h : addSegments A w segments st = .ok (segments', st')) :
    unplacedSections segments' = unplacedSections segments := by
  induction segments generalizing st segments' with
  | nil =>
    cases h
    rfl
  | cons segment rest ih =>
    obtain ⟨⟨sections, mid⟩, hs, h⟩ := bind_eq_ok.mp h
    obtain ⟨⟨others, last⟩, hrest, h⟩ := bind_eq_ok.mp h
    cases h
    obtain ⟨blocks, hblocks⟩ := addSections_placed hs
    have hothers := ih hrest
    unfold unplacedSections at hothers ⊢
    rw [map_cons, map_cons, hothers, hblocks.same]

/-- The slices are disjoint, cover the vector, and each one holds the relocations generated for the
atoms of its section, in the reversed order. -/
structure Sliced (A : Architecture) (w : Writer) (sections : List (SectionInfo A.Kinds))
    (relocs : List Entry) : Prop where
  disjoint : sections.Pairwise fun s t => t.slice.Before s.slice
  inside : ∀ s ∈ sections, s.slice.Within relocs.length
  cover : ∀ i < relocs.length, ∃ s ∈ sections, s.slice.Holds i
  contents : ∀ s ∈ sections, ∃ entries, sectionEntries A w s = .ok entries ∧
    s.slice.of relocs = entries.reverse

theorem sliced_of_mirrored {sections : List (SectionInfo A.Kinds)}
    (hplaces : sections.map SectionInfo.slice = mirrored blocks)
    (hgenerated : List.Forall₂ (fun s block => sectionEntries A w s = .ok block) sections
      blocks) : Sliced A w sections blocks.flatten.reverse where
  disjoint := by
    have h : (sections.map SectionInfo.slice).Pairwise fun s t => t.Before s :=
      hplaces ▸ mirrored_pairwise
    exact List.pairwise_map.mp h
  inside := by
    intro s hs
    rw [length_reverse]
    apply mirrored_within
    rw [← hplaces]
    exact mem_map_of_mem hs
  cover := by
    intro i hi
    rw [length_reverse] at hi
    obtain ⟨t, ht, hholds⟩ := mirrored_cover hi
    rw [← hplaces] at ht
    obtain ⟨s, hs, rfl⟩ := List.mem_map.mp ht
    exact ⟨s, hs, hholds⟩
  contents := by
    intro s hs
    have hblocks := mirrored_holds_block blocks
    rw [← hplaces, forall₂_map_left_iff] at hblocks
    obtain ⟨i, hi, rfl⟩ := List.mem_iff_getElem.mp hs
    have hlength := hgenerated.length_eq
    have hi' : i < blocks.length := by omega
    exact ⟨blocks[i], hgenerated.get hi hi', hblocks.get hi hi'⟩

theorem withContents_mirror (n : BitVec 32) (segments : List (SegmentInfo A.Kinds)) :
    withContents ((segments.map (SegmentInfo.mirror n)).flatMap SegmentInfo.fSections)
      = (withContents (segments.flatMap SegmentInfo.fSections)).map (SectionInfo.mirror n) := by
  have hflat : (segments.map (SegmentInfo.mirror n)).flatMap SegmentInfo.fSections
      = (segments.flatMap SegmentInfo.fSections).map (SectionInfo.mirror n) := by
    rw [flatMap_map, map_flatMap]
    rfl
  unfold withContents
  rw [hflat, filter_map]
  rfl

theorem unplacedSections_mirror {Kinds : Type} (n : BitVec 32)
    (segments : List (SegmentInfo Kinds)) :
    unplacedSections (segments.map (SegmentInfo.mirror n)) = unplacedSections segments := by
  unfold unplacedSections
  rw [map_map]
  apply map_congr_left
  intro segment _
  exact map_map

/-! ### Tables of pointers -/

namespace Example

def pointee : Atom := { pointer := 0, getName := none, getAddress := 0 }

def pointerRef : FixReference Architecture.x86.Kinds :=
  { ref :=
      { getKind := Reloc.X86.ReferenceKinds.kPointer, fFixUpOffsetInSrc := 0
        getTarget := pointee, fToTargetOffset := 0
        getFromTarget := pointee, fFromTargetOffset := 0 }
    stubTargetTarget := pointee }

def pointerEntry : Entry := .plain 0 1 false 2 false Reloc.X86.GENERIC_RELOC_VANILLA

def pointerTable (n : Nat) : SectionInfo Architecture.x86.Kinds :=
  { fAtoms := [{ atom := pointee, references := List.replicate n pointerRef }] }

def differenceTable : SectionInfo Architecture.x86.Kinds :=
  { fAtoms := [{ atom := pointee
                 references := [{ ref := { pointerRef.ref with
                                    getKind := Reloc.X86.ReferenceKinds.kPointerDiff }
                                  stubTargetTarget := pointee }] }] }

def twoTables : List (SegmentInfo Architecture.x86.Kinds) :=
  [{ fSections := [differenceTable, pointerTable 1] }]

theorem addReference_pointer (n : Nat) (st : FixupState) :
    addReference .x86 {} (pointerTable n) pointee st pointerRef
      = .ok { st with
          relocIndex := st.relocIndex + 1
          fSectionRelocs := st.fSectionRelocs ++ [pointerEntry] } := rfl

theorem addReferences_pointers (n m : Nat) (st : FixupState) :
    (List.replicate m pointerRef).foldlM (addReference .x86 {} (pointerTable n) pointee) st
      = .ok { st with
          relocIndex := st.relocIndex + BitVec.ofNat 32 m
          fSectionRelocs := st.fSectionRelocs ++ List.replicate m pointerEntry } := by
  induction m generalizing st with
  | zero =>
    rw [replicate_zero, replicate_zero, append_nil, BitVec.add_zero]
    rfl
  | succ m ih =>
    rw [replicate_succ, replicate_succ]
    refine foldlM_cons_ok.mpr ⟨_, addReference_pointer n st, ?_⟩
    rw [ih, Nat.add_comm m 1, BitVec.ofNat_add, ← BitVec.add_assoc, append_assoc]
    rfl

def placedTable (n : Nat) : SectionInfo Architecture.x86.Kinds :=
  { pointerTable n with
    fRelocOffset := BitVec.ofNat 32 n - 0 - (BitVec.ofNat 32 n - 0)
    fRelocCount := BitVec.ofNat 32 n - 0 }

theorem build_pointerTable (n : Nat) :
    buildObjectFileFixups .x86 {} [{ fSections := [pointerTable n] }]
      = .ok
        { fSegmentInfos := [{ fSections := [placedTable n] }]
          fSectionRelocs := (List.replicate n pointerEntry).reverse
          fTable := [] } := by
  have hatoms : addAtoms .x86 {} (pointerTable n) {}
      = .ok
        { relocIndex := BitVec.ofNat 32 n, fSectionRelocs := List.replicate n pointerEntry } := by
    have h : (List.replicate n pointerRef).foldlM
        (addReference .x86 {} (pointerTable n) pointee) {}
          = .ok
            { relocIndex := 0#32 + BitVec.ofNat 32 n
              fSectionRelocs := [] ++ List.replicate n pointerEntry } :=
      addReferences_pointers n n {}
    rw [BitVec.zero_add, nil_append] at h
    exact foldlM_cons_ok.mpr ⟨_, h, rfl⟩
  have hsection : addSection .x86 {} (pointerTable n) {}
      = (addAtoms .x86 {} (pointerTable n) {}).bind fun st =>
        .ok ({ pointerTable n with fRelocCount := st.relocIndex - 0 }, st) := rfl
  rw [hatoms] at hsection
  unfold buildObjectFileFixups addSegments addSections
  rw [hsection]
  rfl

theorem uncovered {n : Nat} (hn : 0 < n) (hwrap : BitVec.ofNat 32 n = 0) :
    ¬ Sliced .x86 {} [placedTable n] (List.replicate n pointerEntry).reverse := by
  intro h
  have hsome : 0 < (List.replicate n pointerEntry).reverse.length := by
    rw [length_reverse, length_replicate]
    exact hn
  obtain ⟨s, hs, hholds⟩ := h.cover 0 hsome
  obtain rfl := List.mem_singleton.mp hs
  have hend : 0 < (BitVec.ofNat 32 n - 0 - (BitVec.ofNat 32 n - 0)).toNat
      + (BitVec.ofNat 32 n - 0).toNat := hholds.2
  rw [hwrap] at hend
  cases hend

theorem wraps {n : Nat} (hn : 0 < n) (hwrap : BitVec.ofNat 32 n = 0) :
    ∃ segments r, buildObjectFileFixups .x86 {} segments = .ok r ∧
      ¬ Sliced .x86 {} (withContents (r.fSegmentInfos.flatMap SegmentInfo.fSections))
        r.fSectionRelocs :=
  ⟨_, _, build_pointerTable n, uncovered hn hwrap⟩

end Example

end Toolwhip.Ld64.Reloc.Fixups
