import Toolwhip.Lib.ThrowingFold
import Toolwhip.Ld64.FileOffsets

/-! # File offsets match addresses

A segment's sections keep the distance between address and file offset that its first
section has; that one is kept from the start of the segment only if the section needs
no padding there. -/

namespace Toolwhip.Ld64.FileOffsets
open Lib.AlignUp Lib.ThrowingFold List
set_option autoImplicit false

theorem toNat_shiftOne {a : Nat} (h : a < 31) : (shiftOne a).toNat = 2 ^ a := by
  apply Nat.mod_eq_of_lt
  exact Nat.pow_lt_pow_right (by decide) (by omega)

theorem toNat_pageUp {x : UInt64} (h : alignUp 4096 x.toNat < 2 ^ 64) :
    (alignUp64 x 4096).toNat = alignUp 4096 x.toNat :=
  toNat_alignUp64 (k := 12) (by decide) rfl h

namespace SectionInfo

def start (s : SectionInfo) : Nat := s.fBaseAddress.toNat
def stop (s : SectionInfo) : Nat := s.fBaseAddress.toNat + s.fSize.toNat
def fileStart (s : SectionInfo) : Nat := s.fFileOffset.toNat
def fileStop (s : SectionInfo) : Nat := s.fFileOffset.toNat + s.fSize.toNat

end SectionInfo

/-- The address after a section that follows `address`, over the natural numbers. -/
def endAfter (address : Nat) (s : SectionInfo) : Nat :=
  alignUp (2 ^ s.fAlignment) address + s.fSize.toNat

def layoutEnd (address : Nat) (sections : List SectionInfo) : Nat := sections.foldl endAfter address

theorem le_endAfter (address : Nat) (s : SectionInfo) : address ≤ endAfter address s :=
  Nat.le_trans (le_alignUp (Nat.two_pow_pos _) address) (Nat.le_add_right _ _)

theorem le_layoutEnd (address : Nat) (sections : List SectionInfo) :
    address ≤ layoutEnd address sections := by
  induction sections generalizing address with
  | nil => exact Nat.le_refl address
  | cons s rest ih => exact Nat.le_trans (le_endAfter address s) (ih (endAfter address s))

section Sections
variable {o : LayoutOptions}

variable {c : SectionCursor} {s : SectionInfo}
variable {sections : List SectionInfo}

theorem toNat_sectionAddress (h : endAfter c.address.toNat s < 2 ^ 64) :
    (sectionAddress c s).toNat = alignUp (2 ^ s.fAlignment) c.address.toNat := by
  apply toNat_alignUp64 (Nat.lt_trans s.shiftable (by decide)) (toNat_shiftOne s.shiftable)
  exact Nat.lt_of_le_of_lt (Nat.le_add_right _ _) h

variable {c' : SectionCursor}

theorem placeSection_ok {segmentFileOffset : UInt64}
    (hfinal : o.finalLinkedImage = true) (h : placeSection o segmentFileOffset c s = .ok c') :
    (s.fAllZeroFill = false → c.firstZeroFillSection = none) ∧
    c' =
      { address := sectionAddress c s + s.fSize
        fileOffset := sectionFileOffset o c s + s.fSize
        firstZeroFillSection := firstZeroFill o c s
        prevSection := some (placedSection o c s)
        fFileSize := sectionFileOffset o c s + s.fSize - segmentFileOffset
        fSize := sectionFileOffset o c s + s.fSize - segmentFileOffset
        placed := c.placed ++ [placedSection o c s] } := by
  have hafter : addressAfter o c s = sectionAddress c s + s.fSize := by
    unfold addressAfter
    rw [hfinal]
    rfl
  unfold placeSection at h
  split at h
  · cases h
  rename_i hnot
  split at h
  · cases h
  cases h
  rw [← hafter]
  refine ⟨?_, rfl⟩
  intro hcontent
  rw [hcontent, hfinal, Bool.and_true, Bool.not_false, Bool.true_and] at hnot
  unfold firstZeroFill at hnot
  rw [hcontent, Bool.false_and] at hnot
  cases hzero : c.firstZeroFillSection with
  | none => rfl
  | some z =>
    rw [hzero] at hnot
    exact absurd rfl hnot

/-- The section lies at the same distance from `B` in memory and from `F` in the file. -/
def At (B F : Nat) (s : SectionInfo) : Prop := B ≤ s.start ∧ s.fileStart + B = F + s.start

/-- What has been laid out of a segment that starts at the address `B` and the offset `F`. -/
structure Laid (B F : Nat) (c : SectionCursor) : Prop where
  address : B ≤ c.address.toNat
  offset : c.fileOffset.toNat + B = F + c.address.toNat
  prev : ∀ p, c.prevSection = some p → p ∈ c.placed
  within : ∀ s ∈ c.placed, At B F s ∧ s.stop ≤ c.address.toNat
  apart : c.placed.Pairwise fun s t => s.stop ≤ t.start
  zeroFill : ∀ z, c.firstZeroFillSection = some z →
    z ∈ c.placed ∧ ∀ s ∈ c.placed, s.fAllZeroFill = false → s.stop ≤ z.start
  sizes : c.placed ≠ [] → c.fSize.toNat + B = c.address.toNat ∧ c.fFileSize = c.fSize

variable {B : Nat}

theorem toNat_sectionFileOffset {F : Nat} (hfinal : o.finalLinkedImage = true) (hc : Laid B F c)
    (hfirst : c.prevSection = none → 2 ^ s.fAlignment ∣ c.address.toNat)
    (hfits : endAfter c.address.toNat s < 2 ^ 64)
    (hfile : F + endAfter c.address.toNat s < 2 ^ 64 + B) :
    (sectionFileOffset o c s).toNat + B = F + (sectionAddress c s).toNat := by
  have haddress := toNat_sectionAddress hfits
  have hle := le_alignUp (Nat.two_pow_pos s.fAlignment) c.address.toNat
  unfold sectionFileOffset
  cases hprev : c.prevSection with
  | none =>
    rw [haddress, alignUp_of_dvd (Nat.two_pow_pos _) (hfirst hprev)]
    exact hc.offset
  | some p =>
    obtain ⟨⟨hB, hat⟩, hstop⟩ := hc.within p (hc.prev p hprev)
    unfold SectionInfo.start SectionInfo.fileStart at *
    unfold SectionInfo.stop at hstop
    unfold endAfter at hfile
    have hsub : p.fBaseAddress ≤ sectionAddress c s := by
      rw [UInt64.le_iff_toNat_le, haddress]
      omega
    dsimp only
    rw [hfinal, Bool.true_or, if_pos rfl, UInt64.toNat_add, UInt64.toNat_sub_of_le _ _ hsub, haddress]
    omega

variable {F : UInt64}

theorem Laid.step (hfinal : o.finalLinkedImage = true) (hc : Laid B F.toNat c)
    (hfirst : c.prevSection = none → 2 ^ s.fAlignment ∣ c.address.toNat)
    (hfits : endAfter c.address.toNat s < 2 ^ 64)
    (hfile : F.toNat + endAfter c.address.toNat s < 2 ^ 64 + B)
    (h : placeSection o F c s = .ok c') :
    Laid B F.toNat c' ∧ c'.address.toNat = endAfter c.address.toNat s := by
  obtain ⟨hcontent, rfl⟩ := placeSection_ok hfinal h
  have haddress := toNat_sectionAddress hfits
  have hoffset := toNat_sectionFileOffset hfinal hc hfirst hfits hfile
  have hle := le_alignUp (Nat.two_pow_pos s.fAlignment) c.address.toNat
  have hB := hc.address
  have hend : (sectionAddress c s + s.fSize).toNat = endAfter c.address.toNat s := by
    rw [UInt64.toNat_add, haddress]
    exact Nat.mod_eq_of_lt hfits
  have hfileEnd : (sectionFileOffset o c s + s.fSize).toNat + B =
      F.toNat + endAfter c.address.toNat s := by
    unfold endAfter at hfile ⊢
    rw [UInt64.toNat_add]
    omega
  have hstart : c.address.toNat ≤ (placedSection o c s).start :=
    Nat.le_trans hle (Nat.le_of_eq haddress.symm)
  have hbefore : ∀ t ∈ c.placed, t.stop ≤ (placedSection o c s).start :=
    fun t ht => Nat.le_trans (hc.within t ht).2 hstart
  refine ⟨⟨?_, ?_, ?_, ?_, ?_, ?_, ?_⟩, hend⟩
  · rw [hend]
    exact Nat.le_trans hB (le_endAfter _ _)
  · rw [hend]
    exact hfileEnd
  · intro p hp
    cases hp
    exact mem_append_right _ (mem_singleton_self _)
  · intro t ht
    rw [hend]
    cases List.mem_append.mp ht with
    | inl ht =>
      obtain ⟨hat, hstop⟩ := hc.within t ht
      exact ⟨hat, Nat.le_trans hstop (le_endAfter _ _)⟩
    | inr ht =>
      rw [mem_singleton] at ht
      subst ht
      refine ⟨⟨?_, hoffset⟩, ?_⟩
      · exact Nat.le_trans hB hstart
      · exact Nat.le_of_eq (congrArg (· + s.fSize.toNat) haddress)
  · apply List.pairwise_append.mpr
    refine ⟨hc.apart, pairwise_singleton _ _, ?_⟩
    intro t ht u hu
    rw [mem_singleton] at hu
    subst hu
    exact hbefore t ht
  · intro z hz
    unfold firstZeroFill at hz
    split at hz
    · rename_i hzero
      cases hz
      refine ⟨mem_append_right _ (mem_singleton_self _), ?_⟩
      intro t ht htcontent
      cases List.mem_append.mp ht with
      | inl ht => exact hbefore t ht
      | inr ht =>
        rw [mem_singleton] at ht
        subst ht
        rw [Bool.and_eq_true] at hzero
        exact absurd (hzero.1.symm.trans htcontent) (by decide)
    · obtain ⟨hmem, hbeforeZ⟩ := hc.zeroFill z hz
      refine ⟨mem_append_left _ hmem, ?_⟩
      intro t ht htcontent
      cases List.mem_append.mp ht with
      | inl ht => exact hbeforeZ t ht htcontent
      | inr ht =>
        rw [mem_singleton] at ht
        subst ht
        rw [hcontent htcontent] at hz
        cases hz
  · intro _
    rw [hend]
    refine ⟨?_, rfl⟩
    have hafter := le_endAfter c.address.toNat s
    have hle : F.toNat ≤ (sectionFileOffset o c s + s.fSize).toNat := by omega
    rw [UInt64.toNat_sub_of_le _ _ (UInt64.le_iff_toNat_le.mpr hle)]
    omega

theorem placeSection_prev (hfinal : o.finalLinkedImage = true) (h : placeSection o F c s = .ok c') :
    c'.prevSection ≠ none := by
  obtain ⟨_, rfl⟩ := placeSection_ok hfinal h
  exact Option.some_ne_none _

theorem Laid.start (base F : UInt64) (segment : SegmentInfo) : Laid base.toNat F.toNat
      { address := base, fileOffset := F, fFileSize := segment.fFileSize, fSize := segment.fSize } := by
  constructor
  · exact Nat.le_refl base.toNat
  · rfl
  · intro p hp
    cases hp
  · intro t ht
    cases ht
  · exact List.Pairwise.nil
  · intro z hz
    cases hz
  · intro hne
    exact absurd rfl hne

theorem Laid.run (hfinal : o.finalLinkedImage = true) (hc : Laid B F.toNat c)
    (hfirst : ∀ s, sections.head? = some s → c.prevSection = none →
      2 ^ s.fAlignment ∣ c.address.toNat) (hfits : layoutEnd c.address.toNat sections < 2 ^ 64)
    (hfile : F.toNat + layoutEnd c.address.toNat sections < 2 ^ 64 + B)
    (h : sections.foldlM (placeSection o F) c = .ok c') :
    Laid B F.toNat c' ∧ c'.address.toNat = layoutEnd c.address.toNat sections := by
  induction sections generalizing c with
  | nil =>
    obtain rfl := foldlM_nil_ok.mp h
    exact ⟨hc, rfl⟩
  | cons s rest ih =>
    obtain ⟨d, hd, hrest⟩ := foldlM_cons_ok.mp h
    have hle := le_layoutEnd (endAfter c.address.toNat s) rest
    have hlayout : layoutEnd c.address.toNat (s :: rest) =
      layoutEnd (endAfter c.address.toNat s) rest := rfl
    rw [hlayout] at hfits hfile ⊢
    obtain ⟨hlaid, haddress⟩ :=
      hc.step hfinal (hfirst s rfl) (by omega) (by omega) hd
    rw [← haddress] at hfits hfile ⊢
    refine ih hlaid ?_ hfits hfile hrest
    intro t _ hnone
    exact absurd hnone (placeSection_prev hfinal hd)

theorem zeroFill_run
    {z : SectionInfo} (hfinal : o.finalLinkedImage = true) (hz : c.firstZeroFillSection = some z)
    (hall : ∀ s ∈ c.placed, s.fAllZeroFill = true)
    (h : sections.foldlM (placeSection o F) c = .ok c') :
    c'.firstZeroFillSection = some z ∧ ∀ s ∈ c'.placed, s.fAllZeroFill = true := by
  apply foldlM_invariant (P := fun c : SectionCursor => c.firstZeroFillSection = some z ∧
    ∀ s ∈ c.placed, s.fAllZeroFill = true) _ ⟨hz, hall⟩ h
  intro u s v _ ⟨hu, huall⟩ hstep
  obtain ⟨hcontent, rfl⟩ := placeSection_ok hfinal hstep
  have hs : s.fAllZeroFill = true := by
    cases hs : s.fAllZeroFill with
    | true => rfl
    | false => exact absurd ((hcontent hs).symm.trans hu) (by simp)
  constructor
  · unfold firstZeroFill
    rw [hu, Option.isNone_some, Bool.and_false]
    rfl
  · intro t ht
    cases List.mem_append.mp ht with
    | inl ht => exact huall t ht
    | inr ht =>
      rw [mem_singleton] at ht
      exact ht ▸ hs

theorem placed_head
    {rest : List SectionInfo} (hfinal : o.finalLinkedImage = true) (hc : c.placed = [])
    (h : (s :: rest).foldlM (placeSection o F) c = .ok c') :
    c'.placed.head? = some (placedSection o c s) := by
  obtain ⟨d, hd, hrest⟩ := foldlM_cons_ok.mp h
  obtain ⟨_, rfl⟩ := placeSection_ok hfinal hd
  rw [hc, nil_append] at hrest
  apply foldlM_invariant (P := fun c : SectionCursor => c.placed.head? = some (placedSection o _ s))
    _ rfl hrest
  intro u t v _ hu hstep
  obtain ⟨_, rfl⟩ := placeSection_ok hfinal hstep
  rw [head?_append, hu]
  rfl

end Sections

/-! ## Segments -/

/-- Mapping the segment puts the bytes of its sections at their addresses. -/
def MapsFaithfully (segment : SegmentInfo) : Prop :=
  ∀ s ∈ segment.fSections, s.fAllZeroFill = false →
    s.fFileOffset - segment.fFileOffset = s.fBaseAddress - segment.fBaseAddress ∧
    (segment.fBaseAddress.toNat ≤ s.start ∧
      s.stop ≤ segment.fBaseAddress.toNat + segment.fSize.toNat) ∧
    segment.fFileOffset.toNat ≤ s.fileStart ∧
      s.fileStop ≤ segment.fFileOffset.toNat + segment.fFileSize.toNat

def content (sections : List SectionInfo) : List SectionInfo :=
  sections.filter fun s => !s.fAllZeroFill

theorem mem_content {sections : List SectionInfo} {s : SectionInfo} :
    s ∈ content sections ↔ s ∈ sections ∧ s.fAllZeroFill = false := by
  unfold content
  rw [mem_filter, Bool.not_eq_true']

structure Faithful (segments : List SegmentInfo) : Prop where
  maps : ∀ segment ∈ segments, MapsFaithfully segment
  apart : (content (segments.flatMap (·.fSections))).Pairwise
    fun s t => s.fileStop ≤ t.fileStart ∨ t.fileStop ≤ s.fileStart

section Segments
variable (o : LayoutOptions)

/-- The address at which the segment starts is a multiple of the alignment of its first
section, or that is zero-fill. -/
def StartsAligned (c : SegmentCursor) (segment : SegmentInfo) : Prop :=
  ∀ s, segment.fSections.head? = some s → s.fAllZeroFill = false →
    2 ^ s.fAlignment ∣ (segmentBase o c segment).toNat

def layoutSize (c : SegmentCursor) (segment : SegmentInfo) : Nat :=
  layoutEnd (segmentBase o c segment).toNat segment.fSections - (segmentBase o c segment).toNat

/-- No sum that is formed for the segment wraps: its end, its end in the file, and its size in
whole pages. -/
structure NoWrap (c : SegmentCursor) (segment : SegmentInfo) : Prop where
  address : layoutEnd (segmentBase o c segment).toNat segment.fSections < 2 ^ 64
  offset : alignUp 4096 c.fileOffset.toNat + layoutSize o c segment < 2 ^ 64
  pages : alignUp 4096 (layoutSize o c segment) < 2 ^ 64

def EachStep (P : SegmentCursor → SegmentInfo → Prop) : SegmentCursor → List SegmentInfo → Prop
  | _, [] => True
  | c, segment :: rest =>
    P c segment ∧ ∀ r, placeSegment o c segment = .ok r → EachStep P r.2 rest

variable {o}

/-- What one step of the loop over the segments does for a faithful layout. -/
structure StepFaithful (c : SegmentCursor) (placed : SegmentInfo) (c' : SegmentCursor) : Prop where
  maps : MapsFaithfully placed
  later : c.fileOffset.toNat ≤ c'.fileOffset.toNat
  inFile : ∀ s ∈ content placed.fSections,
    c.fileOffset.toNat ≤ s.fileStart ∧ s.fileStop ≤ c'.fileOffset.toNat
  apart : (content placed.fSections).Pairwise fun s t => s.fileStop ≤ t.fileStart

theorem advance_fileOffset (c : SegmentCursor) (segment : SegmentInfo)
    (base size fileOffset : UInt64) :
    (advance o c segment base size fileOffset).fileOffset = fileOffset := by
  unfold advance
  split
  · split
    · rfl
    · rfl
  · rfl

variable {c : SegmentCursor} {r : SegmentInfo × SegmentCursor}

theorem placeSegment_ok {segment : SegmentInfo} (hfinal : o.finalLinkedImage = true)
    (h : placeSegment o c segment = .ok r) :
    ∃ s, placeSections o c segment = .ok s ∧ r.1 = placedSegment o c segment s ∧
      r.2.fileOffset = trimmedFileOffset s := by
  obtain ⟨s, hs, h⟩ := bind_eq_ok.mp h
  cases h
  refine ⟨s, hs, rfl, ?_⟩
  rw [advance_fileOffset, hfinal]
  rfl

theorem stepFaithful_zeroFill {segment : SegmentInfo} {s : SectionInfo} {rest : List SectionInfo}
    (hfinal : o.finalLinkedImage = true) (hsections : segment.fSections = s :: rest)
    (hs : s.fAllZeroFill = true) (hfits : NoWrap o c segment)
    (h : placeSegment o c segment = .ok r) : StepFaithful c r.1 r.2 := by
  obtain ⟨d, hd, hplaced, hoffset⟩ := placeSegment_ok hfinal h
  unfold placeSections at hd
  rw [hsections] at hd
  obtain ⟨e, he, hrest⟩ := foldlM_cons_ok.mp hd
  obtain ⟨_, rfl⟩ := placeSection_ok hfinal he
  obtain ⟨hz, hall⟩ := zeroFill_run hfinal
    (by
      unfold firstZeroFill
      rw [hs]
      rfl)
    (by
      intro t ht
      rw [nil_append, mem_singleton] at ht
      exact ht ▸ hs)
    hrest
  have hnone : ∀ t ∈ r.1.fSections, t.fAllZeroFill = true := by
    rw [hplaced]
    exact hall
  have hempty : content r.1.fSections = [] := by
    apply List.filter_eq_nil_iff.mpr
    intro t ht
    rw [hnone t ht]
    decide
  have hpage : (segmentFileOffset c).toNat = alignUp 4096 c.fileOffset.toNat := by
    apply toNat_pageUp
    exact Nat.lt_of_le_of_lt (Nat.le_add_right _ _) hfits.offset
  constructor
  · intro t ht hcontent
    rw [hnone t ht] at hcontent
    cases hcontent
  · rw [hoffset]
    unfold trimmedFileOffset
    rw [hz]
    change c.fileOffset.toNat ≤ (segmentFileOffset c).toNat
    rw [hpage]
    exact le_alignUp (by decide) _
  · rw [hempty]
    intro t ht
    cases ht
  · rw [hempty]
    exact List.Pairwise.nil

/-- What is left of the file offset when the trailing zero-fill sections are taken off. -/
structure Trimmed (B : Nat) (F : UInt64) (s : SectionCursor) : Prop where
  size : s.placed ≠ [] →
    (trimmedFileSize F s).toNat + F.toNat = (trimmedFileOffset s).toNat
  before : (trimmedFileOffset s).toNat + B ≤ F.toNat + s.address.toNat
  after : F.toNat ≤ (trimmedFileOffset s).toNat
  content : ∀ t ∈ content s.placed, t.fileStop ≤ (trimmedFileOffset s).toNat

theorem Laid.trimmed {B : Nat} {F : UInt64} {s : SectionCursor} (hs : Laid B F.toNat s) :
    Trimmed B F s := by
  have hB := hs.address
  have hoffset := hs.offset
  cases hzero : s.firstZeroFillSection with
  | none =>
    have hfileOffset : trimmedFileOffset s = s.fileOffset := by
      unfold trimmedFileOffset
      rw [hzero]
    have hfileSize : trimmedFileSize F s = s.fFileSize := by
      unfold trimmedFileSize
      rw [hzero]
    constructor
    · intro hne
      obtain ⟨hsize, heq⟩ := hs.sizes hne
      rw [hfileSize, hfileOffset, heq]
      omega
    · rw [hfileOffset]
      omega
    · rw [hfileOffset]
      omega
    · intro t ht
      obtain ⟨⟨_, hat⟩, hstop⟩ := hs.within t (mem_content.mp ht).1
      rw [hfileOffset]
      unfold SectionInfo.fileStop
      unfold SectionInfo.stop at hstop
      unfold SectionInfo.fileStart SectionInfo.start at hat
      omega
  | some z =>
    obtain ⟨hz, hbefore⟩ := hs.zeroFill z hzero
    obtain ⟨⟨hzB, hzat⟩, hzstop⟩ := hs.within z hz
    have hfileOffset : trimmedFileOffset s = z.fFileOffset := by
      unfold trimmedFileOffset
      rw [hzero]
    have hfileSize : trimmedFileSize F s = z.fFileOffset - F := by
      unfold trimmedFileSize
      rw [hzero]
    unfold SectionInfo.stop at hzstop
    unfold SectionInfo.fileStart SectionInfo.start at hzat
    unfold SectionInfo.start at hzB
    constructor
    · intro _
      have hle : F ≤ z.fFileOffset := by
        rw [UInt64.le_iff_toNat_le]
        omega
      rw [hfileSize, hfileOffset, UInt64.toNat_sub_of_le _ _ hle]
      exact Nat.sub_add_cancel (UInt64.le_iff_toNat_le.mp hle)
    · rw [hfileOffset]
      omega
    · rw [hfileOffset]
      omega
    · intro t ht
      obtain ⟨htmem, htcontent⟩ := mem_content.mp ht
      obtain ⟨⟨_, hat⟩, _⟩ := hs.within t htmem
      have hstop := hbefore t htmem htcontent
      rw [hfileOffset]
      unfold SectionInfo.fileStop
      unfold SectionInfo.stop SectionInfo.start at hstop
      unfold SectionInfo.fileStart SectionInfo.start at hat
      omega

theorem placedSegment_fSize {segment : SegmentInfo} {s : SectionCursor}
    (hfinal : o.finalLinkedImage = true) (h : alignUp 4096 s.fSize.toNat < 2 ^ 64) :
    (placedSegment o c segment s).fSize.toNat = alignUp 4096 s.fSize.toNat := by
  unfold placedSegment
  rw [hfinal, if_pos rfl]
  exact toNat_pageUp h

theorem placedSegment_fFileSize {segment : SegmentInfo} {s : SectionCursor}
    (hfinal : o.finalLinkedImage = true)
    (h : alignUp 4096 (trimmedFileSize (segmentFileOffset c) s).toNat < 2 ^ 64) :
    (placedSegment o c segment s).fFileSize.toNat =
      alignUp 4096 (trimmedFileSize (segmentFileOffset c) s).toNat := by
  unfold placedSegment
  rw [hfinal, if_pos rfl, if_pos rfl]
  exact toNat_pageUp h

theorem stepFaithful_content {segment : SegmentInfo} (hfinal : o.finalLinkedImage = true)
    (hfirst : ∀ s, segment.fSections.head? = some s →
      2 ^ s.fAlignment ∣ (segmentBase o c segment).toNat)
    (hfits : NoWrap o c segment) (h : placeSegment o c segment = .ok r) : StepFaithful c r.1 r.2 := by
  obtain ⟨s, hplace, hplaced, hoffset⟩ := placeSegment_ok hfinal h
  obtain ⟨hend, hfileEnd, hpages⟩ := hfits
  have hle := le_layoutEnd (segmentBase o c segment).toNat segment.fSections
  have hlayout : layoutSize o c segment + (segmentBase o c segment).toNat =
    layoutEnd (segmentBase o c segment).toNat segment.fSections := Nat.sub_add_cancel hle
  have hpage : (segmentFileOffset c).toNat = alignUp 4096 c.fileOffset.toNat := by
    apply toNat_pageUp
    omega
  have hstart := Laid.start (segmentBase o c segment) (segmentFileOffset c) segment
  obtain ⟨hlaid, haddress⟩ := hstart.run hfinal (fun t ht _ => hfirst t ht) hend (by
    dsimp only
    omega) hplace
  dsimp only at haddress
  have htrim := hlaid.trimmed
  have hafter := htrim.after
  have hsections : r.1.fSections = s.placed := by
    rw [hplaced]
    rfl
  constructor
  · intro t ht htcontent
    rw [hsections] at ht
    have hne : s.placed ≠ [] := ne_nil_of_mem ht
    obtain ⟨⟨hB, hat⟩, hstop⟩ := hlaid.within t ht
    obtain ⟨hsize, _⟩ := hlaid.sizes hne
    have hfileStop := htrim.content t (mem_content.mpr ⟨ht, htcontent⟩)
    have hfileSize := htrim.size hne
    have hbefore := htrim.before
    have hF : r.1.fFileOffset = segmentFileOffset c := by
      rw [hplaced]
      rfl
    have hbase : r.1.fBaseAddress = segmentBase o c segment := by
      rw [hplaced]
      rfl
    have hwhole : s.fSize.toNat = layoutSize o c segment := by omega
    have hSize : r.1.fSize.toNat = alignUp 4096 s.fSize.toNat := by
      rw [hplaced]
      exact placedSegment_fSize hfinal (by rwa [hwhole])
    have hFileSize : r.1.fFileSize.toNat =
        alignUp 4096 (trimmedFileSize (segmentFileOffset c) s).toNat := by
      rw [hplaced]
      apply placedSegment_fFileSize hfinal
      exact Nat.lt_of_le_of_lt (alignUp_mono 4096 (by omega)) hpages
    have hup := le_alignUp (a := 4096) (by decide) s.fSize.toNat
    have hup' := le_alignUp (a := 4096) (by decide)
      (trimmedFileSize (segmentFileOffset c) s).toNat
    rw [hF, hbase, hSize, hFileSize]
    unfold SectionInfo.start SectionInfo.fileStart at *
    refine ⟨?_, ⟨hB, by omega⟩, by omega, by omega⟩
    apply UInt64.toNat_inj.mp
    have hsub : segmentFileOffset c ≤ t.fFileOffset := by
      rw [UInt64.le_iff_toNat_le]
      omega
    rw [UInt64.toNat_sub_of_le _ _ hsub,
      UInt64.toNat_sub_of_le _ _ (UInt64.le_iff_toNat_le.mpr hB)]
    omega
  · have := le_alignUp (a := 4096) (by decide) c.fileOffset.toNat
    rw [hoffset]
    omega
  · intro t ht
    rw [hsections] at ht
    rw [hoffset]
    refine ⟨?_, htrim.content t ht⟩
    obtain ⟨⟨hB, hat⟩, _⟩ := hlaid.within t (mem_content.mp ht).1
    have := le_alignUp (a := 4096) (by decide) c.fileOffset.toNat
    omega
  · rw [hsections]
    apply List.Pairwise.imp_of_mem _ (hlaid.apart.filter _)
    intro t u ht hu hstop
    obtain ⟨⟨_, hat⟩, _⟩ := hlaid.within t (mem_of_mem_filter ht)
    obtain ⟨⟨_, hau⟩, _⟩ := hlaid.within u (mem_of_mem_filter hu)
    unfold SectionInfo.fileStop
    unfold SectionInfo.stop SectionInfo.start at hstop
    unfold SectionInfo.fileStart SectionInfo.start at *
    omega

theorem placeSegment_faithful {segment : SegmentInfo} (hfinal : o.finalLinkedImage = true)
    (haligned : StartsAligned o c segment) (hfits : NoWrap o c segment)
    (h : placeSegment o c segment = .ok r) : StepFaithful c r.1 r.2 := by
  cases hsections : segment.fSections with
  | nil =>
    apply stepFaithful_content hfinal _ hfits h
    intro s hs
    rw [hsections] at hs
    cases hs
  | cons s rest =>
    cases hzero : s.fAllZeroFill with
    | true => exact stepFaithful_zeroFill hfinal hsections hzero hfits h
    | false =>
      apply stepFaithful_content hfinal _ hfits h
      intro t ht
      refine haligned t ht ?_
      rw [hsections] at ht
      cases ht
      exact hzero

/-- The sections of the segments laid out after `c` lie in the file in their order. -/
theorem placeSegments_faithful {segments : List SegmentInfo}
    {r : List SegmentInfo × SegmentCursor} (hfinal : o.finalLinkedImage = true)
    (hsteps : EachStep o (fun c s => StartsAligned o c s ∧ NoWrap o c s) c segments)
    (h : placeSegments o c segments = .ok r) : (∀ segment ∈ r.1, MapsFaithfully segment) ∧
    (∀ s ∈ content (r.1.flatMap (·.fSections)), c.fileOffset.toNat ≤ s.fileStart) ∧
    (content (r.1.flatMap (·.fSections))).Pairwise fun s t => s.fileStop ≤ t.fileStart := by
  induction segments generalizing c r with
  | nil =>
    cases h
    refine ⟨?_, ?_, List.Pairwise.nil⟩
    · intro segment hsegment
      cases hsegment
    · intro s hs
      cases hs
  | cons segment rest ih =>
    obtain ⟨⟨haligned, hfits⟩, hrest⟩ := hsteps
    obtain ⟨p, hp, h⟩ := bind_eq_ok.mp h
    obtain ⟨q, hq, h⟩ := bind_eq_ok.mp h
    cases h
    have hstep := placeSegment_faithful hfinal haligned hfits hp
    obtain ⟨hmaps, hlater, hapart⟩ := ih (hrest p hp) hq
    have hsplit : content ((p.1 :: q.1).flatMap (·.fSections)) =
        content p.1.fSections ++ content (q.1.flatMap (·.fSections)) := by
      exact filter_append _ _
    rw [hsplit]
    refine ⟨?_, ?_, ?_⟩
    · intro s hs
      cases hs with
      | head => exact hstep.maps
      | tail _ hs => exact hmaps s hs
    · intro s hs
      cases List.mem_append.mp hs with
      | inl hs => exact (hstep.inFile s hs).1
      | inr hs => exact Nat.le_trans hstep.later (hlater s hs)
    · apply List.pairwise_append.mpr
      refine ⟨hstep.apart, hapart, ?_⟩
      intro s hs t ht
      exact Nat.le_trans (hstep.inFile s hs).2 (hlater t ht)

theorem startsAligned_of_maps {segment : SegmentInfo} (hfinal : o.finalLinkedImage = true)
    (h : placeSegment o c segment = .ok r) (hmaps : MapsFaithfully r.1) :
    StartsAligned o c segment := by
  obtain ⟨s, hplace, hplaced, _⟩ := placeSegment_ok hfinal h
  intro t ht hcontent
  obtain ⟨rest, hsections⟩ := List.head?_eq_some_iff.mp ht
  unfold placeSections at hplace
  rw [hsections] at hplace
  have hmem := mem_of_mem_head? (placed_head hfinal rfl hplace)
  rw [hplaced] at hmaps
  obtain ⟨heq, _⟩ := hmaps _ hmem hcontent
  have hzero : (0 : UInt64) =
      alignUp64 (segmentBase o c segment) (shiftOne t.fAlignment) - segmentBase o c segment := by
    rw [← UInt64.sub_self (segmentFileOffset c)]
    exact heq
  have hbase : alignUp64 (segmentBase o c segment) (shiftOne t.fAlignment) =
      segmentBase o c segment := by
    have := congrArg (· + segmentBase o c segment) hzero
    rw [UInt64.zero_add, UInt64.sub_add_cancel] at this
    exact this.symm
  rw [← hbase]
  exact dvd_alignUp64 _ (Nat.lt_trans t.shiftable (by decide)) (toNat_shiftOne t.shiftable)

theorem aligned_of_maps {segments : List SegmentInfo}
    {r : List SegmentInfo × SegmentCursor} (hfinal : o.finalLinkedImage = true)
    (h : placeSegments o c segments = .ok r) (hmaps : ∀ segment ∈ r.1, MapsFaithfully segment) :
    EachStep o (StartsAligned o) c segments := by
  induction segments generalizing c r with
  | nil => trivial
  | cons segment rest ih =>
    obtain ⟨p, hp, h⟩ := bind_eq_ok.mp h
    obtain ⟨q, hq, h⟩ := bind_eq_ok.mp h
    cases h
    refine ⟨startsAligned_of_maps hfinal hp (hmaps _ mem_cons_self), ?_⟩
    intro p' hp'
    cases hp.symm.trans hp'
    exact ih hq (fun s hs => hmaps s (mem_cons_of_mem _ hs))

end Segments

theorem assignFileOffsets_segments {o : LayoutOptions} {segments : List SegmentInfo} {r : Assigned}
    (h : assignFileOffsets o segments = .ok r) :
    ∃ c, placeSegments o (startCursor o) (fixedSegments o segments) = .ok (r.fSegmentInfos, c) ∧
      r.haveFixedSegments = c.haveFixedSegments ∧
      (c.haveFixedSegments = true → checkOverlaps r.fSegmentInfos = .ok ()) := by
  obtain ⟨p, hp, h⟩ := bind_eq_ok.mp h
  obtain ⟨_, hcheck, h⟩ := bind_eq_ok.mp h
  cases h
  refine ⟨p.2, hp, rfl, ?_⟩
  intro hfixed
  unfold checkFixedSegments at hcheck
  rw [if_pos hfixed] at hcheck
  exact hcheck

/-- A faithful layout has every segment start at a multiple of its first section's
alignment, and that is enough where no address or file offset wraps. -/
theorem assignFileOffsets_faithful_of_aligned (o : LayoutOptions) (segments : List SegmentInfo)
    (r : Assigned) (hfinal : o.outputKind ≠ .kObjectFile)
    (h : assignFileOffsets o segments = .ok r) :
    (Faithful r.fSegmentInfos →
      EachStep o (StartsAligned o) (startCursor o) (fixedSegments o segments)) ∧
    (EachStep o (fun c s => StartsAligned o c s ∧ NoWrap o c s) (startCursor o)
        (fixedSegments o segments) →
      Faithful r.fSegmentInfos) := by
  have hfinal : o.finalLinkedImage = true := bne_iff_ne.mpr hfinal
  obtain ⟨c, hplace, _, _⟩ := assignFileOffsets_segments h
  constructor
  · intro hfaithful
    exact aligned_of_maps hfinal hplace hfaithful.maps
  · intro hsteps
    obtain ⟨hmaps, _, hapart⟩ := placeSegments_faithful hfinal hsteps hplace
    exact ⟨hmaps, hapart.imp Or.inl⟩

/-- `__TEXT` with one section, then `__DATA` with one of the given alignment. -/
def twoSegments (alignment : Nat) (h : alignment < 31) : List SegmentInfo :=
  [{ fName := "__TEXT"
     fSections := [{ fSegmentName := "__TEXT", fSectionName := "__text", fAlignment := 4,
                     fSize := 20 }] },
   { fName := "__DATA"
     fInitProtection := 3
     fSections := [{ fSegmentName := "__DATA", fSectionName := "__data", fAlignment := alignment,
                     fSize := 8, shiftable := h }] }]

def dylibLayout : LayoutOptions where
  outputKind := .kDynamicLibrary
  maxAddress := 0xFFFFFFFF

theorem assignFileOffsets_faithful_twoSegments :
    ∃ r, assignFileOffsets dylibLayout (twoSegments 12 (by decide)) = .ok r ∧
      Faithful r.fSegmentInfos := by
  refine ⟨_, rfl, ?_⟩
  refine (assignFileOffsets_faithful_of_aligned dylibLayout (twoSegments 12 (by decide)) _ (by decide)
    rfl).2 ⟨⟨?_, by decide, by decide, by decide⟩, ?_⟩
  · intro s hs _
    cases hs
    decide
  · intro p hp
    cases hp
    refine ⟨⟨?_, by decide, by decide, by decide⟩, fun _ _ => trivial⟩
    intro s hs _
    cases hs
    decide

/-- With `__data` aligned to `0x2000` the segment starts at `0x1000` and the section at
`0x2000`, but both at the file offset `0x1000`. -/
theorem first_section_alignment_shifts :
    ∃ r, assignFileOffsets dylibLayout (twoSegments 13 (by decide)) = .ok r ∧
      ¬ Faithful r.fSegmentInfos := by
  refine ⟨_, rfl, ?_⟩
  intro h
  have hmaps := h.maps _ (mem_cons_of_mem _ mem_cons_self) _ mem_cons_self rfl
  exact absurd hmaps.1 (by decide)

end Toolwhip.Ld64.FileOffsets
