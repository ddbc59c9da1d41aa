import Toolwhip.Ld64.FileOffsetsMap

/-! # Segments that do not overlap

The overlap check runs only if some segment is fixed, and it sees the size that the
link edit segment has before its content is known. -/

namespace Toolwhip.Ld64.FileOffsets
open Lib.AlignUp Lib.ThrowingFold List
set_option autoImplicit false
variable {segments : List SegmentInfo} {o : LayoutOptions}

namespace SegmentInfo

def start (s : SegmentInfo) : Nat := s.fBaseAddress.toNat
def stop (s : SegmentInfo) : Nat := s.fBaseAddress.toNat + s.fSize.toNat

def Apart (s t : SegmentInfo) : Prop :=
  s.fSize = 0 ∨ t.fSize = 0 ∨ s.stop ≤ t.start ∨ t.stop ≤ s.start

variable {s t : SegmentInfo}

instance (s t : SegmentInfo) : Decidable (Apart s t) :=
  inferInstanceAs (Decidable (s.fSize = 0 ∨ t.fSize = 0 ∨ s.stop ≤ t.start ∨ t.stop ≤ s.start))

theorem start_lt_stop (h : s.fSize ≠ 0) : s.start < s.stop := by
  apply Nat.lt_add_of_pos_right
  apply Nat.pos_of_ne_zero
  intro hzero
  exact h (UInt64.toNat_inj.mp hzero)

theorem stop_of_empty (h : s.fSize = 0) : s.stop = s.start := by
  unfold stop start
  rw [h]
  rfl

theorem Apart.beside (h : Apart s t) (hs : s.fSize ≠ 0) :
    t.stop = t.start ∨ s.stop ≤ t.start ∨ t.stop ≤ s.start := by
  rcases h with h | h | h
  · exact absurd h hs
  · exact Or.inl (stop_of_empty h)
  · exact Or.inr h

/-- The end of the segment can be rounded up to a page. -/
def InAddressSpace (s : SegmentInfo) : Prop := alignUp 4096 s.stop < 2 ^ 64

instance (s : SegmentInfo) : Decidable s.InAddressSpace :=
  inferInstanceAs (Decidable (alignUp 4096 s.stop < 2 ^ 64))

theorem toNat_stop (h : s.InAddressSpace) : (s.fBaseAddress + s.fSize).toNat = s.stop := by
  rw [UInt64.toNat_add]
  exact Nat.mod_eq_of_lt (Nat.lt_of_le_of_lt (le_alignUp (by decide) s.stop) h)

end SegmentInfo

open SegmentInfo

/-! ## The overlap check -/

def Separate (s t : SegmentInfo) : Prop := Apart s t ∧ (s.start < t.start → s.stop ≤ t.start)

theorem checkOverlap_ok {s t : SegmentInfo} (h : checkOverlap s t = .ok ())
    (hs : s.InAddressSpace) (ht : t.InAddressSpace) : Separate s t := by
  unfold checkOverlap at h
  simp only [UInt64.lt_iff_toNat_lt, toNat_stop hs, toNat_stop ht] at h
  split at h
  · split at h
    · cases h
    rename_i hstop
    have hstop := Nat.le_of_not_lt hstop
    exact ⟨Or.inr (Or.inr (Or.inl hstop)), fun _ => hstop⟩
  rename_i hnot
  refine ⟨?_, fun hlt => absurd hlt hnot⟩
  split at h
  · split at h
    · cases h
    rename_i hstop
    exact Or.inr (Or.inr (Or.inr (Nat.le_of_not_lt hstop)))
  split at h
  · cases h
  rename_i hsizes
  simp only [bne_iff_ne, Bool.and_eq_true, not_and_or, not_not] at hsizes
  exact hsizes.elim Or.inl fun h => Or.inr (Or.inl h)

theorem checkOverlaps_ok (h : checkOverlaps segments = .ok ()) :
    segments.Pairwise fun s t => checkOverlap s t = .ok () := by
  rw [pairwise_iff_getElem]
  intro i j hi hj hij
  have hmem : ∀ k (hk : k < segments.length), (segments[k], k) ∈ segments.zipIdx := by
    intro k hk
    rw [mk_mem_zipIdx_iff_getElem?]
    exact getElem?_eq_getElem hk
  have houter := forM_ok h _ (hmem i hi)
  have hinner := forM_ok houter _ (hmem j hj)
  rwa [if_neg (Nat.ne_of_lt hij)] at hinner

section Runs
variable {o : LayoutOptions}
variable {segments : List SegmentInfo} {r : List SegmentInfo × SegmentCursor}

def SameRun (o : LayoutOptions) (s t : SegmentInfo) : Prop :=
  o.splitSeg = true → s.writable = t.writable

def Free (s : SegmentInfo) : Prop := s.fFixedAddress = false ∧ s.fIndependentAddress = false

variable {c : SegmentCursor} {s t : SegmentInfo}

theorem nextAddress_sameRun (h : SameRun o s t) : nextAddress o c s = nextAddress o c t := by
  unfold nextAddress
  split
  · rename_i hsplit
    rw [h hsplit]
  · rfl

theorem nextAddress_advance (hfinal : o.finalLinkedImage = true) (hs : Free s)
    (size fileOffset : UInt64) (h : SameRun o s t) :
    nextAddress o (advance o c s (segmentBase o c s) size fileOffset) t =
      alignUp64 (segmentBase o c s + size) 4096 := by
  have hbase : segmentBase o c s = nextAddress o c s := by
    unfold segmentBase
    rw [hs.1]
    rfl
  unfold advance
  rw [hfinal, hs.2, hbase, if_pos (by simp), ← nextAddress_sameRun h]
  unfold nextAddress
  cases o.splitSeg with
  | false =>
    simp only [Bool.false_eq_true, if_false]
    split
    · rfl
    · rfl
  | true =>
    cases s.writable with
    | false => simp only [Bool.false_eq_true, if_false, if_true]
    | true => simp only [if_true]

theorem nextAddress_advance_other (base size fileOffset : UInt64) (h : ¬ SameRun o s t) :
    nextAddress o (advance o c s base size fileOffset) t = nextAddress o c t := by
  obtain ⟨hsplit, hne⟩ := Classical.not_imp.mp h
  unfold advance nextAddress
  rw [hsplit]
  cases hs : s.writable with
  | false =>
    cases ht : t.writable with
    | false => exact absurd (hs.trans ht.symm) hne
    | true =>
      simp only [Bool.false_eq_true, if_false, if_true]
      split
      · rfl
      · rfl
  | true =>
    cases ht : t.writable with
    | false =>
      simp only [Bool.false_eq_true, if_false, if_true]
      split
      · rfl
      · rfl
    | true => exact absurd (hs.trans ht.symm) hne

theorem advance_haveFixedSegments (base size fileOffset : UInt64) :
    (advance o c s base size fileOffset).haveFixedSegments =
      (c.haveFixedSegments || s.fFixedAddress) := by
  unfold advance
  split
  · split
    · rfl
    · rfl
  · rfl

theorem placeSegment_cursor {r : SegmentInfo × SegmentCursor} (h : placeSegment o c s = .ok r) :
    ∃ fileOffset, r.1.fBaseAddress = segmentBase o c s ∧ r.1.writable = s.writable ∧
      r.2 = advance o c s (segmentBase o c s) r.1.fSize fileOffset := by
  obtain ⟨p, _, h⟩ := bind_eq_ok.mp h
  cases h
  exact ⟨_, rfl, rfl, rfl⟩

theorem sameRun_congr {s' : SegmentInfo} (h : s'.writable = s.writable) :
    SameRun o s' t ↔ SameRun o s t := by
  unfold SameRun
  rw [h]

/-- Segments that are not fixed do not start below their cursor, and those of one run
follow each other. -/
theorem placeSegments_runs (hfinal : o.finalLinkedImage = true) (hfree : ∀ s ∈ segments, Free s)
    (h : placeSegments o c segments = .ok r) (hfits : ∀ s ∈ r.1, s.InAddressSpace) :
    (∀ s ∈ r.1, (nextAddress o c s).toNat ≤ s.start) ∧
      r.1.Pairwise fun s t => SameRun o s t → s.stop ≤ t.start := by
  induction segments generalizing c r with
  | nil =>
    cases h
    refine ⟨?_, List.Pairwise.nil⟩
    intro s hs
    cases hs
  | cons segment rest ih =>
    obtain ⟨p, hp, h⟩ := bind_eq_ok.mp h
    obtain ⟨q, hq, h⟩ := bind_eq_ok.mp h
    cases h
    have hseg := hfree segment mem_cons_self
    have hpfits := hfits p.1 mem_cons_self
    obtain ⟨fileOffset, hbase, hwritable, hcursor⟩ := placeSegment_cursor hp
    obtain ⟨hlow, hpairs⟩ := ih (fun s hs => hfree s (mem_cons_of_mem _ hs)) hq
      fun s hs => hfits s (mem_cons_of_mem _ hs)
    have hnext : nextAddress o c segment = segmentBase o c segment := by
      unfold segmentBase
      rw [hseg.1]
      rfl
    -- the run of the first segment resumes after it, the other one where it was
    have hafter : ∀ t, SameRun o p.1 t → p.1.stop ≤ (nextAddress o p.2 t).toNat := by
      intro t ht
      rw [hcursor, nextAddress_advance hfinal hseg _ _ ((sameRun_congr hwritable).mp ht), ← hbase]
      have hstop := toNat_stop hpfits
      rw [toNat_pageUp (by rwa [hstop]), hstop]
      exact le_alignUp (by decide) p.1.stop
    have hmono : ∀ t, (nextAddress o c t).toNat ≤ (nextAddress o p.2 t).toNat := by
      intro t
      by_cases hrun : SameRun o p.1 t
      · rw [← nextAddress_sameRun ((sameRun_congr hwritable).mp hrun), hnext, ← hbase]
        exact Nat.le_trans (Nat.le_add_right _ _) (hafter t hrun)
      have hother : nextAddress o p.2 t = nextAddress o c t := by
        rw [hcursor]
        exact nextAddress_advance_other _ _ _ fun h => hrun ((sameRun_congr hwritable).mpr h)
      exact Nat.le_of_eq (congrArg UInt64.toNat hother.symm)
    constructor
    · intro s hs
      cases hs with
      | head =>
        rw [← nextAddress_sameRun (s := segment) (fun _ => hwritable.symm), hnext, ← hbase]
        exact Nat.le_refl _
      | tail _ hs => exact Nat.le_trans (hmono s) (hlow s hs)
    · rw [pairwise_cons]
      refine ⟨?_, hpairs⟩
      intro t ht hrun
      exact Nat.le_trans (hafter t hrun) (hlow t ht)

theorem placeSegments_unfixed
    (h : placeSegments o c segments = .ok r) (hno : r.2.haveFixedSegments = false) :
    c.haveFixedSegments = false ∧ ∀ s ∈ segments, s.fFixedAddress = false := by
  induction segments generalizing c r with
  | nil =>
    cases h
    refine ⟨hno, ?_⟩
    intro s hs
    cases hs
  | cons segment rest ih =>
    obtain ⟨p, hp, h⟩ := bind_eq_ok.mp h
    obtain ⟨q, hq, h⟩ := bind_eq_ok.mp h
    cases h
    obtain ⟨_, _, _, hcursor⟩ := placeSegment_cursor hp
    obtain ⟨hfixed, hrest⟩ := ih hq hno
    rw [hcursor, advance_haveFixedSegments, Bool.or_eq_false_iff] at hfixed
    refine ⟨hfixed.1, ?_⟩
    intro s hs
    cases hs with
    | head => exact hfixed.2
    | tail _ hs => exact hrest s hs

def IndependentFixed (segments : List SegmentInfo) : Prop :=
  ∀ s ∈ segments, s.fIndependentAddress = true → s.fFixedAddress = true

theorem fixSegment_independent (it : String × UInt64)
    (h : IndependentFixed segments) : IndependentFixed (fixSegment segments it) := by
  induction segments with
  | nil => exact h
  | cons segment rest ih =>
    have hrest : IndependentFixed rest := fun s hs => h s (mem_cons_of_mem _ hs)
    unfold fixSegment
    intro s hs
    split at hs
    · cases hs with
      | head =>
        intro _
        rfl
      | tail _ hs => exact hrest s hs
    · cases hs with
      | head => exact h segment mem_cons_self
      | tail _ hs => exact ih hrest s hs

theorem fixedSegments_independent (h : IndependentFixed segments) :
    IndependentFixed (fixedSegments o segments) := by
  unfold fixedSegments
  generalize o.customSegmentAddresses = addresses
  induction addresses generalizing segments with
  | nil => exact h
  | cons it rest ih => exact ih (fixSegment_independent it h)

def Unchecked (o : LayoutOptions) (r : Assigned) : Prop :=
  r.haveFixedSegments = false ∧ o.splitSeg = true

section
variable {segments : List SegmentInfo} {r : Assigned} (hfinal : o.finalLinkedImage = true)
    (hindependent : IndependentFixed segments) (h : assignFileOffsets o segments = .ok r)
    (hfits : ∀ s ∈ r.fSegmentInfos, s.InAddressSpace)
include hfinal hindependent h hfits

theorem assignFileOffsets_runs (hno : r.haveFixedSegments = false) :
    r.fSegmentInfos.Pairwise fun s t => SameRun o s t → s.stop ≤ t.start := by
  obtain ⟨c, hplace, hfixed, _⟩ := assignFileOffsets_segments h
  have hunfixed := (placeSegments_unfixed hplace (hfixed.symm.trans hno)).2
  have hfree : ∀ s ∈ fixedSegments o segments, Free s := by
    intro s hs
    refine ⟨hunfixed s hs, ?_⟩
    apply Bool.eq_false_iff.mpr
    intro hs'
    exact absurd (fixedSegments_independent hindependent s hs hs') (by simp [hunfixed s hs])
  exact (placeSegments_runs hfinal hfree hplace hfits).2

theorem assignFileOffsets_separate : r.fSegmentInfos.Pairwise fun s t =>
      (Unchecked o r → s.writable = t.writable) → Separate s t := by
  cases hhave : r.haveFixedSegments with
  | true =>
    obtain ⟨c, _, hfixed, hcheck⟩ := assignFileOffsets_segments h
    apply (checkOverlaps_ok (hcheck (hfixed.symm.trans hhave))).imp_of_mem
    intro s t hs ht hok _
    exact checkOverlap_ok hok (hfits s hs) (hfits t ht)
  | false =>
    apply (assignFileOffsets_runs hfinal hindependent h hfits hhave).imp
    intro s t hrun hwritable
    have hstop := hrun fun hsplit => hwritable ⟨hhave, hsplit⟩
    exact ⟨Or.inr (Or.inr (Or.inl hstop)), fun _ => hstop⟩

end

end Runs

section LinkEdit
variable (o : LayoutOptions) (fPadSegmentInfo : Option SegmentInfo) (fLargestAtomSize : UInt64)
variable (last : SegmentInfo) (first : SectionInfo)

/-- The loop over the link edit sections, `first` being the first of them. -/
def linkEditCursor : LinkEditCursor :=
  (last.fSections.dropWhile (!isLinkEdit ·)).foldl adjustSection
    { address := if fPadSegmentInfo.isSome then o.zeroPageSize else first.fBaseAddress
      fileOffset := first.fFileOffset
      fLargestAtomSize }

def linkEditBase : UInt64 :=
  if fPadSegmentInfo.isSome then o.zeroPageSize else last.fBaseAddress

def linkEditSize : UInt64 :=
  if o.finalLinkedImage then
    alignUp64 ((linkEditCursor o fPadSegmentInfo fLargestAtomSize last first).address -
      linkEditBase o fPadSegmentInfo last) 4096
  else last.fSize

def linkEditStart : Nat :=
  if fPadSegmentInfo.isSome then first.fBaseAddress.toNat else last.start

def linkEditEnd : Nat :=
  (linkEditBase o fPadSegmentInfo last).toNat +
    (linkEditSize o fPadSegmentInfo fLargestAtomSize last first).toNat

/-- The fill segment does not start past the end of the zero page. -/
def PadFits : Prop := fPadSegmentInfo.isSome = true → first.fBaseAddress ≤ o.zeroPageSize

variable {o fPadSegmentInfo fLargestAtomSize last first}

theorem adjustLinkEditSections_ok {segments init : List SegmentInfo} {out : List SegmentInfo × UInt64}
    (hsegments : segments = init ++ [last]) (hfirst : last.fSections.find? isLinkEdit = some first)
    (h : adjustLinkEditSections o fPadSegmentInfo fLargestAtomSize segments = some out) :
    ∃ placed : SegmentInfo,
      placed.fBaseAddress = linkEditBase o fPadSegmentInfo last ∧
      placed.fSize = linkEditSize o fPadSegmentInfo fLargestAtomSize last first ∧
      out.1 = init ++
        (fPadSegmentInfo.map fun p => padSegment o p first.fBaseAddress).toList ++ [placed] := by
  subst hsegments
  unfold adjustLinkEditSections at h
  rw [getLast?_concat] at h
  have h : (last.fSections.find? isLinkEdit >>= _) = some out := h
  rw [hfirst] at h
  cases h
  rw [dropLast_concat]
  exact ⟨_, rfl, rfl, rfl⟩

def linkEditTail (fPadSegmentInfo : Option SegmentInfo) (o : LayoutOptions) (first : SectionInfo)
    (placed : SegmentInfo) : List SegmentInfo :=
  (fPadSegmentInfo.map fun p => padSegment o p first.fBaseAddress).toList ++ [placed]

section Tail
variable {placed s : SegmentInfo}
variable {address : UInt64}

theorem padSegment_stop (p : SegmentInfo) (h : address ≤ o.zeroPageSize) :
    (padSegment o p address).stop = o.zeroPageSize.toNat := by
  have hle := UInt64.le_iff_toNat_le.mp h
  unfold stop padSegment
  dsimp only
  rw [UInt64.toNat_sub_of_le _ _ h]
  omega

theorem padSegment_wraps (p : SegmentInfo) (h : o.zeroPageSize < address) :
    2 ^ 64 ≤ (padSegment o p address).stop := by
  have hlt := UInt64.lt_iff_toNat_lt.mp h
  unfold stop padSegment
  dsimp only
  rw [UInt64.toNat_sub]
  omega

variable (hbase : placed.fBaseAddress = linkEditBase o fPadSegmentInfo last)
  (hsize : placed.fSize = linkEditSize o fPadSegmentInfo fLargestAtomSize last first)
include hbase hsize

theorem placed_stop : placed.stop = linkEditEnd o fPadSegmentInfo fLargestAtomSize last first := by
  unfold stop linkEditEnd
  rw [hbase, hsize]

theorem tail_within (hpad : PadFits o fPadSegmentInfo first) :
    (∀ t ∈ linkEditTail fPadSegmentInfo o first placed,
      linkEditStart fPadSegmentInfo last first ≤ t.start ∧
        t.stop ≤ linkEditEnd o fPadSegmentInfo fLargestAtomSize last first) ∧
    (linkEditTail fPadSegmentInfo o first placed).Pairwise Apart := by
  have hstop := placed_stop hbase hsize
  cases fPadSegmentInfo with
  | none =>
    refine ⟨?_, pairwise_singleton _ _⟩
    intro t ht
    obtain rfl := List.mem_singleton.mp ht
    refine ⟨?_, Nat.le_of_eq hstop⟩
    unfold start
    rw [hbase]
    exact Nat.le_refl _
  | some p =>
    have hle := hpad rfl
    have hpadStop := padSegment_stop p hle
    have hstart : placed.start = o.zeroPageSize.toNat := congrArg UInt64.toNat hbase
    have hlow : first.fBaseAddress.toNat ≤ placed.start := by
      rw [hstart]
      exact UInt64.le_iff_toNat_le.mp hle
    constructor
    · intro t ht
      cases ht with
      | head =>
        refine ⟨Nat.le_refl _, ?_⟩
        rw [hpadStop]
        exact Nat.le_add_right _ _
      | tail _ ht =>
        obtain rfl := List.mem_singleton.mp ht
        exact ⟨hlow, Nat.le_of_eq hstop⟩
    · apply List.pairwise_pair.mpr
      exact Or.inr (Or.inr (Or.inl (Nat.le_of_eq (hpadStop.trans hstart.symm))))

theorem beside_of_apart (hs : s.fSize ≠ 0) (hlt : linkEditStart fPadSegmentInfo last first <
      linkEditEnd o fPadSegmentInfo fLargestAtomSize last first)
    (h : ∀ t ∈ linkEditTail fPadSegmentInfo o first placed, Apart s t) :
    s.stop ≤ linkEditStart fPadSegmentInfo last first ∨
      linkEditEnd o fPadSegmentInfo fLargestAtomSize last first ≤ s.start := by
  have hstop := placed_stop hbase hsize
  have hpos := start_lt_stop hs
  have hplaced : Apart s placed := h placed (mem_append_right _ mem_cons_self)
  have hbeside := hplaced.beside hs
  cases fPadSegmentInfo with
  | none =>
    have hstart : linkEditStart none last first = placed.start := congrArg UInt64.toNat hbase.symm
    omega
  | some p =>
    have hpad : Apart s (padSegment o p first.fBaseAddress) := h _ mem_cons_self
    have hpad := hpad.beside hs
    have hstart : placed.start = o.zeroPageSize.toNat := congrArg UInt64.toNat hbase
    have hpadStart : (padSegment o p first.fBaseAddress).start = first.fBaseAddress.toNat := rfl
    have hs : s.start < 2 ^ 64 := s.fBaseAddress.toNat_lt
    have hfirst := first.fBaseAddress.toNat_lt
    change first.fBaseAddress.toNat < _ at hlt
    change s.stop ≤ first.fBaseAddress.toNat ∨ _
    by_cases hle : first.fBaseAddress ≤ o.zeroPageSize
    · have hpadStop := padSegment_stop p hle
      omega
    · have hpadStop := padSegment_wraps p (UInt64.not_le.mp hle)
      omega

end Tail

variable (o fPadSegmentInfo fLargestAtomSize last first)

/-- What the code does not check: `init` are the segments before `last`. -/
structure KeptApart (r : Assigned) (init : List SegmentInfo) : Prop where
  /-- no read-only segment meets a writable one -/
  runs : Unchecked o r → init.Pairwise fun s t => s.writable ≠ t.writable → Apart s t
  /-- what starts at or above the link edit segment starts after its content -/
  above : ∀ s ∈ init, s.fSize ≠ 0 →
    linkEditStart fPadSegmentInfo last first <
      linkEditEnd o fPadSegmentInfo fLargestAtomSize last first →
    linkEditStart fPadSegmentInfo last first ≤ s.start →
    linkEditEnd o fPadSegmentInfo fLargestAtomSize last first ≤ s.start
  /-- what starts below it ends there, in the other run or where it has moved -/
  below : ∀ s ∈ init, s.fSize ≠ 0 →
    Unchecked o r ∧ s.writable ≠ last.writable ∨ linkEditStart fPadSegmentInfo last first ≠ last.start →
    linkEditStart fPadSegmentInfo last first <
      linkEditEnd o fPadSegmentInfo fLargestAtomSize last first →
    s.start < linkEditStart fPadSegmentInfo last first →
    s.stop ≤ linkEditStart fPadSegmentInfo last first

variable {o fPadSegmentInfo fLargestAtomSize last first}

theorem KeptApart.beside {r : Assigned} {init : List SegmentInfo} {s : SegmentInfo}
    (h : KeptApart o fPadSegmentInfo fLargestAtomSize last first r init)
    (hs : s ∈ init) (hne : s.fSize ≠ 0)
    (hlt : linkEditStart fPadSegmentInfo last first <
      linkEditEnd o fPadSegmentInfo fLargestAtomSize last first)
    (hsep : (Unchecked o r → s.writable = last.writable) → Separate s last) :
    s.stop ≤ linkEditStart fPadSegmentInfo last first ∨
      linkEditEnd o fPadSegmentInfo fLargestAtomSize last first ≤ s.start := by
  rcases Nat.lt_or_ge s.start (linkEditStart fPadSegmentInfo last first) with hbelow | habove
  · apply Or.inl
    by_cases hother : Unchecked o r ∧ s.writable ≠ last.writable ∨
        linkEditStart fPadSegmentInfo last first ≠ last.start
    · exact h.below s hs hne hother hlt hbelow
    obtain ⟨hother, hstart⟩ := not_or.mp hother
    have hsep := hsep fun hu => Classical.not_not.mp fun hw => hother ⟨hu, hw⟩
    rw [Classical.not_not.mp hstart] at hbelow ⊢
    exact hsep.2 hbelow
  · exact Or.inr (h.above s hs hne hlt habove)

theorem apart_of_beside {s t : SegmentInfo} {start stop : Nat} (hlow : start ≤ t.start)
    (hhigh : t.stop ≤ stop) (h : start < stop → s.stop ≤ start ∨ stop ≤ s.start) : Apart s t := by
  by_cases ht : t.fSize = 0
  · exact Or.inr (Or.inl ht)
  have := start_lt_stop ht
  rcases h (by omega) with h | h
  · exact Or.inr (Or.inr (Or.inl (Nat.le_trans h hlow)))
  · exact Or.inr (Or.inr (Or.inr (Nat.le_trans hhigh h)))

end LinkEdit

theorem fixSegment_length (segments : List SegmentInfo) (it : String × UInt64) :
    (fixSegment segments it).length = segments.length := by
  induction segments with
  | nil => rfl
  | cons segment rest ih =>
    unfold fixSegment
    split
    · rfl
    · exact congrArg Nat.succ ih

theorem fixedSegments_length (o : LayoutOptions) (segments : List SegmentInfo) :
    (fixedSegments o segments).length = segments.length := by
  unfold fixedSegments
  generalize o.customSegmentAddresses = addresses
  induction addresses generalizing segments with
  | nil => rfl
  | cons it rest ih => exact (ih _).trans (fixSegment_length segments it)

theorem placeSegments_length {c : SegmentCursor}
    {r : List SegmentInfo × SegmentCursor} (h : placeSegments o c segments = .ok r) :
    r.1.length = segments.length := by
  induction segments generalizing c r with
  | nil =>
    cases h
    rfl
  | cons segment rest ih =>
    obtain ⟨p, _, h⟩ := bind_eq_ok.mp h
    obtain ⟨q, hq, h⟩ := bind_eq_ok.mp h
    cases h
    exact congrArg Nat.succ (ih hq)

theorem init_apart {segments init : List SegmentInfo} {last : SegmentInfo}
    {r : Assigned} (hobject : o.outputKind = .kObjectFile → segments.length ≤ 1)
    (hindependent : IndependentFixed segments)
    (h : assignFileOffsets o segments = .ok r) (hsegments : r.fSegmentInfos = init ++ [last])
    (hfits : ∀ s ∈ r.fSegmentInfos, s.InAddressSpace)
    (hruns : Unchecked o r → init.Pairwise fun s t => s.writable ≠ t.writable → Apart s t) :
    init.Pairwise Apart ∧
      ∀ s ∈ init, (Unchecked o r → s.writable = last.writable) → Separate s last := by
  by_cases hfinal : o.outputKind = .kObjectFile
  · obtain ⟨c, hplace, _, _⟩ := assignFileOffsets_segments h
    have hlength := placeSegments_length hplace
    have hone := hobject hfinal
    rw [hsegments, fixedSegments_length, length_append, length_singleton] at hlength
    obtain rfl := eq_nil_of_length_eq_zero (show init.length = 0 by omega)
    refine ⟨List.Pairwise.nil, ?_⟩
    intro s hs
    cases hs
  · have hsep := assignFileOffsets_separate (bne_iff_ne.mpr hfinal) hindependent h hfits
    rw [hsegments, pairwise_append] at hsep
    obtain ⟨hinit, _, hlast⟩ := hsep
    refine ⟨?_, fun s hs => hlast s hs last mem_cons_self⟩
    by_cases hu : Unchecked o r
    · apply (hinit.and (hruns hu)).imp
      rintro s t ⟨hsame, hother⟩
      by_cases hw : s.writable = t.writable
      · exact (hsame fun _ => hw).1
      · exact hother hw
    · exact hinit.imp fun {s t} hsame => (hsame fun h => absurd h hu).1

/-- If the segments of a finished layout do not overlap, what the code leaves unchecked holds of
the layout and of the size of its link edit content; that is enough where no sum wraps. -/
theorem segments_apart_of_kept (o : LayoutOptions) (fPadSegmentInfo : Option SegmentInfo)
    (fLargestAtomSize : UInt64) (segments init : List SegmentInfo) (last : SegmentInfo)
    (first : SectionInfo) (r : Assigned) (out : List SegmentInfo × UInt64)
    (hobject : o.outputKind = .kObjectFile → segments.length ≤ 1)
    (hindependent : IndependentFixed segments)
    (h : assignFileOffsets o segments = .ok r) (hsegments : r.fSegmentInfos = init ++ [last])
    (hfirst : last.fSections.find? isLinkEdit = some first)
    (hadjust : adjustLinkEditSections o fPadSegmentInfo fLargestAtomSize r.fSegmentInfos = some out) :
    (out.1.Pairwise Apart → KeptApart o fPadSegmentInfo fLargestAtomSize last first r init) ∧
    (KeptApart o fPadSegmentInfo fLargestAtomSize last first r init →
      (∀ s ∈ r.fSegmentInfos, s.InAddressSpace) → PadFits o fPadSegmentInfo first →
      out.1.Pairwise Apart) := by
  obtain ⟨placed, hbase, hsize, hout⟩ := adjustLinkEditSections_ok hsegments hfirst hadjust
  rw [append_assoc] at hout
  rw [hout, pairwise_append]
  constructor
  · intro ⟨hinit, _, hcross⟩
    have hbeside : ∀ s ∈ init, s.fSize ≠ 0 → _ := fun s hs hne hlt =>
      beside_of_apart hbase hsize hne hlt (hcross s hs)
    constructor
    · intro _
      apply hinit.imp
      intro s t h _
      exact h
    · intro s hs hne hlt hle
      have := start_lt_stop hne
      cases hbeside s hs hne hlt with
      | inl h => exact absurd (Nat.lt_of_lt_of_le this h) (Nat.not_lt.mpr hle)
      | inr h => exact h
    · intro s hs hne _ hlt hbelow
      cases hbeside s hs hne hlt with
      | inl h => exact h
      | inr h => exact absurd (Nat.lt_of_lt_of_le hlt h) (Nat.not_lt.mpr (Nat.le_of_lt hbelow))
  · intro hkept hfits hpad
    obtain ⟨hinit, hlast⟩ := init_apart hobject hindependent h hsegments hfits hkept.runs
    obtain ⟨hwithin, htail⟩ := tail_within hbase hsize hpad
    refine ⟨hinit, htail, ?_⟩
    intro s hs t ht
    by_cases hne : s.fSize = 0
    · exact Or.inl hne
    obtain ⟨hlow, hhigh⟩ := hwithin t ht
    exact apart_of_beside hlow hhigh fun hlt => hkept.beside hs hne hlt (hlast s hs)

/-- A main executable with a fixed stack segment that is one page above `__LINKEDIT`. -/
def stackOptions : LayoutOptions where
  outputKind := .kDynamicExecutable
  maxAddress := 0xFFFFFFFF
  zeroPageSize := 0x1000

def stackLayout (contentSize : UInt64) : List SegmentInfo :=
  [{ fName := "__PAGEZERO", fFixedAddress := true
     fSections := [{ fSegmentName := "__PAGEZERO", fSectionName := "._zeropage", fAlignment := 12,
                     fSize := 0x1000, fAllZeroFill := true, fVirtualSection := true }] },
   { fName := "__TEXT", fInitProtection := 5
     fSections := [{ fSegmentName := "__TEXT", fSectionName := "__text", fAlignment := 3,
                     fSize := 20 }] },
   { fName := "__UNIXSTACK", fInitProtection := 3, fBaseAddress := 0x3000, fFixedAddress := true
     fIndependentAddress := true
     fSections := [{ fSegmentName := "__UNIXSTACK", fSectionName := "._stack", fAlignment := 12,
                     fSize := 0x1000, fAllZeroFill := true, fVirtualSection := true }] },
   { fName := "__LINKEDIT", fInitProtection := 1
     fSections := [{ fSegmentName := "__LINKEDIT", fSectionName := "._symbols", fAlignment := 2,
                     fSize := 0, fVirtualSection := true
                     fAtoms := [{ powerOf2 := 2, getSize := contentSize }] }] }]

theorem segments_apart_stack : ∃ r out, assignFileOffsets stackOptions (stackLayout 0x800) = .ok r ∧
      adjustLinkEditSections stackOptions none 0 r.fSegmentInfos = some out ∧
      out.1.Pairwise Apart := by
  refine ⟨_, _, rfl, rfl, ?_⟩
  refine (segments_apart_of_kept stackOptions none 0 (stackLayout 0x800) _ _ _ _ _ (by decide) ?_ rfl
      (dropLast_concat_getLast (by decide)).symm rfl rfl).2 ⟨?_, ?_, ?_⟩ (by decide)
      (fun h => nomatch h)
  · unfold IndependentFixed
    decide
  · intro hu
    exact absurd hu.1 (by decide)
  · decide
  · intro s hs hne hother
    rcases hother with hu | hmoved
    · exact absurd hu.1.1 (by decide)
    · exact absurd rfl hmoved

/-- With more than a page of link edit content, `__LINKEDIT` runs into the stack. -/
theorem linkedit_grows_into_stack :
    ∃ r out, assignFileOffsets stackOptions (stackLayout 0x1800) = .ok r ∧
      adjustLinkEditSections stackOptions none 0 r.fSegmentInfos = some out ∧
      ¬ out.1.Pairwise Apart := by
  refine ⟨_, _, rfl, rfl, ?_⟩
  decide

end Toolwhip.Ld64.FileOffsets
