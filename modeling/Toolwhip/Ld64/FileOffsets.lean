import Toolwhip.Lib.Layout
import Toolwhip.Ld64.ObjectFile

/-! # assignFileOffsets and adjustLinkEditSections

Addresses and file offsets are `uint64_t`. -/

namespace Toolwhip.Ld64.FileOffsets
open Lib.AlignUp
set_option autoImplicit false

/-- `1 << alignment`, for an alignment by which an `int` can be shifted. -/
def shiftOne (alignment : Nat) : UInt64 := UInt64.ofNat (2 ^ alignment)

structure SectionAtom where
  powerOf2 : Nat
  getSize : UInt64
  sectionOffset : UInt64 := 0
  shiftable : powerOf2 < 31 := by decide

structure SectionInfo where
  fSegmentName : String
  fSectionName : String
  fAlignment : Nat
  fSize : UInt64
  fAllZeroFill : Bool := false
  fVirtualSection : Bool := false
  fAtoms : List SectionAtom := []
  fFileOffset : UInt64 := 0
  fBaseAddress : UInt64 := 0
  shiftable : fAlignment < 31 := by decide

structure SegmentInfo where
  fName : String
  fInitProtection : Nat := 0
  fSections : List SectionInfo
  fFileOffset : UInt64 := 0
  fFileSize : UInt64 := 0
  fBaseAddress : UInt64 := 0
  fSize : UInt64 := 0
  fFixedAddress : Bool := false
  fIndependentAddress : Bool := false

def SegmentInfo.writable (segment : SegmentInfo) : Bool := segment.fInitProtection &&& 2 != 0

/-- `maxAddress` is the architecture's. -/
structure LayoutOptions where
  outputKind : OutputKind
  maxAddress : UInt64
  baseAddress : UInt64 := 0
  baseWritableAddress : UInt64 := 0
  customSegmentAddresses : List (String × UInt64) := []
  splitSeg : Bool := false
  makeEncryptable : Bool := false
  zeroPageSize : UInt64 := 0

def LayoutOptions.finalLinkedImage (o : LayoutOptions) : Bool := o.outputKind != .kObjectFile

inductive LayoutError where
  | zeroFillNotAtEnd (fSectionName : String)
  | exceeds4GB (fSectionName : String)
  | segmentsOverlap (name₁ : String) (base₁ size₁ : UInt64) (name₂ : String) (base₂ size₂ : UInt64)
  deriving DecidableEq, Repr

/-- The local variables of the loop over the sections, and the sizes it updates. -/
structure SectionCursor where
  address : UInt64
  fileOffset : UInt64
  firstZeroFillSection : Option SectionInfo := none
  prevSection : Option SectionInfo := none
  fFileSize : UInt64
  fSize : UInt64
  placed : List SectionInfo := []

section Sections
variable (o : LayoutOptions)

def sectionAddress (c : SectionCursor) (curSection : SectionInfo) : UInt64 :=
  alignUp64 c.address (shiftOne curSection.fAlignment)

/-- The file offset is adjusted to match the address. -/
def sectionFileOffset (c : SectionCursor) (curSection : SectionInfo) : UInt64 :=
  match c.prevSection with
  | none => c.fileOffset
  | some prevSection =>
    if o.finalLinkedImage || !prevSection.fVirtualSection then
      (sectionAddress c curSection - prevSection.fBaseAddress) + prevSection.fFileOffset
    else alignUp64 c.fileOffset (shiftOne curSection.fAlignment)

def placedSection (c : SectionCursor) (curSection : SectionInfo) : SectionInfo :=
  { curSection with
    fFileOffset := sectionFileOffset o c curSection
    fBaseAddress := sectionAddress c curSection }

def firstZeroFill (c : SectionCursor) (curSection : SectionInfo) : Option SectionInfo :=
  if curSection.fAllZeroFill && c.firstZeroFillSection.isNone then
    some (placedSection o c curSection)
  else c.firstZeroFillSection

def addressAfter (c : SectionCursor) (curSection : SectionInfo) : UInt64 :=
  if o.finalLinkedImage || !curSection.fVirtualSection then
    sectionAddress c curSection + curSection.fSize
  else sectionAddress c curSection

/-- The body of the loop; `segmentFileOffset` is `curSegment->fFileOffset`. -/
def placeSection (segmentFileOffset : UInt64) (c : SectionCursor) (curSection : SectionInfo) :
    Except LayoutError SectionCursor :=
  if !curSection.fAllZeroFill && (firstZeroFill o c curSection).isSome && o.finalLinkedImage then
    .error (.zeroFillNotAtEnd curSection.fSectionName)
  else if o.maxAddress < addressAfter o c curSection then
    .error (.exceeds4GB curSection.fSectionName)
  else
    let fileOffset := sectionFileOffset o c curSection + curSection.fSize
    .ok
      { address := addressAfter o c curSection
        fileOffset
        firstZeroFillSection := firstZeroFill o c curSection
        prevSection := some (placedSection o c curSection)
        fFileSize := fileOffset - segmentFileOffset
        fSize := fileOffset - segmentFileOffset
        placed := c.placed ++ [placedSection o c curSection] }

end Sections

/-! ## The segments -/

structure SegmentCursor where
  fileOffset : UInt64 := 0
  nextContiguousAddress : UInt64
  nextReadOnlyAddress : UInt64
  nextWritableAddress : UInt64
  haveFixedSegments : Bool := false

section Segments
variable (o : LayoutOptions)

/-- `nextContiguousAddress` when a segment is reached. -/
def nextAddress (c : SegmentCursor) (curSegment : SegmentInfo) : UInt64 :=
  if o.splitSeg then
    if curSegment.writable then c.nextWritableAddress else c.nextReadOnlyAddress
  else c.nextContiguousAddress

def segmentBase (c : SegmentCursor) (curSegment : SegmentInfo) : UInt64 :=
  if curSegment.fFixedAddress then curSegment.fBaseAddress else nextAddress o c curSegment

def segmentFileOffset (c : SegmentCursor) : UInt64 := alignUp64 c.fileOffset 4096

def trimmedFileSize (segmentFileOffset : UInt64) (s : SectionCursor) : UInt64 :=
  match s.firstZeroFillSection with
  | some firstZeroFillSection => firstZeroFillSection.fFileOffset - segmentFileOffset
  | none => s.fFileSize

def trimmedFileOffset (s : SectionCursor) : UInt64 :=
  match s.firstZeroFillSection with
  | some firstZeroFillSection => firstZeroFillSection.fFileOffset
  | none => s.fileOffset

/-- The addresses for the next segments, after one from `base` of `size` bytes. -/
def advance (c : SegmentCursor) (curSegment : SegmentInfo) (base size fileOffset : UInt64) :
    SegmentCursor :=
  let c' : SegmentCursor :=
    { c with
      fileOffset
      nextContiguousAddress := nextAddress o c curSegment
      haveFixedSegments := c.haveFixedSegments || curSegment.fFixedAddress }
  if o.finalLinkedImage && !curSegment.fIndependentAddress
      && decide (nextAddress o c curSegment ≤ base) then
    let next := alignUp64 (base + size) 4096
    if curSegment.writable then
      { c' with nextContiguousAddress := next, nextWritableAddress := next }
    else { c' with nextContiguousAddress := next, nextReadOnlyAddress := next }
  else c'

def placeSections (c : SegmentCursor) (curSegment : SegmentInfo) :
    Except LayoutError SectionCursor :=
  curSegment.fSections.foldlM (placeSection o (segmentFileOffset c))
    { address := segmentBase o c curSegment
      fileOffset := segmentFileOffset c
      fFileSize := curSegment.fFileSize
      fSize := curSegment.fSize }

/-- The segment with its sections in place; `.o` files are not page aligned. -/
def placedSegment (c : SegmentCursor) (curSegment : SegmentInfo) (s : SectionCursor) :
    SegmentInfo :=
  { curSegment with
    fSections := s.placed
    fFileOffset := segmentFileOffset c
    fBaseAddress := segmentBase o c curSegment
    fFileSize :=
      if o.finalLinkedImage then alignUp64 (trimmedFileSize (segmentFileOffset c) s) 4096
      else s.fFileSize
    fSize := if o.finalLinkedImage then alignUp64 s.fSize 4096 else s.fSize }

def placeSegment (c : SegmentCursor) (curSegment : SegmentInfo) :
    Except LayoutError (SegmentInfo × SegmentCursor) := do
  let s ← placeSections o c curSegment
  let placed := placedSegment o c curSegment s
  let fileOffset := if o.finalLinkedImage then trimmedFileOffset s else s.fileOffset
  .ok (placed, advance o c curSegment placed.fBaseAddress placed.fSize fileOffset)

def placeSegments : SegmentCursor → List SegmentInfo →
    Except LayoutError (List SegmentInfo × SegmentCursor)
  | c, [] => .ok ([], c)
  | c, curSegment :: rest => do
    let r ← placeSegment o c curSegment
    let t ← placeSegments r.2 rest
    .ok (r.1 :: t.1, t.2)

end Segments

/-- A `-segaddr` option, for the first segment of its name. -/
def fixSegment (segments : List SegmentInfo) (it : String × UInt64) : List SegmentInfo :=
  match segments with
  | [] => []
  | segment :: rest =>
    if segment.fName = it.1 then
      { segment with fBaseAddress := it.2, fFixedAddress := true } :: rest
    else segment :: fixSegment rest it

def checkOverlap (segment₁ segment₂ : SegmentInfo) : Except LayoutError Unit :=
  let overlap : LayoutError := .segmentsOverlap segment₁.fName segment₁.fBaseAddress segment₁.fSize
    segment₂.fName segment₂.fBaseAddress segment₂.fSize
  if segment₁.fBaseAddress < segment₂.fBaseAddress then
    if segment₂.fBaseAddress < segment₁.fBaseAddress + segment₁.fSize then .error overlap else .ok ()
  else if segment₂.fBaseAddress < segment₁.fBaseAddress then
    if segment₁.fBaseAddress < segment₂.fBaseAddress + segment₂.fSize then .error overlap else .ok ()
  else if segment₁.fSize != 0 && segment₂.fSize != 0 then .error overlap
  else .ok ()

def checkOverlaps (segments : List SegmentInfo) : Except LayoutError Unit :=
  segments.zipIdx.forM fun s₁ => segments.zipIdx.forM fun s₂ =>
    if s₁.2 = s₂.2 then .ok () else checkOverlap s₁.1 s₂.1

def checkFixedSegments (haveFixedSegments : Bool) (segments : List SegmentInfo) :
    Except LayoutError Unit :=
  if haveFixedSegments then checkOverlaps segments else .ok ()

/-- What `assignFileOffsets` sets. -/
structure Assigned where
  fSegmentInfos : List SegmentInfo
  haveFixedSegments : Bool
  fFirstWritableSegment : Option SegmentInfo
  fWritableSegmentPastFirst4GB : Bool
  endEncryptionOffset : Option UInt64

def startCursor (o : LayoutOptions) : SegmentCursor where
  nextContiguousAddress := o.baseAddress
  nextReadOnlyAddress := o.baseAddress
  nextWritableAddress := o.baseWritableAddress

def fixedSegments (o : LayoutOptions) (segments : List SegmentInfo) : List SegmentInfo :=
  o.customSegmentAddresses.foldl fixSegment segments

def pastFirst4GB (o : LayoutOptions) (segment : SegmentInfo) : Bool :=
  segment.writable && decide (0x100000000 ≤ segment.fBaseAddress + segment.fSize - o.baseAddress)

def assignFileOffsets (o : LayoutOptions) (segments : List SegmentInfo) :
    Except LayoutError Assigned := do
  let r ← placeSegments o (startCursor o) (fixedSegments o segments)
  checkFixedSegments r.2.haveFixedSegments r.1
  .ok
    { fSegmentInfos := r.1
      haveFixedSegments := r.2.haveFixedSegments
      fFirstWritableSegment := r.1.find? SegmentInfo.writable
      fWritableSegmentPastFirst4GB := r.1.any (pastFirst4GB o)
      endEncryptionOffset :=
        if o.makeEncryptable then (r.1.find? (·.fName = "__TEXT")).map (·.fFileSize) else none }

def offsetAfter (sectionOffset : UInt64) (atom : SectionAtom) : UInt64 :=
  alignUp64 sectionOffset (shiftOne atom.powerOf2) + atom.getSize

def setSectionOffsets : UInt64 → List SectionAtom → List SectionAtom
  | _, [] => []
  | sectionOffset, atom :: rest =>
    { atom with sectionOffset := alignUp64 sectionOffset (shiftOne atom.powerOf2) } ::
      setSectionOffsets (offsetAfter sectionOffset atom) rest

def contentSize (atoms : List SectionAtom) : UInt64 := atoms.foldl offsetAfter 0

structure LinkEditCursor where
  address : UInt64
  fileOffset : UInt64
  fLargestAtomSize : UInt64
  sections : List SectionInfo := []

def adjustSection (c : LinkEditCursor) (curSection : SectionInfo) : LinkEditCursor :=
  let address := alignUp64 c.address (shiftOne curSection.fAlignment)
  let fileOffset := c.fileOffset + (address - c.address)
  let size := contentSize curSection.fAtoms
  { address := address + size
    fileOffset := fileOffset + size
    fLargestAtomSize := curSection.fAtoms.foldl (fun m atom => max m atom.getSize) c.fLargestAtomSize
    sections := c.sections ++
      [{ curSection with
          fBaseAddress := if curSection.fSectionName = "._absolute" then 0 else address
          fFileOffset := fileOffset
          fSize := size
          fAtoms := setSectionOffsets 0 curSection.fAtoms }] }

/-- The fill segment `__4GBFILL`, from `address` to the end of the zero page. -/
def padSegment (o : LayoutOptions) (fPadSegmentInfo : SegmentInfo) (address : UInt64) : SegmentInfo :=
  { fPadSegmentInfo with fSize := o.zeroPageSize - address, fBaseAddress := address }

def isLinkEdit (s : SectionInfo) : Bool := s.fSegmentName = "__LINKEDIT"

/-- The link edit content is always in the last segment; `none` where that has no link
edit section and the search runs past the end. -/
def adjustLinkEditSections (o : LayoutOptions) (fPadSegmentInfo : Option SegmentInfo)
    (fLargestAtomSize : UInt64) (segments : List SegmentInfo) :
    Option (List SegmentInfo × UInt64) := do
  let lastSeg ← segments.getLast?
  let first ← lastSeg.fSections.find? isLinkEdit
  let before := lastSeg.fSections.takeWhile (!isLinkEdit ·)
  let start := if fPadSegmentInfo.isSome then o.zeroPageSize else first.fBaseAddress
  let base := if fPadSegmentInfo.isSome then o.zeroPageSize else lastSeg.fBaseAddress
  let c := (lastSeg.fSections.dropWhile (!isLinkEdit ·)).foldl adjustSection
    { address := start, fileOffset := first.fFileOffset, fLargestAtomSize }
  let adjusted : SegmentInfo :=
    { lastSeg with
      fSections := before ++ c.sections
      fBaseAddress := base
      fFileSize := if o.finalLinkedImage then c.fileOffset - lastSeg.fFileOffset else lastSeg.fFileSize
      fSize := if o.finalLinkedImage then alignUp64 (c.address - base) 4096 else lastSeg.fSize }
  let pad := (fPadSegmentInfo.map fun p => padSegment o p first.fBaseAddress).toList
  some (segments.dropLast ++ pad ++ [adjusted], c.fLargestAtomSize)

end Toolwhip.Ld64.FileOffsets
