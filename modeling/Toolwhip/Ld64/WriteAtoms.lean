import Toolwhip.Ld64.ObjectFile
import Toolwhip.Lib.ByteBuffer
import Toolwhip.Lib.ThrowingFold

/-! # Writer::writeAtoms

The output file is written atom by atom when no buffer for all of it could be
allocated (streaming), and in one chunk otherwise. -/

namespace Toolwhip.Ld64
open Lib.ByteBuffer List
set_option autoImplicit false

inductive Architecture where
  | ppc
  | ppc64
  | x86
  | x86_64
  | arm
  deriving DecidableEq, Repr

inductive UUIDMode where
  | kUUIDNone
  | kUUIDRandom
  | kUUIDContent
  deriving DecidableEq, Repr

def OSWriteBigInt32 (n : UInt32) : List UInt8 :=
  [(n >>> 24).toUInt8, (n >>> 16).toUInt8, (n >>> 8).toUInt8, n.toUInt8]

def OSWriteLittleInt32 (n : UInt32) : List UInt8 :=
  [n.toUInt8, (n >>> 8).toUInt8, (n >>> 16).toUInt8, (n >>> 24).toUInt8]

/-- What each specialization of `writeNoOps` writes. -/
def writtenNoOp : Architecture → List UInt8
  | .ppc | .ppc64 => OSWriteBigInt32 0x60000000
  | .x86 | .x86_64 => [0x90]
  | .arm => OSWriteLittleInt32 0xe1a00000

/-- What each specialization of `copyNoOps` stores. -/
def copiedNoOp : Architecture → List UInt8
  | .ppc | .ppc64 => OSWriteBigInt32 0x60000000
  | .x86 | .x86_64 => [0x90]
  | .arm => OSWriteBigInt32 0xe1a00000

def writeNoOps (arch : Architecture) (file : List UInt8) (start stop : Nat) : List UInt8 :=
  writeRepeated (writtenNoOp arch) file start stop

def copyNoOps (arch : Architecture) (wholeBuffer : List UInt8) (start stop : Nat) : List UInt8 :=
  writeRepeated (copiedNoOp arch) wholeBuffer start stop

def writeZeros (file : List UInt8) (start stop : Nat) : List UInt8 :=
  if stop - start = 4 then writeAt file start [0, 0, 0, 0]
  else writeRepeated [0] file start stop

structure Digest where
  bytes : List UInt8
  length_eq : bytes.length = 16

def uuidCommand (arch : Architecture) (fUUID : Digest) : List UInt8 :=
  let set32 := if arch = .ppc ∨ arch = .ppc64 then OSWriteBigInt32 else OSWriteLittleInt32
  set32 0x1b ++ set32 24 ++ fUUID.bytes

structure SectionInfo where
  fSectionName : String
  fAllZeroFill : Bool := false
  fFileOffset : Nat
  fSize : Nat
  fAtoms : List AtomPtr

structure SegmentInfo where
  fName : String
  fSections : List SectionInfo

/-- What `writeAtoms` finds outside the program. -/
structure Host where
  MD5 : List UInt8 → Digest
  mallocFails : Bool := false
  uuid_generate_random : Digest
  fileNotWritable : Bool := false
  openErrno : Option Nat := none

/-- `fixedUpContent` is what `copyRawContent` and the fix-ups leave in the atom's
part of the buffer, or what a fix-up throws. -/
structure Writer where
  objs : Objects
  arch : Architecture
  getUUIDMode : UUIDMode
  fFilePath : String := "a.out"
  getDisplayName : AtomPtr → String
  getSectionOffset : AtomPtr → Nat
  fixedUpContent : AtomPtr → Except String (List UInt8)
  fSegmentInfos : List SegmentInfo
  fLargestAtomSize : Nat
  uuidSection : SectionInfo
  fUUIDAtom : AtomPtr

def hex (n : Nat) : String := String.ofList ((Nat.toDigits 16 n).map Char.toUpper)

def toUInt32 (n : Nat) : Nat := n % 2 ^ 32

/-- `bytes` is the file when streaming and `wholeBuffer` otherwise. -/
structure Output where
  bytes : List UInt8
  fileEnd : Nat := 0
  size : Nat := 0

namespace Writer
variable (w : Writer)

def fileBufferSize : Nat :=
  match w.fSegmentInfos.getLast?.bind fun segment => segment.fSections.getLast? with
  | some lastSection => (lastSection.fFileOffset + lastSection.fSize + 4095) / 4096 * 4096
  | none => 0

def isWritten (atom : AtomPtr) : Bool :=
  (w.objs.atom atom).getDefinitionKind ≠ .kExternalDefinition ∧
    (w.objs.atom atom).getDefinitionKind ≠ .kExternalWeakDefinition ∧
      (w.objs.atom atom).getDefinitionKind ≠ .kAbsoluteSymbol

def needsNops (curSegment : SegmentInfo) (curSection : SectionInfo) : Bool :=
  curSegment.fName = "__TEXT" ∧ curSection.fSectionName ≠ "__cstring"

def fillGap (streaming nops : Bool) (bytes : List UInt8) (start stop : Nat) : List UInt8 :=
  if stop = start then bytes
  else if nops then
    if streaming then writeNoOps w.arch bytes start stop else copyNoOps w.arch bytes start stop
  else if streaming then writeZeros bytes start stop
  else bytes

def writeAtom (streaming nops : Bool) (curSection : SectionInfo) (out : Output)
    (atom : AtomPtr) : Except String Output :=
  if ¬ w.isWritten atom then .ok out else
  let fileOffset := toUInt32 (curSection.fFileOffset + w.getSectionOffset atom)
  let bytes := w.fillGap streaming nops out.bytes out.fileEnd fileOffset
  let atomSize := (w.objs.atom atom).getSize
  if streaming ∧ w.fLargestAtomSize < atomSize then
    .error ("ld64 internal error: atom \"" ++ w.getDisplayName atom ++
      "\"is larger than expected 0x" ++ hex (toUInt32 atomSize) ++ " > 0x" ++
      hex w.fLargestAtomSize)
  else if ¬ streaming ∧ w.fileBufferSize < fileOffset then
    .error ("ld64 internal error: atom \"" ++ w.getDisplayName atom ++
      "\" has file offset greater thatn expceted 0x" ++ hex fileOffset ++ " > 0x" ++
      hex w.fileBufferSize)
  else match w.fixedUpContent atom with
    | .error msg => .error (msg ++ " in " ++ w.getDisplayName atom ++ " from " ++
        w.objs.pathOf atom)
    | .ok content => .ok
        { bytes := writeAt bytes fileOffset content
          fileEnd := toUInt32 (fileOffset + atomSize)
          size :=
            if ¬ streaming ∧ out.size < fileOffset + atomSize then
              toUInt32 (fileOffset + atomSize)
            else out.size }

def writeContent (streaming : Bool) (out : Output) (p : SegmentInfo × SectionInfo) :
    Except String Output :=
  p.2.fAtoms.foldlM (w.writeAtom streaming (needsNops p.1 p.2) p.2)
    { out with fileEnd := toUInt32 p.2.fFileOffset }

def writeSection (streaming : Bool) (out : Output) (p : SegmentInfo × SectionInfo) :
    Except String Output :=
  if ¬ p.2.fAllZeroFill then w.writeContent streaming out p else .ok out

def writeSegment (streaming : Bool) (out : Output) (curSegment : SegmentInfo) :
    Except String Output :=
  curSegment.fSections.foldlM (fun out curSection =>
    w.writeSection streaming out (curSegment, curSection)) out

/-- The whole buffer is hashed; when streaming, the file is opened write-only and
`read` gives nothing to hash. -/
def contentDigest (host : Host) (streaming : Bool) (out : Output) : Digest :=
  if ¬ streaming then host.MD5 (out.bytes.take out.size)
  else if host.mallocFails then host.uuid_generate_random
  else host.MD5 []

def uuidOffset : Nat :=
  toUInt32 (w.uuidSection.fFileOffset + w.getSectionOffset w.fUUIDAtom)

def updateUUID (host : Host) (streaming : Bool) (out : Output) : Output :=
  if w.getUUIDMode = .kUUIDContent then
    let content := uuidCommand w.arch (contentDigest host streaming out)
    { out with bytes := writeAt out.bytes w.uuidOffset content }
  else out

/-- The file is empty, the buffer zeroed by `calloc`. -/
def startOutput (streaming : Bool) : Output :=
  { bytes := if streaming then [] else List.replicate w.fileBufferSize 0 }

/-- The content of the file and the returned offset. -/
def writeAtoms (host : Host) (streaming : Bool) : Except String (List UInt8 × Nat) :=
  if host.fileNotWritable then .error ("can't write output file: " ++ w.fFilePath)
  else match host.openErrno with
  | some errno => .error ("can't open output file for writing: " ++ w.fFilePath ++ ", errno=" ++
      toString errno)
  | none => do
    let out ← w.fSegmentInfos.foldlM (w.writeSegment streaming) (w.startOutput streaming)
    let out := w.updateUUID host streaming out
    return (if streaming then out.bytes else out.bytes.take out.size, out.fileEnd)

end Writer
/-! ## Laid out sections

In a laid out file the written atoms of the sections with content ascend. Each
step of `writeAtoms` then leaves the bytes below its start alone. -/

open Lib.ThrowingFold

namespace Writer
variable (w : Writer)

def sections : List (SegmentInfo × SectionInfo) :=
  w.fSegmentInfos.flatMap fun segment => segment.fSections.map fun sect => (segment, sect)

def fileSections : List (SegmentInfo × SectionInfo) :=
  w.sections.filter fun p => ¬ p.2.fAllZeroFill

def startOf (p : SegmentInfo × SectionInfo) (a : AtomPtr) : Nat :=
  p.2.fFileOffset + w.getSectionOffset a

def stopOf (p : SegmentInfo × SectionInfo) (a : AtomPtr) : Nat :=
  w.startOf p a + (w.objs.atom a).getSize

/-- Where the written part ends once `a` has been passed. -/
def endOf (p : SegmentInfo × SectionInfo) (fileEnd : Nat) (a : AtomPtr) : Nat :=
  if w.isWritten a then w.stopOf p a else fileEnd

def sectionEnd (p : SegmentInfo × SectionInfo) : Nat :=
  p.2.fAtoms.foldl (w.endOf p) p.2.fFileOffset

def Ascends (p : SegmentInfo × SectionInfo) : Nat → List AtomPtr → Prop
  | _, [] => True
  | fileEnd, a :: l =>
    (w.isWritten a → fileEnd ≤ w.startOf p a ∧ w.stopOf p a < 2 ^ 32) ∧
      Ascends p (w.endOf p fileEnd a) l

def Abuts (p : SegmentInfo × SectionInfo) : Nat → List AtomPtr → Prop
  | _, [] => True
  | fileEnd, a :: l =>
    (w.isWritten a → w.startOf p a = fileEnd) ∧ Abuts p (w.endOf p fileEnd a) l

def NoOpFree : Prop :=
  ∀ p ∈ w.fileSections, needsNops p.1 p.2 → w.Abuts p p.2.fFileOffset p.2.fAtoms

end Writer

/-- A writer after `assignFileOffsets` and `adjustLinkEditSections`: the string
pool, which is never empty, comes last. -/
structure Layout extends Writer where
  content_length : ∀ a content, fixedUpContent a = .ok content →
    content.length = (objs.atom a).getSize
  atoms_ascend : ∀ p ∈ toWriter.fileSections, toWriter.Ascends p p.2.fFileOffset p.2.fAtoms
  sections_ascend : toWriter.fileSections.Pairwise fun p q =>
    toWriter.sectionEnd p ≤ q.2.fFileOffset
  offsets_fit : ∀ p ∈ toWriter.fileSections, p.2.fFileOffset < 2 ^ 32
  stringsSection : SegmentInfo × SectionInfo
  fStringsAtom : AtomPtr
  strings_placed : stringsSection ∈ toWriter.fileSections ∧
    fStringsAtom ∈ stringsSection.2.fAtoms ∧ toWriter.isWritten fStringsAtom ∧
      0 < (objs.atom fStringsAtom).getSize
  strings_last : ∀ p ∈ toWriter.fileSections, ∀ a ∈ p.2.fAtoms, toWriter.isWritten a →
    toWriter.stopOf p a ≤ toWriter.stopOf stringsSection fStringsAtom
  uuid_placed : getUUIDMode = .kUUIDContent → ∃ segment,
    (segment, uuidSection) ∈ toWriter.fileSections ∧ fUUIDAtom ∈ uuidSection.fAtoms ∧
      toWriter.isWritten fUUIDAtom ∧ (objs.atom fUUIDAtom).getSize = 24

def Layout.lastEnd (L : Layout) : Nat :=
  L.stopOf L.stringsSection L.fStringsAtom

namespace Writer
variable {w : Writer} {p : SegmentInfo × SectionInfo}

@[simp] theorem toUInt32_of_lt {n : Nat} (h : n < 2 ^ 32) : toUInt32 n = n :=
  Nat.mod_eq_of_lt h

section Ascends

theorem Ascends.append {l₁ l₂ : List AtomPtr} {e : Nat} (h : w.Ascends p e (l₁ ++ l₂)) :
    w.Ascends p e l₁ ∧ w.Ascends p (l₁.foldl (w.endOf p) e) l₂ := by
  induction l₁ generalizing e with
  | nil => exact ⟨trivial, h⟩
  | cons a l₁ ih =>
    obtain ⟨ha, hrest⟩ := h
    obtain ⟨hl₁, hl₂⟩ := ih hrest
    exact ⟨⟨ha, hl₁⟩, hl₂⟩

variable {l : List AtomPtr} {e : Nat}

theorem Ascends.le_end (h : w.Ascends p e l) : e ≤ l.foldl (w.endOf p) e := by
  induction l generalizing e with
  | nil => exact Nat.le_refl e
  | cons a l ih =>
    apply Nat.le_trans _ (ih h.2)
    unfold endOf stopOf
    split
    · rename_i hw
      have := (h.1 hw).1
      omega
    · exact Nat.le_refl e

theorem Ascends.of_mem (h : w.Ascends p e l) {b : AtomPtr} (hb : b ∈ l) (hw : w.isWritten b) :
    e ≤ w.startOf p b ∧ w.stopOf p b < 2 ^ 32 ∧ w.stopOf p b ≤ l.foldl (w.endOf p) e := by
  obtain ⟨l₁, l₂, rfl⟩ := append_of_mem hb
  obtain ⟨h₁, h₂⟩ := h.append
  obtain ⟨hstart, hfits⟩ := h₂.1 hw
  refine ⟨Nat.le_trans h₁.le_end hstart, hfits, ?_⟩
  have hend := h₂.2.le_end
  rw [foldl_append, foldl_cons]
  rw [endOf, if_pos hw] at hend
  rw [endOf, if_pos hw]
  exact hend

theorem exists_gap_of_not_abuts (h : ¬ w.Abuts p e l) :
    ∃ l₁ a l₂, l = l₁ ++ a :: l₂ ∧ w.isWritten a ∧
      w.startOf p a ≠ l₁.foldl (w.endOf p) e := by
  induction l generalizing e with
  | nil => exact absurd trivial h
  | cons a l ih =>
    by_cases ha : w.isWritten a → w.startOf p a = e
    · obtain ⟨l₁, b, l₂, hl, hb, hgap⟩ := ih fun hl => h ⟨ha, hl⟩
      exact ⟨a :: l₁, b, l₂, by rw [hl, cons_append], hb, hgap⟩
    · rw [Classical.not_imp] at ha
      exact ⟨[], a, l, rfl, ha.1, ha.2⟩

end Ascends

section Steps

variable {streaming nops : Bool} {out out' : Output}

variable {a : AtomPtr}
variable {l : List AtomPtr}

theorem writeAtom_ok (hw : w.isWritten a) (hfits : w.stopOf p a < 2 ^ 32)
    (h : w.writeAtom streaming nops p.2 out a = .ok out') :
    ∃ content, w.fixedUpContent a = .ok content ∧
      out' = { bytes := writeAt
                 (w.fillGap streaming nops out.bytes out.fileEnd (w.startOf p a))
                 (w.startOf p a) content,
               fileEnd := w.stopOf p a,
               size := if streaming then out.size else max out.size (w.stopOf p a) } := by
  unfold writeAtom at h
  have hstart : toUInt32 (p.2.fFileOffset + w.getSectionOffset a) = w.startOf p a := by
    apply toUInt32_of_lt
    unfold stopOf startOf at hfits
    omega
  have hstop : toUInt32 (w.startOf p a + (w.objs.atom a).getSize) = w.stopOf p a :=
    toUInt32_of_lt hfits
  rw [if_neg (not_not_intro hw)] at h
  simp only [hstart, hstop] at h
  split at h
  · cases h
  split at h
  · cases h
  split at h
  · cases h
  rename_i content hcontent
  refine ⟨content, hcontent, ?_⟩
  rw [← Except.ok.inj h]
  congr 1
  cases streaming with
  | true => rfl
  | false =>
    split
    · rename_i hlt
      exact (Nat.max_eq_right (Nat.le_of_lt hlt.2)).symm
    rename_i hlt
    apply (Nat.max_eq_left _).symm
    exact Nat.le_of_not_lt fun h => hlt ⟨Bool.false_ne_true, h⟩

theorem writeAtom_skip (hw : ¬ w.isWritten a) : w.writeAtom streaming nops p.2 out a = .ok out :=
  if_pos hw

/-- The bytes below the end stay, and nothing shrinks. -/
structure Extends (out out' : Output) : Prop where
  fileEnd_le : out.fileEnd ≤ out'.fileEnd
  bytes_eq : ∀ i < out.fileEnd, out'.bytes.getD i 0 = out.bytes.getD i 0

theorem Extends.refl (out : Output) : Extends out out :=
  ⟨Nat.le_refl _, fun _ _ => rfl⟩

theorem Extends.trans {out₁ out₂ out₃ : Output} (h₁ : Extends out₁ out₂)
    (h₂ : Extends out₂ out₃) : Extends out₁ out₃ where
  fileEnd_le := Nat.le_trans h₁.fileEnd_le h₂.fileEnd_le
  bytes_eq := by
    intro i hi
    rw [h₂.bytes_eq i (Nat.lt_of_lt_of_le hi h₁.fileEnd_le), h₁.bytes_eq i hi]

theorem getD_fillGap_of_lt (bytes : List UInt8) {start stop i : Nat} (hi : i < start) :
    (w.fillGap streaming nops bytes start stop).getD i 0 = bytes.getD i 0 := by
  unfold fillGap
  split
  · rfl
  split
  · split
    · exact getD_writeRepeated_of_gt _ _ hi
    · exact getD_writeRepeated_of_gt _ _ hi
  split
  · unfold writeZeros
    split
    · rw [getD_writeAt, if_neg (by omega)]
    · exact getD_writeRepeated_of_gt _ _ hi
  · rfl

theorem length_le_fillGap (bytes : List UInt8) (start stop : Nat) :
    bytes.length ≤ (w.fillGap streaming nops bytes start stop).length := by
  unfold fillGap
  split
  · exact Nat.le_refl _
  split
  · split
    · exact length_le_writeRepeated _ _ _ _
    · exact length_le_writeRepeated _ _ _ _
  split
  · unfold writeZeros
    split
    · exact length_le_writeAt _ _ _
    · exact length_le_writeRepeated _ _ _ _
  · exact Nat.le_refl _

theorem writeAtom_extends (hasc : w.Ascends p out.fileEnd (a :: l))
    (h : w.writeAtom streaming nops p.2 out a = .ok out') :
    Extends out out' ∧ out'.fileEnd = w.endOf p out.fileEnd a := by
  by_cases hw : w.isWritten a
  · obtain ⟨hle, hfits⟩ := hasc.1 hw
    obtain ⟨content, -, rfl⟩ := writeAtom_ok hw hfits h
    refine ⟨⟨?_, ?_⟩, by rw [endOf, if_pos hw]⟩
    · exact Nat.le_trans hle (Nat.le_add_right _ _)
    · intro i hi
      rw [getD_writeAt, if_neg (by omega), getD_fillGap_of_lt _ hi]
  · rw [writeAtom_skip hw] at h
    rw [← Except.ok.inj h, endOf, if_neg hw]
    exact ⟨Extends.refl out, rfl⟩

theorem writeAtoms_extends (hasc : w.Ascends p out.fileEnd l)
    (h : l.foldlM (w.writeAtom streaming nops p.2) out = .ok out') :
    Extends out out' ∧ out'.fileEnd = l.foldl (w.endOf p) out.fileEnd := by
  induction l generalizing out with
  | nil =>
    obtain rfl := foldlM_nil_ok.mp h
    exact ⟨Extends.refl out, rfl⟩
  | cons a l ih =>
    obtain ⟨out₁, h₁, h₂⟩ := foldlM_cons_ok.mp h
    obtain ⟨hext, hend⟩ := writeAtom_extends hasc h₁
    have hrest := hasc.2
    rw [← hend] at hrest
    obtain ⟨hext', hend'⟩ := ih hrest h₂
    exact ⟨hext.trans hext', by rw [hend', hend, foldl_cons]⟩

theorem writeContent_extends (hasc : w.Ascends p p.2.fFileOffset p.2.fAtoms)
    (hoff : p.2.fFileOffset < 2 ^ 32) (hle : out.fileEnd ≤ p.2.fFileOffset)
    (h : w.writeContent streaming out p = .ok out') :
    Extends out out' ∧ out'.fileEnd = w.sectionEnd p := by
  unfold writeContent at h
  rw [toUInt32_of_lt hoff] at h
  obtain ⟨hext, hend⟩ := writeAtoms_extends (by exact hasc) h
  have hjump : Extends out { out with fileEnd := p.2.fFileOffset } := ⟨hle, fun _ _ => rfl⟩
  exact ⟨hjump.trans hext, hend⟩

end Steps
end Writer

namespace Layout
open Writer
variable (L : Layout)
variable {out out' : Output} {p : SegmentInfo × SectionInfo} {streaming : Bool}

theorem writeSections_extends {S : List (SegmentInfo × SectionInfo)} (hS : S.Sublist L.fileSections)
    (hle : ∀ p ∈ S, out.fileEnd ≤ p.2.fFileOffset)
    (h : S.foldlM (L.writeContent streaming) out = .ok out') : Extends out out' := by
  induction S generalizing out with
  | nil =>
    obtain rfl := foldlM_nil_ok.mp h
    exact Extends.refl out
  | cons p S ih =>
    obtain ⟨out₁, h₁, h₂⟩ := foldlM_cons_ok.mp h
    have hp := hS.subset mem_cons_self
    obtain ⟨hext, hend⟩ := writeContent_extends (L.atoms_ascend p hp) (L.offsets_fit p hp)
      (hle p mem_cons_self) h₁
    refine hext.trans (ih ((sublist_cons_self p S).trans hS) ?_ h₂)
    intro q hq
    rw [hend]
    exact rel_of_pairwise_cons (L.sections_ascend.sublist hS) hq

theorem writeSegments_eq (streaming : Bool) (out : Output) :
    L.fSegmentInfos.foldlM (L.writeSegment streaming) out =
      L.fileSections.foldlM (L.writeContent streaming) out := by
  unfold Writer.fileSections Writer.sections
  rw [foldlM_filter, foldlM_flatMap]
  congr 1
  funext out segment
  rw [foldlM_map]
  unfold writeSegment writeSection
  congr 1
  funext out sect
  simp only [decide_eq_true_eq]
  rfl

variable {a : AtomPtr}

theorem stop_le_lastEnd (hp : p ∈ L.fileSections)
    (ha : a ∈ p.2.fAtoms) (hw : L.isWritten a) : L.stopOf p a ≤ L.lastEnd :=
  L.strings_last p hp a ha hw

theorem stop_fits (hp : p ∈ L.fileSections)
    (ha : a ∈ p.2.fAtoms) (hw : L.isWritten a) : L.stopOf p a < 2 ^ 32 :=
  ((L.atoms_ascend p hp).of_mem ha hw).2.1

/-- The buffer's size counter and the bytes written reach the end of the string pool. -/
structure Reaches (streaming : Bool) (out : Output) : Prop where
  length : L.lastEnd ≤ out.bytes.length
  size : streaming = false → L.lastEnd ≤ out.size

theorem writeAtom_reaches {streaming nops : Bool}
    (h : L.writeAtom streaming nops L.stringsSection.2 out L.fStringsAtom = .ok out') :
    L.Reaches streaming out' := by
  obtain ⟨hp, ha, hw, hpos⟩ := L.strings_placed
  obtain ⟨content, hcontent, rfl⟩ := writeAtom_ok hw (L.stop_fits hp ha hw) h
  have hlen := L.content_length _ _ hcontent
  constructor
  · have hne : content ≠ [] := by
      rintro rfl
      rw [length_nil] at hlen
      omega
    rw [length_writeAt _ _ hne, hlen]
    exact Nat.le_max_right _ _
  · rintro rfl
    exact Nat.le_max_right _ _

theorem Reaches.writeAtom {streaming nops : Bool}
    (hreach : L.Reaches streaming out) (hp : p ∈ L.fileSections) (ha : a ∈ p.2.fAtoms)
    (h : L.writeAtom streaming nops p.2 out a = .ok out') : L.Reaches streaming out' := by
  by_cases hw : L.isWritten a
  · obtain ⟨content, -, rfl⟩ := writeAtom_ok hw (L.stop_fits hp ha hw) h
    constructor
    · exact Nat.le_trans hreach.length
        (Nat.le_trans (length_le_fillGap _ _ _) (length_le_writeAt _ _ _))
    · rintro rfl
      exact Nat.le_trans (hreach.size rfl) (Nat.le_max_left _ _)
  · rw [writeAtom_skip hw] at h
    rw [← Except.ok.inj h]
    exact hreach

theorem writeSections_reaches
    (h : L.fileSections.foldlM (L.writeContent streaming) out = .ok out') :
    L.Reaches streaming out' := by
  refine foldlM_establishes L.strings_placed.1 ?_ ?_ h
  · intro u v hv
    refine foldlM_establishes L.strings_placed.2.1 ?_ ?_ hv
    · intro u v hv
      exact L.writeAtom_reaches hv
    · intro u b v hb hu hv
      exact Reaches.writeAtom L hu L.strings_placed.1 hb hv
  · intro u p v hp hu hv
    refine foldlM_invariant ?_ ?_ hv
    · intro u b v hb hu hv
      exact Reaches.writeAtom L hu hp hb hv
    · exact ⟨hu.length, hu.size⟩

theorem writeSections_size_le (hout : out.size ≤ L.lastEnd)
    (h : L.fileSections.foldlM (L.writeContent streaming) out = .ok out') :
    out'.size ≤ L.lastEnd := by
  refine foldlM_invariant (P := fun o => o.size ≤ L.lastEnd) ?_ hout h
  intro u p v hp hu hv
  refine foldlM_invariant (P := fun o => o.size ≤ L.lastEnd) ?_ (by exact hu) hv
  intro u a v ha hu hv
  by_cases hw : L.isWritten a
  · obtain ⟨content, -, rfl⟩ := writeAtom_ok hw (L.stop_fits hp ha hw) hv
    change (if streaming = true then u.size else max u.size (L.stopOf p a)) ≤ L.lastEnd
    have := L.stop_le_lastEnd hp ha hw
    split <;> omega
  · rw [writeAtom_skip hw] at hv
    rw [← Except.ok.inj hv]
    exact hu

end Layout
end Toolwhip.Ld64
