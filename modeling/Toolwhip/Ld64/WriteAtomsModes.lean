import Toolwhip.Ld64.WriteAtoms

/-! # The two modes of writeAtoms

The image is the file as it is meant: atoms, and between them no-ops or zeros.
Both modes produce it, except on arm where their no-ops differ. -/

namespace Toolwhip.Ld64
open Lib.ByteBuffer Lib.ThrowingFold List
set_option autoImplicit false

namespace Writer
variable (w : Writer)

def noOps (n : Nat) : List UInt8 :=
  (List.range n).map fun k =>
    (copiedNoOp w.arch).getD (k % (copiedNoOp w.arch).length) 0

def gapFill (nops : Bool) (n : Nat) : List UInt8 :=
  if nops then w.noOps n else List.replicate n 0

def contentOf (a : AtomPtr) : List UInt8 :=
  match w.fixedUpContent a with
  | .ok content => content
  | .error _ => []

def imageAtom (p : SegmentInfo × SectionInfo) (img : List UInt8) (a : AtomPtr) : List UInt8 :=
  if w.isWritten a then
    img ++ w.gapFill (needsNops p.1 p.2) (w.startOf p a - img.length) ++ w.contentOf a
  else img

def imageSection (img : List UInt8) (p : SegmentInfo × SectionInfo) : List UInt8 :=
  p.2.fAtoms.foldl (w.imageAtom p) (img ++ List.replicate (p.2.fFileOffset - img.length) 0)

def image : List UInt8 :=
  w.fileSections.foldl w.imageSection []

/-- The output is the image so far, followed by zeros. -/
structure Matches (out : Output) (img : List UInt8) : Prop where
  fileEnd_eq : out.fileEnd = img.length
  bytes_eq : ∀ i, out.bytes.getD i 0 = img.getD i 0

variable {w}

theorem noOp_of_ne_arm {arch : Architecture} (h : arch ≠ .arm) :
    writtenNoOp arch = copiedNoOp arch ∧ 0 < (copiedNoOp arch).length ∧
      ∀ k, 0 < k → (copiedNoOp arch).getD k 0 = 0 := by
  have hword : ∀ k, 0 < k → ([0x60, 0, 0, 0] : List UInt8).getD k 0 = 0 := by
    intro k hk
    match k, hk with
    | 1, _ | 2, _ | 3, _ => rfl
    | _ + 4, _ => rfl
  have hbyte : ∀ k, 0 < k → ([0x90] : List UInt8).getD k 0 = 0 := by
    intro k hk
    match k, hk with
    | _ + 1, _ => rfl
  cases arch with
  | arm => exact absurd rfl h
  | ppc => exact ⟨rfl, Nat.succ_pos _, hword⟩
  | ppc64 => exact ⟨rfl, Nat.succ_pos _, hword⟩
  | x86 => exact ⟨rfl, Nat.succ_pos _, hbyte⟩
  | x86_64 => exact ⟨rfl, Nat.succ_pos _, hbyte⟩

theorem getD_append_zero (l m : List UInt8) (i : Nat) :
    (l ++ m).getD i 0 = if i < l.length then l.getD i 0 else m.getD (i - l.length) 0 := by
  simp only [getD_eq_getElem?_getD, getElem?_append]
  split <;> rfl

theorem getD_of_length_le {l : List UInt8} {i : Nat} (h : l.length ≤ i) : l.getD i 0 = 0 := by
  rw [getD_eq_getElem?_getD, getElem?_eq_none h, Option.getD_none]

theorem getD_replicate_zero (n i : Nat) : (List.replicate n (0 : UInt8)).getD i 0 = 0 := by
  rw [getD_eq_getElem?_getD, getElem?_replicate]
  split <;> rfl

@[simp] theorem length_gapFill (nops : Bool) (n : Nat) : (w.gapFill nops n).length = n := by
  unfold gapFill noOps
  split
  · rw [length_map, length_range]
  · rw [length_replicate]

section Gap

variable {streaming nops : Bool} {bytes img : List UInt8} {stop : Nat}

theorem getD_writeRepeated_image {unit fill : List UInt8}
    (hm : ∀ i, bytes.getD i 0 = img.getD i 0) (hunit : 0 < unit.length)
    (htail : ∀ k, 0 < k → unit.getD k 0 = 0)
    (hfill : ∀ k, k < stop - img.length → fill.getD k 0 = unit.getD (k % unit.length) 0)
    (hlen : fill.length = stop - img.length) (i : Nat) :
    (writeRepeated unit bytes img.length stop).getD i 0 = (img ++ fill).getD i 0 := by
  rw [getD_append_zero]
  split
  · rename_i hi
    rw [getD_writeRepeated_of_gt _ _ hi, hm]
  rename_i hi
  by_cases hstop : i < stop
  · rw [getD_writeRepeated_of_lt bytes (Nat.le_of_not_lt hi) hstop hunit,
      hfill _ (by omega)]
  rw [getD_of_length_le (by omega : fill.length ≤ i - img.length)]
  rcases getD_writeRepeated_of_ge bytes (Nat.le_of_not_lt hstop) hunit htail with h | h
  · rw [h, hm, getD_of_length_le (by omega)]
  · exact h

theorem getD_zeroFill (hm : ∀ i, bytes.getD i 0 = img.getD i 0) (n i : Nat) :
    bytes.getD i 0 = (img ++ List.replicate n 0).getD i 0 := by
  rw [getD_append_zero, hm, getD_replicate_zero]
  split
  · rfl
  rename_i hi
  exact getD_of_length_le (Nat.le_of_not_lt hi)

theorem getD_fillGap (hm : ∀ i, bytes.getD i 0 = img.getD i 0)
    (hquiet : nops = true → w.arch = .arm → stop = img.length) (i : Nat) :
    (w.fillGap streaming nops bytes img.length stop).getD i 0 =
      (img ++ w.gapFill nops (stop - img.length)).getD i 0 := by
  unfold fillGap
  split
  · have hnil : w.gapFill nops (stop - img.length) = [] := by
      apply eq_nil_of_length_eq_zero
      rw [length_gapFill]
      omega
    rw [hnil, append_nil, hm]
  rename_i hne
  split
  · rename_i hnops
    have harch : w.arch ≠ .arm := fun harm => hne (hquiet hnops harm)
    obtain ⟨hsame, hunit, htail⟩ := noOp_of_ne_arm harch
    have hfill : ∀ k, k < stop - img.length → (w.gapFill nops (stop - img.length)).getD k 0 =
        (copiedNoOp w.arch).getD (k % (copiedNoOp w.arch).length) 0 := by
      intro k hk
      rw [gapFill, if_pos hnops, noOps]
      simp only [getD_eq_getElem?_getD, getElem?_map, getElem?_range hk,
        Option.map_some, Option.getD_some]
    unfold writeNoOps copyNoOps
    rw [hsame, ite_self]
    exact getD_writeRepeated_image hm hunit htail hfill (length_gapFill _ _) i
  · rename_i hnops
    have hzero : w.gapFill nops (stop - img.length) = List.replicate (stop - img.length) 0 := by
      rw [gapFill, if_neg hnops]
    rw [hzero]
    split
    · unfold writeZeros
      split
      · rw [← getD_zeroFill hm, getD_writeAt]
        split
        · rename_i hi
          rw [hm, getD_of_length_le hi.1]
          exact getD_replicate_zero 4 _
        · rfl
      · have hunit : 0 < ([0] : List UInt8).length := Nat.succ_pos 0
        refine getD_writeRepeated_image hm hunit ?_ ?_ length_replicate i
        · intro k hk
          exact getD_replicate_zero 1 k
        · intro k _
          rw [getD_replicate_zero]
          exact (getD_replicate_zero 1 _).symm
    · exact getD_zeroFill hm _ i

end Gap

section Steps

variable {streaming : Bool} {p : SegmentInfo × SectionInfo} {out out' : Output}
  {img : List UInt8}

section
variable
    (hcontent : ∀ a content, w.fixedUpContent a = .ok content → content.length = (w.objs.atom a).getSize)
variable {l : List AtomPtr}
include hcontent

theorem writeAtom_matches (hm : Matches out img) {a : AtomPtr}
    (hasc : w.Ascends p out.fileEnd (a :: l))
    (hquiet : needsNops p.1 p.2 = true → w.arch = .arm → w.Abuts p out.fileEnd (a :: l))
    (h : w.writeAtom streaming (needsNops p.1 p.2) p.2 out a = .ok out') :
    Matches out' (w.imageAtom p img a) := by
  unfold imageAtom
  by_cases hw : w.isWritten a
  · obtain ⟨hle, hfits⟩ := hasc.1 hw
    obtain ⟨content, hc, rfl⟩ := writeAtom_ok hw hfits h
    have hlen := hcontent a content hc
    have hcontentOf : w.contentOf a = content := by
      rw [contentOf, hc]
    rw [hm.fileEnd_eq] at hle hquiet
    rw [if_pos hw, hcontentOf]
    have hstart : (img ++ w.gapFill (needsNops p.1 p.2) (w.startOf p a - img.length)).length =
        w.startOf p a := by
      rw [length_append, length_gapFill]
      omega
    constructor
    · rw [length_append, hstart, hlen]
      rfl
    · intro i
      rw [hm.fileEnd_eq, getD_writeAt, getD_append_zero, hstart,
        getD_fillGap hm.bytes_eq fun hn harm => (hquiet hn harm).1 hw]
      split
      · rw [if_neg (by omega)]
      split
      · rfl
      · rw [getD_of_length_le (by omega), getD_of_length_le (by omega)]
  · rw [writeAtom_skip hw] at h
    rw [← Except.ok.inj h, if_neg hw]
    exact hm

theorem writeAtoms_match
    (hm : Matches out img) (hasc : w.Ascends p out.fileEnd l)
    (hquiet : needsNops p.1 p.2 = true → w.arch = .arm → w.Abuts p out.fileEnd l)
    (h : l.foldlM (w.writeAtom streaming (needsNops p.1 p.2) p.2) out = .ok out') :
    Matches out' (l.foldl (w.imageAtom p) img) := by
  induction l generalizing out img with
  | nil =>
    obtain rfl := foldlM_nil_ok.mp h
    exact hm
  | cons a l ih =>
    obtain ⟨out₁, h₁, h₂⟩ := foldlM_cons_ok.mp h
    have hend := (writeAtom_extends hasc h₁).2
    refine ih (writeAtom_matches hcontent hm hasc hquiet h₁) ?_ ?_ h₂
    · rw [hend]
      exact hasc.2
    · rw [hend]
      exact fun hn harm => (hquiet hn harm).2

theorem writeContent_matches (hm : Matches out img) (hasc : w.Ascends p p.2.fFileOffset p.2.fAtoms)
    (hoff : p.2.fFileOffset < 2 ^ 32) (hle : out.fileEnd ≤ p.2.fFileOffset)
    (hquiet : needsNops p.1 p.2 = true → w.arch = .arm →
      w.Abuts p p.2.fFileOffset p.2.fAtoms) (h : w.writeContent streaming out p = .ok out') :
    Matches out' (w.imageSection img p) := by
  unfold writeContent at h
  rw [toUInt32_of_lt hoff] at h
  have hjump : Matches { out with fileEnd := p.2.fFileOffset }
      (img ++ List.replicate (p.2.fFileOffset - img.length) 0) := by
    constructor
    · rw [hm.fileEnd_eq] at hle
      rw [length_append, length_replicate]
      simp only
      omega
    · exact getD_zeroFill hm.bytes_eq _
  exact writeAtoms_match hcontent hjump (by exact hasc) (by exact hquiet) h

end

end Steps
end Writer

namespace Layout
open Writer
variable {L : Layout}
variable {streaming : Bool}

theorem writeSections_match {S : List (SegmentInfo × SectionInfo)}
    (hS : S.Sublist L.fileSections) (hfree : L.arch = .arm → L.NoOpFree) {out out' : Output}
    {img : List UInt8} (hm : Matches out img) (hle : ∀ p ∈ S, out.fileEnd ≤ p.2.fFileOffset)
    (h : S.foldlM (L.writeContent streaming) out = .ok out') :
    Matches out' (S.foldl L.imageSection img) := by
  induction S generalizing out img with
  | nil =>
    obtain rfl := foldlM_nil_ok.mp h
    exact hm
  | cons p S ih =>
    obtain ⟨out₁, h₁, h₂⟩ := foldlM_cons_ok.mp h
    have hp := hS.subset mem_cons_self
    have hlep := hle p mem_cons_self
    have hm₁ := writeContent_matches L.content_length hm (L.atoms_ascend p hp)
      (L.offsets_fit p hp) hlep (fun hn harm => hfree harm p hp hn) h₁
    have hend := (writeContent_extends (L.atoms_ascend p hp) (L.offsets_fit p hp) hlep h₁).2
    refine ih ((sublist_cons_self p S).trans hS) hm₁ ?_ h₂
    intro q hq
    rw [hend]
    exact rel_of_pairwise_cons (L.sections_ascend.sublist hS) hq

theorem startOutput_matches (streaming : Bool) : Matches (L.startOutput streaming) [] := by
  refine ⟨rfl, fun i => ?_⟩
  cases streaming with
  | true => rfl
  | false => exact getD_replicate_zero _ i

theorem writeAtoms_ok {host : Host} {r : List UInt8 × Nat}
    (h : L.writeAtoms host streaming = .ok r) :
    ∃ out, L.fileSections.foldlM (L.writeContent streaming) (L.startOutput streaming) = .ok out ∧
      L.lastEnd ≤ out.bytes.length ∧ (streaming = false → out.size = L.lastEnd) ∧
      r.1.take L.lastEnd = (L.updateUUID host streaming out).bytes.take L.lastEnd := by
  unfold writeAtoms at h
  split at h
  · cases h
  split at h
  · cases h
  obtain ⟨out, hout, hr⟩ := bind_eq_ok.mp h
  rw [writeSegments_eq] at hout
  have hreach := L.writeSections_reaches hout
  have hsize : out.size ≤ L.lastEnd := L.writeSections_size_le (Nat.zero_le _) hout
  refine ⟨out, hout, hreach.length, ?_, ?_⟩
  · intro hs
    exact Nat.le_antisymm hsize (hreach.size hs)
  · rw [← Except.ok.inj hr]
    cases streaming with
    | true => rfl
    | false =>
      have hkeep : (L.updateUUID host false out).size = out.size := by
        unfold updateUUID
        split <;> rfl
      have hle := hreach.size rfl
      simp only [Bool.false_eq_true, if_false, hkeep, take_take]
      rw [Nat.min_eq_left hle]

end Layout
/-! ## When the two modes agree

A no-op gap on arm starts with a byte that nothing written later covers. The UUID
of an unbuffered file is not computed from the file. -/

open Writer

theorem Writer.writeAtom_gap {w : Writer} {p : SegmentInfo × SectionInfo} {streaming : Bool}
    {out out' : Output} {a : AtomPtr} (harm : w.arch = .arm) (hw : w.isWritten a)
    (hfits : w.stopOf p a < 2 ^ 32) (hgap : out.fileEnd < w.startOf p a)
    (h : w.writeAtom streaming true p.2 out a = .ok out') :
    out'.bytes.getD out.fileEnd 0 = if streaming then 0 else 0xe1 := by
  obtain ⟨content, -, rfl⟩ := writeAtom_ok hw hfits h
  rw [getD_writeAt, if_neg (by omega), fillGap, if_neg (by omega), if_pos rfl]
  rw [harm]
  cases streaming with
  | true =>
    have hunit : 0 < (writtenNoOp .arm).length := Nat.succ_pos 3
    refine (getD_writeRepeated_of_lt _ (Nat.le_refl _) hgap hunit).trans ?_
    rw [Nat.sub_self]
    rfl
  | false =>
    have hunit : 0 < (copiedNoOp .arm).length := Nat.succ_pos 3
    refine (getD_writeRepeated_of_lt _ (Nat.le_refl _) hgap hunit).trans ?_
    rw [Nat.sub_self]
    rfl

namespace Layout
variable {L : Layout}
variable {streaming : Bool} {out : Output} {host : Host}

section Gap

variable {p : SegmentInfo × SectionInfo} (hp : p ∈ L.fileSections) {l₁ l₂ : List AtomPtr}
  {a : AtomPtr} (hsplit : p.2.fAtoms = l₁ ++ a :: l₂) (hw : L.isWritten a)

include hp hsplit hw

theorem gap_lt (hgap : L.startOf p a ≠ l₁.foldl (L.endOf p) p.2.fFileOffset) :
    l₁.foldl (L.endOf p) p.2.fFileOffset < L.startOf p a := by
  have hasc := L.atoms_ascend p hp
  rw [hsplit] at hasc
  exact Nat.lt_of_le_of_ne (hasc.append.2.1 hw).1 hgap.symm

theorem outside_gap {q : SegmentInfo × SectionInfo} (hq : q ∈ L.fileSections) {b : AtomPtr}
    (hb : b ∈ q.2.fAtoms) (hwb : L.isWritten b) :
    L.stopOf q b ≤ l₁.foldl (L.endOf p) p.2.fFileOffset ∨ L.startOf p a ≤ L.startOf q b := by
  have hasc := L.atoms_ascend p hp
  have haAsc := hasc.of_mem (b := a) (by rw [hsplit]; simp) hw
  have hbAsc := (L.atoms_ascend q hq).of_mem hb hwb
  have hstop : L.startOf p a ≤ L.stopOf p a := Nat.le_add_right _ _
  obtain ⟨S₁, S₂, hS⟩ := append_of_mem hp
  have hpair := L.sections_ascend
  rw [hS] at hq hpair
  obtain ⟨-, hpS₂, hbefore⟩ := List.pairwise_append.mp hpair
  rw [hsplit] at hasc
  obtain ⟨hasc₁, hascRest⟩ := hasc.append
  rcases List.mem_append.mp hq with hq | hq
  · left
    have hend : L.sectionEnd q ≤ p.2.fFileOffset := hbefore q hq p mem_cons_self
    exact Nat.le_trans hbAsc.2.2 (Nat.le_trans hend hasc₁.le_end)
  rcases List.mem_cons.mp hq with rfl | hq
  · rw [hsplit] at hb
    rcases List.mem_append.mp hb with hb | hb
    · exact Or.inl (hasc₁.of_mem hb hwb).2.2
    right
    rcases List.mem_cons.mp hb with rfl | hb
    · exact Nat.le_refl _
    have hrest := hascRest.2
    rw [endOf, if_pos hw] at hrest
    exact Nat.le_trans hstop (hrest.of_mem hb hwb).1
  · right
    have hend : L.sectionEnd p ≤ q.2.fFileOffset := rel_of_pairwise_cons hpS₂ hq
    exact Nat.le_trans hstop (Nat.le_trans haAsc.2.2 (Nat.le_trans hend hbAsc.1))

theorem writeSections_gap (harm : L.arch = .arm) (hnops : needsNops p.1 p.2 = true)
    (hgap : L.startOf p a ≠ l₁.foldl (L.endOf p) p.2.fFileOffset) {streaming : Bool}
    {start out : Output} (h : L.fileSections.foldlM (L.writeContent streaming) start = .ok out) :
    out.bytes.getD (l₁.foldl (L.endOf p) p.2.fFileOffset) 0 = if streaming then 0 else 0xe1 := by
  have hlt := gap_lt hp hsplit hw hgap
  have hasc := L.atoms_ascend p hp
  have hoff := L.offsets_fit p hp
  obtain ⟨S₁, S₂, hS⟩ := append_of_mem hp
  rw [hS] at h
  obtain ⟨out₁, -, h⟩ := foldlM_append_ok.mp h
  obtain ⟨out₂, h₂, h₃⟩ := foldlM_cons_ok.mp h
  -- The sections behind this one start behind the gap.
  have hext₃ : Extends out₂ out := by
    refine L.writeSections_extends ?_ ?_ h₃
    · rw [hS]
      exact (sublist_cons_self p S₂).trans (sublist_append_right S₁ _)
    · intro q hq
      have hpair := L.sections_ascend
      rw [hS] at hpair
      unfold writeContent at h₂
      rw [toUInt32_of_lt hoff] at h₂
      rw [(writeAtoms_extends (by exact hasc) h₂).2]
      exact rel_of_pairwise_cons (List.pairwise_append.mp hpair).2.1 hq
  unfold writeContent at h₂
  rw [toUInt32_of_lt hoff, hsplit, hnops] at h₂
  rw [hsplit] at hasc
  obtain ⟨hasc₁, hascRest⟩ := hasc.append
  obtain ⟨out₃, h₃, h₄⟩ := foldlM_append_ok.mp h₂
  obtain ⟨out₄, h₄, h₅⟩ := foldlM_cons_ok.mp h₄
  have hend₃ := (writeAtoms_extends (by exact hasc₁) h₃).2
  rw [← hend₃] at hlt hascRest ⊢
  have hfits := (hascRest.1 hw).2
  have hbyte := writeAtom_gap harm hw hfits hlt h₄
  have hend₄ := (writeAtom_extends hascRest h₄).2
  have hrest := hascRest.2
  rw [← hend₄] at hrest
  have hext₅ := (writeAtoms_extends hrest h₅).1
  have hgt : out₃.fileEnd < out₄.fileEnd := by
    rw [hend₄, endOf, if_pos hw]
    exact Nat.lt_of_lt_of_le hlt (Nat.le_add_right _ _)
  rw [hext₃.bytes_eq _ (Nat.lt_of_lt_of_le hgt hext₅.fileEnd_le), hext₅.bytes_eq _ hgt, hbyte]

end Gap

theorem updateUUID_bytes_of_ne
    (h : L.getUUIDMode ≠ .kUUIDContent) : (L.updateUUID host streaming out).bytes = out.bytes := by
  rw [updateUUID, if_neg h]

theorem length_uuidCommand (arch : Architecture) (d : Digest) :
    (uuidCommand arch d).length = 24 := by
  unfold uuidCommand
  simp only [length_append, d.length_eq]
  split <;> rfl

theorem uuidCommand_injective {arch : Architecture} {d d' : Digest}
    (h : uuidCommand arch d = uuidCommand arch d') : d = d' := by
  have hbytes := append_cancel_left h
  cases d
  cases d'
  subst hbytes
  rfl

theorem getD_updateUUID (h : L.getUUIDMode = .kUUIDContent) (i : Nat) :
    (L.updateUUID host streaming out).bytes.getD i 0 =
      if L.uuidOffset ≤ i ∧ i < L.uuidOffset + 24 then
        (uuidCommand L.arch (contentDigest host streaming out)).getD (i - L.uuidOffset) 0
      else out.bytes.getD i 0 := by
  rw [updateUUID, if_pos h]
  rw [getD_writeAt, length_uuidCommand]

theorem length_updateUUID (host : Host) (streaming : Bool) (out : Output) :
    out.bytes.length ≤ (L.updateUUID host streaming out).bytes.length := by
  unfold updateUUID
  split
  · exact length_le_writeAt _ _ _
  · exact Nat.le_refl _

def streamedDigest (host : Host) : Digest :=
  if host.mallocFails then host.uuid_generate_random else host.MD5 []

theorem uuidOffset_eq {segment : SegmentInfo}
    (hmem : (segment, L.uuidSection) ∈ L.fileSections) (ha : L.fUUIDAtom ∈ L.uuidSection.fAtoms)
    (hw : L.isWritten L.fUUIDAtom) :
    L.uuidOffset = L.startOf (segment, L.uuidSection) L.fUUIDAtom := by
  have hfits := L.stop_fits hmem ha hw
  apply toUInt32_of_lt
  unfold stopOf startOf at hfits
  simp only at hfits
  omega

theorem agree_iff_digest {outS outB : Output}
    (hS : L.lastEnd ≤ outS.bytes.length) (hB : L.lastEnd ≤ outB.bytes.length)
    (hsame : ∀ i, outS.bytes.getD i 0 = outB.bytes.getD i 0) :
    (L.updateUUID host true outS).bytes.take L.lastEnd =
        (L.updateUUID host false outB).bytes.take L.lastEnd ↔
      (L.getUUIDMode = .kUUIDContent →
        contentDigest host false outB = contentDigest host true outS) := by
  rw [take_eq_take_iff (Nat.le_trans hS (L.length_updateUUID host true outS))
    (Nat.le_trans hB (L.length_updateUUID host false outB))]
  constructor
  · intro h hmode
    obtain ⟨segment, hmem, ha, hw, hsize⟩ := L.uuid_placed hmode
    have hoffset := uuidOffset_eq hmem ha hw
    have hlast := L.stop_le_lastEnd hmem ha hw
    rw [stopOf, hsize, ← hoffset] at hlast
    refine @uuidCommand_injective L.arch _ _ ?_
    have hlen : ∀ d, (uuidCommand L.arch d).length = 24 := length_uuidCommand L.arch
    rw [← take_of_length_le (Nat.le_of_eq (hlen (contentDigest host false outB))),
      ← take_of_length_le (Nat.le_of_eq (hlen (contentDigest host true outS))),
      take_eq_take_iff (Nat.le_of_eq (hlen _).symm) (Nat.le_of_eq (hlen _).symm)]
    intro i hi
    have hbyte := h (L.uuidOffset + i) (by omega)
    rw [getD_updateUUID hmode, getD_updateUUID hmode, if_pos (by omega), if_pos (by omega),
      Nat.add_sub_cancel_left] at hbyte
    exact hbyte.symm
  · intro h i _
    by_cases hmode : L.getUUIDMode = .kUUIDContent
    · rw [getD_updateUUID hmode, getD_updateUUID hmode, h hmode, hsame i]
    · rw [updateUUID_bytes_of_ne hmode, updateUUID_bytes_of_ne hmode, hsame i]

theorem take_of_matches (hm : Matches out L.image)
    (hlen : L.lastEnd ≤ out.bytes.length) (hend : L.lastEnd ≤ out.fileEnd) :
    out.bytes.take L.lastEnd = L.image.take L.lastEnd := by
  rw [hm.fileEnd_eq] at hend
  exact (take_eq_take_iff hlen hend).mpr fun i _ => hm.bytes_eq i

theorem lastEnd_le_fileEnd {start out : Output}
    (h : L.fileSections.foldlM (L.writeContent streaming) start = .ok out) :
    L.lastEnd ≤ out.fileEnd := by
  obtain ⟨hp, ha, hw, -⟩ := L.strings_placed
  have hstop := ((L.atoms_ascend _ hp).of_mem ha hw).2.2
  obtain ⟨S₁, S₂, hS⟩ := append_of_mem hp
  have hpair := L.sections_ascend
  rw [hS] at h hpair
  obtain ⟨out₁, h₁, h₂⟩ := foldlM_append_ok.mp h
  obtain ⟨out₂, h₂, h₃⟩ := foldlM_cons_ok.mp h₂
  have hend : out₂.fileEnd = L.sectionEnd L.stringsSection := by
    unfold writeContent at h₂
    rw [toUInt32_of_lt (L.offsets_fit _ hp)] at h₂
    exact (writeAtoms_extends (by exact L.atoms_ascend _ hp) h₂).2
  refine Nat.le_trans hstop (Nat.le_trans (Nat.le_of_eq hend.symm) ?_)
  refine (L.writeSections_extends ?_ ?_ h₃).fileEnd_le
  · rw [hS]
    exact (sublist_cons_self _ S₂).trans (sublist_append_right S₁ _)
  · intro q hq
    rw [hend]
    exact rel_of_pairwise_cons (List.pairwise_append.mp hpair).2.1 hq

/-- The two modes write the same file exactly when no gap is filled with arm no-ops
and the UUID, if made from the content, happens to be the one of no content. -/
theorem writeAtoms_modes_agree_iff (L : Layout) (host : Host) {streamed buffered : List UInt8 × Nat}
    (hs : L.writeAtoms host true = .ok streamed) (hb : L.writeAtoms host false = .ok buffered) :
    streamed.1.take L.lastEnd = buffered.1.take L.lastEnd ↔
      (L.arch = .arm → L.NoOpFree) ∧
        (L.getUUIDMode = .kUUIDContent →
          host.MD5 (L.image.take L.lastEnd) = streamedDigest host) := by
  obtain ⟨outS, hS, hlenS, -, htakeS⟩ := writeAtoms_ok hs
  obtain ⟨outB, hB, hlenB, hsizeB, htakeB⟩ := writeAtoms_ok hb
  rw [htakeS, htakeB]
  by_cases hfree : L.arch = .arm → L.NoOpFree
  · have hzero : ∀ streaming, ∀ p ∈ L.fileSections,
        (L.startOutput streaming).fileEnd ≤ p.2.fFileOffset := fun _ _ _ => Nat.zero_le _
    have hmS := writeSections_match (List.Sublist.refl _) hfree (startOutput_matches true)
      (hzero true) hS
    have hmB := writeSections_match (List.Sublist.refl _) hfree (startOutput_matches false)
      (hzero false) hB
    have hsame : ∀ i, outS.bytes.getD i 0 = outB.bytes.getD i 0 := by
      intro i
      rw [hmS.bytes_eq, hmB.bytes_eq]
    have himage : outB.bytes.take outB.size = L.image.take L.lastEnd := by
      rw [hsizeB rfl]
      exact take_of_matches hmB hlenB (lastEnd_le_fileEnd hB)
    have hdigest : contentDigest host false outB = host.MD5 (L.image.take L.lastEnd) := by
      rw [← himage]
      rfl
    rw [agree_iff_digest hlenS hlenB hsame, hdigest]
    exact ⟨fun h => ⟨hfree, h⟩, fun h => h.2⟩
  · refine iff_of_false ?_ fun h => hfree h.1
    rw [Classical.not_imp] at hfree
    obtain ⟨harm, hgaps⟩ := hfree
    unfold NoOpFree at hgaps
    push Not at hgaps
    obtain ⟨p, hp, hnops, habut⟩ := hgaps
    obtain ⟨l₁, a, l₂, hsplit, hw, hgap⟩ := exists_gap_of_not_abuts habut
    have hlt := gap_lt hp hsplit hw hgap
    have ha : a ∈ p.2.fAtoms := by
      rw [hsplit]
      exact mem_append_right _ mem_cons_self
    have hin : l₁.foldl (L.endOf p) p.2.fFileOffset < L.lastEnd := by
      have hlast := L.stop_le_lastEnd hp ha hw
      unfold stopOf at hlast
      omega
    -- The UUID load command is an atom, so it lies outside the gap.
    have hkeep : ∀ streaming out, (L.updateUUID host streaming out).bytes.getD
        (l₁.foldl (L.endOf p) p.2.fFileOffset) 0 =
          out.bytes.getD (l₁.foldl (L.endOf p) p.2.fFileOffset) 0 := by
      intro streaming out
      by_cases hmode : L.getUUIDMode = .kUUIDContent
      · obtain ⟨segment, hmem, hu, hwu, hsize⟩ := L.uuid_placed hmode
        have hoffset := uuidOffset_eq hmem hu hwu
        have hout := outside_gap hp hsplit hw hmem hu hwu
        rw [stopOf, hsize, ← hoffset] at hout
        rw [getD_updateUUID hmode, if_neg (by omega)]
      · rw [updateUUID_bytes_of_ne hmode]
    intro hagree
    have hbytes := (take_eq_take_iff (Nat.le_trans hlenS (L.length_updateUUID host true outS))
      (Nat.le_trans hlenB (L.length_updateUUID host false outB))).mp hagree _ hin
    rw [hkeep, hkeep, writeSections_gap hp hsplit hw harm hnops hgap hS,
      writeSections_gap hp hsplit hw harm hnops hgap hB] at hbytes
    exact absurd hbytes (by decide)

/-- A function of two bytes, one of four behind a gap, and the string pool. -/
def thumbThenArm (arch : Architecture) : Writer where
  objs :=
    { atom := fun a =>
        { getName := none
          getScope := .scopeGlobal
          getDefinitionKind := .kRegularDefinition
          getSize := if a = 1 then 2 else 4 } }
  arch := arch
  getUUIDMode := .kUUIDNone
  getDisplayName := fun _ => ""
  getSectionOffset := fun a => if a = 2 then 4 else 0
  fixedUpContent := fun a => .ok (List.replicate (if a = 1 then 2 else 4) 0x11)
  fSegmentInfos :=
    [⟨"__TEXT", [⟨"__text", false, 0, 8, [1, 2]⟩]⟩, ⟨"__LINKEDIT", [⟨"", false, 8, 4, [3]⟩]⟩]
  fLargestAtomSize := 4
  uuidSection := ⟨"", false, 8, 4, [3]⟩
  fUUIDAtom := 3

def thumbThenArmLayout (arch : Architecture) : Layout where
  toWriter := thumbThenArm arch
  content_length := by
    intro a content h
    rw [← Except.ok.inj h, length_replicate]
    rfl
  atoms_ascend := by
    intro p hp
    change p ∈ [_, _] at hp
    rcases List.mem_pair.mp hp with rfl | rfl
    · refine ⟨fun _ => ?_, fun _ => ?_, trivial⟩
      · exact ⟨Nat.le_of_ble_eq_true rfl, Nat.le_of_ble_eq_true rfl⟩
      · exact ⟨Nat.le_of_ble_eq_true rfl, Nat.le_of_ble_eq_true rfl⟩
    · refine ⟨fun _ => ?_, trivial⟩
      exact ⟨Nat.le_of_ble_eq_true rfl, Nat.le_of_ble_eq_true rfl⟩
  sections_ascend := by
    apply List.pairwise_pair.mpr
    change 8 ≤ 8
    exact Nat.le_refl 8
  offsets_fit := by
    intro p hp
    change p ∈ [_, _] at hp
    rcases List.mem_pair.mp hp with rfl | rfl
    · exact Nat.le_of_ble_eq_true rfl
    · exact Nat.le_of_ble_eq_true rfl
  stringsSection := (⟨"__LINKEDIT", [⟨"", false, 8, 4, [3]⟩]⟩, ⟨"", false, 8, 4, [3]⟩)
  fStringsAtom := 3
  strings_placed :=
    ⟨mem_cons_of_mem _ mem_cons_self, mem_cons_self, rfl, Nat.succ_pos 3⟩
  strings_last := by
    intro p hp a ha _
    change p ∈ [_, _] at hp
    rcases List.mem_pair.mp hp with rfl | rfl
    · rcases List.mem_pair.mp ha with rfl | rfl
      · exact Nat.le_of_ble_eq_true rfl
      · exact Nat.le_of_ble_eq_true rfl
    · rw [List.mem_singleton.mp ha]
  uuid_placed := by
    intro h
    cases h

def anyHost : Host where
  MD5 := fun _ => ⟨List.replicate 16 0, rfl⟩
  uuid_generate_random := ⟨List.replicate 16 0, rfl⟩

theorem writeAtoms_modes_agree_x86 : ∃ streamed buffered,
    (thumbThenArmLayout .x86).writeAtoms anyHost true = .ok streamed ∧
      (thumbThenArmLayout .x86).writeAtoms anyHost false = .ok buffered ∧
        streamed.1.take 12 = buffered.1.take 12 := by
  refine ⟨_, _, rfl, rfl, ?_⟩
  refine (writeAtoms_modes_agree_iff (thumbThenArmLayout .x86) anyHost rfl rfl).mpr ⟨?_, ?_⟩
  · intro h
    cases h
  · intro h
    cases h

theorem writeAtoms_modes_differ_on_arm : ∃ streamed buffered,
    (thumbThenArmLayout .arm).writeAtoms anyHost true = .ok streamed ∧
      (thumbThenArmLayout .arm).writeAtoms anyHost false = .ok buffered ∧
        streamed.1.take (thumbThenArmLayout .arm).lastEnd ≠
          buffered.1.take (thumbThenArmLayout .arm).lastEnd := by
  refine ⟨_, _, rfl, rfl, ?_⟩
  intro h
  have hbyte := congrArg (fun l => l.getD 2 0) h
  exact absurd hbyte (by decide +kernel)

end Layout
end Toolwhip.Ld64
