import Toolwhip.Ld64.ObjectRelocs

/-! # Section differences in object files -/

set_option autoImplicit false

/-! ## arm: Reader<arm>

`content` is the word that an entry points at. -/

namespace Toolwhip.Ld64.Reloc.Arm
open Fixups.Arm (ReferenceKinds ARM_RELOC_VANILLA ARM_RELOC_PAIR ARM_RELOC_SECTDIFF
  ARM_RELOC_LOCAL_SECTDIFF ARM_RELOC_BR24 ARM_THUMB_RELOC_BR22)

/-! ### Displacements -/

/-- The displacement of a branch, from its own address. -/
def branch24 (instruction : BitVec 32) : BitVec 32 :=
  let displacement := (instruction &&& 0x00FFFFFF) <<< 2
  let displacement :=
    if displacement &&& 0x02000000 ≠ 0 then displacement ||| 0xFC000000 else displacement
  -- the pc is 8 bytes further
  let displacement := displacement + 8
  -- BLX adds H
  if instruction &&& 0xFE000000 = 0xFA000000 then
    displacement + (instruction &&& 0x01000000) >>> 23
  else displacement

/-- The target of a branch of two Thumb instructions. -/
def thumbBranch22 (srcAddr instruction : BitVec 32) : BitVec 32 :=
  let displacement := (instruction &&& 0x7FF) <<< 12
  let displacement :=
    if displacement &&& 0x400000 ≠ 0 then displacement ||| 0xFF800000 else displacement
  let displacement := displacement + ((instruction >>> 16) &&& 0x7FF) <<< 1
  -- the pc is 4 bytes further
  let dstAddr := srcAddr + (displacement + 4)
  -- BLX clears the low bits
  if instruction &&& 0xF8000000 = 0xE8000000 then dstAddr &&& 0xFFFFFFFC else dstAddr

section Reader
variable (rd : Reader 32) (sect : Section 32)

def makeReference (kind : ReferenceKinds) (atAddr toAddr : BitVec 32) :
    Except ReadError (Reference ReferenceKinds) :=
  newReference kind (findAtomAndOffset rd.fAddrToAtom atAddr) {}
    (findAtomAndOffset rd.fAddrToAtom toAddr)

def makeReferenceWithToBase (kind : ReferenceKinds) (atAddr toAddr toBaseAddr : BitVec 32) :
    Except ReadError (Reference ReferenceKinds) :=
  newReference kind (findAtomAndOffset rd.fAddrToAtom atAddr) {}
    (findWithBase rd.fAddrToAtom toBaseAddr toAddr)

def makeByNameReference (kind : ReferenceKinds) (atAddr : BitVec 32) (toName : Option String)
    (toOffset : BitVec 32) : Except ReadError (Reference ReferenceKinds) :=
  newReferenceByName kind (findAtomAndOffset rd.fAddrToAtom atAddr) toName toOffset

def targetSymbol (reloc : RelocWords) : Except ReadError (Option Nlist) :=
  if reloc.r_external then
    match rd.fSymbols[reloc.r_symbolnum.toNat]? with
    | none => .error .outOfBounds
    | some sym => .ok (some sym)
  else .ok none

def dtraceOrBranch (srcAddr : BitVec 32) (name : Option String)
    (other : Except ReadError (Decoded ReferenceKinds)) : Except ReadError (Decoded ReferenceKinds) :=
  dtraceOr (findAtomAndOffset rd.fAddrToAtom srcAddr) name
    (dtraceSite .kDtraceProbeSite .kDtraceIsEnabledSite name) other

/-- ARM_RELOC_BR24 and ARM_THUMB_RELOC_BR22 -/
def readBranch (kind kindWeakImport : ReferenceKinds) (reloc : RelocWords) (target : Option Nlist)
    (srcAddr dstAddr : BitVec 32) : Except ReadError (Decoded ReferenceKinds) :=
  match target with
  | some sym =>
    dtraceOrBranch rd srcAddr (some sym.name)
      (addReference (makeByNameReference rd
        (if sym.isWeakImportSymbol then kindWeakImport else kind) srcAddr (some sym.name) dstAddr))
  | none =>
    match (findAtomAndOffset rd.fAddrToAtom dstAddr).atom with
    | none => .error .nullAtom
    | some atom =>
      dtraceOrBranch rd srcAddr atom.getName
        (if atom.getSymbolTableInclusion = .kSymbolTableNotIn ∧ atom.isWeakImportStub then
          addReference (makeReference rd kindWeakImport srcAddr dstAddr)
        else if reloc.r_symbolnum ≠ 0 then addReference (makeReference rd kind srcAddr dstAddr)
        else
          match rd.fAddrToAbsoluteAtom.lookup dstAddr with
          | some pos => addReference (makeByNameReference rd kind srcAddr pos.getName 0)
          | none => .error (.thrown "R_ABS reloc but no absolute symbol at target address"))

def pointerKind : ReferenceKinds :=
  if sect.segname = "__TEXT" then .kReadOnlyPointer else .kPointer

def readVanilla (reloc : RelocWords) (target : Option Nlist) (srcAddr pointerValue : BitVec 32) :
    Except ReadError (Decoded ReferenceKinds) :=
  if reloc.r_length ≠ 2 then .error (.thrown "bad length for ARM_RELOC_VANILLA")
  else
    match target with
    | some sym =>
      addReference (makeByNameReference rd
        (if sym.isWeakImportSymbol then .kPointerWeakImport else pointerKind sect)
        srcAddr (some sym.name) pointerValue)
    | none => addReference (makeReference rd (pointerKind sect) srcAddr pointerValue)

def readPlain (reloc : RelocWords) (content : BitVec 32) :
    Except ReadError (Decoded ReferenceKinds) := do
  let srcAddr := sect.addr + reloc.r_address
  let target ← targetSymbol rd reloc
  if reloc.r_type = ARM_RELOC_BR24 then
    readBranch rd .kBranch24 .kBranch24WeakImport reloc target srcAddr (srcAddr + branch24 content)
  else if reloc.r_type = ARM_THUMB_RELOC_BR22 then
    readBranch rd .kThumbBranch22 .kThumbBranch22WeakImport reloc target srcAddr
      (thumbBranch22 srcAddr content)
  else if reloc.r_type = ARM_RELOC_VANILLA then readVanilla rd sect reloc target srcAddr content
  else .ok { reference := none }

def nextPair (next : RelocWords) : Option (BitVec 32) :=
  if next.sr_type = ARM_RELOC_PAIR then some next.sr_value else none

def readScattered (sreloc next : RelocWords) (content : BitVec 32) :
    Except ReadError (Decoded ReferenceKinds) :=
  let srcAddr := sect.addr + sreloc.sr_address
  let dstAddr := sreloc.sr_value
  let pair := nextPair next
  let added := fun r : Except ReadError (Reference ReferenceKinds) =>
    r.map fun r => ({ reference := some r, skipNext := pair.isSome } : Decoded ReferenceKinds)
  if sreloc.sr_type = ARM_RELOC_VANILLA then
    if sreloc.sr_length ≠ 2 then .error (.thrown "bad length for ARM_RELOC_VANILLA")
    else added (makeReferenceWithToBase rd (pointerKind sect) srcAddr content dstAddr)
  else if sreloc.sr_type = ARM_RELOC_BR24 then
    added (makeReferenceWithToBase rd .kBranch24 srcAddr (srcAddr + branch24 content) dstAddr)
  else if sreloc.sr_type = ARM_THUMB_RELOC_BR22 then
    added (makeReferenceWithToBase rd .kThumbBranch22 srcAddr (thumbBranch22 srcAddr content) dstAddr)
  else if sreloc.sr_type = ARM_RELOC_SECTDIFF ∨ sreloc.sr_type = ARM_RELOC_LOCAL_SECTDIFF then
    match pair with
    | none => .ok { reference := none }
    | some nextRelocValue =>
      if sreloc.sr_length ≠ 2 then .error (.thrown "bad length for ARM_RELOC_SECTDIFF")
      else added (readDifference rd .kPointerDiff srcAddr dstAddr nextRelocValue content)
  else .ok { reference := none, skipNext := pair.isSome }

/-- `next` is the entry that follows. -/
def addRelocReference (reloc next : RelocWords) (content : BitVec 32) :
    Except ReadError (Decoded ReferenceKinds) :=
  if reloc.r_scattered then readScattered rd sect reloc next content
  else readPlain rd sect reloc content

end Reader
end Toolwhip.Ld64.Reloc.Arm

/-! ## SECTDIFF relocations

A difference of two addresses is read into a reference between two atoms. An addend in the
content is put on one of the two sides. -/

namespace Toolwhip.Ld64.Reloc

def entryAt (m : AddrToAtomMap 32) (addr : BitVec 32) : Option (BitVec 32 × Atom) :=
  (m.entries.filter fun it => it.1 ≤ addr).getLast?

/-- The reference goes from the atom at `fromAddr` to the atom at `toAddr`, by its name if that
is how it was made, and the difference of its two sides is `difference`. -/
def Denotes {Kinds : Type} (m : AddrToAtomMap 32) (toAddr fromAddr difference : BitVec 32)
    (r : Reference Kinds) : Prop :=
  ∃ to_ from_ : BitVec 32 × Atom, entryAt m toAddr = some to_ ∧ entryAt m fromAddr = some from_ ∧
    (r.fToTarget.atom = some to_.2 ∨
      r.fToTarget.atom = none ∧ r.fToTargetName = to_.2.getName) ∧
    r.fFromTarget.atom = some from_.2 ∧
    to_.1 + r.fToTarget.offset - (from_.1 + r.fFromTarget.offset) = difference

section Difference
variable {Kinds : Type} {kind : Kinds} {rd : Reader 32} {m : AddrToAtomMap 32}
  {srcAddr dstAddr nextRelocValue content difference : BitVec 32} {r : Reference Kinds}

theorem find_of_entryAt {addr : BitVec 32} {it : BitVec 32 × Atom} (h : entryAt m addr = some it) :
    findAtomAndOffset m addr = { atom := some it.2, offset := addr - it.1 } := by
  unfold entryAt at h
  unfold findAtomAndOffset
  rw [h]
  simp

theorem newReference_sides {at_ fromTarget toTarget : AtomAndOffset} {atom : Atom}
    (hto : toTarget.atom = some atom) (h : newReference kind at_ fromTarget toTarget = .ok r) :
    (r.fToTarget.atom = some atom ∨ r.fToTarget.atom = none ∧ r.fToTargetName = atom.getName) ∧
      r.fFromTarget = fromTarget ∧ r.fToTarget.offset = toTarget.offset := by
  unfold newReference at h
  rw [hto] at h
  cases hat : at_.atom with
  | none =>
    rw [hat] at h
    cases h
  | some src =>
    rw [hat] at h
    simp only at h
    split at h
    · cases h
      exact ⟨Or.inr ⟨rfl, rfl⟩, rfl, rfl⟩
    · cases h
      exact ⟨Or.inl hto, rfl, rfl⟩

theorem from_addend (toKey fromKey : BitVec 32) : toKey + (dstAddr - toKey) -
    (fromKey + (nextRelocValue - fromKey + (dstAddr - content - nextRelocValue))) = content := by
  have hto : toKey + (dstAddr - toKey) = dstAddr := by bv_omega
  have hfrom : fromKey + (nextRelocValue - fromKey + (dstAddr - content - nextRelocValue)) =
      dstAddr - content := by bv_omega
  rw [hto, hfrom]
  bv_omega

theorem readDifference_offsets {to_ from_ : BitVec 32 × Atom} (hto : entryAt m dstAddr = some to_)
    (hfrom : entryAt m nextRelocValue = some from_) (hm : rd.fAddrToAtom = m)
    (h : readDifference rd kind srcAddr dstAddr nextRelocValue content = .ok r) :
    (r.fToTarget.atom = some to_.2 ∨ r.fToTarget.atom = none ∧ r.fToTargetName = to_.2.getName) ∧
      r.fFromTarget.atom = some from_.2 ∧
      to_.1 + r.fToTarget.offset - (from_.1 + r.fFromTarget.offset) = content := by
  unfold readDifference at h
  rw [hm, find_of_entryAt hto, find_of_entryAt hfrom] at h
  simp only at h
  split at h
  · rename_i hsame
    obtain ⟨hatom, hfromTarget, hoffset⟩ := newReference_sides rfl h
    refine ⟨hatom, by rw [hfromTarget], ?_⟩
    rw [hoffset, hfromTarget]
    bv_omega
  split at h
  · obtain ⟨hatom, hfromTarget, hoffset⟩ := newReference_sides rfl h
    refine ⟨hatom, by rw [hfromTarget], ?_⟩
    rw [hoffset, hfromTarget]
    bv_omega
  · obtain ⟨hatom, hfromTarget, hoffset⟩ := newReference_sides rfl h
    refine ⟨hatom, by rw [hfromTarget], ?_⟩
    rw [hoffset, hfromTarget]
    exact from_addend to_.1 from_.1

/-- An entry and its pair are read into a reference, and both of their addresses fall in an
atom. -/
structure Accepts (m : AddrToAtomMap 32) (toAddr fromAddr : BitVec 32)
    (result : Except ReadError (Decoded Kinds)) : Prop where
  reads : ∃ d r, result = .ok d ∧ d.reference = some r
  toAtom : ∃ it, entryAt m toAddr = some it
  fromAtom : ∃ it, entryAt m fromAddr = some it

def Preserves (m : AddrToAtomMap 32) (toAddr fromAddr difference : BitVec 32)
    (result : Except ReadError (Decoded Kinds)) : Prop :=
  Yields result (Denotes m toAddr fromAddr difference)

theorem preserves_iff {result : Except ReadError (Decoded Kinds)} {skipNext : Bool}
    (haccepts : Accepts rd.fAddrToAtom dstAddr nextRelocValue result)
    (hresult : result = (readDifference rd kind srcAddr dstAddr nextRelocValue content).map
      fun r => { reference := some r, skipNext := skipNext }) :
    Preserves rd.fAddrToAtom dstAddr nextRelocValue difference result ↔ difference = content := by
  obtain ⟨⟨d, r, hok, hr⟩, ⟨to_, hto⟩, ⟨from_, hfrom⟩⟩ := haccepts
  unfold Preserves
  rw [yields_iff hok hr]
  have hread : readDifference rd kind srcAddr dstAddr nextRelocValue content = .ok r := by
    rw [hok] at hresult
    cases hdifference : readDifference rd kind srcAddr dstAddr nextRelocValue content with
    | error e =>
      rw [hdifference] at hresult
      cases hresult
    | ok r' =>
      rw [hdifference] at hresult
      cases hresult
      cases hr
      rfl
  obtain ⟨htoSide, hfromSide, heq⟩ := readDifference_offsets hto hfrom rfl hread
  constructor
  · rintro ⟨to', from', hto', hfrom', _, _, hdifference⟩
    obtain rfl := Option.some.inj (hto.symm.trans hto')
    obtain rfl := Option.some.inj (hfrom.symm.trans hfrom')
    exact hdifference.symm.trans heq
  · rintro rfl
    exact ⟨to_, from_, hto, hfrom, htoSide, hfromSide, heq⟩

theorem signExtend_eq_setWidth_iff {c : BitVec 16} :
    c.signExtend 32 = c.setWidth 32 ↔ c.msb = false := by
  constructor
  · intro h
    have hmsb := congrArg BitVec.msb h
    have hzero : (c.setWidth 32).msb = false := by
      rw [BitVec.msb_eq_decide, decide_eq_false_iff_not, BitVec.toNat_setWidth]
      have hlt := c.isLt
      omega
    rw [hzero, BitVec.msb_signExtend] at hmsb
    simpa using hmsb
  · exact BitVec.signExtend_eq_setWidth_of_msb_false

end Difference

/-! ### The readers -/

namespace X86

/-- A scattered difference with its pair, which has this value. -/
structure IsSectDiff (sreloc next : RelocWords) (nextRelocValue : BitVec 32) : Prop where
  scattered : sreloc.r_scattered = true
  type : sreloc.sr_type = GENERIC_RELOC_SECTDIFF ∨ sreloc.sr_type = GENERIC_RELOC_LOCAL_SECTDIFF
  pair : (nextPair next).1 = some nextRelocValue

def encodedDifference (r_length : BitVec 2) (content : BitVec 32) : BitVec 32 :=
  if r_length = 1 then (content.setWidth 16).signExtend 32 else content

variable {rd : Reader 32} {sect : Section 32} {sreloc next : RelocWords}
  {nextRelocValue content : BitVec 32}

theorem preserves_sectDiff_iff (h : IsSectDiff sreloc next nextRelocValue)
    (haccepts : Accepts rd.fAddrToAtom sreloc.sr_value nextRelocValue
      (addRelocReference rd sect sreloc next content)) :
    Preserves rd.fAddrToAtom sreloc.sr_value nextRelocValue
        (encodedDifference sreloc.sr_length content) (addRelocReference rd sect sreloc next content) ↔
      ¬ (sreloc.sr_length = 1 ∧ (content.setWidth 16).msb = true) := by
  have hvanilla : sreloc.sr_type ≠ GENERIC_RELOC_VANILLA := by
    rcases h.type with htype | htype
    · rw [htype]
      decide
    · rw [htype]
      decide
  have hrun : addRelocReference rd sect sreloc next content =
      readScattered rd sect sreloc next content := by
    unfold addRelocReference
    rw [if_pos h.scattered]
  unfold encodedDifference
  by_cases hnarrow : sreloc.sr_length = 1
  · have hresult : addRelocReference rd sect sreloc next content =
        (readDifference rd .kPointerDiff16 (sect.addr + sreloc.sr_address) sreloc.sr_value
          nextRelocValue ((content.setWidth 16).setWidth 32)).map
            fun r => { reference := some r, skipNext := (nextPair next).2 } := by
      rw [hrun]
      unfold readScattered
      simp only [if_neg hvanilla, if_pos h.type, h.pair, if_pos hnarrow]
    rw [preserves_iff haccepts hresult, if_pos hnarrow, signExtend_eq_setWidth_iff]
    simp [hnarrow]
  · by_cases hwide : sreloc.sr_length = 2
    · have hresult : addRelocReference rd sect sreloc next content =
          (readDifference rd .kPointerDiff (sect.addr + sreloc.sr_address) sreloc.sr_value
            nextRelocValue content).map
              fun r => { reference := some r, skipNext := (nextPair next).2 } := by
        rw [hrun]
        unfold readScattered
        simp only [if_neg hvanilla, if_pos h.type, h.pair, if_neg hnarrow, if_pos hwide]
      rw [preserves_iff haccepts hresult, if_neg hnarrow]
      exact iff_of_true rfl fun h => hnarrow h.1
    · obtain ⟨d, r, hok, _⟩ := haccepts.reads
      rw [hrun] at hok
      unfold readScattered at hok
      simp only [if_neg hvanilla, if_pos h.type, h.pair, if_neg hnarrow, if_neg hwide] at hok
      cases hok

end X86

namespace Ppc

structure IsSectDiff (sreloc next : RelocWords) (nextRelocValue : BitVec 32) : Prop where
  scattered : sreloc.r_scattered = true
  type : sreloc.sr_type = PPC_RELOC_SECTDIFF ∨ sreloc.sr_type = PPC_RELOC_LOCAL_SECTDIFF
  pair : ∃ nextRelocAddress, nextPair next = some (nextRelocAddress, nextRelocValue)

def encodedDifference (r_length : BitVec 2) (content : BitVec 64) : BitVec 32 :=
  if r_length = 1 then (get16 content).signExtend 32
  else if r_length = 2 then get32 content
  else content.setWidth 32

variable {rd : Reader 32} {sect : Section 32} {sreloc next : RelocWords}
  {nextRelocValue : BitVec 32} {content : BitVec 64}

def readAs (r_length : BitVec 2) (content : BitVec 64) : ReferenceKinds × BitVec 32 :=
  if r_length = 1 then (.kPointerDiff16, (get16 content).setWidth 32)
  else if r_length = 2 then (.kPointerDiff32, get32 content)
  else (.kPointerDiff64, content.setWidth 32)

theorem addRelocReference_sectDiff (h : IsSectDiff sreloc next nextRelocValue) :
    addRelocReference_powerpc rd sect sreloc next content =
      if sreloc.sr_length = 0 then
        .error (.thrown "bad diff relocations r_length (0) for ppc architecture")
      else (readDifference rd (readAs sreloc.sr_length content).1 (sect.addr + sreloc.sr_address)
        sreloc.sr_value nextRelocValue (readAs sreloc.sr_length content).2).map
          fun r => { reference := some r, skipNext := true } := by
  obtain ⟨nextRelocAddress, hpair⟩ := h.pair
  have hscattered : readScatteredPair rd sreloc (sect.addr + sreloc.sr_address) nextRelocAddress
      nextRelocValue content =
      if sreloc.sr_length = 0 then
        .error (.thrown "bad diff relocations r_length (0) for ppc architecture")
      else (readDifference rd (readAs sreloc.sr_length content).1 (sect.addr + sreloc.sr_address)
        sreloc.sr_value nextRelocValue (readAs sreloc.sr_length content).2).map some := by
    unfold readScatteredPair readAs
    rcases h.type with htype | htype
    · simp only [htype]
      rw [if_neg (by decide), if_neg (by decide), if_neg (by decide), if_neg (by decide),
        if_neg (by decide), if_neg (by decide), if_neg (by decide), if_pos (by decide)]
      split
      · rfl
      split
      · rfl
      · split <;> rfl
    · simp only [htype]
      rw [if_neg (by decide), if_neg (by decide), if_neg (by decide), if_neg (by decide),
        if_neg (by decide), if_neg (by decide), if_neg (by decide), if_pos (by decide)]
      split
      · rfl
      split
      · rfl
      · split <;> rfl
  have hother : sreloc.sr_type ≠ PPC_RELOC_VANILLA ∧ sreloc.sr_type ≠ PPC_RELOC_BR14 ∧
      sreloc.sr_type ≠ PPC_RELOC_BR24 := by
    rcases h.type with htype | htype
    · rw [htype]
      decide
    · rw [htype]
      decide
  unfold addRelocReference_powerpc readScattered
  simp only [if_pos h.scattered, if_neg hother.1, if_neg hother.2.1, if_neg hother.2.2, hpair,
    hscattered]
  split
  · rfl
  cases readDifference rd (readAs sreloc.sr_length content).1 (sect.addr + sreloc.sr_address)
    sreloc.sr_value nextRelocValue (readAs sreloc.sr_length content).2 <;> rfl

theorem preserves_sectDiff_iff (h : IsSectDiff sreloc next nextRelocValue)
    (haccepts : Accepts rd.fAddrToAtom sreloc.sr_value nextRelocValue
      (addRelocReference_powerpc rd sect sreloc next content)) :
    Preserves rd.fAddrToAtom sreloc.sr_value nextRelocValue
        (encodedDifference sreloc.sr_length content)
        (addRelocReference_powerpc rd sect sreloc next content) ↔
      ¬ (sreloc.sr_length = 1 ∧ (get16 content).msb = true) := by
  have hrun := @addRelocReference_sectDiff rd sect sreloc next nextRelocValue content h
  by_cases hzero : sreloc.sr_length = 0
  · obtain ⟨d, r, hok, _⟩ := haccepts.reads
    rw [hrun, if_pos hzero] at hok
    cases hok
  rw [if_neg hzero] at hrun
  rw [preserves_iff haccepts hrun]
  unfold encodedDifference readAs
  by_cases hnarrow : sreloc.sr_length = 1
  · rw [if_pos hnarrow, if_pos hnarrow, signExtend_eq_setWidth_iff]
    simp [hnarrow]
  rw [if_neg hnarrow, if_neg hnarrow]
  refine iff_of_true ?_ fun h => hnarrow h.1
  split <;> rfl

end Ppc

namespace Arm
open Fixups.Arm (ReferenceKinds ARM_RELOC_VANILLA ARM_RELOC_SECTDIFF ARM_RELOC_LOCAL_SECTDIFF)

structure IsSectDiff (sreloc next : RelocWords) (nextRelocValue : BitVec 32) : Prop where
  scattered : sreloc.r_scattered = true
  type : sreloc.sr_type = ARM_RELOC_SECTDIFF ∨ sreloc.sr_type = ARM_RELOC_LOCAL_SECTDIFF
  pair : nextPair next = some nextRelocValue

variable {rd : Reader 32} {sect : Section 32} {sreloc next : RelocWords}
  {nextRelocValue content : BitVec 32}

theorem preserves_sectDiff (h : IsSectDiff sreloc next nextRelocValue)
    (haccepts : Accepts rd.fAddrToAtom sreloc.sr_value nextRelocValue
      (addRelocReference rd sect sreloc next content)) :
    Preserves rd.fAddrToAtom sreloc.sr_value nextRelocValue content
      (addRelocReference rd sect sreloc next content) := by
  have hrun : addRelocReference rd sect sreloc next content =
      if sreloc.sr_length ≠ 2 then .error (.thrown "bad length for ARM_RELOC_SECTDIFF")
      else (readDifference rd .kPointerDiff (sect.addr + sreloc.sr_address) sreloc.sr_value
        nextRelocValue content).map fun r => { reference := some r, skipNext := true } := by
    unfold addRelocReference readScattered
    rw [if_pos h.scattered, h.pair]
    rcases h.type with htype | htype
    · simp only [htype]
      rw [if_neg (by decide), if_neg (by decide), if_neg (by decide), if_pos (by decide)]
      rfl
    · simp only [htype]
      rw [if_neg (by decide), if_neg (by decide), if_neg (by decide), if_pos (by decide)]
      rfl
  by_cases hlength : sreloc.sr_length = 2
  · rw [if_neg (by simpa using hlength)] at hrun
    exact (preserves_iff haccepts hrun).mpr rfl
  obtain ⟨d, r, hok, _⟩ := haccepts.reads
  rw [hrun, if_pos hlength] at hok
  cases hok

end Arm

section Readers
variable (rd : Reader 32) (sect : Section 32) (sreloc next : RelocWords) (nextRelocValue : BitVec 32)

/-- Every reader preserves a difference, except one of 16 bits that is negative. -/
theorem sectDiff_preserved_iff : (∀ content, X86.IsSectDiff sreloc next nextRelocValue →
      Accepts rd.fAddrToAtom sreloc.sr_value nextRelocValue
          (X86.addRelocReference rd sect sreloc next content) →
        (Preserves rd.fAddrToAtom sreloc.sr_value nextRelocValue
            (X86.encodedDifference sreloc.sr_length content)
            (X86.addRelocReference rd sect sreloc next content) ↔
          ¬ (sreloc.sr_length = 1 ∧ (content.setWidth 16).msb = true))) ∧
    (∀ content, Ppc.IsSectDiff sreloc next nextRelocValue →
      Accepts rd.fAddrToAtom sreloc.sr_value nextRelocValue
          (Ppc.addRelocReference_powerpc rd sect sreloc next content) →
        (Preserves rd.fAddrToAtom sreloc.sr_value nextRelocValue
            (Ppc.encodedDifference sreloc.sr_length content)
            (Ppc.addRelocReference_powerpc rd sect sreloc next content) ↔
          ¬ (sreloc.sr_length = 1 ∧ (Ppc.get16 content).msb = true))) ∧
    ∀ content, Arm.IsSectDiff sreloc next nextRelocValue →
      Accepts rd.fAddrToAtom sreloc.sr_value nextRelocValue
          (Arm.addRelocReference rd sect sreloc next content) →
        Preserves rd.fAddrToAtom sreloc.sr_value nextRelocValue content
          (Arm.addRelocReference rd sect sreloc next content) := by
  refine ⟨?_, ?_, ?_⟩
  · intro content h haccepts
    exact X86.preserves_sectDiff_iff h haccepts
  · intro content h haccepts
    exact Ppc.preserves_sectDiff_iff h haccepts
  · intro content h haccepts
    exact Arm.preserves_sectDiff h haccepts

end Readers

def diffAtoms : List (BitVec 32 × Atom) :=
  [(0x1000, { pointer := 1, getName := some "_a", getAddress := 0x1000 }),
    (0x1004, { pointer := 2, getName := some "_b", getAddress := 0x1004 }),
    (0x2000, { pointer := 3, getName := some "_c", getAddress := 0x2000 })]

theorem diffAtoms_sorted : diffAtoms.Pairwise fun x y => x.1 < y.1 := by decide

def diffReader : Reader 32 where
  fAddrToAtom := ⟨diffAtoms, diffAtoms_sorted⟩

def diffSection : Section 32 where
  addr := 0x2000
  segname := "__DATA"

/-- Entries of 16 bits for i386 and ppc, and of 32 bits for arm. -/
theorem sectDiff_preserved_four : Preserves diffReader.fAddrToAtom 0x1004 0x1000 4
        (X86.addRelocReference diffReader diffSection ⟨0x92000000, 0x1004⟩ ⟨0x91000000, 0x1000⟩ 4) ∧
    Preserves diffReader.fAddrToAtom 0x1004 0x1000 4
        (Ppc.addRelocReference_powerpc diffReader diffSection ⟨0x98000000, 0x1004⟩
          ⟨0x91000000, 0x1000⟩ 0x0004000000000000) ∧
    Preserves diffReader.fAddrToAtom 0x1004 0x1000 4
        (Arm.addRelocReference diffReader diffSection ⟨0xA2000000, 0x1004⟩ ⟨0xA1000000, 0x1000⟩ 4) := by
  refine ⟨?_, ?_, ?_⟩
  · exact ((sectDiff_preserved_iff diffReader diffSection ⟨0x92000000, 0x1004⟩ ⟨0x91000000, 0x1000⟩
      0x1000).1 4 ⟨by decide, by decide, by decide⟩
      ⟨⟨_, _, rfl, rfl⟩, ⟨_, rfl⟩, ⟨_, rfl⟩⟩).mpr (by decide)
  · exact ((sectDiff_preserved_iff diffReader diffSection ⟨0x98000000, 0x1004⟩ ⟨0x91000000, 0x1000⟩
      0x1000).2.1 0x0004000000000000 ⟨by decide, by decide, _, rfl⟩
      ⟨⟨_, _, rfl, rfl⟩, ⟨_, rfl⟩, ⟨_, rfl⟩⟩).mpr (by decide)
  · exact (sectDiff_preserved_iff diffReader diffSection ⟨0xA2000000, 0x1004⟩ ⟨0xA1000000, 0x1000⟩
      0x1000).2.2 4 ⟨by decide, by decide, by decide⟩
      ⟨⟨_, _, rfl, rfl⟩, ⟨_, rfl⟩, ⟨_, rfl⟩⟩

/-- Every reader preserves every difference that it accepts. -/
def SectDiffsPreserved : Prop :=
  (∀ rd sect sreloc next content nextRelocValue, X86.IsSectDiff sreloc next nextRelocValue →
    Accepts rd.fAddrToAtom sreloc.sr_value nextRelocValue
        (X86.addRelocReference rd sect sreloc next content) →
      Preserves rd.fAddrToAtom sreloc.sr_value nextRelocValue
        (X86.encodedDifference sreloc.sr_length content)
        (X86.addRelocReference rd sect sreloc next content)) ∧
  (∀ rd sect sreloc next content nextRelocValue, Ppc.IsSectDiff sreloc next nextRelocValue →
    Accepts rd.fAddrToAtom sreloc.sr_value nextRelocValue
        (Ppc.addRelocReference_powerpc rd sect sreloc next content) →
      Preserves rd.fAddrToAtom sreloc.sr_value nextRelocValue
        (Ppc.encodedDifference sreloc.sr_length content)
        (Ppc.addRelocReference_powerpc rd sect sreloc next content)) ∧
  ∀ rd sect sreloc next content nextRelocValue, Arm.IsSectDiff sreloc next nextRelocValue →
    Accepts rd.fAddrToAtom sreloc.sr_value nextRelocValue
        (Arm.addRelocReference rd sect sreloc next content) →
      Preserves rd.fAddrToAtom sreloc.sr_value nextRelocValue content
        (Arm.addRelocReference rd sect sreloc next content)

/-- A difference of -4 in 16 bits is read as 0xFFFC. -/
theorem sectDiff_preserved_negative : ¬ SectDiffsPreserved := by
  intro hclaim
  have hdiff : X86.IsSectDiff ⟨0x92000000, 0x1000⟩ ⟨0x91000000, 0x1004⟩ 0x1004 :=
    ⟨by decide, by decide, by decide⟩
  have haccepts : Accepts diffReader.fAddrToAtom 0x1000 0x1004
      (X86.addRelocReference diffReader diffSection ⟨0x92000000, 0x1000⟩ ⟨0x91000000, 0x1004⟩
        0xFFFC) := ⟨⟨_, _, rfl, rfl⟩, ⟨_, rfl⟩, ⟨_, rfl⟩⟩
  have hpreserves := hclaim.1 diffReader diffSection _ _ 0xFFFC _ hdiff haccepts
  exact (X86.preserves_sectDiff_iff hdiff haccepts).mp hpreserves (by decide)

end Toolwhip.Ld64.Reloc
