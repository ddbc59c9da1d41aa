import Toolwhip.Ld64.RelocsX86

/-! # Reading back i386 relocations

A pointer or pc-relative reference that `ld -r` wrote is read back with the same width
to the same target, unless its scattered entry is read as a 32-bit one. -/

namespace Toolwhip.Ld64.Reloc.X86
open Lib.ThrowingFold Lib.BitFields List
set_option autoImplicit false

/-- The pc-relativity and `r_length` of a reference with a vanilla entry. -/
def shape : ReferenceKinds → Option (Bool × BitVec 2)
  | .kPointer | .kPointerWeakImport | .kAbsolute32 => some (false, 2)
  | .kPCRel8 => some (true, 0)
  | .kPCRel16 => some (true, 1)
  | .kPCRel32 | .kPCRel32WeakImport | .kDtraceProbeSite | .kDtraceIsEnabledSite => some (true, 2)
  | _ => none

def vanillaKinds : List ReferenceKinds :=
  [.kPointer, .kPointerWeakImport, .kAbsolute32, .kPCRel8, .kPCRel16, .kPCRel32,
    .kPCRel32WeakImport]

section RoundTrip
variable {w : Writer} {rd : Reader 32} {sect : Section 32} {inAtom : Atom} {ref : Ref}

variable (w ref) in
def contentValue : BitVec 32 :=
  if w.makesExternalRelocatableReference ref.getTarget then ref.fToTargetOffset
  else if ref.getTarget.getDefinitionKind = .kTentativeDefinition ∧
      shape ref.getKind = some (false, 2) then ref.fToTargetOffset
  else ref.getTarget.address32 + ref.fToTargetOffset

theorem targetAddress_low (ref : Ref) :
    (targetAddress ref).setWidth 32 = ref.getTarget.address32 + ref.fToTargetOffset := by
  unfold targetAddress
  rw [BitVec.setWidth_add _ _ (by decide), getTargetOffset_low]
  rfl

def displaced (w : Writer) (ref : Ref) : BitVec 64 :=
  if w.makesExternalRelocatableReference ref.getTarget then ref.getTargetOffset
  else targetAddress ref

theorem displaced_low (hkind : shape ref.getKind ≠ some (false, 2)) :
    (displaced w ref).setWidth 32 = contentValue w ref := by
  unfold displaced contentValue
  split
  · exact getTargetOffset_low
  rw [if_neg fun h => hkind h.2]
  exact targetAddress_low ref

theorem pointerContent_low (hback : ReadsBack w rd sect inAtom ref)
    (hkind : shape ref.getKind = some (false, 2)) :
    (pointerContent w ref inAtom).setWidth 32 = contentValue w ref := by
  unfold pointerContent contentValue
  rw [hback.hasRelocations]
  simp only [hkind, and_true, Bool.false_eq_true, if_false]
  split
  · exact getTargetOffset_low
  by_cases htentative : ref.getTarget.getDefinitionKind = .kTentativeDefinition
  · rw [if_neg (Classical.not_not.mpr htentative), if_pos htentative]
    exact getTargetOffset_low
  · rw [if_pos htentative, if_neg htentative]
    exact targetAddress_low ref

theorem read8 {d : BitVec 64} (h : outOfRange d 0x7F = false) (content : BitVec 32) :
    ((set8 content (d.setWidth 8)).setWidth 8).signExtend 32 = d.setWidth 32 := by
  obtain ⟨hlow, hhigh⟩ := outOfRange_false h
  unfold set8
  rw [setWidth_append_low, signExtend_setWidth (k := 7) (by decide) (by omega) (by omega),
    BitVec.signExtend_eq_setWidth_of_le _ (by decide)]

theorem read16 {d : BitVec 64} (h : outOfRange d 0x7FFF = false) (content : BitVec 32) :
    ((set16 content (d.setWidth 16)).setWidth 16).signExtend 32 = d.setWidth 32 := by
  obtain ⟨hlow, hhigh⟩ := outOfRange_false h
  unfold set16
  rw [setWidth_append_low, signExtend_setWidth (k := 15) (by decide) (by omega) (by omega),
    BitVec.signExtend_eq_setWidth_of_le _ (by decide)]

section Content
variable {raw content : BitVec 32} {reloc : RelocWords} {pc x : BitVec 64}

theorem vanillaValue_pointer (hpcrel : reloc.r_pcrel = false) (hlength : reloc.r_length = 2)
    (srcAddr : BitVec 32) : ∃ kind, vanillaValue sect reloc srcAddr content = .ok (kind, content) ∧
      shape kind = some (false, 2) := by
  unfold vanillaValue
  rw [hpcrel, hlength]
  by_cases htext : sect.segname = "__TEXT"
  · exact ⟨.kAbsolute32, by simp [htext], rfl⟩
  · exact ⟨.kPointer, by simp [htext], rfl⟩

theorem vanillaValue_pcrel32 (hpcrel : reloc.r_pcrel = true) (hlength : reloc.r_length = 2)
    (hcontent : content = (x - (pc + 4)).setWidth 32) :
    vanillaValue sect reloc (pc.setWidth 32) content = .ok (.kPCRel32, x.setWidth 32) := by
  have hvalue : content + (pc.setWidth 32 + 4) = x.setWidth 32 := by
    bv_omega
  unfold vanillaValue
  rw [hpcrel, hlength, hvalue]
  rfl

theorem vanillaValue_pcrel16 (hpcrel : reloc.r_pcrel = true) (hlength : reloc.r_length = 1)
    (hfits : outOfRange (x - (pc + 4) + 2) 0x7FFF = false)
    (hcontent : content = set16 raw ((x - (pc + 4) + 2).setWidth 16)) :
    vanillaValue sect reloc (pc.setWidth 32) content = .ok (.kPCRel16, x.setWidth 32) := by
  have hvalue : pc.setWidth 32 + (content.setWidth 16).signExtend 32 + 2 = x.setWidth 32 := by
    rw [hcontent, read16 hfits]
    bv_omega
  unfold vanillaValue
  rw [hpcrel, hlength, hvalue]
  rfl

theorem vanillaValue_pcrel8 (hpcrel : reloc.r_pcrel = true) (hlength : reloc.r_length = 0)
    (hfits : outOfRange (x - (pc + 4) + 3) 0x7F = false)
    (hcontent : content = set8 raw ((x - (pc + 4) + 3).setWidth 8)) :
    vanillaValue sect reloc (pc.setWidth 32) content = .ok (.kPCRel8, x.setWidth 32) := by
  have hvalue : pc.setWidth 32 + (content.setWidth 8).signExtend 32 + 1 = x.setWidth 32 := by
    rw [hcontent, read8 hfits]
    bv_omega
  unfold vanillaValue
  rw [hpcrel, hlength, hvalue]
  rfl

theorem vanillaValue_of_content {pcrel : Bool} {length : BitVec 2}
    (hback : ReadsBack w rd sect inAtom ref) (hkind : ref.getKind ∈ vanillaKinds)
    (hcontent : fixUpReferenceRelocatable w ref inAtom raw = .ok content)
    (hshape : shape ref.getKind = some (pcrel, length)) (hpcrel : reloc.r_pcrel = pcrel)
    (hlength : reloc.r_length = length) :
    ∃ kind, vanillaValue sect reloc (sect.addr + Writer.relocAddress inAtom ref) content =
        .ok (kind, contentValue w ref) ∧ shape kind = some (pcrel, length) := by
  have hdisp : pcrelDisplacement w ref inAtom =
      displaced w ref - (inAtom.getAddress + ref.getFixUpOffset + 4) := rfl
  have hlow : shape ref.getKind ≠ some (false, 2) →
    (displaced w ref).setWidth 32 = contentValue w ref := displaced_low
  have hpointer := pointerContent_low hback
  rw [relocAddress_eq hback]
  generalize inAtom.getAddress + ref.getFixUpOffset = pc at hdisp
  unfold fixUpReferenceRelocatable at hcontent
  rw [hdisp] at hcontent
  have hcases : ref.getKind ∈ vanillaKinds := hkind
  simp only [vanillaKinds, mem_cons, not_mem_nil, or_false] at hcases
  rcases hcases with h | h | h | h | h | h | h
  all_goals
    rw [h] at hcontent hshape hlow hpointer
    obtain ⟨rfl, rfl⟩ := Prod.mk.inj (Option.some.inj hshape)
  · obtain rfl := Except.ok.inj hcontent
    rw [← hpointer rfl]
    exact vanillaValue_pointer hpcrel hlength _
  · obtain rfl := Except.ok.inj hcontent
    rw [← hpointer rfl]
    exact vanillaValue_pointer hpcrel hlength _
  · obtain rfl := Except.ok.inj hcontent
    rw [← hpointer rfl]
    exact vanillaValue_pointer hpcrel hlength _
  · obtain ⟨hfits, hcontent⟩ := ite_error_ok hcontent
    rw [← hlow (by decide)]
    exact ⟨_, vanillaValue_pcrel8 hpcrel hlength hfits hcontent, rfl⟩
  · obtain ⟨hfits, hcontent⟩ := ite_error_ok hcontent
    rw [← hlow (by decide)]
    exact ⟨_, vanillaValue_pcrel16 hpcrel hlength hfits hcontent, rfl⟩
  · obtain ⟨_, hcontent⟩ := ite_error_ok hcontent
    rw [← hlow (by decide)]
    exact ⟨_, vanillaValue_pcrel32 hpcrel hlength hcontent, rfl⟩
  · obtain ⟨_, hcontent⟩ := ite_error_ok hcontent
    rw [← hlow (by decide)]
    exact ⟨_, vanillaValue_pcrel32 hpcrel hlength hcontent, rfl⟩

end Content
/-! ## The entries -/

theorem addObjectRelocs_vanilla {relocs : List RelocWords} (hkind : ref.getKind ∈ vanillaKinds)
    (h : addObjectRelocs w inAtom ref = .ok relocs) :
    ∃ pcrel length num, shape ref.getKind = some (pcrel, length) ∧
      w.symbolnum (w.makesExternalRelocatableReference ref.getTarget) ref.getTarget = .ok num ∧
      vanillaReloc w inAtom ref num pcrel length = .ok relocs := by
  obtain ⟨num, hnum, h⟩ := bind_eq_ok.mp h
  simp only [vanillaKinds, mem_cons, not_mem_nil, or_false] at hkind
  rcases hkind with hk | hk | hk | hk | hk | hk | hk
  all_goals
    rw [hk] at h ⊢
    exact ⟨_, _, num, rfl, hnum, h⟩

def Reads (rd : Reader 32) (sect : Section 32) (reloc next : RelocWords) (content : BitVec 32)
    (P : Reference ReferenceKinds → Prop) : Prop :=
  ∃ d r, addRelocReference rd sect reloc next content = .ok d ∧ d.reference = some r ∧ P r

theorem reads_iff {reloc next : RelocWords} {content : BitVec 32}
    {d : Decoded ReferenceKinds} {r : Reference ReferenceKinds}
    {P : Reference ReferenceKinds → Prop}
    (h : addRelocReference rd sect reloc next content = .ok d) (hr : d.reference = some r) :
    Reads rd sect reloc next content P ↔ P r := by
  constructor
  · intro ⟨d', r', hd', hr', hP⟩
    obtain rfl := Except.ok.inj (h.symm.trans hd')
    obtain rfl := Option.some.inj (hr.symm.trans hr')
    exact hP
  · intro hP
    exact ⟨d, r, h, hr, hP⟩

variable (w rd ref) in
def SameReference (r : Reference ReferenceKinds) : Prop :=
  shape r.fKind = shape ref.getKind ∧ SameTarget w rd ref r

def IsSmall (kind : ReferenceKinds) : Prop :=
  shape kind = some (true, 0) ∨ shape kind = some (true, 1)

theorem not_isSmall_iff {pcrel : Bool} {length : BitVec 2} (hkind : ref.getKind ∈ vanillaKinds)
    (hshape : shape ref.getKind = some (pcrel, length)) : ¬ IsSmall ref.getKind ↔ length = 2 := by
  unfold IsSmall
  simp only [vanillaKinds, mem_cons, not_mem_nil, or_false] at hkind
  rcases hkind with h | h | h | h | h | h | h
  all_goals
    rw [h] at hshape ⊢
    obtain ⟨rfl, rfl⟩ := Prod.mk.inj (Option.some.inj hshape)
    decide

theorem shape_weakImportKind (pcrel : Bool) : shape (weakImportKind pcrel) = some (pcrel, 2) := by
  cases pcrel with
  | false => rfl
  | true => rfl

section Plain
variable {raw content : BitVec 32} {num : BitVec 24} {reloc next : RelocWords} {pcrel : Bool}
  {length : BitVec 2} {isExtern : Bool}

variable (next) in
theorem read_plain (hback : ReadsBack w rd sect inAtom ref) (hkind : ref.getKind ∈ vanillaKinds)
    (hcontent : fixUpReferenceRelocatable w ref inAtom raw = .ok content)
    (hshape : shape ref.getKind = some (pcrel, length))
    (hreloc : IsPlain reloc (Writer.relocAddress inAtom ref) num pcrel length isExtern
      GENERIC_RELOC_VANILLA) :
    ∃ kind src at_, shape kind = some (pcrel, length) ∧ at_.atom = some src ∧
      addRelocReference rd sect reloc next content =
        (if isExtern then readExternal rd at_ reloc kind (contentValue w ref)
        else readLocal rd at_ reloc kind (contentValue w ref)) := by
  obtain ⟨kind, hvalue, hkind⟩ :=
    vanillaValue_of_content hback hkind hcontent hshape hreloc.pcrel hreloc.length
  obtain ⟨zero, hzero⟩ := hback.fromZero
  obtain ⟨src, hsrc⟩ := find_isSome hzero (sect.addr + Writer.relocAddress inAtom ref)
  refine ⟨kind, src, _, hkind, hsrc, ?_⟩
  unfold addRelocReference readPlain
  rw [hreloc.scattered, if_neg (by decide), if_pos hreloc.type, hreloc.address, hvalue]
  change (if reloc.r_external = true then _ else _) = _
  rw [hreloc.isExtern]

def IsWeakImport (w : Writer) (rd : Reader 32) (target : Atom) : Prop :=
  ∃ num sym, w.symbolIndex target = .ok num ∧ rd.fSymbols[(num.setWidth 24).toNat]? = some sym ∧
    sym.isWeakImportSymbol = true

variable (w rd ref) in
def LosslessExternal : Prop :=
  if isDtraceName ref.getTarget.getName then
    shape ref.getKind = some (true, 2) ∧ ref.fToTargetOffset = 0
  else IsWeakImport w rd ref.getTarget → ¬ IsSmall ref.getKind

variable {src : Atom} {at_ : AtomAndOffset}

theorem reads_external_iff {kind : ReferenceKinds}
    {symbolnum : BitVec 32} (hback : ReadsBack w rd sect inAtom ref)
    (hexternal : w.makesExternalRelocatableReference ref.getTarget = true)
    (hnum : w.symbolIndex ref.getTarget = .ok symbolnum) (hsrc : at_.atom = some src)
    (hkind : ref.getKind ∈ vanillaKinds)
    (hshape : shape ref.getKind = some (pcrel, length)) (hshape' : shape kind = some (pcrel, length))
    (hreloc : IsPlain reloc (Writer.relocAddress inAtom ref) (symbolnum.setWidth 24) pcrel length
      true GENERIC_RELOC_VANILLA) (hread : addRelocReference rd sect reloc next content =
      readExternal rd at_ reloc kind (contentValue w ref)) :
    Reads rd sect reloc next content (SameReference w rd ref) ↔ LosslessExternal w rd ref := by
  obtain ⟨sym, hsym, hname⟩ := hback.symbols hexternal symbolnum hnum
  unfold readExternal at hread
  rw [hreloc.symbolnum, hsym] at hread
  have hread : _ = dtraceOr at_ sym.name _ _ := hread
  have hvalue : contentValue w ref = ref.fToTargetOffset := if_pos hexternal
  rw [← hname, hvalue, newReferenceByName_ok hsrc] at hread
  have hsame : ∀ r : Reference ReferenceKinds, SameReference w rd ref r ↔
      shape r.fKind = shape ref.getKind ∧ r.fToTarget = { offset := ref.fToTargetOffset } ∧
        r.fToTargetName = ref.getTarget.getName := by
    intro r
    unfold SameReference SameTarget
    rw [if_pos hexternal]
  unfold LosslessExternal
  cases hdtrace : isDtraceName ref.getTarget.getName with
  | true =>
    have hsome : ∃ site extra, dtraceSite ReferenceKinds.kDtraceProbeSite .kDtraceIsEnabledSite
        ref.getTarget.getName = some (site, extra) ∧
        (site = .kDtraceProbeSite ∨ site = .kDtraceIsEnabledSite) := dtraceSite_some hdtrace
    obtain ⟨site, extra, hsite, hkinds⟩ := hsome
    have hshapeSite : shape site = some (true, 2) := by
      rcases hkinds with h | h
      · rw [h]
        rfl
      · rw [h]
        rfl
    rw [hsite, dtraceOr, newReferenceByName_ok hsrc] at hread
    rw [reads_iff hread rfl, hsame, hshapeSite, if_pos rfl]
    simp only [AtomAndOffset.mk.injEq, true_and, and_true]
    exact and_congr eq_comm eq_comm
  | false =>
    rw [dtraceSite_none hdtrace, hreloc.pcrel] at hread
    rw [reads_iff hread rfl, hsame, if_neg Bool.false_ne_true]
    have hweak : IsWeakImport w rd ref.getTarget ↔ sym.isWeakImportSymbol = true := by
      constructor
      · intro ⟨num', sym', hnum', hsym', hw⟩
        obtain rfl := Except.ok.inj (hnum.symm.trans hnum')
        obtain rfl := Option.some.inj (hsym.symm.trans hsym')
        exact hw
      · intro hw
        exact ⟨symbolnum, sym, hnum, hsym, hw⟩
    rw [hweak, not_isSmall_iff hkind hshape]
    simp only [and_true]
    cases sym.isWeakImportSymbol with
    | false => simp [hshape, hshape']
    | true =>
      simp only [if_true, shape_weakImportKind, hshape, Option.some.injEq, Prod.mk.injEq, true_and]
      exact ⟨fun h _ => h.symm, fun h => (h trivial).symm⟩

def StandsFor (rd : Reader 32) (ref : Ref) (name : Option String) : Prop :=
  ∃ a, rd.Named name a ∧ Matches ref ref.getTarget.address32 a

theorem sameTarget_byName {r : Reference ReferenceKinds}
    (hlocal : w.makesExternalRelocatableReference ref.getTarget = false)
    (hoffset : ref.fToTargetOffset = 0) (hto : r.fToTarget = {}) :
    SameTarget w rd ref r ↔ StandsFor rd ref r.fToTargetName := by
  unfold SameTarget StandsFor
  rw [hlocal, if_neg Bool.false_ne_true, hoffset]
  constructor
  · intro ⟨a, offset, hpoints, hmatches, _⟩
    obtain ⟨hzero, hnamed⟩ := (pointsTo_byName hto).mp hpoints
    subst hzero
    refine ⟨a, hnamed, ?_⟩
    simpa using hmatches
  · intro ⟨a, hnamed, hmatches⟩
    refine ⟨a, 0, (pointsTo_byName hto).mpr ⟨rfl, hnamed⟩, ?_, ?_⟩
    · simpa using hmatches
    · intro h
      exact absurd rfl h

variable {a : Atom}

theorem sameTarget_direct {r : Reference ReferenceKinds} {value : BitVec 32}
    (hback : ReadsBack w rd sect inAtom ref)
    (hlocal : w.makesExternalRelocatableReference ref.getTarget = false)
    (hoffset : ref.fToTargetOffset = 0) (hfind : (findAtomAndOffset rd.fAddrToAtom value).atom = some a)
    (hpoints : ∀ b offset, r.PointsTo rd b offset ↔
      b = a ∧ offset = (findAtomAndOffset rd.fAddrToAtom value).offset) : SameTarget w rd ref r ↔
      ref.getTarget.getDefinitionKind ≠ .kAbsoluteSymbol ∧ value = ref.getTarget.address32 := by
  obtain ⟨key, hmem, hkey⟩ := find_key hfind
  obtain ⟨haddress, habsolute⟩ := hback.keys _ hmem
  unfold SameTarget
  rw [hlocal, if_neg Bool.false_ne_true, hoffset]
  simp only [hpoints, hkey, Matches]
  constructor
  · intro ⟨b, offset, ⟨hb, ho⟩, ⟨hkind, haddr⟩, _⟩
    subst hb ho
    refine ⟨fun h => habsolute (hkind.mpr h), ?_⟩
    bv_omega
  · intro ⟨hkind, hvalue⟩
    refine ⟨a, _, ⟨rfl, rfl⟩, ⟨?_, ?_⟩, ?_⟩
    · constructor
      · intro h
        exact absurd h habsolute
      · intro h
        exact absurd h hkind
    · bv_omega
    · intro h
      exact absurd rfl h

variable (rd ref) in
/-- How a plain entry whose content is an address in this atom is read. -/
def ReadsAs (a : Atom) : Prop :=
  if isDtraceName a.getName then shape ref.getKind = some (true, 2) ∧ StandsFor rd ref a.getName
  else if (∃ length, shape ref.getKind = some (true, length)) ∧
      a.getSymbolTableInclusion = .kSymbolTableNotIn ∧ a.isWeakImportStub = true then
    shape ref.getKind = some (true, 2) ∧ ref.getTarget.getDefinitionKind ≠ .kAbsoluteSymbol
  else
    ref.getTarget.getDefinitionKind = .kAbsoluteSymbol →
      ∀ b, rd.fAddrToAbsoluteAtom.lookup ref.getTarget.address32 = some b →
        StandsFor rd ref b.getName

variable (ref) in
def HoldsAddress : Prop :=
  ref.getTarget.getDefinitionKind = .kTentativeDefinition → shape ref.getKind = some (false, 2) →
    ref.getTarget.address32 = 0

variable (rd ref) in
def LosslessPlain : Prop :=
  HoldsAddress ref ∧
    ∀ a, (findAtomAndOffset rd.fAddrToAtom ref.getTarget.address32).atom = some a → ReadsAs rd ref a

theorem contentValue_local (hlocal : w.makesExternalRelocatableReference ref.getTarget = false) :
    contentValue w ref = ref.getTarget.address32 + ref.fToTargetOffset ↔ HoldsAddress ref := by
  unfold contentValue HoldsAddress
  rw [hlocal, if_neg Bool.false_ne_true]
  split
  · rename_i h
    simp only [h, true_implies]
    bv_omega
  rename_i h
  simp only [true_iff]
  intro htentative hshape
  exact absurd ⟨htentative, hshape⟩ h

theorem losslessPlain_iff (hlocal : w.makesExternalRelocatableReference ref.getTarget = false)
    (hoffset : ref.fToTargetOffset = 0)
    (hfind : (findAtomAndOffset rd.fAddrToAtom (contentValue w ref)).atom = some a) :
    LosslessPlain rd ref ↔ contentValue w ref = ref.getTarget.address32 ∧ ReadsAs rd ref a := by
  have hholds := contentValue_local hlocal
  rw [hoffset, show ref.getTarget.address32 + 0 = _ from BitVec.add_zero _] at hholds
  unfold LosslessPlain
  rw [← hholds]
  apply and_congr_right
  intro hvalue
  rw [← hvalue, hfind]
  constructor
  · intro h
    exact h a rfl
  · intro h b hb
    obtain rfl := Option.some.inj hb
    exact h

theorem symbolnum_eq_zero (index : BitVec 8) :
    ((index.setWidth 32).setWidth 24 : BitVec 24) = 0 ↔ index = 0 := by
  bv_omega

theorem contentValue_pcrel {length : BitVec 2}
    (hlocal : w.makesExternalRelocatableReference ref.getTarget = false)
    (hoffset : ref.fToTargetOffset = 0) (hshape : shape ref.getKind = some (true, length)) :
    contentValue w ref = ref.getTarget.address32 := by
  rw [(contentValue_local hlocal).mpr, hoffset]
  · exact BitVec.add_zero _
  · intro _ h
    rw [hshape] at h
    cases h

theorem reads_direct {kind : ReferenceKinds}
    {value : BitVec 32} (hback : ReadsBack w rd sect inAtom ref)
    (hlocal : w.makesExternalRelocatableReference ref.getTarget = false)
    (hoffset : ref.fToTargetOffset = 0) (hsrc : at_.atom = some src)
    (hfind : (findAtomAndOffset rd.fAddrToAtom value).atom = some a)
    (hread : addRelocReference rd sect reloc next content =
      addReference (newReference kind at_ {} (findAtomAndOffset rd.fAddrToAtom value))) :
    Reads rd sect reloc next content (SameReference w rd ref) ↔ shape kind = shape ref.getKind ∧
      ref.getTarget.getDefinitionKind ≠ .kAbsoluteSymbol ∧ value = ref.getTarget.address32 := by
  obtain ⟨key, hmem, _⟩ := find_key hfind
  obtain ⟨r, hr, hkind, _, _, _, hpoints⟩ :=
    newReference_pointsTo kind hback.namesUnique (mem_atoms_of_entry hmem) hsrc hfind
  rw [hr] at hread
  rw [reads_iff hread rfl, SameReference, hkind,
    sameTarget_direct hback hlocal hoffset hfind hpoints]

theorem reads_local_iff {kind : ReferenceKinds} (hback : ReadsBack w rd sect inAtom ref)
    (hlocal : w.makesExternalRelocatableReference ref.getTarget = false)
    (hoffset : ref.fToTargetOffset = 0) (hsrc : at_.atom = some src)
    (hshape : shape ref.getKind = some (pcrel, length)) (hshape' : shape kind = some (pcrel, length))
    (hreloc : IsPlain reloc (Writer.relocAddress inAtom ref)
      ((ref.getTarget.sectionIndex.setWidth 32).setWidth 24) pcrel length false
      GENERIC_RELOC_VANILLA) (hread : addRelocReference rd sect reloc next content =
      readLocal rd at_ reloc kind (contentValue w ref)) :
    Reads rd sect reloc next content (SameReference w rd ref) ↔ LosslessPlain rd ref := by
  obtain ⟨zero, hzero⟩ := hback.fromZero
  obtain ⟨a, hfind⟩ := find_isSome hzero (contentValue w ref)
  obtain ⟨key, hmem, _⟩ := find_key hfind
  rw [losslessPlain_iff hlocal hoffset hfind]
  unfold ReadsAs
  unfold readLocal at hread
  simp only [hfind] at hread
  cases hdtrace : isDtraceName a.getName with
  | true =>
    have hsome : ∃ site extra, dtraceSite ReferenceKinds.kDtraceProbeSite .kDtraceIsEnabledSite
        a.getName = some (site, extra) ∧
        (site = .kDtraceProbeSite ∨ site = .kDtraceIsEnabledSite) := dtraceSite_some hdtrace
    obtain ⟨site, extra, hsite, hkinds⟩ := hsome
    have hshapeSite : shape site = some (true, 2) := by
      rcases hkinds with h | h
      · rw [h]
        rfl
      · rw [h]
        rfl
    rw [hsite, dtraceOr, newReferenceByName_ok hsrc] at hread
    rw [reads_iff hread rfl, SameReference, sameTarget_byName hlocal hoffset rfl, hshapeSite,
      if_pos rfl]
    constructor
    · intro ⟨h, hstands⟩
      exact ⟨contentValue_pcrel hlocal hoffset h.symm, h.symm, hstands⟩
    · intro ⟨_, h, hstands⟩
      exact ⟨h.symm, hstands⟩
  | false =>
    rw [dtraceSite_none hdtrace, dtraceOr] at hread
    have hiff : (∃ length, shape ref.getKind = some (true, length)) ∧
        a.getSymbolTableInclusion = .kSymbolTableNotIn ∧ a.isWeakImportStub = true ↔
        isStubBranch reloc a = true := by
      unfold isStubBranch
      rw [hreloc.pcrel, hshape]
      simp only [Bool.and_eq_true, decide_eq_true_eq, and_assoc]
      apply and_congr_left
      intro _
      constructor
      · intro ⟨_, h⟩
        exact (Prod.mk.inj (Option.some.inj h)).1
      · intro h
        exact ⟨length, by rw [h]⟩
    by_cases hstub : isStubBranch reloc a = true
    · rw [if_pos hstub] at hread
      rw [reads_direct hback hlocal hoffset hsrc hfind hread, if_pos (hiff.mpr hstub)]
      constructor
      · intro ⟨h, habsolute, hvalue⟩
        exact ⟨hvalue, h.symm, habsolute⟩
      · intro ⟨hvalue, h, habsolute⟩
        exact ⟨h.symm, habsolute, hvalue⟩
    · rw [if_neg hstub] at hread
      rw [if_neg fun h => hstub (hiff.mp h)]
      by_cases habsolute : ref.getTarget.getDefinitionKind = .kAbsoluteSymbol
      · obtain ⟨hsection, b, hlookup, _⟩ := hback.absolute hlocal habsolute
        have hvalue : contentValue w ref = ref.getTarget.address32 := by
          rw [(contentValue_local hlocal).mpr, hoffset]
          · exact BitVec.add_zero _
          · intro h
            rw [habsolute] at h
            cases h
        rw [hreloc.symbolnum, if_neg (Classical.not_not.mpr ((symbolnum_eq_zero _).mpr hsection)),
          hvalue, hlookup] at hread
        have hread : _ = addReference (newReferenceByName kind at_ b.getName 0) := hread
        rw [newReferenceByName_ok hsrc] at hread
        rw [reads_iff hread rfl, SameReference, sameTarget_byName hlocal hoffset rfl, hshape', hshape,
          hlookup]
        constructor
        · intro ⟨_, hstands⟩
          refine ⟨hvalue, fun _ c hc => ?_⟩
          obtain rfl := Option.some.inj hc
          exact hstands
        · intro ⟨_, hstands⟩
          exact ⟨rfl, hstands habsolute b rfl⟩
      · obtain ⟨hsection, _⟩ := hback.located hlocal habsolute
        rw [hreloc.symbolnum, if_pos fun h => hsection ((symbolnum_eq_zero _).mp h)] at hread
        rw [reads_direct hback hlocal hoffset hsrc hfind hread, hshape', hshape]
        constructor
        · intro ⟨_, _, hvalue⟩
          exact ⟨hvalue, fun h => absurd h habsolute⟩
        · intro ⟨hvalue, _⟩
          exact ⟨rfl, habsolute, hvalue⟩

end Plain

section Scattered
variable {raw content : BitVec 32} {sreloc next : RelocWords} {pcrel : Bool} {length : BitVec 2}

def wideKind (sect : Section 32) (pcrel : Bool) : ReferenceKinds :=
  if pcrel then .kPCRel32 else if sect.segname = "__TEXT" then .kAbsolute32 else .kPointer

def wideValue (pcrel : Bool) (srcAddr content : BitVec 32) : BitVec 32 :=
  if pcrel then content + (srcAddr + 4) else content

theorem shape_wideKind : shape (wideKind sect pcrel) = some (pcrel, 2) := by
  unfold wideKind
  cases pcrel with
  | true => rfl
  | false =>
    rw [if_neg Bool.false_ne_true]
    split
    · rfl
    · rfl

theorem vanillaValue_wide {reloc : RelocWords} (hpcrel : reloc.r_pcrel = pcrel)
    (hlength : reloc.r_length = 2) (srcAddr : BitVec 32) : vanillaValue sect reloc srcAddr content =
      .ok (wideKind sect pcrel, wideValue pcrel srcAddr content) := by
  unfold vanillaValue wideKind wideValue
  rw [hpcrel, hlength]
  cases pcrel with
  | true => rfl
  | false =>
    simp only [Bool.false_eq_true, if_false, ne_eq, not_true]
    split
    · rfl
    · rfl

theorem wideValue_eq (hback : ReadsBack w rd sect inAtom ref) (hkind : ref.getKind ∈ vanillaKinds)
    (hcontent : fixUpReferenceRelocatable w ref inAtom raw = .ok content)
    (hshape : shape ref.getKind = some (pcrel, 2)) :
    wideValue pcrel (sect.addr + Writer.relocAddress inAtom ref) content = contentValue w ref := by
  have hpcrel := relocationInfo_pcrel 0 0 pcrel false 2 0
  have hlength := relocationInfo_length 0 0 pcrel false 2 0
  obtain ⟨kind, hvalue, _⟩ := vanillaValue_of_content hback hkind hcontent hshape hpcrel hlength
  rw [vanillaValue_wide hpcrel hlength] at hvalue
  exact (Prod.mk.inj (Except.ok.inj hvalue)).2

variable (rd next content) in
theorem read_scattered {address value : BitVec 32}
    (hscattered : IsScattered sreloc address pcrel length GENERIC_RELOC_VANILLA value) :
    ∃ skipNext, addRelocReference rd sect sreloc next content =
      (newReference (wideKind sect pcrel) (findAtomAndOffset rd.fAddrToAtom (sect.addr + address)) {}
        (findWithBase rd.fAddrToAtom value (wideValue pcrel (sect.addr + address) content))).map
          fun r => { reference := some r, skipNext } := by
  refine ⟨(nextPair next).2, ?_⟩
  unfold addRelocReference readScattered wideKind wideValue
  rw [if_pos hscattered.scattered]
  simp only [hscattered.type, hscattered.pcrel, hscattered.address, hscattered.value, if_true]
  cases pcrel with
  | true => rfl
  | false =>
    simp only [Bool.false_eq_true, if_false]
    split
    · rfl
    · rfl

variable (ref) in
def LosslessScattered : Prop :=
  ¬ IsSmall ref.getKind ∧ ref.getTarget.getDefinitionKind ≠ .kAbsoluteSymbol ∧ HoldsAddress ref

/-- A reference to an offset from the target, with `value` for the target and the offset. -/
theorem sameTarget_withBase {r : Reference ReferenceKinds} {value : BitVec 32} {a : Atom}
    (hback : ReadsBack w rd sect inAtom ref)
    (hlocal : w.makesExternalRelocatableReference ref.getTarget = false)
    (hoffset : ref.fToTargetOffset ≠ 0)
    (hfind : (findWithBase rd.fAddrToAtom ref.getTarget.address32 value).atom = some a)
    (hpoints : ∀ b offset, r.PointsTo rd b offset ↔
      b = a ∧ offset = (findWithBase rd.fAddrToAtom ref.getTarget.address32 value).offset) :
    SameTarget w rd ref r ↔ ref.getTarget.getDefinitionKind ≠ .kAbsoluteSymbol ∧
      value = ref.getTarget.address32 + ref.fToTargetOffset := by
  obtain ⟨zero, hzero⟩ := hback.fromZero
  obtain ⟨a', key, ha', hmem⟩ := findWithBase_isSome hzero ref.getTarget.address32 value
  obtain rfl := Option.some.inj (hfind.symm.trans ha')
  obtain ⟨haddress, habsolute⟩ := hback.keys _ hmem
  unfold SameTarget
  rw [hlocal, if_neg Bool.false_ne_true]
  simp only [hpoints]
  constructor
  · intro ⟨b, offset, ⟨hb, ho⟩, ⟨hkind, haddr⟩, hsame⟩
    subst hb ho
    have hnot : ref.getTarget.getDefinitionKind ≠ .kAbsoluteSymbol :=
      fun h => habsolute (hkind.mpr h)
    refine ⟨hnot, ?_⟩
    obtain ⟨_, target, htarget⟩ := hback.located hlocal hnot
    rw [findWithBase_of_mem htarget] at hsame
    bv_omega
  · intro ⟨hnot, hvalue⟩
    obtain ⟨_, target, htarget⟩ := hback.located hlocal hnot
    obtain ⟨haddress, habsolute⟩ := hback.keys _ htarget
    rw [findWithBase_of_mem htarget] at hfind ⊢
    obtain rfl := Option.some.inj hfind
    refine ⟨target, _, ⟨rfl, rfl⟩, ⟨⟨fun h => absurd h habsolute, fun h => absurd h hnot⟩, ?_⟩, ?_⟩
    · bv_omega
    · intro _
      bv_omega

theorem reads_scattered_iff (hback : ReadsBack w rd sect inAtom ref)
    (hlocal : w.makesExternalRelocatableReference ref.getTarget = false)
    (hoffset : ref.fToTargetOffset ≠ 0) (hkind : ref.getKind ∈ vanillaKinds)
    (hcontent : fixUpReferenceRelocatable w ref inAtom raw = .ok content)
    (hshape : shape ref.getKind = some (pcrel, length))
    (hscattered : IsScattered sreloc (Writer.relocAddress inAtom ref) pcrel length
      GENERIC_RELOC_VANILLA ref.getTarget.address32) :
    Reads rd sect sreloc next content (SameReference w rd ref) ↔ LosslessScattered ref := by
  obtain ⟨zero, hzero⟩ := hback.fromZero
  obtain ⟨src, hsrc⟩ := find_isSome hzero (sect.addr + Writer.relocAddress inAtom ref)
  obtain ⟨a, key, hfind, hmem⟩ := findWithBase_isSome hzero ref.getTarget.address32
    (wideValue pcrel (sect.addr + Writer.relocAddress inAtom ref) content)
  obtain ⟨r, hr, hreadKind, _, _, _, hpoints⟩ := newReference_pointsTo (wideKind sect pcrel)
    hback.namesUnique (mem_atoms_of_entry hmem) hsrc hfind
  obtain ⟨skipNext, hread⟩ := read_scattered rd content next hscattered
  rw [hr] at hread
  rw [reads_iff hread rfl, SameReference, hreadKind, shape_wideKind, hshape,
    sameTarget_withBase hback hlocal hoffset hfind hpoints, LosslessScattered,
    not_isSmall_iff hkind hshape, ← contentValue_local hlocal]
  simp only [Option.some.injEq, Prod.mk.injEq, true_and]
  constructor
  · intro ⟨hlength, habsolute, hvalue⟩
    subst hlength
    rw [wideValue_eq hback hkind hcontent hshape] at hvalue
    exact ⟨rfl, habsolute, hvalue⟩
  · intro ⟨hlength, habsolute, hvalue⟩
    subst hlength
    rw [wideValue_eq hback hkind hcontent hshape]
    exact ⟨rfl, habsolute, hvalue⟩

end Scattered

/-! ## The round trip -/

variable (w rd ref) in
def Lossless : Prop :=
  if w.makesExternalRelocatableReference ref.getTarget then LosslessExternal w rd ref
  else if ref.fToTargetOffset = 0 then LosslessPlain rd ref
  else LosslessScattered ref

/-- One entry is written, and what is read of it is the reference again just if it is one
of the lossless ones: no 8 or 16-bit reference to an offset from a local target is. -/
theorem addRelocReference_addObjectRelocs_iff {relocs : List RelocWords} {raw content : BitVec 32}
    {next : RelocWords} (hback : ReadsBack w rd sect inAtom ref) (hkind : ref.getKind ∈ vanillaKinds)
    (hrelocs : addObjectRelocs w inAtom ref = .ok relocs)
    (hcontent : fixUpReferenceRelocatable w ref inAtom raw = .ok content) :
    (∃ reloc, relocs = [reloc] ∧
      Reads rd sect reloc next content (SameReference w rd ref)) ↔ Lossless w rd ref := by
  obtain ⟨pcrel, length, num, hshape, hnum, hrelocs⟩ := addObjectRelocs_vanilla hkind hrelocs
  have hone : ∀ {reloc : RelocWords} {P : RelocWords → Prop}, relocs = [reloc] →
      ((∃ r, relocs = [r] ∧ P r) ↔ P reloc) := by
    intro reloc P h
    rw [h]
    simp
  unfold vanillaReloc at hrelocs
  unfold Lossless Writer.symbolnum at *
  cases hexternal : w.makesExternalRelocatableReference ref.getTarget with
  | true =>
    simp only [hexternal, Bool.not_true, Bool.false_and, Bool.false_eq_true, if_false] at hrelocs
    simp only [hexternal, if_true] at hnum
    rw [hone (Except.ok.inj hrelocs).symm, if_pos rfl]
    have hplain := relocationInfo_plain (Writer.relocAddress inAtom ref) num pcrel true length
      GENERIC_RELOC_VANILLA hback.notScattered
    obtain ⟨kind, src, at_, hshape', hsrc, hread⟩ :=
      read_plain next hback hkind hcontent hshape hplain
    exact reads_external_iff hback hexternal hnum hsrc hkind hshape hshape' hplain
      (hread.trans (if_pos rfl))
  | false =>
    simp only [hexternal, Bool.not_false, Bool.true_and, bne_iff_ne, ne_eq,
      BoundReference.getTargetOffset_eq_zero] at hrelocs
    simp only [hexternal, Bool.false_eq_true, if_false] at hnum
    obtain rfl := Except.ok.inj hnum
    by_cases hoffset : ref.fToTargetOffset = 0
    · rw [if_neg (Classical.not_not.mpr hoffset)] at hrelocs
      rw [hone (Except.ok.inj hrelocs).symm, if_pos hoffset]
      have hplain := relocationInfo_plain (Writer.relocAddress inAtom ref)
        (ref.getTarget.sectionIndex.setWidth 32) pcrel false length GENERIC_RELOC_VANILLA
        hback.notScattered
      obtain ⟨kind, src, at_, hshape', hsrc, hread⟩ :=
        read_plain next hback hkind hcontent hshape hplain
      exact reads_local_iff hback hexternal hoffset hsrc hshape hshape' hplain
        (hread.trans (if_neg Bool.false_ne_true))
    · rw [if_pos hoffset] at hrelocs
      obtain ⟨sreloc, hscattered, hrelocs⟩ := map_eq_ok.mp hrelocs
      rw [hone hrelocs.symm, if_neg hoffset]
      exact reads_scattered_iff hback hexternal hoffset hkind hcontent hshape
        (scatteredInfo_ok hscattered)

end RoundTrip

/-! An 8-bit and a 32-bit reference to an offset from a local target. -/

def caller : Atom := { pointer := 1, getName := some "_caller", getAddress := 0 }
def callee : Atom :=
  { pointer := 2, getName := some "_callee", getAddress := 0x20, getSectionOffset := 0x20 }

def twoFunctions : Reader 32 where
  fAddrToAtom := { entries := [(0, caller), (0x20, callee)], sorted := by decide }

def text : Section 32 := { addr := 0, size := 0x40, segname := "__TEXT", sectname := "__text" }

def reference (kind : ReferenceKinds) : Ref where
  getKind := kind
  fFixUpOffsetInSrc := 1
  getTarget := callee
  fToTargetOffset := 4
  getFromTarget := caller
  fFromTargetOffset := 0

theorem twoFunctions_readsBack (kind : ReferenceKinds) :
    ReadsBack {} twoFunctions text caller (reference kind) where
  sectionAddress := by decide
  notScattered := (by decide : (1 : BitVec 32) < 0x80000000)
  hasRelocations := rfl
  fromZero := ⟨caller, mem_cons_self⟩
  keys := by decide
  namesUnique := Reader.namesUnique_of_nodup (by decide)
  symbols := by
    intro h
    cases h
  located := by
    intro _ _
    exact ⟨(by decide : (1 : BitVec 8) ≠ 0), callee, mem_cons_of_mem _ mem_cons_self⟩
  absolute := by
    intro _ h
    cases h

theorem addRelocReference_addObjectRelocs_wide :
    ∃ relocs content, addObjectRelocs {} caller (reference .kPCRel32) = .ok relocs ∧
      fixUpReferenceRelocatable {} (reference .kPCRel32) caller 0 = .ok content ∧
      ∃ reloc, relocs = [reloc] ∧ Reads twoFunctions text reloc ⟨0, 0⟩ content
        (SameReference {} twoFunctions (reference .kPCRel32)) := by
  have hcontent : fixUpReferenceRelocatable {} (reference .kPCRel32) caller 0 = .ok 0x1f := by
    decide
  refine ⟨_, _, rfl, hcontent, ?_⟩
  apply (addRelocReference_addObjectRelocs_iff (twoFunctions_readsBack .kPCRel32) (by decide) rfl
    hcontent).mpr
  refine ⟨?_, by decide, fun h => by cases h⟩
  unfold IsSmall
  decide

/-- The 8-bit reference is read back as one of 32 bits. -/
theorem short_reference_widens :
    ∃ reloc content, addObjectRelocs {} caller (reference .kPCRel8) = .ok [reloc] ∧
      fixUpReferenceRelocatable {} (reference .kPCRel8) caller 0 = .ok content ∧
      ReadsBack {} twoFunctions text caller (reference .kPCRel8) ∧
      ¬ Reads twoFunctions text reloc ⟨0, 0⟩ content
        (SameReference {} twoFunctions (reference .kPCRel8)) := by
  refine ⟨_, _, rfl, rfl, twoFunctions_readsBack .kPCRel8, ?_⟩
  intro ⟨d, r, hd, hr, hkind, _⟩
  obtain rfl := Except.ok.inj hd
  obtain rfl := Option.some.inj hr
  exact absurd hkind (by decide)

end Toolwhip.Ld64.Reloc.X86
