import Toolwhip.Ld64.RelocsX8664

/-! # Reading back x86_64 relocations

One addend is all that the content has room for: a reference is read back as it was
written unless its addend has two meanings or belongs to both sides of a difference. -/

namespace Toolwhip.Ld64.Reloc.X86_64
open Lib.ThrowingFold Lib.BitFields
set_option autoImplicit false

def withoutWeakImport : ReferenceKinds → ReferenceKinds
  | .kPointerWeakImport => .kPointer
  | .kBranchPCRel32WeakImport => .kBranchPCRel32
  | .kPCRel32GOTLoadWeakImport => .kPCRel32GOTLoad
  | .kPCRel32GOTWeakImport => .kPCRel32GOT
  | kind => kind

def IsDifference (kind : ReferenceKinds) : Prop := kind = .kPointerDiff ∨ kind = .kPointerDiff32

instance (kind : ReferenceKinds) : Decidable (IsDifference kind) :=
  inferInstanceAs (Decidable (_ ∨ _))

def entryOf : ReferenceKinds → Option (Bool × BitVec 2 × BitVec 4)
  | .kPointer | .kPointerWeakImport => some (false, 3, X86_64_RELOC_UNSIGNED)
  | .kBranchPCRel32 | .kBranchPCRel32WeakImport | .kDtraceProbeSite | .kDtraceIsEnabledSite =>
    some (true, 2, X86_64_RELOC_BRANCH)
  | .kPCRel32 => some (true, 2, X86_64_RELOC_SIGNED)
  | .kPCRel32_1 => some (true, 2, X86_64_RELOC_SIGNED_1)
  | .kPCRel32_2 => some (true, 2, X86_64_RELOC_SIGNED_2)
  | .kPCRel32_4 => some (true, 2, X86_64_RELOC_SIGNED_4)
  | .kBranchPCRel8 => some (true, 0, X86_64_RELOC_BRANCH)
  | .kPCRel32GOT | .kPCRel32GOTWeakImport => some (true, 2, X86_64_RELOC_GOT)
  | .kPCRel32GOTLoad | .kPCRel32GOTLoadWeakImport => some (true, 2, X86_64_RELOC_GOT_LOAD)
  | _ => none

section Meaning
variable (rd : Reader 64) (target : Atom)

/-- The atom that one side of a reference is to. A name that the file does not define is
left to other files. -/
def Means (atom : Option Atom) (name : Option String) (a : Atom) : Prop :=
  match atom with
  | some b => a = b
  | none => rd.Named name a ∨
      (∀ b, ¬ rd.Named name b) ∧ a = target ∧ target.getScope ≠ .scopeTranslationUnit ∧
        target.getName = name

def StandsFor (name : String) (address : BitVec 64) : Prop :=
  ∃ a, Means rd target none (some name) a ∧ a.getAddress = address

/-- What the symbol table that was written says about an atom. -/
structure SymbolOf (sym : Nlist) : Prop where
  /-- the names of local symbols are made up -/
  global : sym.external = true → target.getScope ≠ .scopeTranslationUnit ∧
    target.getName = some sym.name ∧ ∀ a, rd.Named (some sym.name) a → a.getAddress = target.getAddress
  inSection : sym.inSection = true → sym.n_value = target.getAddress ∧
    ∃ a, (target.getAddress, a) ∈ rd.fAddrToAtom.entries

def Finds (sym : Nlist) : Prop :=
  bindsDirectly sym = true ∨ StandsFor rd target sym.name target.getAddress

variable {rd target}

variable (target) in
theorem means_of_pointsTo {r : Reference ReferenceKinds} {atom : Atom} {offset : BitVec 32}
    (hpoints : ∀ a o, r.PointsTo rd a o ↔ a = atom ∧ o = offset) : r.fToTarget.offset = offset ∧
      ∀ a, Means rd target r.fToTarget.atom r.fToTargetName a ↔ a = atom := by
  have hself := (hpoints atom offset).mpr ⟨rfl, rfl⟩
  have hoffset := hself.1
  refine ⟨hoffset, ?_⟩
  intro a
  unfold Means
  cases hatom : r.fToTarget.atom with
  | some b =>
    have hb := ((hpoints b offset).mp ⟨hoffset, Or.inl hatom⟩).1
    rw [hb]
  | none =>
    have hnamed : ∀ b, rd.Named r.fToTargetName b ↔ b = atom := by
      intro b
      constructor
      · intro h
        exact ((hpoints b offset).mp ⟨hoffset, Or.inr ⟨hatom, h⟩⟩).1
      · intro h
        subst h
        rcases hself.2 with h | h
        · rw [hatom] at h
          cases h
        · exact h.2
    constructor
    · intro h
      rcases h with h | ⟨h, _⟩
      · exact (hnamed a).mp h
      · exact absurd ((hnamed atom).mpr rfl) (h atom)
    · intro h
      exact Or.inl ((hnamed a).mpr h)

end Meaning

def symbolOf (w : Writer) (rd : Reader 64) (atom : Atom) : Option Nlist :=
  match w.symbolIndex atom with
  | .ok num => rd.fSymbols[(num.setWidth 24).toNat]?
  | .error _ => none

/-- The reader's tables are those of the file that was written; `src` is the atom that is
read for `inAtom`. -/
structure ReadsBack (w : Writer) (rd : Reader 64) (sect : Section 64) (inAtom src : Atom)
    (ref : Ref) : Prop where
  sectionAddress : inAtom.getAddress = sect.addr + inAtom.getSectionOffset
  /-- a section is smaller than 2 GB -/
  small : inAtom.getSectionOffset + ref.getFixUpOffset < 0x80000000
  source : (findAtomAndOffset rd.fAddrToAtom (inAtom.getAddress + ref.getFixUpOffset)).atom = some src
  sourceAddress : src.getAddress = inAtom.getAddress
  fromZero : ∃ a, (0, a) ∈ rd.fAddrToAtom.entries
  keys : ∀ it ∈ rd.fAddrToAtom.entries, it.2.getAddress = it.1
  namesUnique : rd.NamesUnique
  toSymbol : makesExternalRelocatableReference ref.getTarget = true →
    ∃ sym, symbolOf w rd ref.getTarget = some sym ∧ SymbolOf rd ref.getTarget sym
  fromSymbol : IsDifference ref.getKind → makesExternalRelocatableReference ref.getFromTarget = true →
    ∃ sym, symbolOf w rd ref.getFromTarget = some sym ∧ SymbolOf rd ref.getFromTarget sym
  sections : makesExternalRelocatableReference ref.getTarget = false →
    ∃ s, rd.sections[ref.getTarget.sectionIndex.toNat - 1]? = some s

section RoundTrip
variable {w : Writer} {rd : Reader 64} {sect : Section 64} {inAtom src : Atom} {ref : Ref}

variable (rd ref) in
/-- The `to` side is at the address that was written. -/
def SameTo (r : Reference ReferenceKinds) : Prop :=
  ∃ a, Means rd ref.getTarget r.fToTarget.atom r.fToTargetName a ∧
    a.getAddress + r.fToTarget.offset.signExtend 64 = ref.getTarget.getAddress + ref.getTargetOffset

variable (rd ref) in
def SameFrom (r : Reference ReferenceKinds) : Prop :=
  ∃ a, Means rd ref.getFromTarget r.fFromTarget.atom r.fFromTargetName a ∧
    a.getAddress + r.fFromTarget.offset.setWidth 64 =
      ref.getFromTarget.getAddress + ref.getFromTargetOffset

variable (rd ref) in
def SameReference (r : Reference ReferenceKinds) : Prop :=
  withoutWeakImport r.fKind = withoutWeakImport ref.getKind ∧
    r.fFixUpOffsetInSrc = ref.fFixUpOffsetInSrc ∧ SameTo rd ref r ∧
      (IsDifference ref.getKind → SameFrom rd ref r)

theorem srcAddr_eq (hback : ReadsBack w rd sect inAtom src ref) :
    sect.addr + (Writer.relocAddress inAtom ref).setWidth 64 =
      inAtom.getAddress + ref.getFixUpOffset := by
  have hsmall := hback.small
  rw [hback.sectionAddress]
  unfold Writer.relocAddress
  bv_omega

theorem relocAddress_small (hback : ReadsBack w rd sect inAtom src ref) :
    Writer.relocAddress inAtom ref < 0x80000000 := by
  have hsmall := hback.small
  unfold Writer.relocAddress
  bv_omega

theorem ReadsBack.at_eq (hback : ReadsBack w rd sect inAtom src ref) :
    findAtomAndOffset rd.fAddrToAtom (inAtom.getAddress + ref.getFixUpOffset) =
      { atom := some src, offset := ref.fFixUpOffsetInSrc } := by
  obtain ⟨key, hmem, hoffset⟩ := find_key hback.source
  have hkey : src.getAddress = key := hback.keys _ hmem
  rw [← hkey, hback.sourceAddress] at hoffset
  have hfix : (inAtom.getAddress + ref.getFixUpOffset - inAtom.getAddress).setWidth 32 =
      ref.fFixUpOffsetInSrc := by
    unfold BoundReference.getFixUpOffset
    bv_omega
  exact AtomAndOffset.eq_mk hback.source (hoffset.trans hfix)

theorem getTargetOffset_low (ref : Ref) :
    (ref.getTargetOffset.setWidth 32).signExtend 64 = ref.getTargetOffset := by
  unfold BoundReference.getTargetOffset
  rw [signExtend_truncate _ (by decide)]

section One
variable {result : Except ReadError (Decoded ReferenceKinds)} {kind : ReferenceKinds}

variable {r : Reference ReferenceKinds}
variable {value : BitVec 64} {offset : BitVec 32} {reloc : RelocWords} {sym : Nlist}

theorem sameReference_iff (hdiff : ¬ IsDifference ref.getKind)
    (hkind : r.fKind = kind) (hoffset : r.fFixUpOffsetInSrc = ref.fFixUpOffsetInSrc) :
    SameReference rd ref r ↔ withoutWeakImport kind = withoutWeakImport ref.getKind ∧
      SameTo rd ref r := by
  unfold SameReference
  rw [hkind, hoffset]
  constructor
  · intro ⟨h, _, hto, _⟩
    exact ⟨h, hto⟩
  · intro ⟨h, hto⟩
    exact ⟨h, rfl, hto, fun h => absurd h hdiff⟩

theorem sameTo_byName {name : String}
    (hto : r.fToTarget = { offset }) (hname : r.fToTargetName = some name) :
    SameTo rd ref r ↔ StandsFor rd ref.getTarget name
      (ref.getTarget.getAddress + ref.getTargetOffset - offset.signExtend 64) := by
  unfold SameTo StandsFor
  rw [hto, hname]
  apply exists_congr
  intro a
  apply and_congr_right
  intro _
  constructor
  · intro h
    bv_omega
  · intro h
    bv_omega

theorem sameTo_direct {atom : Atom} (hpoints : ∀ a o, r.PointsTo rd a o ↔ a = atom ∧ o = offset) :
    SameTo rd ref r ↔
      atom.getAddress + offset.signExtend 64 = ref.getTarget.getAddress + ref.getTargetOffset := by
  obtain ⟨hoffset, hmeans⟩ := means_of_pointsTo ref.getTarget hpoints
  unfold SameTo
  rw [hoffset]
  simp only [hmeans, exists_eq_left]

theorem yields_toSymbol
    (hback : ReadsBack w rd sect inAtom src ref) (hdiff : ¬ IsDifference ref.getKind)
    (hsym : SymbolOf rd ref.getTarget sym) (hvalue : value = ref.getTargetOffset)
    (hread : result = addReference (makeReferenceToSymbol rd kind
      (inAtom.getAddress + ref.getFixUpOffset) sym value)) : Yields result (SameReference rd ref) ↔
      withoutWeakImport kind = withoutWeakImport ref.getKind ∧ Finds rd ref.getTarget sym := by
  subst hvalue
  unfold makeReferenceToSymbol at hread
  unfold Finds
  rw [hback.at_eq] at hread
  by_cases hbinds : bindsDirectly sym = true
  · have hin : sym.inSection = true := by
      exact (Bool.and_eq_true_iff.mp hbinds).1
    obtain ⟨hvalue, a, hmem⟩ := hsym.inSection hin
    rw [if_pos hbinds, hvalue, findWithBase_of_mem hmem] at hread
    have hsrc : (AtomAndOffset.mk (some src) ref.fFixUpOffsetInSrc).atom = some src := rfl
    have hto : ∀ o, (AtomAndOffset.mk (some a) o).atom = some a := fun _ => rfl
    obtain ⟨r, hr, hkind, hoffset, _, _, hpoints⟩ := newReference_pointsTo kind hback.namesUnique
      (mem_atoms_of_entry hmem) hsrc (hto _)
    rw [hr] at hread
    have haddress : a.getAddress = ref.getTarget.getAddress := hback.keys _ hmem
    have hsum : ref.getTarget.getAddress + ref.getTargetOffset - ref.getTarget.getAddress =
        ref.getTargetOffset := by
      bv_omega
    rw [yields_iff hread rfl, sameReference_iff hdiff hkind hoffset, sameTo_direct hpoints, hsum,
      getTargetOffset_low, haddress]
    simp [hbinds]
  · rw [if_neg hbinds, newReferenceByName_ok rfl] at hread
    have hsum : ref.getTarget.getAddress + ref.getTargetOffset - ref.getTargetOffset =
        ref.getTarget.getAddress := by
      bv_omega
    rw [yields_iff hread rfl, sameReference_iff hdiff rfl rfl, sameTo_byName rfl rfl,
      getTargetOffset_low, hsum]
    simp [hbinds]

variable (rd) in
def InReach (address : BitVec 64) : Prop :=
  ∀ a, (findAtomAndOffset rd.fAddrToAtom address).atom = some a →
    ((address - a.getAddress).setWidth 32).signExtend 64 = address - a.getAddress

variable (kind) in
theorem makeReference_same (hback : ReadsBack w rd sect inAtom src ref)
    (hdiff : ¬ IsDifference ref.getKind) :
    ∃ r, makeReference rd kind (inAtom.getAddress + ref.getFixUpOffset)
        (ref.getTarget.getAddress + ref.getTargetOffset) = .ok r ∧
      (SameReference rd ref r ↔ withoutWeakImport kind = withoutWeakImport ref.getKind ∧
        InReach rd (ref.getTarget.getAddress + ref.getTargetOffset)) := by
  obtain ⟨zero, hzero⟩ := hback.fromZero
  obtain ⟨a, hfind⟩ := find_isSome hzero (ref.getTarget.getAddress + ref.getTargetOffset)
  obtain ⟨key, hmem, hkey⟩ := find_key hfind
  have haddress : a.getAddress = key := hback.keys _ hmem
  obtain ⟨r, hr, hkind, hoffset, _, _, hpoints⟩ := newReference_pointsTo kind hback.namesUnique
    (mem_atoms_of_entry hmem) (congrArg AtomAndOffset.atom hback.at_eq) hfind
  refine ⟨r, hr, ?_⟩
  rw [hback.at_eq] at hoffset
  rw [sameReference_iff hdiff hkind hoffset, sameTo_direct hpoints, hkey, ← haddress]
  apply and_congr_right
  intro _
  unfold InReach
  rw [hfind]
  constructor
  · intro h b hb
    obtain rfl := Option.some.inj hb
    bv_omega
  · intro h
    have := h a rfl
    bv_omega

variable (rd ref) in
def InSection : Prop :=
  ∀ s, rd.sections[ref.getTarget.sectionIndex.toNat - 1]? = some s →
    s.addr ≤ ref.getTarget.getAddress + ref.getTargetOffset ∧
      ref.getTarget.getAddress + ref.getTargetOffset ≤ s.addr + s.size

def NamesTarget (w : Writer) (reloc : RelocWords) (target : Atom) : Prop :=
  ∃ num, w.symbolnum (makesExternalRelocatableReference target) target = .ok num ∧
    reloc.r_symbolnum = num.setWidth 24 ∧
      reloc.r_external = makesExternalRelocatableReference target

theorem targetSymbol_eq {target : Atom} (hnames : NamesTarget w reloc target)
    (hexternal : makesExternalRelocatableReference target = true)
    (hsym : symbolOf w rd target = some sym) : targetSymbol rd reloc = .ok sym := by
  obtain ⟨num, hnum, hsymbolnum, _⟩ := hnames
  unfold Writer.symbolnum at hnum
  rw [hexternal, if_pos rfl] at hnum
  unfold symbolOf at hsym
  rw [hnum] at hsym
  have hsym : rd.fSymbols[(num.setWidth 24).toNat]? = some sym := hsym
  unfold targetSymbol
  rw [hsymbolnum, hsym]

theorem yields_verified
    (hback : ReadsBack w rd sect inAtom src ref) (hdiff : ¬ IsDifference ref.getKind)
    (hnames : NamesTarget w reloc ref.getTarget)
    (hlocal : makesExternalRelocatableReference ref.getTarget = false)
    (hvalue : value = ref.getTarget.getAddress + ref.getTargetOffset)
    (hread : result = verifiedReference rd sect reloc kind (inAtom.getAddress + ref.getFixUpOffset)
      value) : Yields result (SameReference rd ref) ↔
      withoutWeakImport kind = withoutWeakImport ref.getKind ∧ InSection rd ref ∧
        InReach rd (ref.getTarget.getAddress + ref.getTargetOffset) := by
  subst hvalue
  obtain ⟨r, hr, hsame⟩ := makeReference_same kind hback hdiff
  obtain ⟨s, hs⟩ := hback.sections hlocal
  obtain ⟨num, hnum, hsymbolnum, _⟩ := hnames
  unfold Writer.symbolnum at hnum
  rw [hlocal, if_neg Bool.false_ne_true] at hnum
  obtain rfl := Except.ok.inj hnum
  have hindex : (ref.getTarget.sectionIndex.setWidth 32 |>.setWidth 24 : BitVec 24).toNat =
      ref.getTarget.sectionIndex.toNat := by
    bv_omega
  unfold verifiedReference at hread
  rw [hr] at hread
  unfold verifySection at hread
  rw [hsymbolnum, hindex, hs] at hread
  have hin : InSection rd ref ↔ s.addr ≤ ref.getTarget.getAddress + ref.getTargetOffset ∧
      ref.getTarget.getAddress + ref.getTargetOffset ≤ s.addr + s.size := by
    unfold InSection
    rw [hs]
    simp only [Option.some.injEq, forall_eq']
  dsimp only at hread
  split at hread
  · rename_i hout
    have hnot : ¬ InSection rd ref := by
      rw [hin]
      simp only [Bool.or_eq_true, decide_eq_true_eq] at hout
      bv_omega
    constructor
    · intro h
      exact absurd h (not_yields_error hread)
    · intro ⟨_, h, _⟩
      exact absurd h hnot
  · rename_i hout
    have hyes : InSection rd ref := by
      rw [hin]
      simp only [Bool.or_eq_true, decide_eq_true_eq] at hout
      bv_omega
    rw [yields_iff hread rfl, hsame]
    simp only [hyes, true_and]

theorem yields_local (hback : ReadsBack w rd sect inAtom src ref)
    (hdiff : ¬ IsDifference ref.getKind)
    (hvalue : value = ref.getTarget.getAddress + ref.getTargetOffset)
    (hread : result = addReference (makeReference rd kind (inAtom.getAddress + ref.getFixUpOffset)
      value)) : Yields result (SameReference rd ref) ↔
      withoutWeakImport kind = withoutWeakImport ref.getKind ∧
        InReach rd (ref.getTarget.getAddress + ref.getTargetOffset) := by
  subst hvalue
  obtain ⟨r, hr, hsame⟩ := makeReference_same kind hback hdiff
  rw [hr] at hread
  rw [yields_iff hread rfl, hsame]

end One

section Content
variable {raw content : BitVec 64}

theorem pcrelDisplacement_eq (size : BitVec 64) : pcrelDisplacement ref inAtom size =
    if makesExternalRelocatableReference ref.getTarget then ref.getTargetOffset
    else ref.getTarget.getAddress + ref.getTargetOffset -
      (inAtom.getAddress + ref.getFixUpOffset + size) := by
  unfold pcrelDisplacement
  dsimp only
  rw [getTargetOffset_low]

theorem read_set32 {d : BitVec 64} (h : outOfRange d 0x7FFFFFFF = false) (raw : BitVec 64) :
    ((set32 raw (d.setWidth 32)).setWidth 32).signExtend 64 = d := by
  obtain ⟨hlow, hhigh⟩ := outOfRange_false h
  unfold set32
  rw [setWidth_append_low, signExtend_setWidth (k := 31) (by decide) (by omega) (by omega),
    BitVec.signExtend_eq]

theorem content_pcrel32 {type : BitVec 4} (hentry : entryOf ref.getKind = some (true, 2, type))
    (hgot : type ≠ X86_64_RELOC_GOT ∧ type ≠ X86_64_RELOC_GOT_LOAD)
    (hcontent : fixUpReferenceRelocatable ref inAtom raw = .ok content) :
    (content.setWidth 32).signExtend 64 =
      pcrelDisplacement ref inAtom 4 - kindBias ref.getKind := by
  unfold fixUpReferenceRelocatable at hcontent
  cases hkind : ref.getKind
  all_goals
    rw [hkind] at hentry hcontent
    first
    | cases hentry
      done
    | obtain ⟨hfits, hvalue⟩ := ite_error_ok hcontent
      rw [hvalue, read_set32 hfits]
    | obtain rfl := (Prod.mk.inj (Prod.mk.inj (Option.some.inj hentry)).2).2
      exact absurd rfl hgot.1
    | obtain rfl := (Prod.mk.inj (Prod.mk.inj (Option.some.inj hentry)).2).2
      exact absurd rfl hgot.2

end Content

section Plain
variable {reloc next : RelocWords} {num : BitVec 24} {isExtern : Bool} {content : BitVec 64}
variable {type : BitVec 4} {kind : ReferenceKinds}

theorem read_unsigned (hback : ReadsBack w rd sect inAtom src ref)
    (hplain : IsPlain reloc (Writer.relocAddress inAtom ref) num false 3 isExtern
      X86_64_RELOC_UNSIGNED) : addRelocReference rd sect reloc next content =
      if isExtern then targetSymbol rd reloc >>= fun sym =>
        addReference (makeReferenceToSymbol rd .kPointer (inAtom.getAddress + ref.getFixUpOffset)
          sym content)
      else verifiedReference rd sect reloc .kPointer (inAtom.getAddress + ref.getFixUpOffset)
        content := by
  unfold addRelocReference
  rw [hplain.type, if_pos rfl, hplain.address, srcAddr_eq hback]
  unfold readUnsigned
  rw [hplain.pcrel, hplain.length, hplain.isExtern]
  rfl

theorem read_signed (hback : ReadsBack w rd sect inAtom src ref) (hsigned : isSigned type = true)
    (hplain : IsPlain reloc (Writer.relocAddress inAtom ref) num true 2 isExtern type) :
    addRelocReference rd sect reloc next content =
      if isExtern then targetSymbol rd reloc >>= fun sym =>
        addReference (makeReferenceToSymbol rd
          (externalSigned type ((content.setWidth 32).signExtend 64)).1
          (inAtom.getAddress + ref.getFixUpOffset) sym
          (externalSigned type ((content.setWidth 32).signExtend 64)).2)
      else verifiedReference rd sect reloc (localSigned type).1
        (inAtom.getAddress + ref.getFixUpOffset)
        (inAtom.getAddress + ref.getFixUpOffset + (localSigned type).2 +
          (content.setWidth 32).signExtend 64) := by
  have htype : type ≠ X86_64_RELOC_UNSIGNED := by
    intro h
    subst h
    cases hsigned
  unfold addRelocReference
  rw [hplain.type, if_neg htype, if_pos hsigned, hplain.address, srcAddr_eq hback]
  unfold readSigned
  rw [hplain.pcrel, hplain.length, hplain.isExtern, hplain.type]
  rfl

theorem read_branch32 (hback : ReadsBack w rd sect inAtom src ref)
    (hplain : IsPlain reloc (Writer.relocAddress inAtom ref) num true 2 isExtern
      X86_64_RELOC_BRANCH) : addRelocReference rd sect reloc next content =
      if isExtern then targetSymbol rd reloc >>= fun sym =>
        match branchSite sym.name with
        | some (kind, extra) =>
          (makeByNameReference rd kind (inAtom.getAddress + ref.getFixUpOffset) sym.name 0).map
            fun r => { reference := some r, dtraceExtraInfos := some extra }
        | none =>
          addReference (makeReferenceToSymbol rd
            (if sym.isWeakImportSymbol then .kBranchPCRel32WeakImport else .kBranchPCRel32)
            (inAtom.getAddress + ref.getFixUpOffset) sym ((content.setWidth 32).signExtend 64))
      else addReference (makeReference rd .kBranchPCRel32 (inAtom.getAddress + ref.getFixUpOffset)
        (inAtom.getAddress + ref.getFixUpOffset + 4 + (content.setWidth 32).signExtend 64)) := by
  unfold addRelocReference
  rw [hplain.type, if_neg (by decide), if_neg (by decide), if_pos rfl, hplain.address,
    srcAddr_eq hback]
  unfold readBranch
  rw [hplain.pcrel, hplain.length, hplain.isExtern]
  rfl

theorem read_branch8 (hback : ReadsBack w rd sect inAtom src ref)
    (hplain : IsPlain reloc (Writer.relocAddress inAtom ref) num true 0 isExtern
      X86_64_RELOC_BRANCH) : addRelocReference rd sect reloc next content =
      if isExtern then targetSymbol rd reloc >>= fun sym =>
        addReference (makeReferenceToSymbol rd .kBranchPCRel8
          (inAtom.getAddress + ref.getFixUpOffset) sym
          (((content.setWidth 32).setWidth 8).signExtend 64))
      else addReference (makeReference rd .kBranchPCRel8 (inAtom.getAddress + ref.getFixUpOffset)
        (inAtom.getAddress + ref.getFixUpOffset + 1 +
          ((content.setWidth 32).setWidth 8).signExtend 64)) := by
  unfold addRelocReference
  rw [hplain.type, if_neg (by decide), if_neg (by decide), if_pos rfl, hplain.address,
    srcAddr_eq hback]
  unfold readBranch
  rw [hplain.pcrel, hplain.length, hplain.isExtern]
  rfl

theorem read_got (hback : ReadsBack w rd sect inAtom src ref)
    (hgot : type = X86_64_RELOC_GOT ∨ type = X86_64_RELOC_GOT_LOAD)
    (hplain : IsPlain reloc (Writer.relocAddress inAtom ref) num true 2 true type) :
    addRelocReference rd sect reloc next content =
      targetSymbol rd reloc >>= fun sym =>
        addReference (makeReferenceToSymbol rd (gotKind type sym.isWeakImportSymbol)
          (inAtom.getAddress + ref.getFixUpOffset) sym ((content.setWidth 32).signExtend 64)) := by
  unfold addRelocReference
  rw [hplain.type, hplain.address, srcAddr_eq hback]
  rcases hgot with h | h
  all_goals
    subst h
    unfold readGOT
    rw [hplain.pcrel, hplain.length, hplain.isExtern, hplain.type]
    rfl

theorem read_got_local (hgot : type = X86_64_RELOC_GOT ∨ type = X86_64_RELOC_GOT_LOAD)
    (hplain : IsPlain reloc (Writer.relocAddress inAtom ref) num true 2 false type) :
    ∃ e, addRelocReference rd sect reloc next content = .error e := by
  unfold addRelocReference
  rw [hplain.type]
  rcases hgot with h | h
  all_goals
    subst h
    unfold readGOT
    rw [hplain.isExtern]
    exact ⟨_, rfl⟩

variable (rd ref) in
/-- A dtrace symbol is looked for among the atoms of the file first. -/
def FindsByName (name : String) : Prop :=
  match findAtomByName rd name with
  | some a =>
    if a.getScope = .scopeTranslationUnit then
      a.getAddress = ref.getTarget.getAddress + ref.getTargetOffset
    else StandsFor rd ref.getTarget name (ref.getTarget.getAddress + ref.getTargetOffset)
  | none => StandsFor rd ref.getTarget name (ref.getTarget.getAddress + ref.getTargetOffset)

variable (rd ref) in
/-- An external target is found, and neither its addend nor its name has another meaning. -/
def LosslessExternal (sym : Nlist) : Prop :=
  match ref.getKind with
  | .kPCRel32 =>
    (ref.fToTargetOffset ≠ -1 ∧ ref.fToTargetOffset ≠ -2 ∧ ref.fToTargetOffset ≠ -4) ∧
      Finds rd ref.getTarget sym
  | .kBranchPCRel32 | .kBranchPCRel32WeakImport =>
    branchSite sym.name = none ∧ Finds rd ref.getTarget sym
  | .kDtraceProbeSite | .kDtraceIsEnabledSite =>
    (branchSite sym.name).map Prod.fst = some ref.getKind ∧ FindsByName rd ref sym.name
  | _ => Finds rd ref.getTarget sym

variable (rd ref) in
/-- A local target is in its section, and not what needs a symbol. -/
def LosslessLocal : Prop :=
  match ref.getKind with
  | .kPCRel32GOT | .kPCRel32GOTLoad | .kPCRel32GOTWeakImport | .kPCRel32GOTLoadWeakImport
  | .kDtraceProbeSite | .kDtraceIsEnabledSite => False
  | .kBranchPCRel32 | .kBranchPCRel32WeakImport | .kBranchPCRel8 =>
    InReach rd (ref.getTarget.getAddress + ref.getTargetOffset)
  | _ => InSection rd ref ∧ InReach rd (ref.getTarget.getAddress + ref.getTargetOffset)

theorem branchSite_kind {name : String} {extra : String}
    (h : branchSite name = some (kind, extra)) :
    kind = .kDtraceProbeSite ∨ kind = .kDtraceIsEnabledSite := by
  unfold branchSite at h
  split at h
  · cases h
    exact Or.inl rfl
  split at h
  · cases h
    exact Or.inr rfl
  · cases h

theorem yields_byName {result : Except ReadError (Decoded ReferenceKinds)}
    {name extra : String} (hback : ReadsBack w rd sect inAtom src ref)
    (hdiff : ¬ IsDifference ref.getKind)
    (hread : result = (makeByNameReference rd kind (inAtom.getAddress + ref.getFixUpOffset) name
      0).map fun r => { reference := some r, dtraceExtraInfos := some extra }) :
    Yields result (SameReference rd ref) ↔
      withoutWeakImport kind = withoutWeakImport ref.getKind ∧ FindsByName rd ref name := by
  have hzero : ref.getTarget.getAddress + ref.getTargetOffset - (0 : BitVec 32).signExtend 64 =
      ref.getTarget.getAddress + ref.getTargetOffset := by
    have : (0 : BitVec 32).signExtend 64 = 0 := by decide
    bv_omega
  have hname : ∀ {result : Except ReadError (Decoded ReferenceKinds)}, result =
      (newReferenceByName kind { atom := some src, offset := ref.fFixUpOffsetInSrc } (some name)
        0).map (fun r => { reference := some r, dtraceExtraInfos := some extra }) →
      (Yields result (SameReference rd ref) ↔
        withoutWeakImport kind = withoutWeakImport ref.getKind ∧
          StandsFor rd ref.getTarget name (ref.getTarget.getAddress + ref.getTargetOffset)) := by
    intro result h
    rw [yields_iff h rfl, sameReference_iff hdiff rfl rfl, sameTo_byName rfl rfl, hzero]
  unfold makeByNameReference at hread
  rw [hback.at_eq] at hread
  unfold FindsByName
  cases hfound : findAtomByName rd name with
  | some a =>
    rw [hfound] at hread
    dsimp only at hread ⊢
    by_cases hstatic : a.getScope = .scopeTranslationUnit
    · rw [if_pos hstatic] at hread ⊢
      have hmem : a ∈ rd.atoms := List.mem_of_find?_eq_some hfound
      have hsrc : (AtomAndOffset.mk (some src) ref.fFixUpOffsetInSrc).atom = some src := rfl
      have hto : (AtomAndOffset.mk (some a) 0).atom = some a := rfl
      obtain ⟨r, hr, hkind, hoffset, _, _, hpoints⟩ :=
        newReference_pointsTo kind hback.namesUnique hmem hsrc hto
      rw [hr] at hread
      rw [yields_iff hread rfl, sameReference_iff hdiff hkind hoffset, sameTo_direct hpoints]
      have : (0 : BitVec 32).signExtend 64 = 0 := by decide
      apply and_congr_right
      intro _
      constructor
      · intro h
        bv_omega
      · intro h
        bv_omega
    · rw [if_neg hstatic] at hread ⊢
      exact hname hread
  | none =>
    rw [hfound] at hread
    exact hname hread

variable (w rd ref) in
def LosslessOne : Prop :=
  if makesExternalRelocatableReference ref.getTarget then
    ∀ sym, symbolOf w rd ref.getTarget = some sym → LosslessExternal rd ref sym
  else LosslessLocal rd ref

theorem losslessOne_external {sym : Nlist}
    (hexternal : makesExternalRelocatableReference ref.getTarget = true)
    (hsym : symbolOf w rd ref.getTarget = some sym) :
    LosslessOne w rd ref ↔ LosslessExternal rd ref sym := by
  unfold LosslessOne
  rw [if_pos hexternal, hsym]
  simp only [Option.some.injEq, forall_eq']

theorem losslessOne_local (hlocal : makesExternalRelocatableReference ref.getTarget = false) :
    LosslessOne w rd ref ↔ LosslessLocal rd ref := by
  unfold LosslessOne
  rw [hlocal, if_neg Bool.false_ne_true]

theorem not_isDifference {entry : Bool × BitVec 2 × BitVec 4}
    (hentry : entryOf ref.getKind = some entry) : ¬ IsDifference ref.getKind := by
  intro h
  rcases h with h | h
  · rw [h] at hentry
    cases hentry
  · rw [h] at hentry
    cases hentry

section Kinds
variable {raw : BitVec 64} {isExternal : Bool}
variable {type : BitVec 4} {result : Except ReadError (Decoded ReferenceKinds)} {atAddr value : BitVec 64}
  {kind : ReferenceKinds} {length : BitVec 2} {pcrel : Bool}

theorem NamesTarget.isExternal_eq {target : Atom} (hnames : NamesTarget w reloc target)
    (hplain : IsPlain reloc (Writer.relocAddress inAtom ref) num pcrel length isExternal type) :
    isExternal = makesExternalRelocatableReference target := by
  obtain ⟨_, _, _, hexternal⟩ := hnames
  exact hplain.isExtern.symm.trans hexternal

theorem yields_unsigned (hback : ReadsBack w rd sect inAtom src ref)
    (hkind : ref.getKind = .kPointer ∨ ref.getKind = .kPointerWeakImport)
    (hcontent : fixUpReferenceRelocatable ref inAtom raw = .ok content)
    (hnames : NamesTarget w reloc ref.getTarget)
    (hplain : IsPlain reloc (Writer.relocAddress inAtom ref) num false 3 isExternal
      X86_64_RELOC_UNSIGNED) :
    Yields (addRelocReference rd sect reloc next content) (SameReference rd ref) ↔
      LosslessOne w rd ref := by
  have hread : addRelocReference rd sect reloc next content = _ := read_unsigned hback hplain
  rw [hnames.isExternal_eq hplain] at hread
  have hdiff : ¬ IsDifference ref.getKind := by
    unfold IsDifference
    rcases hkind with h | h
    · simp [h]
    · simp [h]
  have hmeaning : withoutWeakImport .kPointer = withoutWeakImport ref.getKind := by
    rcases hkind with h | h
    · rw [h]
    rw [h]
    rfl
  have hvalue : (if makesExternalRelocatableReference ref.getTarget then ref.getTargetOffset
      else ref.getTarget.getAddress + ref.getTargetOffset) = content := by
    unfold fixUpReferenceRelocatable at hcontent
    rcases hkind with h | h
    · rw [h] at hcontent
      exact Except.ok.inj hcontent
    · rw [h] at hcontent
      exact Except.ok.inj hcontent
  cases hexternal : makesExternalRelocatableReference ref.getTarget with
  | true =>
    obtain ⟨sym, hsym, hsymbol⟩ := hback.toSymbol hexternal
    rw [hexternal, if_pos rfl] at hread hvalue
    rw [targetSymbol_eq hnames hexternal hsym] at hread
    have hlossless : LosslessExternal rd ref sym ↔ Finds rd ref.getTarget sym := by
      unfold LosslessExternal
      rcases hkind with h | h
      · rw [h]
      · rw [h]
    rw [losslessOne_external hexternal hsym, hlossless,
      yields_toSymbol hback hdiff hsymbol hvalue.symm hread]
    exact and_iff_right hmeaning
  | false =>
    rw [hexternal, if_neg Bool.false_ne_true] at hread hvalue
    have hlossless : LosslessLocal rd ref ↔
        InSection rd ref ∧ InReach rd (ref.getTarget.getAddress + ref.getTargetOffset) := by
      unfold LosslessLocal
      rcases hkind with h | h
      · rw [h]
      · rw [h]
    rw [losslessOne_local hexternal, hlossless,
      yields_verified hback hdiff hnames hexternal hvalue.symm hread]
    exact and_iff_right hmeaning

variable {sym : Nlist}

theorem makeReferenceToSymbol_kind
    {r : Reference ReferenceKinds} (h : makeReferenceToSymbol rd kind atAddr sym value = .ok r) :
    r.fKind = kind := by
  unfold makeReferenceToSymbol at h
  split at h
  · exact newReference_kind h
  · exact newReferenceByName_kind h

theorem yields_kind (hread : result = addReference (makeReferenceToSymbol rd kind atAddr sym value))
    (h : Yields result (SameReference rd ref)) :
    withoutWeakImport kind = withoutWeakImport ref.getKind := by
  obtain ⟨d, r, hd, hr, hsame⟩ := h
  rw [hread] at hd
  obtain ⟨r', hr', hd⟩ := map_eq_ok.mp hd
  subst hd
  obtain rfl := Option.some.inj hr
  rw [← makeReferenceToSymbol_kind hr']
  exact hsame.1

theorem signed_cases (hentry : entryOf ref.getKind = some (true, 2, type))
    (hsigned : isSigned type = true) : ref.getKind = .kPCRel32 ∧ type = X86_64_RELOC_SIGNED ∨
      ref.getKind = .kPCRel32_1 ∧ type = X86_64_RELOC_SIGNED_1 ∨
      ref.getKind = .kPCRel32_2 ∧ type = X86_64_RELOC_SIGNED_2 ∨
      ref.getKind = .kPCRel32_4 ∧ type = X86_64_RELOC_SIGNED_4 := by
  cases hkind : ref.getKind
  all_goals
    rw [hkind] at hentry
    first
    | cases hentry
      done
    | cases hentry
      exact absurd hsigned (by decide)
    | cases hentry
      simp

theorem getTargetOffset_eq_iff (c : BitVec 32) :
    ref.getTargetOffset = c.signExtend 64 ↔ ref.fToTargetOffset = c := by
  unfold BoundReference.getTargetOffset
  constructor
  · intro h
    have := congrArg (BitVec.setWidth 32) h
    rwa [signExtend_truncate _ (by decide), signExtend_truncate _ (by decide)] at this
  · intro h
    rw [h]

theorem externalSigned_biased {addend : BitVec 64}
    (h : type = X86_64_RELOC_SIGNED_1 ∨ type = X86_64_RELOC_SIGNED_2 ∨
      type = X86_64_RELOC_SIGNED_4) : externalSigned type addend =
      ((localSigned type).1, addend + kindBias (localSigned type).1) := by
  unfold externalSigned localSigned
  rcases h with h | h | h
  · subst h
    rfl
  · subst h
    rfl
  · subst h
    rfl

theorem end_of_instruction (x pc bias : BitVec 64) :
    pc + (4 + bias) + (x - (pc + 4) - bias) = x := by
  bv_omega

theorem end_of_field (x pc size : BitVec 64) : pc + size + (x - (pc + size) - 0) = x := by
  bv_omega

theorem externalSigned_plain (hback : ReadsBack w rd sect inAtom src ref)
    (hkind : ref.getKind = .kPCRel32) (hsymbol : SymbolOf rd ref.getTarget sym)
    (hread : result = addReference (makeReferenceToSymbol rd
      (externalSigned X86_64_RELOC_SIGNED ref.getTargetOffset).1
      (inAtom.getAddress + ref.getFixUpOffset) sym
      (externalSigned X86_64_RELOC_SIGNED ref.getTargetOffset).2)) :
    Yields result (SameReference rd ref) ↔
      (ref.fToTargetOffset ≠ -1 ∧ ref.fToTargetOffset ≠ -2 ∧ ref.fToTargetOffset ≠ -4) ∧
        Finds rd ref.getTarget sym := by
  have hdiff : ¬ IsDifference ref.getKind := by
    unfold IsDifference
    simp [hkind]
  have hno : ∀ {kind : ReferenceKinds} {value : BitVec 64}, kind ≠ .kPCRel32 →
      withoutWeakImport kind = kind → result = addReference (makeReferenceToSymbol rd kind
        (inAtom.getAddress + ref.getFixUpOffset) sym value) →
      ¬ Yields result (SameReference rd ref) := by
    intro kind value hne hself hread hyields
    have hsame := yields_kind hread hyields
    rw [hself, hkind] at hsame
    exact hne hsame
  unfold externalSigned at hread
  rw [if_pos rfl] at hread
  have hm1 : ref.getTargetOffset = -1 ↔ ref.fToTargetOffset = -1 := getTargetOffset_eq_iff (-1)
  have hm2 : ref.getTargetOffset = -2 ↔ ref.fToTargetOffset = -2 := getTargetOffset_eq_iff (-2)
  have hm4 : ref.getTargetOffset = -4 ↔ ref.fToTargetOffset = -4 := getTargetOffset_eq_iff (-4)
  by_cases h1 : ref.getTargetOffset = -1
  · rw [if_pos h1] at hread
    constructor
    · intro h
      exact absurd h (hno (by decide) rfl hread)
    · intro h
      exact absurd (hm1.mp h1) h.1.1
  · rw [if_neg h1] at hread
    by_cases h2 : ref.getTargetOffset = -2
    · rw [if_pos h2] at hread
      constructor
      · intro h
        exact absurd h (hno (by decide) rfl hread)
      · intro h
        exact absurd (hm2.mp h2) h.1.2.1
    · rw [if_neg h2] at hread
      by_cases h4 : ref.getTargetOffset = -4
      · rw [if_pos h4] at hread
        constructor
        · intro h
          exact absurd h (hno (by decide) rfl hread)
        · intro h
          exact absurd (hm4.mp h4) h.1.2.2
      · rw [if_neg h4] at hread
        rw [yields_toSymbol hback hdiff hsymbol rfl hread, hkind]
        constructor
        · intro h
          exact ⟨⟨mt hm1.mpr h1, mt hm2.mpr h2, mt hm4.mpr h4⟩, h.2⟩
        · intro h
          exact ⟨rfl, h.2⟩

theorem yields_signed (hback : ReadsBack w rd sect inAtom src ref)
    (hentry : entryOf ref.getKind = some (true, 2, type)) (hsigned : isSigned type = true)
    (hcontent : fixUpReferenceRelocatable ref inAtom raw = .ok content)
    (hnames : NamesTarget w reloc ref.getTarget)
    (hplain : IsPlain reloc (Writer.relocAddress inAtom ref) num true 2 isExternal type) :
    Yields (addRelocReference rd sect reloc next content) (SameReference rd ref) ↔
      LosslessOne w rd ref := by
  have hread : addRelocReference rd sect reloc next content = _ :=
    read_signed hback hsigned hplain
  have hcases := signed_cases hentry hsigned
  have hgot : type ≠ X86_64_RELOC_GOT ∧ type ≠ X86_64_RELOC_GOT_LOAD := by
    constructor
    · intro h
      rw [h] at hsigned
      exact absurd hsigned (by decide)
    · intro h
      rw [h] at hsigned
      exact absurd hsigned (by decide)
  have hvalue := content_pcrel32 hentry hgot hcontent
  have hdiff := not_isDifference hentry
  have hlocal : localSigned type = (ref.getKind, 4 + kindBias ref.getKind) := by
    rcases hcases with ⟨hkind, rfl⟩ | ⟨hkind, rfl⟩ | ⟨hkind, rfl⟩ | ⟨hkind, rfl⟩
    all_goals
      rw [hkind]
      rfl
  rw [hnames.isExternal_eq hplain, hvalue, pcrelDisplacement_eq] at hread
  cases hexternal : makesExternalRelocatableReference ref.getTarget with
  | true =>
    obtain ⟨sym, hsym, hsymbol⟩ := hback.toSymbol hexternal
    simp only [hexternal, if_true] at hread
    rw [targetSymbol_eq hnames hexternal hsym] at hread
    rw [losslessOne_external hexternal hsym]
    rcases hcases with ⟨hkind, htype⟩ | hbiased
    · rw [hkind, htype] at hread
      rw [show kindBias .kPCRel32 = 0 from rfl, show ref.getTargetOffset - 0 = ref.getTargetOffset
        from BitVec.sub_zero _] at hread
      unfold LosslessExternal
      rw [hkind]
      exact externalSigned_plain hback hkind hsymbol hread
    · have htype : type = X86_64_RELOC_SIGNED_1 ∨ type = X86_64_RELOC_SIGNED_2 ∨
          type = X86_64_RELOC_SIGNED_4 :=
        hbiased.imp And.right fun h => h.imp And.right And.right
      rw [externalSigned_biased htype, hlocal] at hread
      rw [yields_toSymbol hback hdiff hsymbol (BitVec.sub_add_cancel _ _) hread]
      have hlossless : LosslessExternal rd ref sym ↔ Finds rd ref.getTarget sym := by
        unfold LosslessExternal
        rcases hbiased with ⟨hkind, _⟩ | ⟨hkind, _⟩ | ⟨hkind, _⟩
        all_goals rw [hkind]
      rw [hlossless]
      exact and_iff_right rfl
  | false =>
    simp only [hexternal, Bool.false_eq_true, if_false] at hread
    rw [hlocal] at hread
    have hlossless : LosslessLocal rd ref ↔
        InSection rd ref ∧ InReach rd (ref.getTarget.getAddress + ref.getTargetOffset) := by
      unfold LosslessLocal
      rcases hcases with ⟨hkind, _⟩ | ⟨hkind, _⟩ | ⟨hkind, _⟩ | ⟨hkind, _⟩
      all_goals rw [hkind]
    rw [losslessOne_local hexternal, hlossless,
      yields_verified hback hdiff hnames hexternal (end_of_instruction _ _ _) hread]
    exact and_iff_right rfl

variable (rd) in
/-- The kinds with a 32-bit branch entry: a call, or the site of a dtrace probe. -/
theorem branch_cases (hentry : entryOf ref.getKind = some (true, 2, X86_64_RELOC_BRANCH)) :
    (withoutWeakImport ref.getKind = .kBranchPCRel32 ∧ kindBias ref.getKind = 0 ∧
        (∀ sym, LosslessExternal rd ref sym ↔
          branchSite sym.name = none ∧ Finds rd ref.getTarget sym) ∧
        (LosslessLocal rd ref ↔ InReach rd (ref.getTarget.getAddress + ref.getTargetOffset))) ∨
      (withoutWeakImport ref.getKind = ref.getKind ∧ ref.getKind ≠ .kBranchPCRel32 ∧
        kindBias ref.getKind = 0 ∧
        (∀ sym, LosslessExternal rd ref sym ↔
          (branchSite sym.name).map Prod.fst = some ref.getKind ∧ FindsByName rd ref sym.name) ∧
        (LosslessLocal rd ref ↔ False)) := by
  unfold LosslessExternal LosslessLocal
  cases hkind : ref.getKind
  all_goals
    rw [hkind] at hentry
    first
    | exact absurd hentry (by decide)
    | exact Or.inl ⟨rfl, rfl, fun _ => Iff.rfl, Iff.rfl⟩
    | exact Or.inr ⟨rfl, by decide, rfl, fun _ => Iff.rfl, Iff.rfl⟩

theorem yields_branch32 (hback : ReadsBack w rd sect inAtom src ref)
    (hentry : entryOf ref.getKind = some (true, 2, X86_64_RELOC_BRANCH))
    (hcontent : fixUpReferenceRelocatable ref inAtom raw = .ok content)
    (hnames : NamesTarget w reloc ref.getTarget)
    (hplain : IsPlain reloc (Writer.relocAddress inAtom ref) num true 2 isExternal
      X86_64_RELOC_BRANCH) :
    Yields (addRelocReference rd sect reloc next content) (SameReference rd ref) ↔
      LosslessOne w rd ref := by
  have hread : addRelocReference rd sect reloc next content = _ := read_branch32 hback hplain
  have hvalue := content_pcrel32 hentry (by decide) hcontent
  have hdiff := not_isDifference hentry
  have hcases := branch_cases rd hentry
  have hbias : kindBias ref.getKind = 0 := by
    rcases hcases with h | h
    · exact h.2.1
    · exact h.2.2.1
  rw [hbias] at hvalue
  rw [hnames.isExternal_eq hplain, hvalue, pcrelDisplacement_eq] at hread
  cases hexternal : makesExternalRelocatableReference ref.getTarget with
  | true =>
    obtain ⟨sym, hsym, hsymbol⟩ := hback.toSymbol hexternal
    simp only [hexternal, if_true] at hread
    rw [targetSymbol_eq hnames hexternal hsym] at hread
    have hread : addRelocReference rd sect reloc next content =
        match branchSite sym.name with
        | some (kind, extra) => _
        | none => _ := hread
    rw [losslessOne_external hexternal hsym]
    cases hsite : branchSite sym.name with
    | none =>
      rw [hsite] at hread
      have hmeaning : withoutWeakImport (if sym.isWeakImportSymbol then .kBranchPCRel32WeakImport
          else .kBranchPCRel32) = .kBranchPCRel32 := by
        split
        · rfl
        · rfl
      rw [yields_toSymbol hback hdiff hsymbol (BitVec.sub_zero _) hread, hmeaning]
      rcases hcases with ⟨hkind, _, hlossless, _⟩ | ⟨hkind, hne, _, hlossless, _⟩
      · rw [hlossless, hkind, hsite]
        exact and_congr_left' ⟨fun _ => rfl, fun _ => rfl⟩
      rw [hlossless, hkind, hsite]
      constructor
      · intro h
        exact absurd h.1.symm hne
      · intro h
        cases h.1
    | some site =>
      obtain ⟨kind, extra⟩ := site
      rw [hsite] at hread
      have hself : withoutWeakImport kind = kind ∧ kind ≠ .kBranchPCRel32 := by
        rcases branchSite_kind hsite with h | h
        · subst h
          exact ⟨rfl, by decide⟩
        · subst h
          exact ⟨rfl, by decide⟩
      rw [yields_byName hback hdiff hread, hself.1]
      rcases hcases with ⟨hkind, _, hlossless, _⟩ | ⟨hkind, _, _, hlossless, _⟩
      · rw [hlossless, hkind, hsite]
        constructor
        · intro h
          exact absurd h.1 hself.2
        · intro h
          cases h.1
      · rw [hlossless, hkind, hsite]
        simp
  | false =>
    simp only [hexternal, Bool.false_eq_true, if_false] at hread
    rw [losslessOne_local hexternal, yields_local hback hdiff (end_of_field _ _ _) hread]
    rcases hcases with ⟨hkind, _, _, hlossless⟩ | ⟨hkind, hne, _, _, hlossless⟩
    · rw [hlossless, hkind]
      exact and_iff_right rfl
    rw [hlossless, hkind]
    simp only [iff_false, not_and]
    intro h
    exact absurd h.symm hne

theorem yields_branch8 (hback : ReadsBack w rd sect inAtom src ref)
    (hkind : ref.getKind = .kBranchPCRel8)
    (hcontent : fixUpReferenceRelocatable ref inAtom raw = .ok content)
    (hnames : NamesTarget w reloc ref.getTarget)
    (hplain : IsPlain reloc (Writer.relocAddress inAtom ref) num true 0 isExternal
      X86_64_RELOC_BRANCH) :
    Yields (addRelocReference rd sect reloc next content) (SameReference rd ref) ↔
      LosslessOne w rd ref := by
  have hread : addRelocReference rd sect reloc next content = _ := read_branch8 hback hplain
  have hdiff : ¬ IsDifference ref.getKind := by
    unfold IsDifference
    simp [hkind]
  have hvalue : ((content.setWidth 32).setWidth 8).signExtend 64 =
      pcrelDisplacement ref inAtom 1 - 0 := by
    unfold fixUpReferenceRelocatable at hcontent
    rw [hkind] at hcontent
    obtain ⟨hfits, hset⟩ := ite_error_ok hcontent
    simp only [Bool.or_eq_false_iff, decide_eq_false_iff_not, Int.not_lt] at hfits
    have hlow : (content.setWidth 32).setWidth 8 = content.setWidth 8 := by
      simp
    rw [hlow, hset]
    unfold set8
    rw [setWidth_append_low, signExtend_setWidth (k := 7) (by decide) (by omega) (by omega),
      BitVec.signExtend_eq]
    exact (BitVec.sub_zero _).symm
  rw [hnames.isExternal_eq hplain, hvalue, pcrelDisplacement_eq] at hread
  cases hexternal : makesExternalRelocatableReference ref.getTarget with
  | true =>
    obtain ⟨sym, hsym, hsymbol⟩ := hback.toSymbol hexternal
    simp only [hexternal, if_true] at hread
    rw [targetSymbol_eq hnames hexternal hsym] at hread
    rw [losslessOne_external hexternal hsym,
      yields_toSymbol hback hdiff hsymbol (BitVec.sub_zero _) hread, LosslessExternal, hkind]
    exact and_iff_right rfl
  | false =>
    simp only [hexternal, Bool.false_eq_true, if_false] at hread
    rw [losslessOne_local hexternal, yields_local hback hdiff (end_of_field _ _ _) hread,
      LosslessLocal, hkind]
    exact and_iff_right rfl

variable (rd inAtom) in
theorem got_cases {type : BitVec 4} (hgot : type = X86_64_RELOC_GOT ∨ type = X86_64_RELOC_GOT_LOAD)
    (hentry : entryOf ref.getKind = some (true, 2, type)) :
    (∀ weakImport, withoutWeakImport (gotKind type weakImport) = withoutWeakImport ref.getKind) ∧
      (∀ sym, LosslessExternal rd ref sym ↔ Finds rd ref.getTarget sym) ∧
      (LosslessLocal rd ref ↔ False) ∧
      ∀ content, fixUpReferenceRelocatable ref inAtom content =
        .ok (set32 content (ref.getTargetOffset.setWidth 32)) := by
  unfold LosslessExternal LosslessLocal fixUpReferenceRelocatable
  rcases hgot with h | h
  all_goals
    subst h
    cases hkind : ref.getKind
    all_goals
      rw [hkind] at hentry
      first
      | exact absurd hentry (by decide)
      | exact ⟨by decide, fun _ => Iff.rfl, Iff.rfl, fun _ => rfl⟩

theorem yields_got (hback : ReadsBack w rd sect inAtom src ref)
    (hgot : type = X86_64_RELOC_GOT ∨ type = X86_64_RELOC_GOT_LOAD)
    (hentry : entryOf ref.getKind = some (true, 2, type))
    (hcontent : fixUpReferenceRelocatable ref inAtom raw = .ok content)
    (hnames : NamesTarget w reloc ref.getTarget)
    (hplain : IsPlain reloc (Writer.relocAddress inAtom ref) num true 2 isExternal type) :
    Yields (addRelocReference rd sect reloc next content) (SameReference rd ref) ↔
      LosslessOne w rd ref := by
  obtain ⟨hmeaning, hlossless, hlocal, hset⟩ := got_cases rd inAtom hgot hentry
  have hvalue : (content.setWidth 32).signExtend 64 = ref.getTargetOffset := by
    rw [hset] at hcontent
    rw [← Except.ok.inj hcontent, set32, setWidth_append_low, getTargetOffset_low]
  cases hexternal : makesExternalRelocatableReference ref.getTarget with
  | true =>
    rw [hnames.isExternal_eq hplain, hexternal] at hplain
    have hread : addRelocReference rd sect reloc next content = _ := read_got hback hgot hplain
    obtain ⟨sym, hsym, hsymbol⟩ := hback.toSymbol hexternal
    rw [targetSymbol_eq hnames hexternal hsym] at hread
    rw [losslessOne_external hexternal hsym, hlossless,
      yields_toSymbol hback (not_isDifference hentry) hsymbol hvalue hread]
    exact and_iff_right (hmeaning _)
  | false =>
    rw [hnames.isExternal_eq hplain, hexternal] at hplain
    have hread : ∃ e, addRelocReference rd sect reloc next content = .error e :=
      read_got_local hgot hplain
    obtain ⟨e, hread⟩ := hread
    rw [losslessOne_local hexternal, hlocal]
    exact iff_of_false (not_yields_error hread) id

theorem yields_one_iff (hback : ReadsBack w rd sect inAtom src ref)
    (hentry : entryOf ref.getKind = some (pcrel, length, type))
    (hcontent : fixUpReferenceRelocatable ref inAtom raw = .ok content)
    (hnames : NamesTarget w reloc ref.getTarget)
    (hplain : IsPlain reloc (Writer.relocAddress inAtom ref) num pcrel length isExternal type) :
    Yields (addRelocReference rd sect reloc next content) (SameReference rd ref) ↔
      LosslessOne w rd ref := by
  have hentry' := hentry
  cases hkind : ref.getKind
  all_goals
    rw [hkind] at hentry'
    first
    | cases hentry'
      done
    | cases hentry'
      exact yields_unsigned hback (by simp [hkind]) hcontent hnames hplain
    | cases hentry'
      exact yields_signed hback hentry rfl hcontent hnames hplain
    | cases hentry'
      exact yields_branch32 hback hentry hcontent hnames hplain
    | cases hentry'
      exact yields_branch8 hback hkind hcontent hnames hplain
    | cases hentry'
      exact yields_got hback (by decide) hentry hcontent hnames hplain

end Kinds
end Plain

end RoundTrip
end Toolwhip.Ld64.Reloc.X86_64
