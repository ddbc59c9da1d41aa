import Toolwhip.Ld64.RelocsX8664RoundTrip

/-! # Reading back x86_64 differences

The content of a difference has one addend for both sides, and the reader gives it to
the side that its sign says. -/

namespace Toolwhip.Ld64.Reloc.X86_64
open Lib.ThrowingFold Lib.BitFields BitVec
set_option autoImplicit false

section RoundTrip
variable {w : Writer} {rd : Reader 64} {sect : Section 64} {inAtom src : Atom} {ref : Ref}
variable {raw content : BitVec 64} {length : BitVec 2} {next : RelocWords} {type : BitVec 4}
    {pcrel : Bool}

/-! ## The two sides -/

/-- What the reader takes the sides of a difference for does not depend on like names. -/
structure WellNamed (w : Writer) (rd : Reader 64) (src : Atom) (ref : Ref) : Prop where
  toExternal : makesExternalRelocatableReference ref.getTarget = true
  sourceNamed : ∃ name, src.getName = some name
  toName : ∀ sym, symbolOf w rd ref.getTarget = some sym → src.getName = some sym.name →
    ref.getTarget.getAddress = src.getAddress
  toStatic : ∀ sym, symbolOf w rd ref.getTarget = some sym → sym.external = false →
    sym.inSection = true
  fromName : ∀ sym, symbolOf w rd ref.getFromTarget = some sym → sym.external = true →
    src.getName = some sym.name → ref.getFromTarget.getAddress = src.getAddress
  fromStatic : ∀ sym, symbolOf w rd ref.getFromTarget = some sym → sym.external = false →
    sym.inSection = true

def IsAt (rd : Reader 64) (target : Atom) (atom : Option Atom) (name : Option String) : Prop :=
  (∃ a, Means rd target atom name a) ∧
    ∀ a, Means rd target atom name a → a.getAddress = target.getAddress

variable {target : Atom}

theorem isAt_atom {a : Atom} {name : Option String} (h : a.getAddress = target.getAddress) :
    IsAt rd target (some a) name := by
  refine ⟨⟨a, rfl⟩, ?_⟩
  intro b hb
  rw [hb]
  exact h

variable {sym : Nlist}

theorem isAt_name (h : SymbolOf rd target sym)
    (hexternal : sym.external = true) : IsAt rd target none (some sym.name) := by
  obtain ⟨hscope, hname, hnamed⟩ := h.global hexternal
  constructor
  · by_cases hdefined : ∃ a, rd.Named (some sym.name) a
    · obtain ⟨a, ha⟩ := hdefined
      exact ⟨a, Or.inl ha⟩
    · exact ⟨target, Or.inr ⟨fun b hb => hdefined ⟨b, hb⟩, rfl, hscope, hname⟩⟩
  · intro a ha
    rcases ha with ha | ⟨_, ha, _⟩
    · exact hnamed a ha
    · rw [ha]

theorem subtractorTo_ok (kind : ReferenceKinds)
    (hback : ReadsBack w rd sect inAtom src ref) (hnamed : WellNamed w rd src ref)
    (hnames : NamesTarget w next ref.getTarget) (hsym : symbolOf w rd ref.getTarget = some sym)
    (hsymbol : SymbolOf rd ref.getTarget sym) (dstAddr : BitVec 64) :
    ∃ r, subtractorTo rd kind src next (inAtom.getAddress + ref.getFixUpOffset) dstAddr = .ok r ∧
      r.fKind = kind ∧ r.fFixUpOffsetInSrc = ref.fFixUpOffsetInSrc ∧ r.fToTarget.offset = 0 ∧
      r.fFromTarget = {} ∧ r.fFromTargetName = none ∧
      IsAt rd ref.getTarget r.fToTarget.atom r.fToTargetName := by
  obtain ⟨name, hname⟩ := hnamed.sourceNamed
  have hexternal : next.r_external = true := by
    obtain ⟨_, _, _, h⟩ := hnames
    rw [h]
    exact hnamed.toExternal
  -- the reference to the symbol, before its name is compared
  have hmade : ∃ r, makeReferenceToSymbol rd kind (inAtom.getAddress + ref.getFixUpOffset) sym 0 =
      .ok r ∧ r.fKind = kind ∧ r.fFixUpOffsetInSrc = ref.fFixUpOffsetInSrc ∧
      r.fToTarget.offset = 0 ∧ r.fFromTarget = {} ∧ r.fFromTargetName = none ∧
      IsAt rd ref.getTarget r.fToTarget.atom r.fToTargetName := by
    unfold makeReferenceToSymbol
    rw [hback.at_eq]
    by_cases hbinds : bindsDirectly sym = true
    · have hin : sym.inSection = true := by
        exact (Bool.and_eq_true_iff.mp hbinds).1
      obtain ⟨hvalue, a, hmem⟩ := hsymbol.inSection hin
      have hzero : ref.getTarget.getAddress + 0 - ref.getTarget.getAddress = 0 := by
        bv_omega
      rw [if_pos hbinds, hvalue, findWithBase_of_mem hmem, hzero]
      have hsrc : (AtomAndOffset.mk (some src) ref.fFixUpOffsetInSrc).atom = some src := rfl
      have hto : ∀ o, (AtomAndOffset.mk (some a) o).atom = some a := fun _ => rfl
      obtain ⟨r, hr, hkind, hoffset, hfrom, hfromName, hpoints⟩ :=
        newReference_pointsTo kind hback.namesUnique (mem_atoms_of_entry hmem) hsrc (hto _)
      obtain ⟨hto, hmeans⟩ := means_of_pointsTo ref.getTarget hpoints
      refine ⟨r, hr, hkind, hoffset, hto, hfrom, hfromName, ⟨a, (hmeans a).mpr rfl⟩, ?_⟩
      intro b hb
      rw [(hmeans b).mp hb]
      exact hback.keys _ hmem
    · have hglobal : sym.external = true := by
        cases hstatic : sym.external with
        | true => rfl
        | false =>
          unfold bindsDirectly at hbinds
          rw [hnamed.toStatic sym hsym hstatic, hstatic] at hbinds
          exact absurd rfl hbinds
      rw [if_neg hbinds, newReferenceByName_ok rfl]
      exact ⟨_, rfl, rfl, rfl, rfl, rfl, rfl, isAt_name hsymbol hglobal⟩
  obtain ⟨r, hr, hkind, hoffset, hto, hfrom, hfromName, hat⟩ := hmade
  unfold subtractorTo
  rw [if_pos hexternal, targetSymbol_eq hnames hnamed.toExternal hsym, hname]
  by_cases heq : sym.name = name
  · refine ⟨{ r with fToTarget := { atom := some src } }, ?_, hkind, hoffset, rfl, hfrom, hfromName,
      isAt_atom ?_⟩
    · apply bind_eq_ok.mpr
      refine ⟨sym, rfl, bind_eq_ok.mpr ⟨r, hr, ?_⟩⟩
      simp only [heq, if_true]
    · rw [← heq] at hname
      exact (hnamed.toName sym hsym hname).symm
  · refine ⟨r, ?_, hkind, hoffset, hto, hfrom, hfromName, hat⟩
    apply bind_eq_ok.mpr
    refine ⟨sym, rfl, bind_eq_ok.mpr ⟨r, hr, ?_⟩⟩
    simp only [heq, if_false]

variable {r : Reference ReferenceKinds}

theorem subtractorFrom_ok
    (hback : ReadsBack w rd sect inAtom src ref) (hnamed : WellNamed w rd src ref)
    (hsym : symbolOf w rd ref.getFromTarget = some sym) (hsymbol : SymbolOf rd ref.getFromTarget sym)
    (hfrom : r.fFromTarget = {}) : ∃ atom name, subtractorFrom rd src sym r =
        .ok { r with fFromTarget := { atom := atom }, fFromTargetName := name } ∧
      IsAt rd ref.getFromTarget atom name := by
  obtain ⟨name, hname⟩ := hnamed.sourceNamed
  unfold subtractorFrom
  rw [hfrom]
  cases hexternal : sym.external with
  | false =>
    obtain ⟨hvalue, a, hmem⟩ := hsymbol.inSection (hnamed.fromStatic sym hsym hexternal)
    rw [Bool.not_false, if_pos rfl, hvalue, find_of_mem hmem]
    exact ⟨some a, r.fFromTargetName, rfl, isAt_atom (hback.keys _ hmem)⟩
  | true =>
    rw [Bool.not_true, if_neg Bool.false_ne_true, hname]
    by_cases heq : sym.name = name
    · rw [← heq] at hname
      refine ⟨some src, r.fFromTargetName, ?_, isAt_atom (hnamed.fromName sym hsym hexternal hname).symm⟩
      simp only [heq, if_true]
    · refine ⟨none, some sym.name, ?_, isAt_name hsymbol hexternal⟩
      simp only [heq, if_false, ← hfrom]

theorem sameTo_isAt (hat : IsAt rd ref.getTarget r.fToTarget.atom r.fToTargetName) :
    SameTo rd ref r ↔ r.fToTarget.offset = ref.fToTargetOffset := by
  obtain ⟨⟨a, ha⟩, hall⟩ := hat
  have hsign : ∀ {x y : BitVec 32}, x.signExtend 64 = y.signExtend 64 → x = y := by
    intro x y h
    have := congrArg (BitVec.setWidth 32) h
    rwa [signExtend_truncate _ (by decide), signExtend_truncate _ (by decide)] at this
  unfold SameTo BoundReference.getTargetOffset
  constructor
  · intro ⟨b, hb, hsum⟩
    rw [hall b hb] at hsum
    exact hsign ((BitVec.add_right_inj _).mp hsum)
  · intro h
    refine ⟨a, ha, ?_⟩
    rw [hall a ha, h]

theorem sameFrom_isAt (hat : IsAt rd ref.getFromTarget r.fFromTarget.atom r.fFromTargetName) :
    SameFrom rd ref r ↔ r.fFromTarget.offset = ref.fFromTargetOffset := by
  obtain ⟨⟨a, ha⟩, hall⟩ := hat
  unfold SameFrom BoundReference.getFromTargetOffset
  constructor
  · intro ⟨b, hb, hsum⟩
    rw [hall b hb] at hsum
    bv_omega
  · intro h
    refine ⟨a, ha, ?_⟩
    rw [hall a ha, h]

theorem nonneg_iff (x : BitVec 32) : 0 ≤ x.toInt ↔ x < 0x80000000 := by
  rw [toInt_eq_toNat_cond]
  split
  · bv_omega
  · bv_omega

theorem msb_iff32 (x : BitVec 32) : x.msb = true ↔ 0x80000000 ≤ x := by
  rw [msb_eq_decide, decide_eq_true_eq]
  bv_omega

theorem msb_iff64 (x : BitVec 64) : x.msb = true ↔ 0x8000000000000000 ≤ x := by
  rw [msb_eq_decide, decide_eq_true_eq]
  bv_omega

theorem signExtend_cases (x : BitVec 32) : x.signExtend 64 =
    if x < 0x80000000 then x.setWidth 64 else x.setWidth 64 + 0xFFFFFFFF00000000 := by
  split
  · apply signExtend_eq_setWidth_of_msb_false
    rw [msb_eq_decide, decide_eq_false_iff_not]
    bv_omega
  rw [signExtend_eq_not_setWidth_not_of_msb_true]
  · bv_omega
  · rw [msb_eq_decide, decide_eq_true_eq]
    bv_omega

variable (ref) in
def OneSided : Prop :=
  ref.fFromTargetOffset = 0 ∧ 0 ≤ ref.fToTargetOffset.toInt ∨
    ref.fToTargetOffset = 0 ∧
      (ref.getKind = .kPointerDiff32 → ref.fFromTargetOffset ≤ 0x80000000)

theorem oneSided32 (x y : BitVec 32) :
    (if (x - y).msb then (0 : BitVec 32) = x ∧ -(x - y) = y else x - y = x ∧ (0 : BitVec 32) = y) ↔
      y = 0 ∧ 0 ≤ x.toInt ∨ x = 0 ∧ y ≤ 0x80000000 := by
  rw [nonneg_iff]
  have hmsb := msb_iff32 (x - y)
  split
  · rename_i h
    have := hmsb.mp h
    bv_omega
  · rename_i h
    have := mt hmsb.mpr h
    bv_omega

theorem oneSided64 (x y : BitVec 32) : (if (x.signExtend 64 - y.setWidth 64).msb then
        (0 : BitVec 32) = x ∧ (-(x.signExtend 64 - y.setWidth 64)).setWidth 32 = y
      else (x.signExtend 64 - y.setWidth 64).setWidth 32 = x ∧ (0 : BitVec 32) = y) ↔
      y = 0 ∧ 0 ≤ x.toInt ∨ x = 0 := by
  rw [nonneg_iff]
  have hmsb := msb_iff64 (x.signExtend 64 - y.setWidth 64)
  rw [signExtend_cases] at hmsb ⊢
  by_cases hx : x < 0x80000000
  · rw [if_pos hx] at hmsb ⊢
    split
    · rename_i h
      have := hmsb.mp h
      bv_omega
    · rename_i h
      have := mt hmsb.mpr h
      bv_omega
  · rw [if_neg hx] at hmsb ⊢
    split
    · rename_i h
      bv_omega
    rename_i h
    have := mt hmsb.mpr h
    bv_omega

theorem subtractorAddend32 (hkind : ref.getKind = .kPointerDiff32)
    (hcontent : fixUpReferenceRelocatable ref inAtom raw = .ok content) :
    subtractorAddend 2 content = ((ref.fToTargetOffset - ref.fFromTargetOffset).setWidth 64,
      (ref.fToTargetOffset - ref.fFromTargetOffset).msb) := by
  unfold fixUpReferenceRelocatable at hcontent
  rw [hkind] at hcontent
  have hlow : content.setWidth 32 = ref.fToTargetOffset - ref.fFromTargetOffset := by
    rw [← Except.ok.inj hcontent, set32, setWidth_append_low]
    have hto : ref.getTargetOffset.setWidth 32 = ref.fToTargetOffset :=
      signExtend_truncate _ (by decide)
    have hfrom : ref.getFromTargetOffset.setWidth 32 = ref.fFromTargetOffset := by
      unfold BoundReference.getFromTargetOffset
      simp
    bv_omega
  unfold subtractorAddend
  rw [if_pos rfl, hlow]

theorem subtractorAddend64 (hkind : ref.getKind = .kPointerDiff)
    (hcontent : fixUpReferenceRelocatable ref inAtom raw = .ok content) :
    subtractorAddend 3 content =
      (ref.fToTargetOffset.signExtend 64 - ref.fFromTargetOffset.setWidth 64,
        (ref.fToTargetOffset.signExtend 64 - ref.fFromTargetOffset.setWidth 64).msb) := by
  unfold fixUpReferenceRelocatable at hcontent
  rw [hkind] at hcontent
  obtain rfl := Except.ok.inj hcontent
  rfl

theorem setWidth_neg_low (c : BitVec 32) : (-(c.setWidth 64 : BitVec 64)).setWidth 32 = -c := by
  bv_omega

theorem setWidth_low (c : BitVec 32) : (c.setWidth 64).setWidth 32 = c := by
  bv_omega

theorem oneSided_iff
    (hlength : ref.getKind = .kPointerDiff32 ∧ length = 2 ∨ ref.getKind = .kPointerDiff ∧ length = 3)
    (hcontent : fixUpReferenceRelocatable ref inAtom raw = .ok content) :
    (if (subtractorAddend length content).2 then
        (0 : BitVec 32) = ref.fToTargetOffset ∧
          (-(subtractorAddend length content).1).setWidth 32 = ref.fFromTargetOffset
      else (subtractorAddend length content).1.setWidth 32 = ref.fToTargetOffset ∧
        (0 : BitVec 32) = ref.fFromTargetOffset) ↔ OneSided ref := by
  unfold OneSided
  rcases hlength with ⟨hkind, hlength⟩ | ⟨hkind, hlength⟩
  · rw [hlength, subtractorAddend32 hkind hcontent, setWidth_neg_low, setWidth_low, oneSided32, hkind]
    simp
  · rw [hlength, subtractorAddend64 hkind hcontent, oneSided64, hkind]
    simp

theorem setAddend_isAt (negative : Bool) (addend : BitVec 64)
    (hatTo : IsAt rd ref.getTarget r.fToTarget.atom r.fToTargetName)
    (hatFrom : IsAt rd ref.getFromTarget r.fFromTarget.atom r.fFromTargetName) :
    IsAt rd ref.getTarget (setAddend negative addend r).fToTarget.atom
        (setAddend negative addend r).fToTargetName ∧
      IsAt rd ref.getFromTarget (setAddend negative addend r).fFromTarget.atom
        (setAddend negative addend r).fFromTargetName := by
  cases negative with
  | true => exact ⟨hatTo, hatFrom⟩
  | false => exact ⟨hatTo, hatFrom⟩

theorem setAddend_offsets (hto : r.fToTarget.offset = 0)
    (hfrom : r.fFromTarget.offset = 0) (negative : Bool) (addend : BitVec 64) :
    (setAddend negative addend r).fToTarget.offset = (if negative then 0 else addend.setWidth 32) ∧
      (setAddend negative addend r).fFromTarget.offset =
        if negative then (-addend).setWidth 32 else 0 := by
  cases negative with
  | true => exact ⟨hto, rfl⟩
  | false => exact ⟨rfl, hfrom⟩

theorem setAddend_same (negative : Bool) (addend : BitVec 64) (r : Reference ReferenceKinds)
    (hto : r.fToTarget.offset = 0) (hfrom : r.fFromTarget.offset = 0)
    (hatTo : IsAt rd ref.getTarget r.fToTarget.atom r.fToTargetName)
    (hatFrom : IsAt rd ref.getFromTarget r.fFromTarget.atom r.fFromTargetName) :
    SameTo rd ref (setAddend negative addend r) ∧ SameFrom rd ref (setAddend negative addend r) ↔
      if negative then (0 : BitVec 32) = ref.fToTargetOffset ∧
          (-addend).setWidth 32 = ref.fFromTargetOffset
        else addend.setWidth 32 = ref.fToTargetOffset ∧ (0 : BitVec 32) = ref.fFromTargetOffset := by
  obtain ⟨hatTo', hatFrom'⟩ := setAddend_isAt negative addend hatTo hatFrom
  obtain ⟨hto', hfrom'⟩ := setAddend_offsets hto hfrom negative addend
  rw [sameTo_isAt hatTo', sameFrom_isAt hatFrom', hto', hfrom']
  cases negative with
  | true => simp only [if_true]
  | false => simp only [Bool.false_eq_true, if_false]

theorem setAddend_fixUp (negative : Bool) (addend : BitVec 64) (r : Reference ReferenceKinds) :
    (setAddend negative addend r).fKind = r.fKind ∧
      (setAddend negative addend r).fFixUpOffsetInSrc = r.fFixUpOffsetInSrc := by
  cases negative with
  | true => exact ⟨rfl, rfl⟩
  | false => exact ⟨rfl, rfl⟩

section Pair
variable {raw content : BitVec 64} {reloc next : RelocWords} {num nextNum : BitVec 24}
  {length : BitVec 2} {fromExternal toExternal : Bool}

theorem read_subtractor (hback : ReadsBack w rd sect inAtom src ref) (hlong : ¬ length < 2)
    (hplain : IsPlain reloc (Writer.relocAddress inAtom ref) num false length fromExternal
      X86_64_RELOC_SUBTRACTOR) : addRelocReference rd sect reloc next content =
      if fromExternal then readSubtractor rd reloc next (inAtom.getAddress + ref.getFixUpOffset)
        content
      else .error (.thrown "X86_64_RELOC_SUBTRACTOR must have r_extern=1") := by
  unfold addRelocReference
  dsimp only
  rw [hplain.type, hplain.address, srcAddr_eq hback]
  cases fromExternal with
  | true => rfl
  | false =>
    unfold readSubtractor
    rw [hplain.pcrel, hplain.length, hplain.isExtern, if_neg Bool.false_ne_true, if_neg hlong]
    rfl

variable (content) in
theorem difference_read (hback : ReadsBack w rd sect inAtom src ref)
    (hnamed : WellNamed w rd src ref)
    (hlength : ref.getKind = .kPointerDiff32 ∧ length = 2 ∨ ref.getKind = .kPointerDiff ∧ length = 3)
    (hexternal : makesExternalRelocatableReference ref.getFromTarget = true)
    (hfrom : NamesTarget w reloc ref.getFromTarget) (hto : NamesTarget w next ref.getTarget)
    (hplain : IsPlain reloc (Writer.relocAddress inAtom ref) num false length fromExternal
      X86_64_RELOC_SUBTRACTOR)
    (hnext : IsPlain next (Writer.relocAddress inAtom ref) nextNum false length toExternal
      X86_64_RELOC_UNSIGNED) : ∃ r, addRelocReference rd sect reloc next content = .ok
        { reference := some (setAddend (subtractorAddend length content).2
            (subtractorAddend length content).1 r)
          skipNext := true } ∧
      r.fKind = ref.getKind ∧ r.fFixUpOffsetInSrc = ref.fFixUpOffsetInSrc ∧
      r.fToTarget.offset = 0 ∧ r.fFromTarget.offset = 0 ∧
      IsAt rd ref.getTarget r.fToTarget.atom r.fToTargetName ∧
      IsAt rd ref.getFromTarget r.fFromTarget.atom r.fFromTargetName := by
  have hdiff : IsDifference ref.getKind := hlength.symm.imp And.left And.left
  have hkind : subtractorKind length = ref.getKind := by
    unfold subtractorKind
    rcases hlength with ⟨hk, hl⟩ | ⟨hk, hl⟩
    · rw [hk, if_pos hl]
    rw [hk, hl]
    rfl
  have hlong : ¬ length < 2 := by
    rcases hlength with ⟨_, hl⟩ | ⟨_, hl⟩
    · rw [hl]
      decide
    · rw [hl]
      decide
  have hfromExternal : fromExternal = true := (hfrom.isExternal_eq hplain).trans hexternal
  have hread : addRelocReference rd sect reloc next content = _ :=
    read_subtractor hback hlong hplain
  rw [if_pos hfromExternal] at hread
  unfold readSubtractor at hread
  rw [hplain.pcrel, hplain.length, if_neg Bool.false_ne_true, if_neg hlong, hplain.isExtern,
    hfromExternal, Bool.not_true, if_neg Bool.false_ne_true, hnext.type, if_neg (by decide),
    hnext.pcrel, if_neg Bool.false_ne_true, hnext.length, if_neg (fun h => h rfl), hback.at_eq,
    hkind] at hread
  obtain ⟨symTo, hsymTo, hsymbolTo⟩ := hback.toSymbol hnamed.toExternal
  obtain ⟨symFrom, hsymFrom, hsymbolFrom⟩ := hback.fromSymbol hdiff hexternal
  obtain ⟨r, hr, hrKind, hrOffset, hrTo, hrFrom, _, hatTo⟩ := subtractorTo_ok ref.getKind hback
    hnamed hto hsymTo hsymbolTo (subtractorAddend length content).1
  obtain ⟨atom, name, hr', hatFrom⟩ := subtractorFrom_ok hback hnamed hsymFrom hsymbolFrom hrFrom
  refine ⟨{ r with fFromTarget := { atom }, fFromTargetName := name }, ?_, hrKind, hrOffset, hrTo,
    rfl, hatTo, hatFrom⟩
  rw [hread]
  apply bind_eq_ok.mpr
  refine ⟨r, hr, bind_eq_ok.mpr ⟨symFrom, targetSymbol_eq hfrom hexternal hsymFrom, ?_⟩⟩
  exact bind_eq_ok.mpr ⟨_, hr', rfl⟩

/-- A difference is read back as it was written just if it is one-sided and its `from` side
has a symbol. -/
theorem yields_difference_iff (hback : ReadsBack w rd sect inAtom src ref)
    (hnamed : WellNamed w rd src ref)
    (hlength : ref.getKind = .kPointerDiff32 ∧ length = 2 ∨ ref.getKind = .kPointerDiff ∧ length = 3)
    (hcontent : fixUpReferenceRelocatable ref inAtom raw = .ok content)
    (hfrom : NamesTarget w reloc ref.getFromTarget) (hto : NamesTarget w next ref.getTarget)
    (hplain : IsPlain reloc (Writer.relocAddress inAtom ref) num false length fromExternal
      X86_64_RELOC_SUBTRACTOR)
    (hnext : IsPlain next (Writer.relocAddress inAtom ref) nextNum false length toExternal
      X86_64_RELOC_UNSIGNED) :
    Yields (addRelocReference rd sect reloc next content) (SameReference rd ref) ↔
      makesExternalRelocatableReference ref.getFromTarget = true ∧ OneSided ref := by
  have hdiff : IsDifference ref.getKind := hlength.symm.imp And.left And.left
  cases hexternal : makesExternalRelocatableReference ref.getFromTarget with
  | false =>
    have hlong : ¬ length < 2 := by
      rcases hlength with ⟨_, hl⟩ | ⟨_, hl⟩
      · rw [hl]
        decide
      · rw [hl]
        decide
    have hread : addRelocReference rd sect reloc next content = _ :=
      read_subtractor hback hlong hplain
    rw [hfrom.isExternal_eq hplain, hexternal] at hread
    exact iff_of_false (not_yields_error hread) fun h => Bool.false_ne_true h.1
  | true =>
    obtain ⟨r, hread, hkind, hoffset, hrTo, hrFrom, hatTo, hatFrom⟩ :=
      difference_read content hback hnamed hlength hexternal hfrom hto hplain hnext
    obtain ⟨hkind', hoffset'⟩ := setAddend_fixUp (subtractorAddend length content).2
      (subtractorAddend length content).1 r
    have hsides := setAddend_same (subtractorAddend length content).2
      (subtractorAddend length content).1 r hrTo hrFrom hatTo hatFrom
    rw [oneSided_iff hlength hcontent] at hsides
    rw [yields_iff hread rfl, SameReference, hkind'.trans hkind, hoffset'.trans hoffset, ← hsides]
    simp only [true_and, hdiff, true_implies]

end Pair

variable {relocs : List RelocWords}

theorem addObjectRelocs_one
    (hentry : entryOf ref.getKind = some (pcrel, length, type))
    (h : addObjectRelocs w inAtom ref = .ok relocs) :
    ∃ num, w.symbolnum (makesExternalRelocatableReference ref.getTarget) ref.getTarget = .ok num ∧
      relocs = [relocationInfo (Writer.relocAddress inAtom ref) num pcrel length
        (makesExternalRelocatableReference ref.getTarget) type] := by
  obtain ⟨num, hnum, h⟩ := bind_eq_ok.mp h
  refine ⟨num, hnum, ?_⟩
  cases hkind : ref.getKind
  all_goals
    rw [hkind] at hentry h
    cases hentry
  all_goals exact (Except.ok.inj h).symm

theorem addObjectRelocs_difference (hdiff : IsDifference ref.getKind)
    (h : addObjectRelocs w inAtom ref = .ok relocs) : ∃ num fromNum length,
      (ref.getKind = .kPointerDiff32 ∧ length = 2 ∨ ref.getKind = .kPointerDiff ∧ length = 3) ∧
      w.symbolnum (makesExternalRelocatableReference ref.getTarget) ref.getTarget = .ok num ∧
      w.symbolnum (makesExternalRelocatableReference ref.getFromTarget) ref.getFromTarget =
        .ok fromNum ∧
      relocs = [relocationInfo (Writer.relocAddress inAtom ref) fromNum false length
          (makesExternalRelocatableReference ref.getFromTarget) X86_64_RELOC_SUBTRACTOR,
        relocationInfo (Writer.relocAddress inAtom ref) num false length
          (makesExternalRelocatableReference ref.getTarget) X86_64_RELOC_UNSIGNED] := by
  obtain ⟨num, hnum, h⟩ := bind_eq_ok.mp h
  rcases hdiff with hkind | hkind
  all_goals
    rw [hkind] at h
    obtain ⟨fromNum, hfromNum, h⟩ := bind_eq_ok.mp h
    refine ⟨num, fromNum, _, ?_, hnum, hfromNum, (Except.ok.inj h).symm⟩
  · exact Or.inr ⟨hkind, rfl⟩
  · exact Or.inl ⟨hkind, rfl⟩

theorem addObjectRelocs_none (hone : entryOf ref.getKind = none)
    (hdiff : ¬ IsDifference ref.getKind) (h : addObjectRelocs w inAtom ref = .ok relocs) :
    relocs = [] := by
  obtain ⟨num, hnum, h⟩ := bind_eq_ok.mp h
  cases hkind : ref.getKind
  all_goals
    rw [hkind] at hone hdiff h
    first
    | exact (Except.ok.inj h).symm
    | exact absurd hone (by decide)
    | exact absurd (by decide) hdiff

theorem namesTarget {address num : BitVec 32}
    (hnum : w.symbolnum (makesExternalRelocatableReference target) target = .ok num) :
    NamesTarget w (relocationInfo address num pcrel length
      (makesExternalRelocatableReference target) type) target :=
  ⟨num, hnum, relocationInfo_symbolnum _ _ _ _ _ _, relocationInfo_external _ _ _ _ _ _⟩

/-! ### What is kept of every difference -/

theorem sub_add_rearrange {n : Nat} (t x f y : BitVec n) : t + x - (f + y) = t - f + (x - y) := by
  simp only [BitVec.sub_eq_add_neg, BitVec.neg_add]
  ac_rfl

theorem setWidth_sub_low (x y : BitVec 64) :
    (x - y).setWidth 32 = (x.setWidth 32 - y.setWidth 32 : BitVec 32) := by
  bv_omega

theorem toInt_cases (x : BitVec 32) :
    x.toInt = if x < 0x80000000 then (x.toNat : Int) else x.toNat - 0x100000000 := by
  rw [toInt_eq_toNat_cond]
  split
  · split
    · rfl
    · bv_omega
  · split
    · bv_omega
    · rfl

theorem negative_kept (x y : BitVec 32) (hneg : (x.signExtend 64 - y.setWidth 64).msb = true)
    (hfits : y.toNat - x.toInt < 0x100000000) :
    ((-(x.signExtend 64 - y.setWidth 64)).setWidth 32).setWidth 64 =
      -(x.signExtend 64 - y.setWidth 64) := by
  have hmsb := (msb_iff64 _).mp hneg
  rw [toInt_cases] at hfits
  rw [signExtend_cases] at hmsb ⊢
  by_cases hx : x < 0x80000000
  · rw [if_pos hx] at hmsb hfits ⊢
    bv_omega
  · rw [if_neg hx] at hmsb hfits ⊢
    bv_omega

theorem nonnegative_kept (x y : BitVec 32) (hnot : (x.signExtend 64 - y.setWidth 64).msb = false) :
    ((x.signExtend 64 - y.setWidth 64).setWidth 32).signExtend 64 =
      x.signExtend 64 - y.setWidth 64 := by
  have hmsb := mt (msb_iff64 _).mpr (Bool.eq_false_iff.mp hnot)
  rw [signExtend_cases ((x.signExtend 64 - y.setWidth 64).setWidth 32)]
  rw [signExtend_cases x] at hmsb ⊢
  by_cases hx : x < 0x80000000
  · rw [if_pos hx] at hmsb ⊢
    rw [if_pos (by bv_omega)]
    bv_omega
  rw [if_neg hx] at hmsb ⊢
  split
  · bv_omega
  · bv_omega

variable (rd ref) in
/-- Both sides may have moved, but not against each other. -/
def SameDifference (r : Reference ReferenceKinds) : Prop :=
  ∃ a b, Means rd ref.getTarget r.fToTarget.atom r.fToTargetName a ∧
    Means rd ref.getFromTarget r.fFromTarget.atom r.fFromTargetName b ∧
    if ref.getKind = .kPointerDiff32 then
      (a.getAddress + r.fToTarget.offset.signExtend 64 -
          (b.getAddress + r.fFromTarget.offset.setWidth 64)).setWidth 32 =
        ((ref.getTarget.getAddress + ref.getTargetOffset -
          (ref.getFromTarget.getAddress + ref.getFromTargetOffset)).setWidth 32 : BitVec 32)
    else a.getAddress + r.fToTarget.offset.signExtend 64 -
          (b.getAddress + r.fFromTarget.offset.setWidth 64) =
        ref.getTarget.getAddress + ref.getTargetOffset -
          (ref.getFromTarget.getAddress + ref.getFromTargetOffset)

variable (ref) in
def AddendFits : Prop :=
  ref.getKind = .kPointerDiff → ref.fFromTargetOffset.toNat - ref.fToTargetOffset.toInt < 0x100000000

theorem sameDifference_setAddend
    (hlength : ref.getKind = .kPointerDiff32 ∧ length = 2 ∨ ref.getKind = .kPointerDiff ∧ length = 3)
    (hcontent : fixUpReferenceRelocatable ref inAtom raw = .ok content) (hfits : AddendFits ref)
    (hto : r.fToTarget.offset = 0) (hfrom : r.fFromTarget.offset = 0)
    (hatTo : IsAt rd ref.getTarget r.fToTarget.atom r.fToTargetName)
    (hatFrom : IsAt rd ref.getFromTarget r.fFromTarget.atom r.fFromTargetName) :
    SameDifference rd ref
      (setAddend (subtractorAddend length content).2 (subtractorAddend length content).1 r) := by
  obtain ⟨⟨⟨a, ha⟩, haddress⟩, ⟨⟨b, hb⟩, hbddress⟩⟩ := setAddend_isAt
    (subtractorAddend length content).2 (subtractorAddend length content).1 hatTo hatFrom
  obtain ⟨hto', hfrom'⟩ := setAddend_offsets hto hfrom (subtractorAddend length content).2
    (subtractorAddend length content).1
  refine ⟨a, b, ha, hb, ?_⟩
  rw [haddress a ha, hbddress b hb, hto', hfrom', sub_add_rearrange, sub_add_rearrange]
  rcases hlength with ⟨hkind, hlength⟩ | ⟨hkind, hlength⟩
  · rw [if_pos hkind, setWidth_add _ _ (by decide), setWidth_add _ _ (by decide),
      hlength, subtractorAddend32 hkind hcontent, setWidth_neg_low, setWidth_low]
    apply congrArg
    rw [setWidth_sub_low, setWidth_sub_low]
    have hoffset : ref.getTargetOffset.setWidth 32 = ref.fToTargetOffset :=
      signExtend_truncate _ (by decide)
    have hfromOffset : ref.getFromTargetOffset.setWidth 32 = ref.fFromTargetOffset := setWidth_low _
    rw [hoffset, hfromOffset, signExtend_truncate _ (by decide), setWidth_low]
    split
    · bv_omega
    · bv_omega
  · have hnot : ref.getKind ≠ .kPointerDiff32 := by
      rw [hkind]
      decide
    rw [if_neg hnot, hlength, subtractorAddend64 hkind hcontent]
    apply congrArg
    change _ = ref.fToTargetOffset.signExtend 64 - ref.fFromTargetOffset.setWidth 64
    cases hneg : (ref.fToTargetOffset.signExtend 64 - ref.fFromTargetOffset.setWidth 64 :
        BitVec 64).msb with
    | true =>
      simp only [if_true]
      rw [negative_kept _ _ hneg (hfits hkind)]
      simp
    | false =>
      simp only [Bool.false_eq_true, if_false]
      rw [nonnegative_kept _ _ hneg]
      simp

variable (w rd ref) in
def Lossless : Prop :=
  if IsDifference ref.getKind then
    makesExternalRelocatableReference ref.getFromTarget = true ∧ OneSided ref
  else LosslessOne w rd ref

theorem cons_iff {α : Type} {x : α} {l m : List α} {P : α → List α → Prop} (h : l = x :: m) :
    (∃ y rest, l = y :: rest ∧ P y rest) ↔ P x m := by
  subst h
  simp

theorem reads_back_iff (hback : ReadsBack w rd sect inAtom src ref)
    (hnamed : IsDifference ref.getKind → WellNamed w rd src ref)
    (hrelocs : addObjectRelocs w inAtom ref = .ok relocs) (hsome : relocs ≠ [])
    (hcontent : fixUpReferenceRelocatable ref inAtom raw = .ok content) :
    (∃ reloc rest, relocs = reloc :: rest ∧
      Yields (addRelocReference rd sect reloc (rest.headD next) content) (SameReference rd ref)) ↔
      Lossless w rd ref := by
  have hsmall := relocAddress_small hback
  unfold Lossless
  by_cases hdiff : IsDifference ref.getKind
  · obtain ⟨num, fromNum, length, hlength, hnum, hfromNum, hrelocs⟩ :=
      addObjectRelocs_difference hdiff hrelocs
    rw [cons_iff hrelocs, if_pos hdiff]
    exact yields_difference_iff hback (hnamed hdiff) hlength hcontent (namesTarget hfromNum)
      (namesTarget hnum) (relocationInfo_plain _ _ _ _ _ _ hsmall)
      (relocationInfo_plain _ _ _ _ _ _ hsmall)
  · rw [if_neg hdiff]
    cases hentry : entryOf ref.getKind with
    | none => exact absurd (addObjectRelocs_none hentry hdiff hrelocs) hsome
    | some entry =>
      obtain ⟨num, hnum, hrelocs⟩ := addObjectRelocs_one hentry hrelocs
      rw [cons_iff hrelocs]
      exact yields_one_iff hback hentry hcontent (namesTarget hnum)
        (relocationInfo_plain _ _ _ _ _ _ hsmall)

/-- What is written for a reference is read as that reference just if it is one of the
lossless ones; a difference keeps its value where its sides have symbols. -/
theorem entries_read_back {relocs : List RelocWords} {raw content : BitVec 64} {next : RelocWords}
    (hback : ReadsBack w rd sect inAtom src ref)
    (hnamed : IsDifference ref.getKind → WellNamed w rd src ref)
    (hrelocs : addObjectRelocs w inAtom ref = .ok relocs) (hsome : relocs ≠ [])
    (hcontent : fixUpReferenceRelocatable ref inAtom raw = .ok content) :
    ((∃ reloc rest, relocs = reloc :: rest ∧
      Yields (addRelocReference rd sect reloc (rest.headD next) content) (SameReference rd ref)) ↔
        Lossless w rd ref) ∧
    (IsDifference ref.getKind → makesExternalRelocatableReference ref.getFromTarget = true →
      AddendFits ref → ∃ reloc rest, relocs = reloc :: rest ∧
        Yields (addRelocReference rd sect reloc (rest.headD next) content)
          (SameDifference rd ref)) := by
  refine ⟨reads_back_iff hback hnamed hrelocs hsome hcontent, ?_⟩
  intro hdiff hexternal hfits
  obtain ⟨num, fromNum, length, hlength, hnum, hfromNum, hrelocs⟩ :=
    addObjectRelocs_difference hdiff hrelocs
  have hsmall := relocAddress_small hback
  obtain ⟨r, hread, _, _, hto, hfrom, hatTo, hatFrom⟩ := difference_read content hback
    (hnamed hdiff) hlength hexternal (namesTarget hfromNum) (namesTarget hnum)
    (relocationInfo_plain _ _ _ _ _ _ hsmall) (relocationInfo_plain _ _ _ _ _ _ hsmall)
  rw [cons_iff hrelocs]
  exact ⟨_, _, hread, rfl,
    sameDifference_setAddend hlength hcontent hfits hto hfrom hatTo hatFrom⟩

end RoundTrip

/-! Differences between two functions, one of which holds the reference. -/

def caller : Atom := { pointer := 1, getName := some "_caller", getAddress := 0 }
def callee : Atom :=
  { pointer := 2, getName := some "_callee", getAddress := 0x20, getSectionOffset := 0x20 }

def exported : Writer := { fExportedAtoms := [1, 2] }

def twoFunctions : Reader 64 where
  fAddrToAtom := { entries := [(0, caller), (0x20, callee)], sorted := by decide }
  fSymbols := [{ name := "_caller", n_value := 0, inSection := true },
    { name := "_callee", n_value := 0x20, inSection := true }]

def text : Section 64 := { addr := 0, size := 0x40, segname := "__TEXT", sectname := "__text" }

def difference (toOffset fromOffset : BitVec 32) : Ref where
  getKind := .kPointerDiff32
  fFixUpOffsetInSrc := 8
  getTarget := callee
  fToTargetOffset := toOffset
  getFromTarget := caller
  fFromTargetOffset := fromOffset

theorem mem_twoFunctions {name : String} {a : Atom} (h : twoFunctions.Named (some name) a) :
    (a = caller ∧ name = "_caller") ∨ (a = callee ∧ name = "_callee") := by
  obtain ⟨hmem, _, hname⟩ := h
  have hmem : a ∈ [caller, callee] := hmem
  rw [List.mem_pair] at hmem
  rcases hmem with h | h
  · subst h
    exact Or.inl ⟨rfl, (Option.some.inj hname).symm⟩
  · subst h
    exact Or.inr ⟨rfl, (Option.some.inj hname).symm⟩

theorem callee_symbol : SymbolOf twoFunctions callee
    { name := "_callee", n_value := 0x20, inSection := true } where
  global := by
    intro _
    refine ⟨by decide, rfl, ?_⟩
    intro a ha
    rcases mem_twoFunctions ha with ⟨_, h⟩ | ⟨h, _⟩
    · exact absurd h (by decide)
    · rw [h]
  inSection := by
    intro _
    exact ⟨rfl, callee, by decide⟩

theorem caller_symbol : SymbolOf twoFunctions caller
    { name := "_caller", n_value := 0, inSection := true } where
  global := by
    intro _
    refine ⟨by decide, rfl, ?_⟩
    intro a ha
    rcases mem_twoFunctions ha with ⟨h, _⟩ | ⟨_, h⟩
    · rw [h]
    · exact absurd h (by decide)
  inSection := by
    intro _
    exact ⟨rfl, caller, by decide⟩

theorem twoFunctions_readsBack (toOffset fromOffset : BitVec 32) :
    ReadsBack exported twoFunctions text caller caller (difference toOffset fromOffset) where
  sectionAddress := rfl
  small := (by decide : (0 : BitVec 64) + (8 : BitVec 32).setWidth 64 < 0x80000000)
  source := rfl
  sourceAddress := rfl
  fromZero := ⟨caller, List.mem_cons_self⟩
  keys := by decide
  namesUnique := Reader.namesUnique_of_nodup (by decide)
  toSymbol := by
    intro _
    exact ⟨_, rfl, callee_symbol⟩
  fromSymbol := by
    intro _ _
    exact ⟨_, rfl, caller_symbol⟩
  sections := by
    intro h
    cases h

theorem twoFunctions_wellNamed (toOffset fromOffset : BitVec 32) :
    WellNamed exported twoFunctions caller (difference toOffset fromOffset) where
  toExternal := rfl
  sourceNamed := ⟨_, rfl⟩
  toName := by
    intro sym hsym hname
    obtain rfl := Option.some.inj hsym
    exact absurd hname (by decide)
  toStatic := by
    intro sym hsym _
    obtain rfl := Option.some.inj hsym
    rfl
  fromName := by
    intro _ _ _ _
    rfl
  fromStatic := by
    intro sym hsym _
    obtain rfl := Option.some.inj hsym
    rfl

theorem entries_read_back_one_sided :
    ∃ relocs content, addObjectRelocs exported caller (difference 8 0) = .ok relocs ∧
      fixUpReferenceRelocatable (difference 8 0) caller 0 = .ok content ∧
      ∃ reloc rest, relocs = reloc :: rest ∧
        Yields (addRelocReference twoFunctions text reloc (rest.headD ⟨0, 0⟩) content)
          (SameReference twoFunctions (difference 8 0)) := by
  have hcontent : fixUpReferenceRelocatable (difference 8 0) caller 0 = .ok 8 := by decide
  refine ⟨_, _, rfl, hcontent, ?_⟩
  apply (entries_read_back (twoFunctions_readsBack 8 0) (fun _ => twoFunctions_wellNamed 8 0) rfl
    (List.cons_ne_nil _ _) hcontent).1.mpr
  exact ⟨rfl, Or.inl ⟨rfl, by decide⟩⟩

/-- With an offset on both sides the two are read back as one. -/
theorem two_offsets_merge :
    ∃ relocs content, addObjectRelocs exported caller (difference 8 4) = .ok relocs ∧
      fixUpReferenceRelocatable (difference 8 4) caller 0 = .ok content ∧
      ReadsBack exported twoFunctions text caller caller (difference 8 4) ∧
      ¬ ∃ reloc rest, relocs = reloc :: rest ∧
        Yields (addRelocReference twoFunctions text reloc (rest.headD ⟨0, 0⟩) content)
          (SameReference twoFunctions (difference 8 4)) := by
  have hcontent : fixUpReferenceRelocatable (difference 8 4) caller 0 = .ok 4 := by decide
  refine ⟨_, _, rfl, hcontent, twoFunctions_readsBack 8 4, ?_⟩
  rw [reads_back_iff (twoFunctions_readsBack 8 4) (fun _ => twoFunctions_wellNamed 8 4) rfl
    (List.cons_ne_nil _ _) hcontent]
  intro h
  rcases h.2 with h | h
  · exact absurd h.1 (by decide)
  · exact absurd h.1 (by decide)

end Toolwhip.Ld64.Reloc.X86_64
