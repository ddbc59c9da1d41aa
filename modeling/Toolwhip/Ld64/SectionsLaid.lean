import Toolwhip.Ld64.Sections

/-! # What is laid out by partitionIntoSections

As long as a section ends below `2 ^ 64` its offsets are those of a layout of natural numbers. -/

namespace Toolwhip.Ld64.Sections
open Lib.AlignUp Lib.RunningLayout List
set_option autoImplicit false
variable {done : List Atom} {place : Atom → Nat → Nat}

def atomSize (atom : Atom) : Nat := atom.getSize.toNat

/-- The offset by the alignment and the modulus of the atom. -/
def placeAtom (atom : Atom) (offset : Nat) : Nat :=
  let alignment := 2 ^ atom.powerOf2.val
  let modulus := atom.modulus.toNat
  if offset % alignment ≠ modulus then
    if offset % alignment < modulus then offset + (modulus - offset % alignment)
    else offset + (modulus + alignment - offset % alignment)
  else offset

theorem le_placeAtom (atom : Atom) (offset : Nat) : offset ≤ placeAtom atom offset := by
  unfold placeAtom
  dsimp only
  split
  · split <;> omega
  · exact Nat.le_refl _

theorem placeAtom_mod (atom : Atom) (offset : Nat) :
    placeAtom atom offset % 2 ^ atom.powerOf2.val = atom.modulus.toNat % 2 ^ atom.powerOf2.val := by
  have hlt := Nat.mod_lt offset (Nat.two_pow_pos atom.powerOf2.val)
  have hdiv := Nat.div_add_mod offset (2 ^ atom.powerOf2.val)
  unfold placeAtom
  dsimp only
  generalize 2 ^ atom.powerOf2.val = alignment at hlt hdiv ⊢
  generalize atom.modulus.toNat = modulus
  have hcongruent : ∀ k, (alignment * k + modulus) % alignment = modulus % alignment := by
    intro k
    rw [Nat.add_comm]
    exact Nat.add_mul_mod_self_left modulus alignment k
  split
  · split
    · rw [← hcongruent (offset / alignment)]
      congr 1
      omega
    rw [← hcongruent (offset / alignment + 1)]
    congr 1
    rw [Nat.mul_add, Nat.mul_one]
    omega
  · rename_i hequal
    rw [not_not] at hequal
    rw [hequal, ← hequal, Nat.mod_mod]

theorem toNat_alignment (atom : Atom) :
    atom.alignment.toNat = 2 ^ atom.powerOf2.val ∧ 2 ^ atom.powerOf2.val ≤ 2 ^ 30 := by
  have hle : 2 ^ atom.powerOf2.val ≤ 2 ^ 30 :=
    Nat.pow_le_pow_right (by decide) (Nat.le_of_lt_succ atom.powerOf2.isLt)
  refine ⟨?_, hle⟩
  exact Nat.mod_eq_of_lt (Nat.lt_of_le_of_lt hle (by decide))

variable {atom : Atom}

theorem toNat_nextOffset {offset : UInt64} (hfits : placeAtom atom offset.toNat < 2 ^ 64) :
    (nextOffset offset atom.alignment atom.modulus.toUInt64).toNat =
      placeAtom atom offset.toNat := by
  obtain ⟨halignment, hbound⟩ := toNat_alignment atom
  have hmodulus : atom.modulus.toUInt64.toNat = atom.modulus.toNat := UInt16.toNat_toUInt64 _
  unfold placeAtom at hfits ⊢
  unfold nextOffset
  have hcurrent : (offset % atom.alignment).toNat = offset.toNat % 2 ^ atom.powerOf2.val := by
    rw [UInt64.toNat_mod, halignment]
  have hne : offset % atom.alignment ≠ atom.modulus.toUInt64 ↔
      offset.toNat % 2 ^ atom.powerOf2.val ≠ atom.modulus.toNat := by
    rw [ne_eq, ← UInt64.toNat_inj, hcurrent, hmodulus]
  have hless : offset % atom.alignment < atom.modulus.toUInt64 ↔
      offset.toNat % 2 ^ atom.powerOf2.val < atom.modulus.toNat := by
    rw [UInt64.lt_iff_toNat_lt, hcurrent, hmodulus]
  by_cases h : offset.toNat % 2 ^ atom.powerOf2.val = atom.modulus.toNat
  · rw [if_neg fun hn => hne.mp hn h, if_neg (not_not.mpr h)]
  rw [if_pos (hne.mpr h), if_pos h]
  rw [if_pos h] at hfits
  by_cases hl : offset.toNat % 2 ^ atom.powerOf2.val < atom.modulus.toNat
  · rw [if_pos (hless.mpr hl), if_pos hl]
    rw [if_pos hl] at hfits
    rw [UInt64.toNat_add, UInt64.toNat_sub, hcurrent, hmodulus]
    omega
  · rw [if_neg fun hn => hl (hless.mp hn), if_neg hl]
    rw [if_neg hl] at hfits
    rw [UInt64.toNat_add, UInt64.toNat_sub, UInt64.toNat_add, hcurrent, hmodulus, halignment]
    omega

/-! ## A section -/

def natOffset (a : Atom × UInt64) : Atom × Nat := (a.1, a.2.toNat)

def SectionInfo.atoms (info : SectionInfo) : List Atom := info.fAtoms.map Prod.fst

/-- The offsets are those of a layout by the rule `place`. -/
structure LaidBy (place : Atom → Nat → Nat) (info : SectionInfo) : Prop where
  offsets : info.fAtoms.map natOffset = offsets place atomSize 0 info.atoms
  size : info.fSize.toNat = layoutEnd place atomSize 0 info.atoms

/-- The layout ends below `2 ^ 64`. -/
def Fits (place : Atom → Nat → Nat) (info : SectionInfo) : Prop :=
  layoutEnd place atomSize 0 info.atoms < 2 ^ 64

/-- What holds of every section from the start on. -/
structure Sound (info : SectionInfo) : Prop where
  aligned : ∀ a ∈ info.fAtoms, a.1.powerOf2.val ≤ info.fAlignment
  laid : Fits placeAtom info → LaidBy placeAtom info

theorem atoms_addAtom (info : SectionInfo) (atom : Atom) :
    (addAtom info atom).atoms = info.atoms ++ [atom] := by
  unfold SectionInfo.atoms addAtom
  rw [map_append]
  rfl

theorem layoutEnd_addAtom (place : Atom → Nat → Nat) (info : SectionInfo) (atom : Atom) :
    layoutEnd place atomSize 0 (addAtom info atom).atoms =
      place atom (layoutEnd place atomSize 0 info.atoms) + atomSize atom := by
  rw [atoms_addAtom, layoutEnd_append]
  rfl

variable {info : SectionInfo}

theorem addAtom_laid (hfits : Fits placeAtom (addAtom info atom)) (hinfo : LaidBy placeAtom info) :
    LaidBy placeAtom (addAtom info atom) := by
  unfold Fits at hfits
  rw [layoutEnd_addAtom, ← hinfo.size] at hfits
  have hoffset : (atomOffset info atom).toNat = placeAtom atom info.fSize.toNat :=
    toNat_nextOffset (by omega)
  constructor
  · rw [atoms_addAtom, offsets_append, ← hinfo.offsets, ← hinfo.size]
    change (info.fAtoms ++ [_]).map natOffset = _
    rw [map_append]
    unfold natOffset offsets
    rw [← hoffset]
    rfl
  · rw [layoutEnd_addAtom, ← hinfo.size, ← hoffset]
    rw [← hoffset] at hfits
    change (atomOffset info atom + atom.getSize).toNat = _
    exact Nat.mod_eq_of_lt hfits

theorem addAtom_sound (atom : Atom) (h : Sound info) : Sound (addAtom info atom) := by
  constructor
  · intro a ha
    change _ ≤ if info.fAlignment < atom.powerOf2.val then atom.powerOf2.val else info.fAlignment
    rcases List.mem_append.mp ha with ha | ha
    · have hle := h.aligned a ha
      split <;> omega
    rw [List.mem_singleton.mp ha]
    dsimp only
    split <;> omega
  · intro hfits
    apply addAtom_laid hfits
    apply h.laid
    have hle := le_placeAtom atom (layoutEnd placeAtom atomSize 0 info.atoms)
    unfold Fits at hfits ⊢
    rw [layoutEnd_addAtom] at hfits
    omega

theorem newSectionInfo_sound (o : SectionOptions) (atom : Atom) (sectionIndex : Nat) :
    Sound (newSectionInfo o atom sectionIndex) where
  aligned := fun _ ha => absurd ha not_mem_nil
  laid := fun _ => ⟨rfl, rfl⟩

/-- What holds after any of the atoms; `done` are those that were put into sections. -/
structure SoundPartition (o : SectionOptions) (p : Partition) (done : List Atom) : Prop where
  sound : ∀ s ∈ p.sections, Sound s.2
  atoms : (p.sections.flatMap fun s => s.2.atoms) = done
  shiftable : o.oneSegmentCommand = true → ∀ s ∈ p.sections, s.2.fAlignment < 31
  cstring : ∀ place, p.cstringSectionInfo = some place → o.oneSegmentCommand = true ∧
    ∃ s, p.sections[place]? = some s ∧ isNamed "__TEXT" "__cstring" s.2 = true

theorem soundPartition_start (o : SectionOptions) : SoundPartition o {} [] where
  sound := fun _ hs => absurd hs not_mem_nil
  atoms := rfl
  shiftable := fun _ _ hs => absurd hs not_mem_nil
  cstring := fun _ h => nomatch h

theorem sections_startSection (o : SectionOptions) (p : Partition) (atom : Atom) :
    (startSection o p atom).sections = p.sections ++
      [((segmentsFor o atom p.fSegmentInfos).length - 1, newSectionInfo o atom p.sectionIndex)] :=
  rfl

theorem forcedAlignment_lt (o : SectionOptions) (h : info.fAlignment < 31) :
    forcedAlignment o info < 31 := by
  unfold forcedAlignment SectionOptions.pointerAlignment
  split
  · cases o.is64 <;> decide
  split
  · decide
  · exact h

variable {o : SectionOptions}

theorem newSectionInfo_shiftable (hone : o.oneSegmentCommand = true)
    (atom : Atom) (sectionIndex : Nat) : (newSectionInfo o atom sectionIndex).fAlignment < 31 := by
  apply forcedAlignment_lt o
  unfold overriddenAlignment
  rw [hone, if_pos rfl]
  exact atom.powerOf2.isLt

variable {p : Partition}

theorem SoundPartition.startSection
    (h : SoundPartition o p done) (atom : Atom) : SoundPartition o (startSection o p atom) done where
  sound := by
    intro s hs
    rcases List.mem_append.mp hs with hs | hs
    · exact h.sound s hs
    rw [List.mem_singleton.mp hs]
    exact newSectionInfo_sound o atom p.sectionIndex
  atoms := by
    rw [sections_startSection, flatMap_append, h.atoms]
    exact append_nil done
  shiftable := by
    intro hone s hs
    rcases List.mem_append.mp hs with hs | hs
    · exact h.shiftable hone s hs
    rw [List.mem_singleton.mp hs]
    exact newSectionInfo_shiftable hone atom p.sectionIndex
  cstring := by
    intro place hplace
    change (if _ then some p.sections.length else p.cstringSectionInfo) = some place at hplace
    rw [sections_startSection]
    split at hplace
    · rename_i hnamed
      rw [← Option.some.inj hplace]
      have hboth := Bool.and_eq_true_iff.mp hnamed
      exact ⟨hboth.1, _, getElem?_concat_length, hboth.2⟩
    · obtain ⟨hone, s, hs, hnamed⟩ := h.cstring place hplace
      refine ⟨hone, s, ?_, hnamed⟩
      rw [getElem?_append_left (List.getElem?_eq_some_iff.mp hs).1]
      exact hs

variable {p' : Partition}

theorem SoundPartition.putAtom (h : SoundPartition o p done) (hput : putAtom p atom = some p') :
    SoundPartition o p' (done ++ [atom]) := by
  obtain ⟨current, hcurrent, rfl⟩ := Option.map_eq_some_iff.mp hput
  have hold : p.sections = p.doneSections ++ [current] := by
    unfold Partition.sections
    rw [hcurrent]
    rfl
  have hmem : current ∈ p.sections := by
    rw [hold]
    exact mem_append_right _ mem_cons_self
  -- only the last section changes
  have hcases : ∀ {s : Nat × SectionInfo},
      s ∈ p.doneSections ++ [(current.1, addAtom current.2 atom)] →
        s ∈ p.sections ∨ s = (current.1, addAtom current.2 atom) := by
    intro s hs
    rcases List.mem_append.mp hs with hs | hs
    · exact Or.inl (mem_append_left _ hs)
    · exact Or.inr (List.mem_singleton.mp hs)
  refine ⟨?_, ?_, ?_, ?_⟩
  · intro s hs
    rcases hcases hs with hs | rfl
    · exact h.sound s hs
    · exact addAtom_sound atom (h.sound _ hmem)
  · rw [← h.atoms, hold]
    change ((p.doneSections ++ [(current.1, addAtom current.2 atom)]).flatMap _) = _
    rw [flatMap_append, flatMap_append, append_assoc]
    congr 1
    rw [flatMap_singleton, flatMap_singleton]
    exact atoms_addAtom current.2 atom
  · intro hone s hs
    rcases hcases hs with hs | rfl
    · exact h.shiftable hone s hs
    have hlt := h.shiftable hone _ hmem
    change (if current.2.fAlignment < atom.powerOf2.val then atom.powerOf2.val
      else current.2.fAlignment) < 31
    split <;> omega
  · intro place hplace
    obtain ⟨hone, s, hs, hnamed⟩ := h.cstring place hplace
    refine ⟨hone, ?_⟩
    change ∃ s, (p.doneSections ++ [(current.1, addAtom current.2 atom)])[place]? = some s ∧ _
    rw [hold] at hs
    by_cases hlast : place < p.doneSections.length
    · rw [getElem?_append_left hlast] at hs
      exact ⟨s, by rw [getElem?_append_left hlast]; exact hs, hnamed⟩
    have hlt := (List.getElem?_eq_some_iff.mp hs).1
    rw [length_append, length_singleton] at hlt
    have hplace : place = p.doneSections.length := by omega
    subst hplace
    rw [getElem?_concat_length] at hs
    obtain rfl := Option.some.inj hs
    exact ⟨_, getElem?_concat_length, hnamed⟩

theorem SoundPartition.partitionAtom
    (h : SoundPartition o p done) (hstep : partitionAtom o p atom = some p') :
    SoundPartition o p' (done ++ [atom]) := by
  obtain ⟨starts, -, hput⟩ := Option.bind_eq_some_iff.mp hstep
  cases starts with
  | true => exact (h.startSection atom).putAtom hput
  | false => exact h.putAtom hput

theorem SoundPartition.run {done atoms : List Atom}
    (h : SoundPartition o p done) (hrun : atoms.foldlM (Sections.partitionAtom o) p = some p') :
    SoundPartition o p' (done ++ atoms) := by
  induction atoms generalizing p done with
  | nil =>
    rw [append_nil]
    obtain rfl : p = p' := Option.some.inj hrun
    exact h
  | cons atom atoms ih =>
    obtain ⟨q, hstep, hrest⟩ := Option.bind_eq_some_iff.mp hrun
    have hq := ih (h.partitionAtom hstep) hrest
    rw [append_assoc] at hq
    exact hq

def placeString (k : Nat) (_ : Atom) (offset : Nat) : Nat := alignUp (2 ^ k) offset

theorem le_placeString (k : Nat) (atom : Atom) (offset : Nat) : offset ≤ placeString k atom offset :=
  le_alignUp (Nat.two_pow_pos k) offset

section Relay
variable {k : Nat} (hk : k < 64) {alignment : UInt64} (halignment : alignment.toNat = 2 ^ k)
variable {offset : UInt64}
include hk halignment

theorem relay_step {atom : Atom} (hfits : alignUp (2 ^ k) offset.toNat + atomSize atom < 2 ^ 64) :
    (alignUp64 offset alignment).toNat = alignUp (2 ^ k) offset.toNat ∧
      (alignUp64 offset alignment + atom.getSize).toNat =
        alignUp (2 ^ k) offset.toNat + atomSize atom := by
  have haligned := toNat_alignUp64 hk halignment (x := offset) (by omega)
  refine ⟨haligned, ?_⟩
  rw [UInt64.toNat_add, haligned]
  exact Nat.mod_eq_of_lt hfits

theorem relayAtoms_laid {atoms : List (Atom × UInt64)}
    (hfits : layoutEnd (placeString k) atomSize offset.toNat (atoms.map Prod.fst) < 2 ^ 64) :
    (relayAtoms alignment offset atoms).map natOffset =
        offsets (placeString k) atomSize offset.toNat (atoms.map Prod.fst) ∧
      (relayEnd alignment offset atoms).toNat =
        layoutEnd (placeString k) atomSize offset.toNat (atoms.map Prod.fst) := by
  induction atoms generalizing offset with
  | nil => exact ⟨rfl, rfl⟩
  | cons a atoms ih =>
    obtain ⟨atom, old⟩ := a
    have hle := le_layoutEnd atomSize (le_placeString k)
      (alignUp (2 ^ k) offset.toNat + atomSize atom) (atoms.map Prod.fst)
    change layoutEnd (placeString k) atomSize (alignUp (2 ^ k) offset.toNat + atomSize atom)
      (atoms.map Prod.fst) < 2 ^ 64 at hfits
    obtain ⟨hoffset, hstop⟩ := @relay_step k hk alignment halignment offset atom
      (Nat.lt_of_le_of_lt hle hfits)
    rw [← hstop] at hfits
    obtain ⟨hoffsets, hend⟩ := ih hfits
    rw [hstop] at hoffsets hend
    constructor
    · rw [relayAtoms, map_cons, hoffsets, map_cons, offsets]
      unfold natOffset
      rw [hoffset]
      rfl
    · exact hend

end Relay

theorem relayAtoms_atoms (alignment offset : UInt64) (atoms : List (Atom × UInt64)) :
    (relayAtoms alignment offset atoms).map Prod.fst = atoms.map Prod.fst := by
  induction atoms generalizing offset with
  | nil => rfl
  | cons a atoms ih => rw [relayAtoms, map_cons, ih, map_cons]

theorem relaySection_atoms (info : SectionInfo) : (relaySection info).atoms = info.atoms := by
  unfold relaySection
  split
  · exact relayAtoms_atoms _ _ _
  · rfl

theorem relaySection_laid (hpos : 0 < info.fAlignment)
    (hk : info.fAlignment < 64) (hfits : Fits (placeString info.fAlignment) (relaySection info)) :
    LaidBy (placeString info.fAlignment) (relaySection info) := by
  have hpow : (UInt64.ofNat (2 ^ info.fAlignment)).toNat = 2 ^ info.fAlignment :=
    Nat.mod_eq_of_lt (Nat.pow_lt_pow_right (by decide) hk)
  unfold Fits at hfits
  rw [relaySection_atoms] at hfits
  obtain ⟨hoffsets, hend⟩ := @relayAtoms_laid _ hk _ hpow 0 _ hfits
  constructor
  · rw [relaySection_atoms]
    unfold relaySection
    rw [if_pos hpos]
    exact hoffsets
  · rw [relaySection_atoms]
    unfold relaySection
    rw [if_pos hpos]
    exact hend

theorem relaySection_alignment (info : SectionInfo) :
    (relaySection info).fAlignment = info.fAlignment := by
  unfold relaySection
  split <;> rfl

/-! ## What comes out -/

/-- One after the other, up to the size of the section, and no two overlap. -/
structure WellPlaced (info : SectionInfo) : Prop where
  apart : info.fAtoms.Pairwise fun a b => a.2.toNat + atomSize a.1 ≤ b.2.toNat
  inside : ∀ a ∈ info.fAtoms, a.2.toNat + atomSize a.1 ≤ info.fSize.toNat
  size : info.fSize.toNat = (info.fAtoms.getLast?.map fun a => a.2.toNat + atomSize a.1).getD 0

theorem getLast?_offsets (place : Atom → Nat → Nat) (start : Nat) (atoms : List Atom) :
    layoutEnd place atomSize start atoms =
      ((offsets place atomSize start atoms).getLast?.map fun a => a.2 + atomSize a.1).getD start := by
  induction atoms generalizing start with
  | nil => rfl
  | cons atom atoms ih =>
    change layoutEnd place atomSize (place atom start + atomSize atom) atoms = _
    rw [ih, offsets]
    cases atoms with
    | nil => rfl
    | cons next atoms => rw [offsets, getLast?_cons_cons]; rfl

theorem LaidBy.wellPlaced (hplace : ∀ atom offset, offset ≤ place atom offset)
    (h : LaidBy place info) : WellPlaced info where
  apart := by
    have hapart := offsets_apart atomSize hplace 0 info.atoms
    rw [← h.offsets] at hapart
    exact List.pairwise_map.mp hapart
  inside := by
    intro a ha
    have hmem := mem_map_of_mem (f := natOffset) ha
    rw [h.offsets] at hmem
    rw [h.size]
    exact (offset_bounds atomSize hplace hmem).2
  size := by
    rw [h.size, getLast?_offsets, ← h.offsets, getLast?_map, Option.map_map]
    rfl

theorem LaidBy.placed (h : LaidBy place info)
    {a : Atom × UInt64} (ha : a ∈ info.fAtoms) : ∃ offset, a.2.toNat = place a.1 offset := by
  have hmem := mem_map_of_mem (f := natOffset) ha
  rw [h.offsets] at hmem
  exact offset_placed place atomSize hmem

theorem Sound.wellPlaced (h : Sound info) (hfits : Fits placeAtom info) :
    WellPlaced info ∧ ∀ a ∈ info.fAtoms,
      a.2.toNat % 2 ^ a.1.powerOf2.val = a.1.modulus.toNat % 2 ^ a.1.powerOf2.val := by
  have hlaid := h.laid hfits
  refine ⟨hlaid.wellPlaced le_placeAtom, ?_⟩
  intro a ha
  obtain ⟨offset, hoffset⟩ := hlaid.placed ha
  rw [hoffset]
  exact placeAtom_mod a.1 offset

def Partitioned.isRelaid (out : Partitioned) (i : Nat) (info : SectionInfo) : Bool :=
  out.cstringSectionInfo == some i && 0 < info.fAlignment

def Partitioned.rule (out : Partitioned) (i : Nat) (info : SectionInfo) : Atom → Nat → Nat :=
  if out.isRelaid i info then placeString info.fAlignment else placeAtom

def Partitioned.remainder (out : Partitioned) (i : Nat) (info : SectionInfo) (atom : Atom) : Nat :=
  if out.isRelaid i info then 0 else atom.modulus.toNat % 2 ^ atom.powerOf2.val

theorem relaySections_getElem? (p : Partition) (i : Nat) :
    (relaySections p)[i]? = p.sections[i]?.map fun current =>
      if p.cstringSectionInfo = some i then (current.1, relaySection current.2) else current := by
  unfold relaySections
  cases hc : p.cstringSectionInfo with
  | none => simp
  | some place =>
    by_cases h : place = i <;> simp [h]

theorem relaySections_atoms (p : Partition) :
    ((relaySections p).flatMap fun s => s.2.atoms) = p.sections.flatMap fun s => s.2.atoms := by
  have hmap : (relaySections p).map (fun s => s.2.atoms) = p.sections.map fun s => s.2.atoms := by
    apply ext_getElem?
    intro i
    rw [getElem?_map, relaySections_getElem?, getElem?_map, Option.map_map]
    congr 1
    funext s
    split
    · exact relaySection_atoms s.2
    · rfl
  rw [flatMap_def, flatMap_def, hmap]

theorem relaySection_named (segmentName sectionName : String) (info : SectionInfo) :
    isNamed segmentName sectionName (relaySection info) = isNamed segmentName sectionName info := by
  unfold relaySection
  split <;> rfl

theorem relaySection_aligned (h : Sound info) :
    ∀ a ∈ (relaySection info).fAtoms, a.1.powerOf2.val ≤ (relaySection info).fAlignment := by
  intro a ha
  have hmem : a.1 ∈ info.atoms := by
    rw [← relaySection_atoms]
    exact mem_map_of_mem ha
  obtain ⟨b, hb, hatom⟩ := List.mem_map.mp hmem
  rw [relaySection_alignment, ← hatom]
  exact h.aligned b hb

theorem relaySection_zero (h : ¬ 0 < info.fAlignment) : relaySection info = info := by
  unfold relaySection
  rw [if_neg h]

theorem relaySection_dvd (hlaid : LaidBy (placeString info.fAlignment) (relaySection info)) :
    ∀ a ∈ (relaySection info).fAtoms, 2 ^ info.fAlignment ∣ a.2.toNat := by
  intro a ha
  obtain ⟨offset, hoffset⟩ := hlaid.placed ha
  rw [hoffset]
  exact dvd_alignUp (2 ^ info.fAlignment) offset

theorem relaySection_mod (hsound : Sound info)
    (hlaid : LaidBy (placeString info.fAlignment) (relaySection info)) :
    ∀ a ∈ (relaySection info).fAtoms, a.2.toNat % 2 ^ a.1.powerOf2.val = 0 := by
  intro a ha
  have hle := relaySection_aligned hsound a ha
  rw [relaySection_alignment] at hle
  exact Nat.mod_eq_zero_of_dvd (Nat.dvd_trans (Nat.pow_dvd_pow 2 hle) (relaySection_dvd hlaid a ha))

/-- Every atom is put into a section, in their order. A section that ends below `2 ^ 64` is laid out by
its rule: the atoms do not overlap, the section ends with the last of them, and they have the
remainders of their alignments, except for the strings of an object file: each of them is at a
multiple of the section's alignment. -/
theorem partition_laid (o : SectionOptions) (atoms : List Atom) (out : Partitioned)
    (h : partitionIntoSections o atoms = some out) :
    (out.sections.flatMap fun s => s.2.atoms) = atoms ∧
      ∀ i s, out.sections[i]? = some s →
        (∀ a ∈ s.2.fAtoms, a.1.powerOf2.val ≤ s.2.fAlignment) ∧
        (out.isRelaid i s.2 = true → o.oneSegmentCommand = true ∧
          isNamed "__TEXT" "__cstring" s.2 = true) ∧
        (Fits (out.rule i s.2) s.2 → WellPlaced s.2 ∧
          ∀ a ∈ s.2.fAtoms,
            a.2.toNat % 2 ^ a.1.powerOf2.val = out.remainder i s.2 a.1 ∧
            (out.isRelaid i s.2 = true → 2 ^ s.2.fAlignment ∣ a.2.toNat)) := by
  obtain ⟨p, hrun, hout⟩ := Option.bind_eq_some_iff.mp h
  have hsound := (soundPartition_start o).run hrun
  obtain rfl := Option.some.inj hout
  refine ⟨(relaySections_atoms p).trans hsound.atoms, ?_⟩
  intro i s hs
  rw [relaySections_getElem?] at hs
  obtain ⟨old, hold, hsold⟩ := Option.map_eq_some_iff.mp hs
  have hmem : old ∈ p.sections := mem_of_getElem? hold
  have hinfo := hsound.sound old hmem
  by_cases hc : p.cstringSectionInfo = some i
  · rw [if_pos hc] at hsold
    subst hsold
    obtain ⟨hone, named, hnamed, hname⟩ := hsound.cstring i hc
    rw [hold] at hnamed
    obtain rfl := Option.some.inj hnamed
    refine ⟨relaySection_aligned hinfo, fun _ => ⟨hone, (relaySection_named _ _ _).trans hname⟩, ?_⟩
    unfold Partitioned.rule Partitioned.remainder Partitioned.isRelaid
    rw [hc, beq_self_eq_true, Bool.true_and, relaySection_alignment]
    by_cases hpos : 0 < old.2.fAlignment
    · rw [decide_eq_true hpos, if_pos rfl]
      intro hfits
      have hlt := hsound.shiftable hone old hmem
      have hlaid := relaySection_laid hpos (by omega) hfits
      refine ⟨hlaid.wellPlaced (le_placeString _), ?_⟩
      intro a ha
      exact ⟨relaySection_mod hinfo hlaid a ha, fun _ => relaySection_dvd hlaid a ha⟩
    · rw [decide_eq_false hpos, if_neg Bool.false_ne_true, relaySection_zero hpos]
      intro hfits
      obtain ⟨hplaced, hmod⟩ := hinfo.wellPlaced hfits
      exact ⟨hplaced, fun a ha => ⟨hmod a ha, fun h => absurd h Bool.false_ne_true⟩⟩
  · rw [if_neg hc] at hsold
    subst hsold
    have hrelaid : (p.cstringSectionInfo == some i) = false := beq_eq_false_iff_ne.mpr hc
    unfold Partitioned.rule Partitioned.remainder Partitioned.isRelaid
    rw [hrelaid, Bool.false_and, if_neg Bool.false_ne_true]
    refine ⟨hinfo.aligned, fun hfalse => absurd hfalse Bool.false_ne_true, ?_⟩
    intro hfits
    obtain ⟨hplaced, hmod⟩ := hinfo.wellPlaced hfits
    exact ⟨hplaced, fun a ha => ⟨hmod a ha, fun h => absurd h Bool.false_ne_true⟩⟩

def textSegment : Segment := { getName := "__TEXT" }

def stringAtom (modulus : UInt16) : Atom where
  getSection := some 1
  getSectionName := "__cstring"
  getSegment := textSegment
  powerOf2 := 2
  modulus := modulus
  getSize := 5

theorem strings_laid : ∃ out,
    partitionIntoSections { outputKind := .kObjectFile } [stringAtom 0, stringAtom 1] = some out ∧
      ∀ s, out.sections[0]? = some s → ∀ a ∈ s.2.fAtoms, 2 ^ s.2.fAlignment ∣ a.2.toNat := by
  refine ⟨_, rfl, ?_⟩
  intro s hs a ha
  obtain ⟨-, -, hplaced⟩ := (partition_laid { outputKind := .kObjectFile }
    [stringAtom 0, stringAtom 1] _ rfl).2 0 s hs
  obtain rfl := Option.some.inj hs
  exact ((hplaced (by unfold Fits; decide)).2 a ha).2 (by decide)

def hugeAtom : Atom where
  getSection := some 2
  getSectionName := "__bss"
  getSegment := { getName := "__DATA" }
  getSize := 0x8000000000000000

/-- The second string of an object file gets the offset 8, and a section that is too large starts again
at its beginning. -/
theorem strings_lose_modulus :
    (∃ out, partitionIntoSections { outputKind := .kObjectFile } [stringAtom 0, stringAtom 1] =
        some out ∧
      out.sections.map (fun s => s.2.fAtoms) = [[(stringAtom 0, 0), (stringAtom 1, 8)]] ∧
      8 % 2 ^ (stringAtom 1).powerOf2.val ≠ (stringAtom 1).modulus.toNat) ∧
    ∃ out, partitionIntoSections {} [hugeAtom, hugeAtom, hugeAtom] = some out ∧
      out.sections.map (fun s => s.2.fAtoms) =
        [[(hugeAtom, 0), (hugeAtom, 0x8000000000000000), (hugeAtom, 0)]] :=
  ⟨⟨_, rfl, by decide, by decide⟩, _, rfl, by decide⟩

end Toolwhip.Ld64.Sections
