import Toolwhip.Ld64.DwarfForms

/-! # The end of a unit

`end` is the cursor behind the header plus the length of the unit, and the length counts
from the end of the length field. -/

namespace Toolwhip.Ld64.Dwarf
set_option autoImplicit false

open Lib.Uleb128 Lib.EventRun

section Reads
variable {region : Region} {data rest : List Byte} {pos : Int} {event : Event → Prop}
  {stopped : Stop → Prop}

/-- The number in `n` bytes of a section. -/
def wordAt (E : ByteOrder) (data : List Byte) (pos n : Nat) : Nat :=
  E.number ((data.drop pos).take n)

theorem readByte_satisfies {pos : Nat} (hpos : pos < data.length) (he : event (.read region pos)) :
    (readByte region data pos).Satisfies event stopped
      fun byte => data.drop pos = byte :: data.drop (pos + 1) := by
  have hdrop := List.drop_eq_getElem_cons hpos
  have hbytes : bytesFrom data pos = data[pos] :: data.drop (pos + 1) := by
    exact hdrop
  unfold readByte
  rw [hbytes]
  apply Traced.Satisfies.emit _ he
  exact Traced.satisfies_done hdrop

theorem readBytes_satisfies {pos n : Nat} (hpos : pos + n ≤ data.length)
    (he : ∀ i : Nat, pos ≤ i → i < pos + n → event (.read region i)) :
    (readBytes region data pos n).Satisfies event stopped (· = (data.drop pos).take n) := by
  induction n generalizing pos with
  | zero => exact Traced.satisfies_pure rfl
  | succ n ih =>
    apply Traced.Satisfies.bind (readByte_satisfies (by omega) (he pos (Nat.le_refl pos) (by omega)))
    intro byte hbyte
    have hrest := @ih (pos + 1) (by omega) fun i hle hlt => he i (by omega) (by omega)
    apply Traced.Satisfies.bind hrest
    intro rest hrest
    apply Traced.satisfies_pure
    rw [hbyte, List.take_succ_cons, hrest]

theorem readWord_satisfies {E : ByteOrder} {pos n : Nat} (hpos : pos + n ≤ data.length)
    (he : ∀ i : Nat, pos ≤ i → i < pos + n → event (.read region i)) :
    (readWord E region data pos n).Satisfies event stopped (· = wordAt E data pos n) := by
  apply Traced.Satisfies.bind (readBytes_satisfies hpos he)
  intro bytes hbytes
  apply Traced.satisfies_pure
  rw [hbytes]
  rfl

theorem readWord_first {E : ByteOrder} {n : Nat} :
    .read region pos ∈ (readWord E region data pos (n + 1)).events := by
  apply Traced.events_bind_left
  rw [readBytes]
  unfold readByte
  split
  · exact List.mem_cons_self
  · exact List.mem_cons_self

end Reads

open List

section Header
variable (E : ByteOrder) (info abbrevs : List Byte)

def unitLength : Option (Bool × Nat) :=
  if wordAt E info 0 4 = 0xffffffff then some (true, wordAt E info 4 8)
  else if 0xffffff00 < wordAt E info 0 4 then none
  else some (false, wordAt E info 0 4)

def lengthBytes (dwarf64 : Bool) : Nat := if dwarf64 then 12 else 4

def headerBytes (dwarf64 : Bool) : Nat := if dwarf64 then 23 else 11

def unitEnd : Option Nat := (unitLength E info).map fun l => lengthBytes l.1 + l.2

def LengthWraps : Prop :=
  ∃ dwarf64 sz, unitLength E info = some (dwarf64, sz) ∧ 2 ^ 64 ≤ lengthBytes dwarf64 + sz

/-- Every check of the header is passed. -/
structure HeaderPasses (dwarf64 : Bool) (sz : Nat) : Prop where
  length : unitLength E info = some (dwarf64, sz)
  fits : lengthBytes dwarf64 + sz ≤ info.length
  large : headerBytes dwarf64 < sz
  version : 2 ≤ wordAt E info (lengthBytes dwarf64) 2 ∧ wordAt E info (lengthBytes dwarf64) 2 ≤ 3
  base : wordAt E info (lengthBytes dwarf64 + 2) (offsetSize dwarf64) ≤ abbrevs.length

def ReachesUnit : Prop :=
  12 ≤ info.length ∧ (LengthWraps E info ∨ ∃ dwarf64 sz, HeaderPasses E info abbrevs dwarf64 sz)

/-- A byte in its section, and for the DIE in the unit; `end` is where the unit ends. -/
def Confined : Event → Prop
  | .read .header pos => 0 ≤ pos ∧ pos < info.length
  | .read .abbrevs pos => 0 ≤ pos ∧ pos < abbrevs.length
  | .read .die pos => 0 ≤ pos ∧ pos < info.length ∧ ∃ stop ∈ unitEnd E info, pos < stop
  | .bound stop => ∃ n ∈ unitEnd E info, stop = n

end Header

def DwarfSections.debug_info (sections : DwarfSections) : List Byte :=
  sections.fDwarfDebugInfoSect.getD []

def DwarfSections.debug_abbrev (sections : DwarfSections) : List Byte :=
  sections.fDwarfDebugAbbrevSect.getD []

/-- Every byte that is read is where it may be, the run ends, and no more than the length of
a unit is read where the end of the unit wraps. -/
structure StaysInside (E : ByteOrder) (pointer : Int → Nat → Byte) (sections : DwarfSections) :
    Prop where
  terminates : (read_comp_unit E pointer sections).result ≠ .error .outOfFuel
  confined : ∀ event ∈ (read_comp_unit E pointer sections).events,
    Confined E sections.debug_info sections.debug_abbrev event
  rejects : LengthWraps E sections.debug_info → ∀ pos : Int, 12 ≤ pos →
    .read .header pos ∉ (read_comp_unit E pointer sections).events

section Unit
variable {E : ByteOrder} {pointer : Int → Nat → Byte} {info abbrevs : List Byte} {event : Event → Prop}
  {stopped : Stop → Prop} {header : UnitHeader}

theorem foldr_bytes_lt (bytes : List Byte) :
    bytes.foldr (fun b n => b.toNat + 256 * n) 0 < 256 ^ bytes.length := by
  induction bytes with
  | nil => decide
  | cons byte rest ih =>
    rw [foldr_cons, length_cons, Nat.pow_succ]
    omega

theorem number_lt (E : ByteOrder) (bytes : List Byte) : E.number bytes < 256 ^ bytes.length := by
  cases E with
  | little => exact foldr_bytes_lt bytes
  | big =>
    have hreverse : ByteOrder.big.number bytes =
        bytes.reverse.foldr (fun b n => b.toNat + 256 * n) 0 := by
      rw [foldr_reverse]
      simp only [ByteOrder.number, Nat.add_comm]
    have hlt := foldr_bytes_lt bytes.reverse
    rw [length_reverse] at hlt
    rw [hreverse]
    exact hlt

theorem wordAt_lt (E : ByteOrder) (data : List Byte) (pos n : Nat) : wordAt E data pos n < 256 ^ n := by
  have hlt := number_lt E ((data.drop pos).take n)
  have hle : ((data.drop pos).take n).length ≤ n := length_take_le n _
  exact Nat.lt_of_lt_of_le hlt (Nat.pow_le_pow_right (by decide) hle)

theorem LengthWraps.cases (h : LengthWraps E info) :
    ∃ sz, unitLength E info = some (true, sz) ∧ 2 ^ 64 ≤ 12 + sz ∧ sz < 2 ^ 64 := by
  obtain ⟨dwarf64, sz, hlength, hwraps⟩ := h
  have hlt := wordAt_lt E info 4 8
  unfold unitLength at hlength
  unfold lengthBytes at hwraps
  split at hlength
  · rename_i hmark
    cases hlength
    refine ⟨_, ?_, hwraps, by omega⟩
    unfold unitLength
    rw [if_pos hmark]
  · split at hlength
    · cases hlength
    cases hlength
    simp only [Bool.false_eq_true, if_false] at hwraps
    omega

theorem readUnitLength_satisfies (hroom : 12 ≤ info.length)
    (he : ∀ i : Nat, i < 12 → event (.read .header i))
    (hs : unitLength E info = none → stopped .returnFalse) :
    (readUnitLength E info).Satisfies event stopped fun r =>
      unitLength E info = some (r.1, r.2.1) ∧ r.2.2 = lengthBytes r.1 := by
  have hfour : (readWord E .header info (0 : Nat) 4).Satisfies event stopped
      (· = wordAt E info 0 4) := readWord_satisfies (by omega) fun i _ hlt => he i (by omega)
  have height : (readWord E .header info (4 : Nat) 8).Satisfies event stopped
      (· = wordAt E info 4 8) := readWord_satisfies (by omega) fun i _ hlt => he i (by omega)
  apply Traced.Satisfies.bind hfour
  rintro sz rfl
  unfold unitLength at hs ⊢
  split
  · apply Traced.Satisfies.bind height
    rintro sz rfl
    exact Traced.satisfies_pure ⟨rfl, rfl⟩
  rename_i hmark
  split
  · rename_i hunknown
    apply Traced.satisfies_stop
    apply hs
    rw [if_neg hmark, if_pos hunknown]
  · exact Traced.satisfies_pure ⟨rfl, rfl⟩

theorem not_headerPasses {dwarf64 : Bool} {sz : Nat} (hlength : unitLength E info = some (dwarf64, sz))
    (h : ¬ HeaderPasses E info abbrevs dwarf64 sz) :
    ¬ ∃ dwarf64 sz, HeaderPasses E info abbrevs dwarf64 sz := by
  rintro ⟨d, s, hpasses⟩
  have hsame := hpasses.length.symm.trans hlength
  cases hsame
  exact h hpasses

theorem readUnitFields_satisfies {dwarf64 : Bool} {sz : Nat}
    (hlength : unitLength E info = some (dwarf64, sz)) (hwraps : ¬ LengthWraps E info)
    (he : ∀ i : Nat, i < info.length → event (.read .header i))
    (hs : (¬ ∃ dwarf64 sz, HeaderPasses E info abbrevs dwarf64 sz) → stopped .returnFalse) :
    (readUnitFields E info abbrevs dwarf64 sz (lengthBytes dwarf64)).Satisfies event stopped fun h =>
      HeaderPasses E info abbrevs h.dwarf64 h.sz ∧ h.abbrev_base ≤ abbrevs.length ∧
        h.di = headerBytes h.dwarf64 := by
  have hsum : (sz + lengthBytes dwarf64) % 2 ^ 64 = lengthBytes dwarf64 + sz := by
    by_contra hge
    exact hwraps ⟨dwarf64, sz, hlength, by omega⟩
  have hminimum : (if dwarf64 = true then 23 else 11) = headerBytes dwarf64 := rfl
  have hheader : headerBytes dwarf64 = lengthBytes dwarf64 + 2 + offsetSize dwarf64 + 1 := by
    cases dwarf64 <;> rfl
  unfold readUnitFields
  rw [hsum, hminimum]
  by_cases hsize : info.length < lengthBytes dwarf64 + sz ∨ sz ≤ headerBytes dwarf64
  · rw [if_pos hsize]
    apply Traced.satisfies_stop
    apply hs
    apply not_headerPasses hlength
    intro hpasses
    have hfits := hpasses.fits
    have hlarge := hpasses.large
    omega
  rw [if_neg hsize]
  apply Traced.Satisfies.bind (readWord_satisfies (by omega) fun i _ hlt => he i (by omega))
  rintro vers rfl
  by_cases hvers : wordAt E info (lengthBytes dwarf64) 2 < 2 ∨ 3 < wordAt E info (lengthBytes dwarf64) 2
  · rw [if_pos hvers]
    apply Traced.satisfies_stop
    apply hs
    apply not_headerPasses hlength
    intro hpasses
    have hversion := hpasses.version
    omega
  rw [if_neg hvers]
  apply Traced.Satisfies.bind (readWord_satisfies (by omega) fun i _ hlt => he i (by omega))
  rintro abbrev_base rfl
  by_cases hbase : abbrevs.length < wordAt E info (lengthBytes dwarf64 + 2) (offsetSize dwarf64)
  · rw [if_pos hbase]
    apply Traced.satisfies_stop
    apply hs
    apply not_headerPasses hlength
    intro hpasses
    have hinside := hpasses.base
    omega
  rw [if_neg hbase]
  apply Traced.Satisfies.bind (readByte_satisfies (by omega) (he _ (by omega)))
  intro address_size _
  have hpasses : HeaderPasses E info abbrevs dwarf64 sz :=
    ⟨hlength, by omega, by omega, by omega, by omega⟩
  exact Traced.satisfies_pure ⟨hpasses, Nat.le_of_not_lt hbase, hheader.symm⟩

/-- A header of which the end does not wrap is read in the section, and accepted where its
checks are passed. -/
theorem readUnitHeader_satisfies (hwraps : ¬ (12 ≤ info.length ∧ LengthWraps E info))
    (he : ∀ i : Nat, i < info.length → event (.read .header i))
    (hs : ¬ ReachesUnit E info abbrevs → stopped .returnFalse) :
    (readUnitHeader E info abbrevs).Satisfies event stopped fun h =>
      HeaderPasses E info abbrevs h.dwarf64 h.sz ∧ h.abbrev_base ≤ abbrevs.length ∧
        h.di = headerBytes h.dwarf64 := by
  unfold readUnitHeader
  by_cases hroom : info.length < 12
  · rw [if_pos hroom]
    apply Traced.satisfies_stop
    apply hs
    intro hreaches
    have hroom' := hreaches.1
    omega
  have hnowrap : ¬ LengthWraps E info := fun h => hwraps ⟨by omega, h⟩
  have hstop : (¬ ∃ dwarf64 sz, HeaderPasses E info abbrevs dwarf64 sz) → stopped .returnFalse := by
    intro hnone
    apply hs
    intro hreaches
    exact hreaches.2.elim hnowrap hnone
  have hlength := @readUnitLength_satisfies E info event stopped (by omega)
    (fun i hi => he i (by omega)) fun hnone => hstop fun hpasses => by
      obtain ⟨dwarf64, sz, hpasses⟩ := hpasses
      have hsome := hpasses.length
      rw [hnone] at hsome
      cases hsome
  rw [if_neg hroom]
  apply Traced.Satisfies.bind hlength
  rintro ⟨dwarf64, sz, di⟩ ⟨hunit, hdi⟩
  simp only at hunit hdi
  subst hdi
  exact readUnitFields_satisfies hunit hnowrap he hstop

/-- A length that wraps passes the size check, and the version is read behind it. -/
theorem readUnitHeader_wraps (hroom : 12 ≤ info.length) (hwraps : LengthWraps E info) :
    .read .header 12 ∈ (readUnitHeader E info abbrevs).events := by
  obtain ⟨sz, hlength, hlarge, hlt⟩ := hwraps.cases
  have hread := @readUnitLength_satisfies E info (fun _ => True) (fun _ => False) hroom
    (fun _ _ => trivial) fun hnone => by
      rw [hnone] at hlength
      cases hlength
  obtain ⟨⟨dwarf64, sz', di⟩, hresult, hunit, hdi⟩ := hread.total
  simp only at hunit hdi
  have hsame := hunit.symm.trans hlength
  cases hsame
  subst hdi
  unfold readUnitHeader
  rw [if_neg (by omega)]
  apply Traced.events_bind_right hresult
  have hsize : ¬ (info.length < (sz + 12) % 2 ^ 64 ∨ sz ≤ 23) := by
    omega
  unfold readUnitFields
  simp only [lengthBytes, if_true]
  rw [if_neg hsize]
  exact Traced.events_bind_left readWord_first

section Sections
variable {sections : DwarfSections}

theorem read_comp_unit_missing (h : sections.fDwarfDebugInfoSect = none ∨
    sections.fDwarfDebugAbbrevSect = none) : read_comp_unit E pointer sections = returnFalse := by
  unfold read_comp_unit
  rcases h with h | h
  · rw [h]
  rw [h]
  cases sections.fDwarfDebugInfoSect <;> rfl

theorem read_comp_unit_eq (hinfo : sections.fDwarfDebugInfoSect = some info)
    (habbrevs : sections.fDwarfDebugAbbrevSect = some abbrevs) : read_comp_unit E pointer sections =
      readUnitHeader E info abbrevs >>= readUnit E pointer info abbrevs := by
  unfold read_comp_unit
  rw [hinfo, habbrevs]

def UnitReached (E : ByteOrder) (sections : DwarfSections) : Prop :=
  ∃ info abbrevs, sections.fDwarfDebugInfoSect = some info ∧
    sections.fDwarfDebugAbbrevSect = some abbrevs ∧ ReachesUnit E info abbrevs

theorem staysInside_returnFalse (h : read_comp_unit E pointer sections = returnFalse) :
    StaysInside E pointer sections where
  terminates := by
    rw [h]
    decide
  confined := by
    rw [h]
    intro event hevent
    cases hevent
  rejects := by
    rw [h]
    intro _ pos _ hevent
    cases hevent

theorem pointerSum_ne {dwarf64 : Bool} {sz : Nat} :
    pointerSum (headerBytes dwarf64) sz ≠ (lengthBytes dwarf64 + sz : Nat) := by
  intro heq
  unfold pointerSum at heq
  rw [BitVec.toInt_ofNat'] at heq
  have hmod := @Int.bmod_emod ((headerBytes dwarf64 + sz : Nat) : Int) (2 ^ 64)
  rw [heq] at hmod
  cases dwarf64
  · simp only [headerBytes, lengthBytes, Bool.false_eq_true, if_false] at hmod
    omega
  · simp only [headerBytes, lengthBytes, if_true] at hmod
    omega

theorem not_staysInside_of_reached (h : UnitReached E sections) :
    ¬ StaysInside E pointer sections := by
  obtain ⟨info, abbrevs, hinfo, habbrevs, hroom, hreached⟩ := h
  intro hinside
  have hdebug : sections.debug_info = info := by
    unfold DwarfSections.debug_info
    rw [hinfo]
    rfl
  have hrun := @read_comp_unit_eq E pointer info abbrevs sections hinfo habbrevs
  by_cases hwraps : LengthWraps E info
  · apply hinside.rejects (by rw [hdebug]; exact hwraps) 12 (Int.le_refl 12)
    rw [hrun]
    exact Traced.events_bind_left (readUnitHeader_wraps hroom hwraps)
  have hheader := @readUnitHeader_satisfies E info abbrevs (fun _ => True) (fun _ => False)
    (fun h => hwraps h.2) (fun _ _ => trivial) fun hnot => hnot ⟨hroom, hreached⟩
  obtain ⟨header, hresult, hpasses, _, hdi⟩ := hheader.total
  have hbound : Event.bound (pointerSum header.di header.sz) ∈
      (read_comp_unit E pointer sections).events := by
    rw [hrun]
    apply Traced.events_bind_right hresult
    apply Traced.events_bind_left
    exact mem_cons_self
  obtain ⟨n, hn, heq⟩ := hinside.confined _ hbound
  unfold unitEnd at hn
  rw [hdebug, hpasses.length, Option.map_some, Option.mem_some_iff] at hn
  rw [hdi, ← hn] at heq
  exact pointerSum_ne heq

theorem staysInside_of_not_reached (h : ¬ UnitReached E sections) :
    StaysInside E pointer sections := by
  cases hinfo : sections.fDwarfDebugInfoSect with
  | none => exact staysInside_returnFalse (read_comp_unit_missing (Or.inl hinfo))
  | some info =>
    cases habbrevs : sections.fDwarfDebugAbbrevSect with
    | none => exact staysInside_returnFalse (read_comp_unit_missing (Or.inr habbrevs))
    | some abbrevs =>
      have hreaches : ¬ ReachesUnit E info abbrevs := fun hr => h ⟨info, abbrevs, hinfo, habbrevs, hr⟩
      have hrun := @read_comp_unit_eq E pointer info abbrevs sections hinfo habbrevs
      by_cases hroom : info.length < 12
      · apply staysInside_returnFalse
        rw [hrun]
        unfold readUnitHeader
        rw [if_pos hroom]
        rfl
      have hnowrap : ¬ LengthWraps E info := fun hw => hreaches ⟨by omega, Or.inl hw⟩
      have hdebug : sections.debug_info = info := by
        unfold DwarfSections.debug_info
        rw [hinfo]
        rfl
      have hheader := @readUnitHeader_satisfies E info abbrevs
        (Confined E info sections.debug_abbrev) (· ≠ .outOfFuel) (fun hw => hnowrap hw.2)
        (fun i hi => ⟨by omega, by omega⟩) fun _ => by decide
      have hwhole : (read_comp_unit E pointer sections).Satisfies
          (Confined E info sections.debug_abbrev) (· ≠ .outOfFuel) fun _ => True := by
        rw [hrun]
        apply hheader.bind
        intro header hpasses
        exact absurd ⟨by omega, Or.inr ⟨_, _, hpasses.1⟩⟩ hreaches
      refine ⟨fun hfuel => hwhole.stops _ hfuel rfl, ?_, ?_⟩
      · rw [hdebug]
        exact hwhole.events
      · rw [hdebug]
        intro hw
        exact absurd hw hnowrap

/-- Nothing is read outside exactly when no unit is reached. -/
theorem read_comp_unit_confined_iff :
    StaysInside E pointer sections ↔ ¬ UnitReached E sections := by
  constructor
  · intro hinside hreached
    exact not_staysInside_of_reached hreached hinside
  · exact staysInside_of_not_reached

/-- A unit of 12 bytes behind its length: `end` is 7 bytes behind its last byte. -/
theorem read_comp_unit_confined_fixed : ¬ ∀ E pointer sections, StaysInside E pointer sections := by
  intro hclaim
  have hinside := hclaim .little (fun _ _ => 0)
    ⟨some [12, 0, 0, 0, 2, 0, 0, 0, 0, 0, 4, 1, 0, 0, 0, 0], some [1, 17, 0, 0, 0]⟩
  obtain ⟨n, hn, heq⟩ := hinside.confined (.bound 23) (by decide)
  have hunit : unitEnd .little [12, 0, 0, 0, 2, 0, 0, 0, 0, 0, 4, 1, 0, 0, 0, 0] = some 16 := by decide
  unfold DwarfSections.debug_info at hn
  rw [Option.getD_some, hunit, Option.mem_some_iff] at hn
  omega

end Sections
end Unit
end Toolwhip.Ld64.Dwarf
