import Toolwhip.Lib.ThrowingFold
import Toolwhip.Lib.Uleb128

/-! # Split segment info

The places that `dyld` has to change when the text and the data of a library are moved apart, one list
for each kind of place, as the distances between them. An address is a `pint_t` of `w` bits. -/

namespace Toolwhip.Ld64.SplitInfo
open Lib.ThrowingFold List BitVec
open Lib.Uleb128 (Byte)
set_option autoImplicit false
variable {bytes : List Byte} {β : Type}

structure AtomAndOffset where
  address : BitVec 64
  offset : BitVec 32
  deriving DecidableEq

structure SegmentSplitInfoContentAtom where
  fKind1Locations : List AtomAndOffset := []
  fKind2Locations : List AtomAndOffset := []
  fKind3Locations : List AtomAndOffset := []
  fKind4Locations : List AtomAndOffset := []
  fCantEncode : Bool := false

inductive EncodeError where
  | thrown (message : String)
  deriving DecidableEq, Repr

variable (w : Nat)

def nextAddr (location : AtomAndOffset) : BitVec w :=
  (location.address + location.offset.setWidth 64).setWidth w

def pushGroups : Nat → BitVec 64 → List Byte
  | 0, _ => []
  | groups + 1, delta =>
    let byte : Byte := (delta &&& 0x7F).setWidth 8
    let delta := delta &&& ~~~0x7F#64
    if delta ≠ 0 then (byte ||| 0x80) :: pushGroups groups (delta >>> 7) else [byte]

def encodeFrom : BitVec w → List AtomAndOffset → Except EncodeError (List Byte)
  | _, [] => .ok []
  | addr, location :: locations =>
    let delta : BitVec 64 := (nextAddr w location - addr).setWidth 64
    if delta = 0 then .error (.thrown "double split seg info for same address")
    else do
      let rest ← encodeFrom (nextAddr w location) locations
      .ok (pushGroups 10 delta ++ rest)

def uleb128EncodeAddresses (baseAddress : BitVec 64) (locations : List AtomAndOffset) :
    Except EncodeError (List Byte) := encodeFrom w (baseAddress.setWidth w) locations

def encodeKind (baseAddress : BitVec 64) (kind : Byte) (locations : List AtomAndOffset) :
    Except EncodeError (List Byte) :=
  if locations = [] then .ok []
  else do
    let bytes ← uleb128EncodeAddresses w baseAddress locations
    .ok (kind :: bytes ++ [0])

/-- Adds zeros to the end to align the size, for which it takes less than `size` rounds. -/
def alignData (size : Nat) : Nat → List Byte → List Byte
  | 0, data => data
  | fuel + 1, data =>
    if data.length % size ≠ 0 then alignData size fuel (data ++ [0]) else data

/-- The content of `fEncodedData`. -/
def encode (baseAddress : BitVec 64) (atom : SegmentSplitInfoContentAtom) :
    Except EncodeError (List Byte) :=
  if atom.fCantEncode then .ok []
  else do
    let kind1 ← encodeKind w baseAddress 1 atom.fKind1Locations
    let kind2 ← encodeKind w baseAddress 2 atom.fKind2Locations
    let kind3 ← encodeKind w baseAddress 3 atom.fKind3Locations
    let kind4 ← encodeKind w baseAddress 4 atom.fKind4Locations
    .ok (alignData (w / 8) (w / 8) (kind1 ++ kind2 ++ kind3 ++ kind4 ++ [0]))

def loadCommandSize (atom : SegmentSplitInfoContentAtom) : Nat := if atom.fCantEncode then 0 else 16

section Groups
variable (delta : BitVec 64)

theorem low_group : (delta &&& 0x7F).toNat = delta.toNat % 128 := by
  have hmask : (0x7F : BitVec 64).toNat = 2 ^ 7 - 1 := rfl
  rw [toNat_and, hmask, Nat.and_two_pow_sub_one_eq_mod]

theorem high_mask : ∀ i, i < 64 → (~~~0x7F#64).getLsbD i = decide (7 ≤ i) := by decide

theorem high_groups : delta &&& ~~~0x7F#64 = (delta >>> 7) <<< 7 := by
  apply eq_of_getLsbD_eq
  intro i hi
  rw [getLsbD_and, high_mask i hi, getLsbD_shiftLeft, getLsbD_ushiftRight]
  by_cases h : 7 ≤ i
  · simp [h, hi, show ¬ i < 7 by omega]
  · simp [h, show i < 7 by omega]

theorem continued_group : (delta &&& 0x7F).setWidth 8 ||| 0x80 =
    BitVec.ofNat 8 (128 + delta.toNat % 128) := by
  have hor : ∀ k, k < 128 → BitVec.ofNat 8 k ||| 0x80 = BitVec.ofNat 8 (128 + k) := by decide
  have hgroup : (delta &&& 0x7F).setWidth 8 = BitVec.ofNat 8 (delta.toNat % 128) := by
    rw [← low_group]
    rfl
  rw [hgroup]
  exact hor _ (Nat.mod_lt _ (by decide))

theorem small_group (h : delta.toNat < 128) :
    (delta &&& 0x7F).setWidth 8 = BitVec.ofNat 8 delta.toNat := by
  rw [← Nat.mod_eq_of_lt h, ← low_group]
  rfl

theorem pushGroups_succ (groups : Nat) : pushGroups (groups + 1) delta =
      if delta.toNat < 128 then [BitVec.ofNat 8 delta.toNat]
      else BitVec.ofNat 8 (128 + delta.toNat % 128) :: pushGroups groups (delta >>> 7) := by
  have hshift : ((delta >>> 7) <<< 7) >>> 7 = delta >>> 7 := by bv_omega
  have hzero : (delta >>> 7) <<< 7 = 0 ↔ delta.toNat < 128 := by bv_omega
  rw [pushGroups, high_groups, hshift, continued_group]
  by_cases h : delta.toNat < 128
  · rw [if_neg (not_not.mpr (hzero.mpr h)), if_pos h, small_group delta h]
  · rw [if_pos fun h0 => h (hzero.mp h0), if_neg h]

theorem pushGroups_eq {groups : Nat} (h : delta.toNat < 128 ^ (groups + 1)) :
    pushGroups (groups + 1) delta = Lib.Uleb128.write delta.toNat := by
  have hshift : ∀ x : BitVec 64, (x >>> 7).toNat = x.toNat / 128 := by
    intro x
    bv_omega
  induction groups generalizing delta with
  | zero =>
    rw [Nat.zero_add, Nat.pow_one] at h
    rw [pushGroups_succ, if_pos h, Lib.Uleb128.write_small h]
  | succ groups ih =>
    rw [pushGroups_succ]
    by_cases hsmall : delta.toNat < 128
    · rw [if_pos hsmall, Lib.Uleb128.write_small hsmall]
    have hrest : (delta >>> 7).toNat < 128 ^ (groups + 1) := by
      rw [hshift]
      exact Nat.div_lt_of_lt_mul (by omega)
    rw [if_neg hsmall, Lib.Uleb128.write_large hsmall, ih _ hrest, hshift]

end Groups

def deltas : BitVec w → List (BitVec w) → List Nat
  | _, [] => []
  | addr, next :: addrs => (next - addr).toNat :: deltas next addrs

def accumulate : BitVec w → List Nat → List (BitVec w)
  | _, [] => []
  | addr, delta :: rest =>
    let next := addr + BitVec.ofNat w delta
    next :: accumulate next rest

variable {w}

theorem accumulate_deltas (addr : BitVec w) (addrs : List (BitVec w)) :
    accumulate w addr (deltas w addr addrs) = addrs := by
  induction addrs generalizing addr with
  | nil => rfl
  | cons next addrs ih =>
    have hnext : addr + BitVec.ofNat w (next - addr).toNat = next := by
      rw [ofNat_toNat, setWidth_eq, BitVec.add_comm, BitVec.sub_add_cancel]
    rw [deltas, accumulate, hnext, ih]

def addresses (locations : List AtomAndOffset) : List (BitVec w) := locations.map (nextAddr w)

/-- If no address is the one before it, the distances are written one after the other. -/
theorem encodeFrom_ok (hw : w ≤ 64) {addr : BitVec w} {locations : List AtomAndOffset}
    (h : encodeFrom w addr locations = .ok bytes) :
    bytes = (deltas w addr (addresses locations)).flatMap Lib.Uleb128.write ∧
      ∀ n ∈ deltas w addr (addresses locations), n ≠ 0 := by
  induction locations generalizing addr bytes with
  | nil =>
    cases h
    exact ⟨rfl, fun n hn => absurd hn not_mem_nil⟩
  | cons location locations ih =>
    have hdelta : ((nextAddr w location - addr).setWidth 64).toNat =
        (nextAddr w location - addr).toNat := by
      rw [toNat_setWidth]
      exact Nat.mod_eq_of_lt (Nat.lt_of_lt_of_le (BitVec.isLt _)
        (Nat.pow_le_pow_right (by decide) hw))
    have hbytes : pushGroups 10 ((nextAddr w location - addr).setWidth 64) =
        Lib.Uleb128.write (nextAddr w location - addr).toNat := by
      rw [← hdelta]
      apply pushGroups_eq
      omega
    unfold encodeFrom at h
    dsimp only at h
    split at h
    · cases h
    rename_i hne
    obtain ⟨rest, hrest, hcons⟩ := bind_eq_ok.mp h
    obtain ⟨hflat, hzero⟩ := ih hrest
    change _ = (deltas w addr (nextAddr w location :: addresses locations)).flatMap _ ∧
      ∀ n ∈ deltas w addr (nextAddr w location :: addresses locations), n ≠ 0
    rw [deltas, flatMap_cons, ← hflat, ← hbytes]
    refine ⟨(Except.ok.inj hcons).symm, ?_⟩
    intro n hn
    rcases List.mem_cons.mp hn with rfl | hn
    · intro h0
      apply hne
      apply eq_of_toNat_eq
      rw [hdelta, h0]
      rfl
    · exact hzero n hn

def kinds (atom : SegmentSplitInfoContentAtom) : List (Byte × List AtomAndOffset) :=
  [(1, atom.fKind1Locations), (2, atom.fKind2Locations), (3, atom.fKind3Locations),
    (4, atom.fKind4Locations)]

def present {β : Type} (f : List AtomAndOffset → List β)
    (table : List (Byte × List AtomAndOffset)) : List (Byte × List β) :=
  (table.filter fun entry => entry.2 != []).map fun entry => (entry.1, f entry.2)

theorem present_cons (f : List AtomAndOffset → List β)
    (entry : Byte × List AtomAndOffset) (table : List (Byte × List AtomAndOffset)) :
    present f (entry :: table) = present f [entry] ++ present f table := by
  unfold present
  rw [← map_append, ← filter_append, singleton_append]

variable (w) in
def kindDeltas (baseAddress : BitVec 64) (locations : List AtomAndOffset) : List Nat :=
  deltas w (baseAddress.setWidth w) (addresses locations)

variable {baseAddress : BitVec 64}

theorem encodeKind_ok (hw : w ≤ 64) {kind : Byte} {locations : List AtomAndOffset}
    (h : encodeKind w baseAddress kind locations = .ok bytes) :
    bytes = (present (kindDeltas w baseAddress) [(kind, locations)]).flatMap
        Lib.Uleb128.writeEntry ∧
      ∀ n ∈ kindDeltas w baseAddress locations, n ≠ 0 := by
  unfold encodeKind at h
  unfold present
  split at h
  · rename_i hempty
    subst hempty
    cases h
    exact ⟨rfl, fun n hn => absurd hn not_mem_nil⟩
  rename_i hlocations
  obtain ⟨body, hbody, hbytes⟩ := bind_eq_ok.mp h
  obtain ⟨hflat, hzero⟩ := encodeFrom_ok hw hbody
  refine ⟨?_, hzero⟩
  have hfilter : [(kind, locations)].filter (fun entry => entry.2 != []) = [(kind, locations)] := by
    simp [hlocations]
  rw [hfilter, ← Except.ok.inj hbytes, hflat]
  simp [Lib.Uleb128.writeEntry, Lib.Uleb128.writeList, kindDeltas]

theorem alignData_eq (size fuel : Nat) (data : List Byte) :
    ∃ zeros, alignData size fuel data = data ++ zeros := by
  induction fuel generalizing data with
  | zero => exact ⟨[], (append_nil data).symm⟩
  | succ fuel ih =>
    unfold alignData
    split
    · obtain ⟨zeros, hzeros⟩ := ih (data ++ [0])
      exact ⟨0 :: zeros, by rw [hzeros, List.append_assoc]; rfl⟩
    · exact ⟨[], (append_nil data).symm⟩

theorem alignData_length {size fuel : Nat} (hsize : 0 < size) {data : List Byte}
    (hfuel : size ≤ fuel + data.length % size ∨ data.length % size = 0) :
    (alignData size fuel data).length % size = 0 := by
  induction fuel generalizing data with
  | zero =>
    have hlt := Nat.mod_lt data.length hsize
    unfold alignData
    omega
  | succ fuel ih =>
    unfold alignData
    split
    · apply ih
      rw [length_append, length_singleton]
      have hlt := Nat.mod_lt data.length hsize
      have hone : 1 % size = 1 := Nat.mod_eq_of_lt (by omega)
      rw [Nat.add_mod_eq_ite, hone]
      split <;> omega
    · rename_i hzero
      exact not_not.mp hzero

/-! ## The whole content -/

def decode (baseAddress : BitVec 64) (bytes : List Byte) : Option (List (Byte × List (BitVec w))) :=
  (Lib.Uleb128.readTable bytes).map fun table =>
    table.map fun entry => (entry.1, accumulate w (baseAddress.setWidth w) entry.2)

def addressesOf (kind : Byte) (table : List (Byte × List (BitVec w))) : List (BitVec w) :=
  (table.filter fun entry => entry.1 == kind).flatMap fun entry => entry.2

theorem encode_ok (hw : w ≤ 64) {atom : SegmentSplitInfoContentAtom}
    (hcan : atom.fCantEncode = false) (h : encode w baseAddress atom = .ok bytes) :
    (∃ zeros, bytes = Lib.Uleb128.writeTable (present (kindDeltas w baseAddress) (kinds atom)) ++
      zeros) ∧
      ∀ entry ∈ kinds atom, ∀ n ∈ kindDeltas w baseAddress entry.2, n ≠ 0 := by
  unfold encode at h
  rw [hcan, if_neg Bool.false_ne_true] at h
  obtain ⟨kind1, h1, h⟩ := bind_eq_ok.mp h
  obtain ⟨kind2, h2, h⟩ := bind_eq_ok.mp h
  obtain ⟨kind3, h3, h⟩ := bind_eq_ok.mp h
  obtain ⟨kind4, h4, h⟩ := bind_eq_ok.mp h
  obtain ⟨hbytes1, hzero1⟩ := encodeKind_ok hw h1
  obtain ⟨hbytes2, hzero2⟩ := encodeKind_ok hw h2
  obtain ⟨hbytes3, hzero3⟩ := encodeKind_ok hw h3
  obtain ⟨hbytes4, hzero4⟩ := encodeKind_ok hw h4
  constructor
  · obtain ⟨zeros, hzeros⟩ := alignData_eq (w / 8) (w / 8) (kind1 ++ kind2 ++ kind3 ++ kind4 ++ [0])
    refine ⟨zeros, ?_⟩
    rw [← Except.ok.inj h, hzeros, hbytes1, hbytes2, hbytes3, hbytes4]
    unfold Lib.Uleb128.writeTable kinds
    rw [present_cons _ (1, _) [_, _, _], present_cons _ (2, _) [_, _], present_cons _ (3, _) [_],
      flatMap_append, flatMap_append, flatMap_append]
    simp only [List.append_assoc]
  · unfold kinds
    simp only [mem_cons, not_mem_nil, or_false]
    rintro entry (rfl | rfl | rfl | rfl)
    · exact hzero1
    · exact hzero2
    · exact hzero3
    · exact hzero4

theorem encode_aligned (hw : 0 < w / 8)
    {atom : SegmentSplitInfoContentAtom} (hcan : atom.fCantEncode = false)
    (h : encode w baseAddress atom = .ok bytes) : bytes.length % (w / 8) = 0 := by
  unfold encode at h
  rw [hcan, if_neg Bool.false_ne_true] at h
  obtain ⟨kind1, -, h⟩ := bind_eq_ok.mp h
  obtain ⟨kind2, -, h⟩ := bind_eq_ok.mp h
  obtain ⟨kind3, -, h⟩ := bind_eq_ok.mp h
  obtain ⟨kind4, -, h⟩ := bind_eq_ok.mp h
  rw [← Except.ok.inj h]
  exact alignData_length hw (Or.inl (Nat.le_add_right _ _))

theorem mem_present {f : List AtomAndOffset → List β}
    {table : List (Byte × List AtomAndOffset)} {entry : Byte × List β}
    (h : entry ∈ present f table) :
    ∃ locations, (entry.1, locations) ∈ table ∧ f locations = entry.2 := by
  obtain ⟨⟨kind, locations⟩, hmem, rfl⟩ := List.mem_map.mp h
  exact ⟨locations, (List.mem_filter.mp hmem).1, rfl⟩

theorem kinds_ne_zero (atom : SegmentSplitInfoContentAtom) : ∀ entry ∈ kinds atom, entry.1 ≠ 0 := by
  unfold kinds
  simp

theorem addressesOf_cons (kind : Byte) (entry : Byte × List AtomAndOffset)
    (table : List (Byte × List AtomAndOffset)) :
    addressesOf kind (present (addresses (w := w)) (entry :: table)) =
      (if entry.1 = kind then addresses entry.2 else []) ++
        addressesOf kind (present addresses table) := by
  rw [present_cons]
  unfold addressesOf
  obtain ⟨tag, locations⟩ := entry
  unfold present
  cases locations with
  | nil => simp [addresses]
  | cons location locations =>
    by_cases h : tag = kind <;> simp [h]

theorem addressesOf_present (atom : SegmentSplitInfoContentAtom) :
    [1, 2, 3, 4].map (fun kind : Byte => addressesOf kind (present addresses (kinds atom))) =
      [addresses (w := w) atom.fKind1Locations, addresses atom.fKind2Locations,
        addresses atom.fKind3Locations, addresses atom.fKind4Locations] := by
  unfold kinds
  simp only [map_cons, map_nil, addressesOf_cons]
  simp [addressesOf, present]

/-- Unless it cannot be encoded at all, the content is the four lists of addresses again, however
they are ordered, and its size is a multiple of that of a pointer. -/
theorem encode_decode (hw : w = 32 ∨ w = 64) (baseAddress : BitVec 64)
    (atom : SegmentSplitInfoContentAtom) (bytes : List Byte)
    (h : encode w baseAddress atom = .ok bytes) :
    (atom.fCantEncode = true → bytes = [] ∧ loadCommandSize atom = 0) ∧
      (atom.fCantEncode = false →
        bytes.length % (w / 8) = 0 ∧
        ∃ table : List (Byte × List (BitVec w)), decode baseAddress bytes = some table ∧
          table = present addresses (kinds atom) ∧
          [1, 2, 3, 4].map (fun kind : Byte => addressesOf kind table) =
            [addresses atom.fKind1Locations, addresses atom.fKind2Locations,
              addresses atom.fKind3Locations, addresses atom.fKind4Locations]) := by
  constructor
  · intro hcant
    unfold encode at h
    rw [hcant, if_pos rfl] at h
    exact ⟨(Except.ok.inj h).symm, if_pos hcant⟩
  · intro hcan
    have hle : w ≤ 64 := by omega
    obtain ⟨⟨zeros, hbytes⟩, hzero⟩ := encode_ok hle hcan h
    refine ⟨encode_aligned (by omega) hcan h, _, ?_, rfl, addressesOf_present atom⟩
    have htable : Lib.Uleb128.readTable bytes = some (present (kindDeltas w baseAddress)
        (kinds atom)) := by
      rw [hbytes]
      apply Lib.Uleb128.readTable_writeTable
      intro entry hentry
      obtain ⟨locations, hmem, hlocations⟩ := mem_present hentry
      rw [← hlocations]
      exact ⟨kinds_ne_zero atom _ hmem, hzero _ hmem⟩
    unfold decode
    rw [htable, Option.map_some]
    unfold present
    rw [map_map]
    congr 2
    funext entry
    exact congrArg (Prod.mk entry.1) (accumulate_deltas _ _)

def backwardAtom : SegmentSplitInfoContentAtom where
  fKind1Locations := [⟨0x1000, 0x10⟩, ⟨0x1000, 4⟩]

def backwardBytes : List Byte :=
  [1, 0x90, 0x20, 0xF4, 0xFF, 0xFF, 0xFF, 0x0F, 0, 0, 0, 0]

theorem encode_decode_backward : encode 32 0 backwardAtom = .ok backwardBytes ∧
      decode 0 backwardBytes = some [(1, [0x1010#32, 0x1004#32])] := by
  have hencode : encode 32 0 backwardAtom = .ok backwardBytes := by decide
  obtain ⟨-, table, hdecode, htable, -⟩ :=
    (encode_decode (Or.inl rfl) 0 backwardAtom backwardBytes hencode).2 rfl
  rw [htable] at hdecode
  exact ⟨hencode, hdecode⟩

/-- Of an atom that cannot be encoded nothing is left. -/
theorem encode_lost : encode 32 0 { backwardAtom with fCantEncode := true } = .ok [] ∧
      decode (w := 32) 0 [] = none :=
  ⟨rfl, rfl⟩

end Toolwhip.Ld64.SplitInfo
