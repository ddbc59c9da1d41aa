import Mathlib.Data.UInt
import Toolwhip.Lib.OpenAddressing

/-! # Header maps

`Headermap` of headermap.py flattens the hash table of a file into a dictionary, bucket by bucket. The
compiler looks a key up in the table by linear probing; its hash is a parameter. -/

namespace Toolwhip.Distcc.Headermap
open Lib.OpenAddressing
set_option autoImplicit false

abbrev Text := List UInt8

inductive Endian where
  | little
  | big
  deriving DecidableEq, Repr

def Endian.other : Endian → Endian
  | .little => .big
  | .big => .little

def Endian.number (E : Endian) (bytes : Text) : Nat :=
  match E with
  | .little => bytes.foldr (fun b n => b.toNat + 256 * n) 0
  | .big => bytes.foldl (fun n b => 256 * n + b.toNat) 0

/-- `hmap` -/
def magic : Text := [104, 109, 97, 112]

def StringAtOffset (strings : Text) (offset : Nat) : Text := (strings.drop offset).takeWhile (· ≠ 0)

def LowercaseASCII (s : Text) : Text := s.map fun b => if 65 ≤ b ∧ b ≤ 90 then b + 32 else b

section Read
variable (native : Endian) (hmap : Text)

/-- The number in the `n` bytes from `offset` on -/
def field (E : Endian) (offset n : Nat) : Nat := E.number ((hmap.drop offset).take n)

/-- `none` if it is no header map, or shorter than the magic -/
def file_endian : Option Endian :=
  if hmap.length < 4 then none
  else if field hmap native 0 4 = Endian.big.number magic then some native
  else if field hmap native 0 4 = Endian.little.number magic then some native.other
  else none

def header_size : Nat := 24
def bucket_size : Nat := 12

/-- The key in lower case and the value; nothing in a bucket without a key, which is HMAP_NOT_A_KEY -/
def bucket (E : Endian) (i : Nat) : Option (Text × Text) :=
  let bucket_offset := header_size + i * bucket_size
  let strings_offset := field hmap E 8 4
  let string n := StringAtOffset hmap (strings_offset + field hmap E (bucket_offset + n) 4)
  if field hmap E bucket_offset 4 = 0 then none
  else some (LowercaseASCII (string 0), string 4 ++ string 8)

abbrev Map := List (Text × Text)

def Map.get (key : Text) : Map → Option Text
  | [] => none
  | (k, value) :: more => if k = key then some value else Map.get key more

/-- `none` if `struct.unpack` does not get a whole bucket -/
def readBuckets (E : Endian) : List Nat → Map → Option Map
  | [], new_map => some new_map
  | i :: rest, new_map =>
    if hmap.length < header_size + i * bucket_size + bucket_size then none
    else
      match bucket hmap E i with
      | none => readBuckets E rest new_map
      | some (key, value) =>
        if (Map.get key new_map).isSome then readBuckets E rest new_map
        else readBuckets E rest (new_map ++ [(key, value)])

/-- `self.map`, which stays empty on any error -/
def Read : Map :=
  match file_endian native hmap with
  | none => []
  | some E =>
    if hmap.length < header_size ∨ field hmap E 4 2 ≠ 1 ∨ field hmap E 6 2 ≠ 0 then []
    else (readBuckets hmap E (List.range (field hmap E 16 4)) []).getD []

end Read

/-- The file is `none` if it cannot be read. -/
def Resolve (native : Endian) (file : Option Text) (key : Text) : Option Text :=
  Map.get (LowercaseASCII key) (file.elim [] (Read native))

/-- A header map with the byte order `E`; every key can be come to. -/
structure WellFormed (native E : Endian) (hash : Text → Nat) (hmap : Text) : Prop where
  endian : file_endian native hmap = some E
  version : field hmap E 4 2 = 1
  reserved : field hmap E 6 2 = 0
  capacity : ∃ k, field hmap E 16 4 = 2 ^ k
  inside : header_size + field hmap E 16 4 * bucket_size ≤ hmap.length
  strings : ∀ i, i < field hmap E 16 4 → ∀ n ∈ [0, 4, 8],
    field hmap E 8 4 + field hmap E (header_size + i * bucket_size + n) 4 < hmap.length
  reachable : Reachable (bucket hmap E) (field hmap E 16 4) fun key => hash key % field hmap E 16 4

def lookup (E : Endian) (hash : Text → Nat) (hmap : Text) (key : Text) : Option Text :=
  probe (bucket hmap E) (field hmap E 16 4) (hash (LowercaseASCII key) % field hmap E 16 4)
    (LowercaseASCII key)

variable {native E : Endian} {hash : Text → Nat} {hmap key : Text}

theorem get_append (new_map : Map) (k value : Text) : Map.get key (new_map ++ [(k, value)]) =
    (Map.get key new_map).or (if k = key then some value else none) := by
  induction new_map with
  | nil => rfl
  | cons e more ih =>
    rw [List.cons_append, Map.get, Map.get, ih]
    split <;> rfl

theorem get_readBuckets (E : Endian) (key : Text) {places : List Nat} (new_map : Map)
    (hplaces : ∀ i ∈ places, header_size + i * bucket_size + bucket_size ≤ hmap.length) :
    ∃ map, readBuckets hmap E places new_map = some map ∧
      Map.get key map = (Map.get key new_map).or (firstIn (bucket hmap E) key places) := by
  induction places generalizing new_map with
  | nil => exact ⟨new_map, rfl, by simp [firstIn]⟩
  | cons i rest ih =>
    obtain ⟨hfirst, hrest⟩ := List.forall_mem_cons.mp hplaces
    rw [readBuckets, if_neg (by omega), firstIn, List.findSome?_cons]
    cases hi : bucket hmap E i with
    | none =>
      simp only [valueAt, hi, Option.bind_none]
      exact ih new_map hrest
    | some e =>
      obtain ⟨k, value⟩ := e
      have hvalue : valueAt (bucket hmap E) key i = if k = key then some value else none := by
        simp [valueAt, hi]
      dsimp only
      split
      · rename_i hknown
        obtain ⟨map, hmap', hget⟩ := ih new_map hrest
        refine ⟨map, hmap', ?_⟩
        rw [hget, hvalue]
        by_cases hk : k = key
        · subst hk
          obtain ⟨known, hknown⟩ := Option.isSome_iff_exists.mp hknown
          simp [hknown]
        · simp [hk, firstIn]
      · obtain ⟨map, hmap', hget⟩ := ih (new_map ++ [(k, value)]) hrest
        refine ⟨map, hmap', ?_⟩
        rw [hget, get_append, hvalue, Option.or_assoc]
        by_cases hk : k = key <;> simp [hk, firstIn]

theorem resolve_eq (h : WellFormed native E hash hmap) : Resolve native (some hmap) key =
    firstIn (bucket hmap E) (LowercaseASCII key) (List.range (field hmap E 16 4)) := by
  have hinside := h.inside
  have hplaces : ∀ i ∈ List.range (field hmap E 16 4),
      header_size + i * bucket_size + bucket_size ≤ hmap.length := by
    intro i hi
    have := Nat.mul_le_mul_right bucket_size (Nat.succ_le_of_lt (List.mem_range.mp hi))
    rw [Nat.succ_mul] at this
    omega
  have hheader : ¬ (hmap.length < header_size ∨ field hmap E 4 2 ≠ 1 ∨ field hmap E 6 2 ≠ 0) := by
    rw [h.version, h.reserved]
    omega
  obtain ⟨map, hread, hget⟩ := get_readBuckets E (LowercaseASCII key) [] hplaces
  rw [Resolve, Option.elim_some, Read, h.endian]
  simp only [if_neg hheader, hread, Option.getD_some, hget]
  rfl

/-- The dictionary answers as the probe does unless the key stands both before the place of its hash and
from there on, with different paths first. -/
theorem Resolve_eq_lookup_iff (native E : Endian) (hash : Text → Nat) (hmap key : Text)
    (h : WellFormed native E hash hmap) : Resolve native (some hmap) key = lookup E hash hmap key ↔
      ∀ path path', firstIn (bucket hmap E) (LowercaseASCII key)
          (List.range (hash (LowercaseASCII key) % field hmap E 16 4)) = some path →
        firstIn (bucket hmap E) (LowercaseASCII key)
          (List.range' (hash (LowercaseASCII key) % field hmap E 16 4)
            (field hmap E 16 4 - hash (LowercaseASCII key) % field hmap E 16 4)) = some path' →
            path = path' := by
  obtain ⟨k, hk⟩ := h.capacity
  have hstart : hash (LowercaseASCII key) % field hmap E 16 4 < field hmap E 16 4 :=
    Nat.mod_lt _ (hk ▸ Nat.two_pow_pos k)
  rw [resolve_eq h, lookup]
  exact scan_eq_probe_iff h.reachable hstart

/-- The sum of thirteen times each character -/
def sumHash (key : Text) : Nat := (key.map fun b => b.toNat * 13).sum

/-- Four buckets, with the key `c` in the last one and `C` in the first -/
def wrapped : Text :=
  [112, 97, 109, 104, 1, 0, 0, 0, 72, 0, 0, 0, 2, 0, 0, 0, 4, 0, 0, 0, 1, 0, 0, 0] ++
  [3, 0, 0, 0, 3, 0, 0, 0, 0, 0, 0, 0] ++ List.replicate 24 0 ++ [1, 0, 0, 0, 1, 0, 0, 0, 0, 0, 0, 0] ++
  [0, 99, 0, 67, 0]

theorem wrapped_wellFormed : WellFormed .little .little sumHash wrapped where
  endian := by decide +kernel
  version := by decide +kernel
  reserved := by decide +kernel
  capacity := ⟨2, by decide +kernel⟩
  inside := by decide +kernel
  strings := by decide +kernel
  reachable := by decide +kernel

theorem Resolve_absent : Resolve .little (some wrapped) [100] = lookup .little sumHash wrapped [100] := by
  apply (Resolve_eq_lookup_iff .little .little sumHash wrapped [100] wrapped_wellFormed).mpr
  intro path path' hpath
  have hnone : firstIn (bucket wrapped .little) (LowercaseASCII [100])
      (List.range (sumHash (LowercaseASCII [100]) % field wrapped .little 16 4)) = none := by
    decide +kernel
  cases hpath

/-- The probe begins at the last bucket, the dictionary at the first. -/
theorem Resolve_wrapped : WellFormed .little .little sumHash wrapped ∧
    Resolve .little (some wrapped) [99] ≠ lookup .little sumHash wrapped [99] :=
  ⟨wrapped_wellFormed, by decide +kernel⟩

end Toolwhip.Distcc.Headermap
