import Mathlib.Data.UInt

/-! # ULEB128 numbers, and lists and tables of them

A number is in groups of seven bits, the lowest first, each but the last with its high bit set. A
list of numbers that are not zero ends with a zero, and a table is made of such lists, each behind a
tag that is not zero, and ends with a zero. -/

namespace Toolwhip.Lib.Uleb128
open List
set_option autoImplicit false

abbrev Byte := BitVec 8

def write (n : Nat) : List Byte :=
  if n < 128 then [BitVec.ofNat 8 n] else BitVec.ofNat 8 (128 + n % 128) :: write (n / 128)

def read : List Byte → Option (Nat × List Byte)
  | [] => none
  | byte :: bytes =>
    if byte.toNat < 128 then some (byte.toNat, bytes)
    else (read bytes).map fun (high, rest) => (byte.toNat % 128 + 128 * high, rest)

theorem write_small {n : Nat} (h : n < 128) : write n = [BitVec.ofNat 8 n] := by
  rw [write, if_pos h]

theorem write_large {n : Nat} (h : ¬ n < 128) :
    write n = BitVec.ofNat 8 (128 + n % 128) :: write (n / 128) := by
  rw [write, if_neg h]

theorem toNat_ofNat {n : Nat} (h : n < 256) : (BitVec.ofNat 8 n).toNat = n := Nat.mod_eq_of_lt h

theorem read_write (n : Nat) (rest : List Byte) : read (write n ++ rest) = some (n, rest) := by
  induction n using Nat.strongRecOn with
  | ind n ih =>
    by_cases hsmall : n < 128
    · rw [write_small hsmall, singleton_append, read, toNat_ofNat (by omega), if_pos hsmall]
    have hgroups : (128 + n % 128) % 128 + 128 * (n / 128) = n := by omega
    rw [write_large hsmall, cons_append, read, toNat_ofNat (by omega), if_neg (by omega),
      ih (n / 128) (by omega), Option.map_some]
    dsimp only
    rw [hgroups]

theorem write_head {n : Nat} (h : n ≠ 0) : ∃ byte bytes, write n = byte :: bytes ∧ byte ≠ 0 := by
  have hbyte : ∀ k, k < 256 → k ≠ 0 → BitVec.ofNat 8 k ≠ 0 := by
    intro k hk hne hzero
    have htoNat := congrArg BitVec.toNat hzero
    rw [toNat_ofNat hk] at htoNat
    exact hne htoNat
  by_cases hsmall : n < 128
  · exact ⟨_, _, write_small hsmall, hbyte n (by omega) h⟩
  · exact ⟨_, _, write_large hsmall, hbyte _ (by omega) (by omega)⟩

def writeList (ns : List Nat) : List Byte := ns.flatMap write ++ [0]

def readList : Nat → List Byte → Option (List Nat × List Byte)
  | 0, _ => none
  | _ + 1, [] => none
  | fuel + 1, byte :: bytes =>
    if byte = 0 then some ([], bytes)
    else do
      let (n, rest) ← read (byte :: bytes)
      let (ns, rest) ← readList fuel rest
      return (n :: ns, rest)

theorem writeList_cons (n : Nat) (ns : List Nat) : writeList (n :: ns) = write n ++ writeList ns := by
  unfold writeList
  rw [flatMap_cons, append_assoc]

theorem readList_writeList {ns : List Nat} (h : ∀ n ∈ ns, n ≠ 0) (rest : List Byte) {fuel : Nat}
    (hfuel : ns.length < fuel) : readList fuel (writeList ns ++ rest) = some (ns, rest) := by
  induction ns generalizing fuel with
  | nil =>
    obtain ⟨fuel, rfl⟩ : ∃ k, fuel = k + 1 := ⟨fuel - 1, by simp at hfuel; omega⟩
    rfl
  | cons n ns ih =>
    obtain ⟨fuel, rfl⟩ : ∃ k, fuel = k + 1 := ⟨fuel - 1, by simp at hfuel; omega⟩
    obtain ⟨byte, bytes, hwrite, hbyte⟩ := write_head (h n mem_cons_self)
    have hread := read_write n (writeList ns ++ rest)
    have htail := @ih (fun m hm => h m (mem_cons_of_mem n hm)) fuel
      (by simp only [length_cons] at hfuel; omega)
    rw [writeList_cons, append_assoc]
    rw [hwrite, cons_append] at hread ⊢
    rw [readList, if_neg hbyte, hread]
    dsimp only [bind, Option.bind, pure]
    rw [htail]

def writeEntry (entry : Byte × List Nat) : List Byte := entry.1 :: writeList entry.2

def writeTable (table : List (Byte × List Nat)) : List Byte := table.flatMap writeEntry ++ [0]

def readEntries : Nat → List Byte → Option (List (Byte × List Nat))
  | 0, _ => none
  | _ + 1, [] => none
  | fuel + 1, tag :: bytes =>
    if tag = 0 then some []
    else do
      let (ns, rest) ← readList (fuel + 1) bytes
      let entries ← readEntries fuel rest
      return (tag, ns) :: entries

def readTable (bytes : List Byte) : Option (List (Byte × List Nat)) :=
  readEntries bytes.length bytes

theorem length_write_pos (n : Nat) : 0 < (write n).length := by
  by_cases h : n < 128
  · rw [write_small h]
    exact Nat.one_pos
  · rw [write_large h]
    exact Nat.succ_pos _

theorem length_writeList (ns : List Nat) : ns.length < (writeList ns).length := by
  induction ns with
  | nil => exact Nat.one_pos
  | cons n ns ih =>
    have hpos := length_write_pos n
    rw [writeList_cons, length_append, length_cons]
    omega

section
variable {table : List (Byte × List Nat)} (h : ∀ entry ∈ table, entry.1 ≠ 0 ∧ ∀ n ∈ entry.2, n ≠ 0)
    (rest : List Byte)
include h

theorem readEntries_writeTable {fuel : Nat} (hfuel : (writeTable table).length ≤ fuel) :
    readEntries fuel (writeTable table ++ rest) = some table := by
  induction table generalizing fuel with
  | nil =>
    obtain ⟨fuel, rfl⟩ : ∃ k, fuel = k + 1 := ⟨fuel - 1, by simp [writeTable] at hfuel; omega⟩
    rfl
  | cons entry table ih =>
    obtain ⟨tag, ns⟩ := entry
    have hsplit : writeTable ((tag, ns) :: table) = tag :: (writeList ns ++ writeTable table) := by
      unfold writeTable
      rw [flatMap_cons, append_assoc]
      rfl
    obtain ⟨htag, hns⟩ : tag ≠ 0 ∧ ∀ n ∈ ns, n ≠ 0 := h _ mem_cons_self
    have hlength := length_writeList ns
    rw [hsplit, length_cons, length_append] at hfuel
    obtain ⟨fuel, rfl⟩ : ∃ k, fuel = k + 1 := ⟨fuel - 1, by omega⟩
    have htail := @ih (fun other hother => h other (mem_cons_of_mem _ hother)) fuel (by omega)
    rw [hsplit, cons_append, append_assoc, readEntries, if_neg htag,
      readList_writeList hns _ (by omega)]
    dsimp only [bind, Option.bind, pure]
    rw [htail]

theorem readTable_writeTable : readTable (writeTable table ++ rest) = some table :=
  readEntries_writeTable h rest (by rw [length_append]; omega)

end

end Toolwhip.Lib.Uleb128
