import Toolwhip.Lib.Uleb128

/-! # collectStabs

A string is the bytes before its NUL, and `none` is a null pointer. An iterator is the
position of its stab. `sKnownBINCLs` gives the checksums that are known for a path.
Warnings are left out. -/

namespace Toolwhip.Ld64.Stabs
set_option autoImplicit false

open Lib.Uleb128

inductive StabType where
  | N_BINCL | N_EINCL | N_EXCL | N_FUN | N_BNSYM | N_ENSYM | N_LBRAC | N_RBRAC | N_SLINE
  | N_STSYM | N_LCSYM | N_SO | N_GSYM | N_OSO | N_OPT | N_SOL
  | other (n_type : Byte)
  deriving DecidableEq

structure Stab (Atom : Type) where
  atom : Option Atom
  type : StabType
  other : Byte
  desc : BitVec 16
  value : BitVec 32
  string : Option (List Byte)
  deriving DecidableEq

inductive Stop where
  | nullString
  /-- `soRanges[index]` is not there -/
  | soRanges (index : Nat)
  deriving DecidableEq

def findColon : Bool → Nat → List Byte → Option Nat
  | _, _, [] => none
  | true, pos, c :: rest => findColon (c ≠ 93) (pos + 1) rest
  | false, pos, [c] => if c = 58 then some pos else none
  | false, pos, c :: next :: rest =>
    if c = 91 then findColon true (pos + 1) (next :: rest)
    else if c = 58 then
      if next = 58 then findColon false (pos + 2) rest else some pos
    else findColon false (pos + 1) (next :: rest)

def truncateStabString (str : List Byte) : List Byte :=
  (findColon false 0 str).elim str fun colon => str.take (colon + 2)

def isdigit (c : Byte) : Bool := 48 ≤ c.toNat ∧ c.toNat ≤ 57

def sumString : Bool → List Byte → BitVec 32
  | _, [] => 0
  | skip, c :: rest =>
    if skip ∧ isdigit c then sumString true rest
    -- `char` is signed
    else c.signExtend 32 + sumString (c = 40) rest

section Stabs
variable {Atom : Type}

def minimizeStab (stab : Stab Atom) : Except Stop (Option (Stab Atom)) :=
  match stab.type with
  | .N_GSYM | .N_STSYM | .N_LCSYM | .N_FUN =>
    match stab.string with
    | none => .error .nullString
    | some s => .ok (some { stab with string := some (truncateStabString s) })
  | .N_SO | .N_OSO | .N_OPT | .N_SOL => .ok (some stab)
  | _ => .ok none

def Stab.startsSource (stab : Stab Atom) : Bool := stab.string.elim false fun s => s ≠ []

/-! ## The first pass -/

structure HeaderRange where
  begin : Nat
  path : Option (List Byte)
  parentRangeIndex : Option Nat
  sum : BitVec 32
  sumPrecomputed : Bool
  useEXCL : Bool
  cannotEXCL : Bool
  deriving DecidableEq

/-- `curRangeIndex` is `none` for -1. -/
structure RangeScan where
  ranges : List HeaderRange
  curRangeIndex : Option Nat

def openRange (pos : Nat) (it : Stab Atom) (parentRangeIndex : Option Nat) : HeaderRange where
  begin := pos
  path := it.string
  parentRangeIndex := parentRangeIndex
  sum := it.value
  sumPrecomputed := it.value ≠ 0
  useEXCL := false
  cannotEXCL := false

/-- The cases that fall through to `cannotEXCL`. -/
def StabType.cannotEXCL : StabType → Bool
  | .N_FUN | .N_BNSYM | .N_ENSYM | .N_LBRAC | .N_RBRAC | .N_SLINE | .N_STSYM | .N_LCSYM => true
  | _ => false

def HeaderRange.addStab (range : HeaderRange) (it : Stab Atom) : Except Stop HeaderRange :=
  if it.type.cannotEXCL then .ok { range with cannotEXCL := true }
  else if range.sumPrecomputed then .ok range
  else
    match it.string with
    | none => .error .nullString
    | some s => .ok { range with sum := range.sum + sumString false s }

def parentOf (ranges : List HeaderRange) (index : Nat) : Option Nat :=
  ranges[index]?.bind HeaderRange.parentRangeIndex

def scanRange (scan : RangeScan) (pos : Nat) (it : Stab Atom) : Except Stop RangeScan :=
  match it.type with
  | .N_BINCL =>
    .ok ⟨scan.ranges ++ [openRange pos it scan.curRangeIndex], some scan.ranges.length⟩
  | .N_EINCL => .ok { scan with curRangeIndex := scan.curRangeIndex.bind (parentOf scan.ranges) }
  | _ =>
    match scan.curRangeIndex with
    | none => .ok scan
    | some index =>
      match scan.ranges[index]? with
      | none => .ok scan
      | some range => do
        let range ← range.addStab it
        .ok { scan with ranges := scan.ranges.set index range }

/-- The atoms with the lowest and the highest ordinal since the last SO. -/
structure SoScan (Atom : Type) where
  atomWithLowestOrdinal : Option Atom := none
  atomWithHighestOrdinal : Option Atom := none
  highestOrdinal : Nat := 0
  lowestOrdinal : Nat := 2 ^ 32 - 1
  soRanges : List (Option Atom × Option Atom) := []

def scanSo (atomOrdinals : Option Atom → Option Nat) (scan : SoScan Atom) (it : Stab Atom) :
    SoScan Atom :=
  match it.type with
  | .N_FUN =>
    (atomOrdinals it.atom).elim scan fun ordinal =>
      let scan :=
        if scan.highestOrdinal < ordinal then
          { scan with highestOrdinal := ordinal, atomWithHighestOrdinal := it.atom }
        else scan
      if ordinal < scan.lowestOrdinal then
        { scan with lowestOrdinal := ordinal, atomWithLowestOrdinal := it.atom }
      else scan
  | .N_SO =>
    if it.startsSource then { soRanges := scan.soRanges }
    else
      { scan with
        soRanges := scan.soRanges ++ [(scan.atomWithLowestOrdinal, scan.atomWithHighestOrdinal)] }
  | _ => scan

def firstPass (atomOrdinals : Option Atom → Option Nat) :
    Nat → RangeScan → SoScan Atom → List (Stab Atom) →
      Except Stop (List HeaderRange × List (Option Atom × Option Atom))
  | _, scan, so, [] => .ok (scan.ranges, so.soRanges)
  | pos, scan, so, it :: rest => do
    let scan ← scanRange scan pos it
    firstPass atomOrdinals (pos + 1) scan (scanSo atomOrdinals so it) rest

/-! ## Known headers -/

abbrev PathToSums := List Byte → List (BitVec 32)

def markKnown : PathToSums → List HeaderRange → Except Stop (List HeaderRange × PathToSums)
  | sKnownBINCLs, [] => .ok ([], sKnownBINCLs)
  | sKnownBINCLs, range :: rest =>
    if range.cannotEXCL then do
      let r ← markKnown sKnownBINCLs rest
      .ok (range :: r.1, r.2)
    else
      match range.path with
      | none => .error .nullString
      | some header =>
        if range.sum ∈ sKnownBINCLs header then do
          let r ← markKnown sKnownBINCLs rest
          .ok ({ range with useEXCL := true } :: r.1, r.2)
        else do
          let sums := sKnownBINCLs header ++ [range.sum]
          let r ← markKnown (Function.update sKnownBINCLs header sums) rest
          .ok (range :: r.1, r.2)

section Emit
variable (minimal : Bool) (soRanges : List (Option Atom × Option Atom)) (ranges : List HeaderRange)

def copyStab (stab : Stab Atom) : Except Stop (Option (Stab Atom)) :=
  if minimal then minimizeStab stab else .ok (some stab)

def pairSo (guarded : Bool) (soIndex : Nat) (stab : Stab Atom) : Except Stop (Stab Atom × Nat) :=
  if stab.type = .N_SO then
    match soRanges[soIndex]? with
    | none => if guarded then .ok (stab, soIndex) else .error (.soRanges soIndex)
    | some range =>
      if stab.startsSource then .ok ({ stab with atom := range.1 }, soIndex)
      else .ok ({ stab with atom := range.2 }, soIndex + 1)
  else .ok (stab, soIndex)

def copyStabs : Nat → List (Stab Atom) → Except Stop (List (Stab Atom))
  | _, [] => .ok []
  | soIndex, it :: rest => do
    match ← copyStab minimal it with
    | none => copyStabs soIndex rest
    | some stab =>
      let r ← pairSo soRanges true soIndex stab
      let stabs ← copyStabs r.2 rest
      .ok (r.1 :: stabs)

def findRange (curRangeIndex : Option Nat) (pos : Nat) : Option Nat :=
  (List.range ranges.length).find? fun i =>
    (curRangeIndex.elim true fun cur => cur < i) ∧ (ranges[i]?.any fun range => range.begin = pos)

def useEXCL (curRangeIndex : Option Nat) : Bool :=
  (curRangeIndex.bind fun i => ranges[i]?).any HeaderRange.useEXCL

def headerStab (range : HeaderRange) (it : Stab Atom) : Stab Atom :=
  { it with value := range.sum, type := if range.useEXCL then .N_EXCL else it.type }

def secondPass : Nat → Option Nat → Nat → List (Stab Atom) → Except Stop (List (Stab Atom))
  | _, _, _, [] => .ok []
  | pos, curRangeIndex, soIndex, it :: rest =>
    match it.type with
    | .N_BINCL =>
      match findRange ranges curRangeIndex pos with
      | none => secondPass (pos + 1) curRangeIndex soIndex rest
      | some index => do
        let stabs ← secondPass (pos + 1) (some index) soIndex rest
        .ok (if minimal then stabs else (ranges[index]?.map fun r => headerStab r it).toList ++ stabs)
    | .N_EINCL =>
      match curRangeIndex with
      | none => secondPass (pos + 1) none soIndex rest
      | some index => do
        let stabs ← secondPass (pos + 1) (parentOf ranges index) soIndex rest
        .ok (if useEXCL ranges (some index) ∨ minimal then stabs else it :: stabs)
    | _ =>
      if useEXCL ranges curRangeIndex then secondPass (pos + 1) curRangeIndex soIndex rest
      else do
        match ← copyStab minimal it with
        | none => secondPass (pos + 1) curRangeIndex soIndex rest
        | some stab =>
          let r ← pairSo soRanges false soIndex stab
          let stabs ← secondPass (pos + 1) curRangeIndex r.2 rest
          .ok (r.1 :: stabs)

end Emit

def collectStabs (minimal : Bool) (atomOrdinals : Option Atom → Option Nat)
    (sKnownBINCLs : PathToSums) (readerStabs : List (Stab Atom)) :
    Except Stop (List (Stab Atom) × PathToSums) := do
  let (ranges, soRanges) ← firstPass atomOrdinals 0 ⟨[], none⟩ {} readerStabs
  if ranges = [] then
    let stabs ← copyStabs minimal soRanges 0 readerStabs
    .ok (stabs, sKnownBINCLs)
  else
    let (ranges, sKnownBINCLs) ← markKnown sKnownBINCLs ranges
    let stabs ← secondPass minimal soRanges ranges 0 none 0 readerStabs
    .ok (stabs, sKnownBINCLs)

end Stabs
end Toolwhip.Ld64.Stabs
