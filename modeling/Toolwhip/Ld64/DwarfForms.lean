import Toolwhip.Lib.Runs
import Toolwhip.Lib.Uleb128

/-! # Reading and skipping DWARF values

The bytes are those of a section, and a cursor is a position in it; the events are the
bytes that are read. A run stops at the first byte that is not in the section. -/

namespace Toolwhip.Ld64.Dwarf
set_option autoImplicit false

open Lib.Uleb128 Lib.EventRun

inductive Region where
  | header | die | abbrevs
  deriving DecidableEq

inductive Event where
  | read (region : Region) (pos : Int)
  /-- `end` is passed to a reader -/
  | bound (stop : Int)
  deriving DecidableEq

inductive Stop where
  | outside (region : Region) (pos : Int)
  | returnFalse
  | outOfFuel
  deriving DecidableEq

abbrev Reading (α : Type) := Traced Event Stop α

inductive ByteOrder where
  | little | big
  deriving DecidableEq

def ByteOrder.number (E : ByteOrder) (bytes : List Byte) : Nat :=
  match E with
  | .little => bytes.foldr (fun b n => b.toNat + 256 * n) 0
  | .big => bytes.foldl (fun n b => 256 * n + b.toNat) 0

def bytesFrom (data : List Byte) (pos : Int) : List Byte :=
  if pos < 0 then [] else data.drop pos.toNat

def readByte (region : Region) (data : List Byte) (pos : Int) : Reading Byte :=
  match bytesFrom data pos with
  | [] => (Traced.stop (.outside region pos)).emit (.read region pos)
  | byte :: _ => (Traced.done byte).emit (.read region pos)

def readBytes (region : Region) (data : List Byte) : Int → Nat → Reading (List Byte)
  | _, 0 => pure []
  | pos, n + 1 => do
    let byte ← readByte region data pos
    let rest ← readBytes region data (pos + 1) n
    pure (byte :: rest)

/-- `A::P::E::get16`, `get32` and `get64` of what the cursor points to -/
def readWord (E : ByteOrder) (region : Region) (data : List Byte) (pos : Int) (n : Nat) :
    Reading Nat := do
  let bytes ← readBytes region data pos n
  pure (E.number bytes)

section Leb
variable (region : Region) (stop : Int)

/-- The loop of `skip_leb128` over the bytes that follow the cursor. -/
def skipLebLoop : List Byte → Int → Reading Int
  | [], pos =>
    if pos = stop then pure pos
    else (Traced.stop (.outside region pos)).emit (.read region pos)
  | byte :: rest, pos =>
    if pos = stop then pure pos
    else
      (if 128 ≤ byte.toNat then skipLebLoop rest (pos + 1) else pure (pos + 1)).emit
        (.read region pos)

/-- The loop of `read_uleb128`; the result may be `(uint64_t) -1`. -/
def readUlebLoop : List Byte → Int → BitVec 64 → Nat → Reading (BitVec 64 × Int)
  | [], pos, _, _ =>
    if pos = stop then pure (-1, pos)
    else (Traced.stop (.outside region pos)).emit (.read region pos)
  | byte :: rest, pos, result, bit =>
    if pos = stop then pure (-1, pos)
    else
      let b : BitVec 64 := (byte &&& 0x7f).setWidth 64
      let overflow := 64 ≤ bit ∨ (b <<< bit) >>> bit ≠ b
      let result' := if overflow then -1 else result ||| b <<< bit
      let bit' := if overflow then bit else bit + 7
      (if 128 ≤ byte.toNat then readUlebLoop rest (pos + 1) result' bit'
        else pure (result', pos + 1)).emit (.read region pos)

end Leb

def skip_leb128 (region : Region) (data : List Byte) (pos stop : Int) : Reading Int :=
  skipLebLoop region stop (bytesFrom data pos) pos

def read_uleb128 (region : Region) (data : List Byte) (pos stop : Int) :
    Reading (BitVec 64 × Int) :=
  readUlebLoop region stop (bytesFrom data pos) pos 0 0

def skipString (stop : Int) : List Byte → Int → Reading Int
  | [], pos =>
    if pos = stop then pure pos
    else (Traced.stop (.outside .die pos)).emit (.read .die pos)
  | byte :: rest, pos =>
    if pos = stop then pure pos
    else (if byte = 0 then pure pos else skipString stop rest (pos + 1)).emit (.read .die pos)

inductive Form where
  | DW_FORM_addr | DW_FORM_block2 | DW_FORM_block4 | DW_FORM_data2 | DW_FORM_data4
  | DW_FORM_data8 | DW_FORM_string | DW_FORM_block | DW_FORM_block1 | DW_FORM_data1
  | DW_FORM_flag | DW_FORM_sdata | DW_FORM_strp | DW_FORM_udata | DW_FORM_ref_addr
  | DW_FORM_ref1 | DW_FORM_ref2 | DW_FORM_ref4 | DW_FORM_ref8 | DW_FORM_ref_udata
  | DW_FORM_indirect
  deriving DecidableEq

def formOf (code : BitVec 64) : Option Form :=
  match code.toNat with
  | 1 => some .DW_FORM_addr
  | 3 => some .DW_FORM_block2
  | 4 => some .DW_FORM_block4
  | 5 => some .DW_FORM_data2
  | 6 => some .DW_FORM_data4
  | 7 => some .DW_FORM_data8
  | 8 => some .DW_FORM_string
  | 9 => some .DW_FORM_block
  | 10 => some .DW_FORM_block1
  | 11 => some .DW_FORM_data1
  | 12 => some .DW_FORM_flag
  | 13 => some .DW_FORM_sdata
  | 14 => some .DW_FORM_strp
  | 15 => some .DW_FORM_udata
  | 16 => some .DW_FORM_ref_addr
  | 17 => some .DW_FORM_ref1
  | 18 => some .DW_FORM_ref2
  | 19 => some .DW_FORM_ref4
  | 20 => some .DW_FORM_ref8
  | 21 => some .DW_FORM_ref_udata
  | 22 => some .DW_FORM_indirect
  | _ => none

/-- What a value is read with. `pointer` is the memory of the variable `*offset` while the
cursor stands at a position. -/
structure Encoding where
  E : ByteOrder
  addr_size : Byte
  dwarf64 : Bool
  pointer : Int → Nat → Byte

/-- The first bytes of the variable `*offset`. -/
def Encoding.pointerBytes (u : Encoding) (pos : Int) (n : Nat) : List Byte :=
  (List.range n).map (u.pointer pos)

/-- The end of `skip_form`: steps over `sz` bytes, where there are as many. -/
def advance (stop pos sz : Int) : Reading (Bool × Int) :=
  if stop - pos < sz then pure (false, pos) else pure (true, pos + sz)

def skip_form (u : Encoding) (data : List Byte) (pos stop : Int) (form : BitVec 64) :
    Reading (Bool × Int) :=
  match formOf form with
  | some .DW_FORM_addr => advance stop pos u.addr_size.toNat
  | some .DW_FORM_block2 =>
    if stop - pos < 2 then pure (false, pos)
    -- the cast is of `offset`, not of `*offset`
    else advance stop pos (2 + u.E.number (u.pointerBytes pos 2))
  | some .DW_FORM_block4 =>
    if stop - pos < 4 then pure (false, pos)
    else advance stop pos ((2 + u.E.number (u.pointerBytes pos 4)) % 2 ^ 32 : Nat)
  | some .DW_FORM_data2 => advance stop pos 2
  | some .DW_FORM_ref2 => advance stop pos 2
  | some .DW_FORM_data4 => advance stop pos 4
  | some .DW_FORM_ref4 => advance stop pos 4
  | some .DW_FORM_data8 => advance stop pos 8
  | some .DW_FORM_ref8 => advance stop pos 8
  | some .DW_FORM_string => do
    let nul ← skipString stop (bytesFrom data pos) pos
    advance stop nul 1
  | some .DW_FORM_data1 => advance stop pos 1
  | some .DW_FORM_flag => advance stop pos 1
  | some .DW_FORM_ref1 => advance stop pos 1
  | some .DW_FORM_block => do
    let r ← read_uleb128 .die data pos stop
    advance stop r.2 r.1.toInt
  | some .DW_FORM_block1 =>
    if pos = stop then pure (false, pos)
    else do
      let byte ← readByte .die data pos
      advance stop pos (1 + byte.toNat)
  | some .DW_FORM_sdata => do
    let next ← skip_leb128 .die data pos stop
    pure (true, next)
  | some .DW_FORM_udata => do
    let next ← skip_leb128 .die data pos stop
    pure (true, next)
  | some .DW_FORM_ref_udata => do
    let next ← skip_leb128 .die data pos stop
    pure (true, next)
  | some .DW_FORM_strp => advance stop pos (if u.dwarf64 then 8 else 4)
  | some .DW_FORM_ref_addr => advance stop pos (if u.dwarf64 then 8 else 4)
  | some .DW_FORM_indirect => pure (false, pos)
  | none => pure (false, pos)

/-! ## read_comp_unit

Positions count from the start of the section that is read, and `size()` of a section is
the number of its bytes. The loops get fuel. -/

structure DwarfSections where
  fDwarfDebugInfoSect : Option (List Byte)
  fDwarfDebugAbbrevSect : Option (List Byte)

/-- The names are positions in the section. -/
structure CompUnit where
  name : Option Int := none
  comp_dir : Option Int := none
  stmt_list : BitVec 64 := -1
  deriving DecidableEq

/-- What the length and the header of a unit say. -/
structure UnitHeader where
  dwarf64 : Bool
  sz : Nat
  abbrev_base : Nat
  address_size : Byte
  di : Nat
  deriving DecidableEq

def returnFalse {α : Type} : Reading α := Traced.stop .returnFalse

def pointerSum (a b : Nat) : Int := (BitVec.ofNat 64 (a + b)).toInt

section Unit
variable (E : ByteOrder) (pointer : Int → Nat → Byte) (debug_info debug_abbrev : List Byte)

def readUnitLength : Reading (Bool × Nat × Nat) := do
  let sz ← readWord E .header debug_info 0 4
  if sz = 0xffffffff then
    let sz ← readWord E .header debug_info 4 8
    pure (true, sz, 12)
  else if 0xffffff00 < sz then returnFalse
  else pure (false, sz, 4)

def offsetSize (dwarf64 : Bool) : Nat := if dwarf64 then 8 else 4

def readUnitFields (dwarf64 : Bool) (sz di : Nat) : Reading UnitHeader :=
  -- the sum is of 64 bits
  if debug_info.length < (sz + di) % 2 ^ 64 ∨ sz ≤ (if dwarf64 then 23 else 11) then returnFalse
  else do
    let vers ← readWord E .header debug_info di 2
    if vers < 2 ∨ 3 < vers then returnFalse
    else
      let abbrev_base ← readWord E .header debug_info (di + 2 : Nat) (offsetSize dwarf64)
      if debug_abbrev.length < abbrev_base then returnFalse
      else
        let address_size ← readByte .header debug_info (di + 2 + offsetSize dwarf64 : Nat)
        pure ⟨dwarf64, sz, abbrev_base, address_size, di + 2 + offsetSize dwarf64 + 1⟩

def readUnitHeader : Reading UnitHeader := do
  if debug_info.length < 12 then returnFalse
  else
    let (dwarf64, sz, di) ← readUnitLength E debug_info
    readUnitFields E debug_info debug_abbrev dwarf64 sz di

/-- The loop over the attributes of an abbreviation: the last attribute and the cursor. -/
def skipAttributes : Nat → Int → Reading (BitVec 64 × Int)
  | 0, _ => Traced.stop .outOfFuel
  | fuel + 1, da => do
    let (attr, da) ← read_uleb128 .abbrevs debug_abbrev da debug_abbrev.length
    let da ← skip_leb128 .abbrevs debug_abbrev da debug_abbrev.length
    if attr ≠ 0 ∧ attr ≠ -1 then skipAttributes fuel da else pure (attr, da)

/-- The loop through the abbreviations; the cursor is behind the number it looks for. -/
def findAbbrev (number : BitVec 64) : Nat → Int → Reading Int
  | 0, _ => Traced.stop .outOfFuel
  | fuel + 1, da => do
    let (this_abbrev, da) ← read_uleb128 .abbrevs debug_abbrev da debug_abbrev.length
    if this_abbrev = number then pure da
    else
      let da ← skip_leb128 .abbrevs debug_abbrev da debug_abbrev.length
      if da = debug_abbrev.length then returnFalse
      else
        let (attr, da) ← skipAttributes debug_abbrev fuel (da + 1)
        if attr ≠ 0 then returnFalse else findAbbrev number fuel da

def readAttribute (di : Int) (attr form : BitVec 64) (unit : CompUnit) : Reading CompUnit :=
  if attr = 3 ∧ form = 8 then pure { unit with name := some di }
  else if attr = 0x1b ∧ form = 8 then pure { unit with comp_dir := some di }
  else if attr = 0x10 ∧ form = 6 then do
    let value ← readWord E .die debug_info di 4
    pure { unit with stmt_list := BitVec.ofNat 64 value }
  else if attr = 0x10 ∧ form = 7 then do
    let value ← readWord E .die debug_info di 8
    pure { unit with stmt_list := BitVec.ofNat 64 value }
  else pure unit

/-- A reader of the DIE is given `end`. -/
def withBound {α : Type} (stop : Int) (r : Reading α) : Reading α := r.emit (.bound stop)

def readIndirect (stop di : Int) (form : BitVec 64) : Reading (BitVec 64 × Int) :=
  if form = 22 then withBound stop (read_uleb128 .die debug_info di stop) else pure (form, di)

def readDie (u : Encoding) (stop : Int) : Nat → Int → Int → CompUnit → Reading CompUnit
  | 0, _, _, _ => Traced.stop .outOfFuel
  | fuel + 1, da, di, unit => do
    let (attr, da) ← read_uleb128 .abbrevs debug_abbrev da debug_abbrev.length
    let (form, da) ← read_uleb128 .abbrevs debug_abbrev da debug_abbrev.length
    if attr = -1 then returnFalse
    else if attr = 0 then pure unit
    else
      let (form, di) ← readIndirect debug_info stop di form
      let unit ← readAttribute E debug_info di attr form unit
      let (skipped, di) ← withBound stop (skip_form u debug_info di stop form)
      if skipped then readDie u stop fuel da di unit else returnFalse

/-- From the abbreviation number on. -/
def readUnit (header : UnitHeader) : Reading CompUnit := do
  let stop := pointerSum header.di header.sz
  let (number, di) ← withBound stop (read_uleb128 .die debug_info header.di stop)
  if number = -1 then returnFalse
  else
    let fuel := debug_abbrev.length + 1
    let da ← findAbbrev debug_abbrev number fuel header.abbrev_base
    let (tag, da) ← read_uleb128 .abbrevs debug_abbrev da debug_abbrev.length
    -- DW_TAG_compile_unit
    if tag ≠ 17 then returnFalse
    else if da = debug_abbrev.length then returnFalse
    else
      readDie E debug_info debug_abbrev ⟨E, header.address_size, header.dwarf64, pointer⟩ stop fuel
        (da + 1) di {}

end Unit

/-- A value is a unit for which `true` is returned. -/
def read_comp_unit (E : ByteOrder) (pointer : Int → Nat → Byte) (sections : DwarfSections) :
    Reading CompUnit :=
  match sections.fDwarfDebugInfoSect, sections.fDwarfDebugAbbrevSect with
  | some debug_info, some debug_abbrev => do
    let header ← readUnitHeader E debug_info debug_abbrev
    readUnit E pointer debug_info debug_abbrev header
  | _, _ => returnFalse

end Toolwhip.Ld64.Dwarf
