import Toolwhip.Lib.MappedFile
import Toolwhip.Distcc.Rpc

/-! # Debug information in Mach-O files

The Mach-O part of fix_debug_info.c on a 64-bit host: where a section or the string table
is, and the replacement of a path in it. What may be read and written is a part of the
mapped file. -/

namespace Toolwhip.Distcc
open Lib.CNumber Lib.MappedFile
set_option autoImplicit false

def littleEndian : List UInt8 → Nat
  | [] => 0
  | b :: bytes => b.toNat + 256 * littleEndian bytes

def swap_32 (x : BitVec 32) : BitVec 32 :=
  x >>> 24 ||| (x >>> 8 &&& 0x0000ff00) ||| (x <<< 8 &&& 0x00ff0000) ||| x <<< 24

def swap_64 (x : BitVec 64) : BitVec 64 := swap_32 (x.setWidth 32) ++ swap_32 ((x >>> 32).setWidth 32)

def maybe_swap_32 (swap : Bool) (x : BitVec 32) : BitVec 32 := if swap then swap_32 x else x

def maybe_swap_64 (swap : Bool) (x : BitVec 64) : BitVec 64 := if swap then swap_64 x else x

abbrev BigEndian := Bool

def swap_big_to_cpu_32 (host : BigEndian) (x : BitVec 32) : BitVec 32 :=
  if host then x else swap_32 x

def number_32 (host : BigEndian) (bytes : List UInt8) : BitVec 32 :=
  BitVec.ofNat 32 (littleEndian (if host then bytes.reverse else bytes))

def number_64 (host : BigEndian) (bytes : List UInt8) : BitVec 64 :=
  BitVec.ofNat 64 (littleEndian (if host then bytes.reverse else bytes))

def MH_CIGAM : BitVec 32 := 0xcefaedfe
def MH_MAGIC_64 : BitVec 32 := 0xfeedfacf
def MH_CIGAM_64 : BitVec 32 := 0xcffaedfe
def LC_SEGMENT : BitVec 32 := 0x1
def LC_SYMTAB : BitVec 32 := 0x2
def LC_SEGMENT_64 : BitVec 32 := 0x19

inductive MachoBits where
  | bits32
  | bits64
  deriving DecidableEq, Repr

/-- `sizeof(struct mach_header)` -/
def MachoBits.headerSize : MachoBits → Nat
  | bits32 => 28
  | bits64 => 32

/-- `sizeof(struct segment_command)` -/
def MachoBits.segmentSize : MachoBits → Nat
  | bits32 => 56
  | bits64 => 72

def MachoBits.nsectsAt : MachoBits → Nat
  | bits32 => 48
  | bits64 => 64

def MachoBits.sectionSize : MachoBits → Nat
  | bits32 => 68
  | bits64 => 80

/-- Which region is looked for, and in what kind of file. -/
structure Wanted where
  want_symtab : Bool
  desired_segment_name : List UInt8
  desired_section_name : List UInt8
  swap : Bool
  macho_bits : MachoBits

/-- What a load command says about the region. -/
inductive Lookup where
  /-- it is in another one -/
  | goOn
  /-- 0 is returned -/
  | refused
  | found (sect_off sect_size : BitVec 32)
  deriving DecidableEq

/-- `!strncmp(field, desired, 16)`; the whole field is read. -/
def sameName (field desired : List UInt8) : Bool :=
  field.takeWhile (· ≠ 0) = desired.take 16

section Find
variable (host : BigEndian) (f : Mapped) (r : Region) (want : Wanted)

def load_32 (pos : Nat) : Except Violation (BitVec 32) :=
  (load f r pos 4).map fun bytes => maybe_swap_32 want.swap (number_32 host bytes)

def load_64 (pos : Nat) : Except Violation (BitVec 64) :=
  (load f r pos 8).map fun bytes => maybe_swap_64 want.swap (number_64 host bytes)

/-- The size and the offset of the section whose header is here. -/
def sectionRegion (sect : Nat) : Except Violation Lookup :=
  match want.macho_bits with
  | .bits32 => do
    let sect_size ← load_32 host f r want (sect + 36)
    let sect_off ← load_32 host f r want (sect + 40)
    .ok (.found sect_off sect_size)
  | .bits64 => do
    let sect_size_64 ← load_64 host f r want (sect + 40)
    if 0xffffffff < sect_size_64 then .ok .refused
    else (load_32 host f r want (sect + 48)).map fun sect_off =>
      .found sect_off (sect_size_64.setWidth 32)

def isDesired (sect : Nat) : Except Violation Bool := do
  let sectname ← load f r sect 16
  if sameName sectname want.desired_section_name then
    (load f r (sect + 16) 16).map fun segname => sameName segname want.desired_segment_name
  else .ok false

/-- `left` is how many headers have not been looked at. -/
def findSection (sect left : Nat) : Except Violation Lookup :=
  match left with
  | 0 => .ok .goOn
  | left + 1 => do
    let desired ← isDesired f r want sect
    if desired then sectionRegion host f r want sect
    else findSection (sect + want.macho_bits.sectionSize) left

def lookInSegment (command : Nat) (cmdsize : BitVec 32) : Except Violation Lookup := do
  let bits := want.macho_bits
  let nsects ← load_32 host f r want (command + bits.nsectsAt)
  if cmdsize.toNat < (bits.segmentSize + bits.sectionSize * nsects.toNat) % 2 ^ 64 then .ok .refused
  else findSection host f r want (command + bits.segmentSize) nsects.toNat

def lookIn (command : Nat) (cmd cmdsize : BitVec 32) : Except Violation Lookup :=
  if !want.want_symtab then
    if cmd = LC_SEGMENT then
      if want.macho_bits ≠ .bits32 then .ok .refused
      else lookInSegment host f r want command cmdsize
    else if cmd = LC_SEGMENT_64 then
      if want.macho_bits ≠ .bits64 then .ok .refused
      else lookInSegment host f r want command cmdsize
    else .ok .goOn
  else if cmd = LC_SYMTAB then do
    let sect_off ← load_32 host f r want (command + 16)
    let sect_size ← load_32 host f r want (command + 20)
    .ok (.found sect_off sect_size)
  else .ok .goOn

def returnSection (sect_off sect_size : BitVec 32) : Except Violation (Option Region) :=
  if rangeInside f r sect_off.toNat sect_size.toNat then
    if sect_size.toNat < 2 ^ 31 then .ok (some ⟨r.start + sect_off.toNat, sect_size.toNat⟩)
    else .error .size
  else .ok none

/-- The walk over the load commands; `left` is how many have not been looked at. -/
def walkCommands (sizeofcmds : BitVec 32) (command : Nat) (cumulative_cmdsizes : BitVec 32)
    (left : Nat) : Except Violation (Option Region) :=
  match left with
  | 0 => .ok none
  | left + 1 => do
    let cmd ← load_32 host f r want command
    let cmdsize ← load_32 host f r want (command + 4)
    let new_cumulative_cmdsizes := cumulative_cmdsizes + cmdsize
    if new_cumulative_cmdsizes > sizeofcmds ∨ new_cumulative_cmdsizes < cumulative_cmdsizes then
      .ok none
    else do
      let lookup ← lookIn host f r want command cmd cmdsize
      match lookup with
      | .refused => .ok none
      | .found sect_off sect_size => returnSection f r sect_off sect_size
      | .goOn => walkCommands sizeofcmds (command + cmdsize.toNat) new_cumulative_cmdsizes left

/-- The end of the load commands, one less in a 32-bit file, is compared with that of the
file and with their start. -/
def commandsInside (sizeofcmds : BitVec 32) : Bool :=
  let load_command_base := pointer f r want.macho_bits.headerSize
  let load_command_end := match want.macho_bits with
    | .bits32 => pointer f r (28 + sizeofcmds.toNat - 1)
    | .bits64 => pointer f r (32 + sizeofcmds.toNat)
  !(load_command_end > pointer f r r.size || load_command_end < load_command_base)

def FindMachOSection : Except Violation (Option Region) :=
  if pointer f r r.size < pointer f r 0 then .ok none
  else if r.size < want.macho_bits.headerSize then .ok none
  else do
    let ncmds ← load_32 host f r want 16
    let sizeofcmds ← load_32 host f r want 20
    if commandsInside f r want sizeofcmds then
      walkCommands host f r want sizeofcmds want.macho_bits.headerSize 0 ncmds.toNat
    else .ok none

end Find

/-- A path and what is put in its place, which `dcc_fix_debug_info` has made as long. -/
structure Replacement where
  search : List UInt8
  replace : List UInt8
  sameLength : replace.length = search.length

section Update
variable (host : BigEndian) (r : Region) (paths : Replacement)

/-- One position of `replace_string`; `sect` is what it is given. -/
def replaceAt (sect : Region) (f : Mapped) (p : Nat) : Except Violation Mapped := do
  let first ← load f sect p 1
  if first = [paths.search.headD 0] then do
    let here ← load f sect p paths.search.length
    if here = paths.search then store f r sect p paths.replace else .ok f
  else .ok f

def replaceFrom (sect : Region) (f : Mapped) (p left : Nat) : Except Violation Mapped :=
  match left with
  | 0 => .ok f
  | left + 1 => do
    let f ← replaceAt r paths sect f p
    replaceFrom sect f (p + 1) left

def replace_string (sect : Region) (f : Mapped) : Except Violation Mapped :=
  if sect.size < paths.search.length + 1 then .ok f
  else replaceFrom r paths sect f 0 (sect.size - paths.search.length - 1)

def update_macho_section (want : Wanted) (f : Mapped) : Except Violation Mapped := do
  let found ← FindMachOSection host f r want
  match found with
  | none => .ok f
  | some sect => replace_string r paths sect f

def debugInfo (swap : Bool) (macho_bits : MachoBits) : Wanted :=
  ⟨false, ascii "__DWARF", ascii "__debug_info", swap, macho_bits⟩

def debugStr (swap : Bool) (macho_bits : MachoBits) : Wanted :=
  ⟨false, ascii "__DWARF", ascii "__debug_str", swap, macho_bits⟩

def stringTable (swap : Bool) (macho_bits : MachoBits) : Wanted :=
  ⟨true, [], [], swap, macho_bits⟩

def swapOf (magic : BitVec 32) : Bool := magic = MH_CIGAM || magic = MH_CIGAM_64

def bitsOf (magic : BitVec 32) : MachoBits :=
  if magic = MH_MAGIC_64 ∨ magic = MH_CIGAM_64 then .bits64 else .bits32

def update_debug_info_macho_thin (f : Mapped) : Except Violation Mapped :=
  if r.size < 4 then .ok f
  else do
    let bytes ← load f r 0 4
    let magic := number_32 host bytes
    let f ← update_macho_section host r paths (debugInfo (swapOf magic) (bitsOf magic)) f
    let f ← update_macho_section host r paths (debugStr (swapOf magic) (bitsOf magic)) f
    update_macho_section host r paths (stringTable (swapOf magic) (bitsOf magic)) f

/-- From `fat_index` on. -/
def updateArchs (f : Mapped) (fat_index left : Nat) : Except Violation Mapped :=
  match left with
  | 0 => .ok f
  | left + 1 => do
    let off ← load f r (8 + 20 * fat_index + 8) 4
    let size ← load f r (8 + 20 * fat_index + 12) 4
    let arch_off := swap_big_to_cpu_32 host (number_32 host off)
    let arch_size := swap_big_to_cpu_32 host (number_32 host size)
    if arch_size = 0 then updateArchs f (fat_index + 1) left
    else if rangeInside f r arch_off.toNat arch_size.toNat then do
      let f ← update_debug_info_macho_thin host ⟨r.start + arch_off.toNat, arch_size.toNat⟩ paths f
      updateArchs f (fat_index + 1) left
    else .ok f

def update_debug_info_macho_fat (f : Mapped) : Except Violation Mapped :=
  if pointer f r r.size < pointer f r 0 then .ok f
  else if r.size < 8 then .ok f
  else do
    let bytes ← load f r 4 4
    let nfat_arch := swap_big_to_cpu_32 host (number_32 host bytes)
    if r.size < (8 + 20 * nfat_arch.toNat) % 2 ^ 64 then .ok f
    else updateArchs host r paths f 0 nfat_arch.toNat

end Update
end Toolwhip.Distcc
