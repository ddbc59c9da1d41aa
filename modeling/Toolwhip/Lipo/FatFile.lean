import Toolwhip.Lib.ByteOrder
import Toolwhip.Lib.Layout
import Toolwhip.Lib.ByteBuffer
import Toolwhip.Lib.SortContract

/-! # Fat files

The header of a fat file is big-endian on every host. `process_input_file` maps a file and makes
a thin file of every slice of it, or one of the whole. -/

set_option autoImplicit false

namespace Toolwhip.Lipo
open Lib.BigEndian

def FAT_MAGIC : Nat := 0xcafebabe
def CPU_SUBTYPE_MASK : BitVec 32 := 0xff000000
def MAXSECTALIGN : Nat := 15

/-- The types of an `arch_flag`. -/
structure Arch where
  cputype : BitVec 32
  cpusubtype : BitVec 32
  deriving DecidableEq, Repr

def Arch.subtype (a : Arch) : BitVec 32 := a.cpusubtype &&& ~~~CPU_SUBTYPE_MASK

def sameArch (a b : Arch) : Bool := a.cputype = b.cputype ∧ a.subtype = b.subtype

structure FatArch where
  arch : Arch
  offset : Nat
  size : Nat
  align : Nat
  deriving DecidableEq, Repr

structure ThinFile where
  arch : Arch
  align : Nat
  bytes : List UInt8
  deriving DecidableEq, Repr

inductive LipoError where
  | archForFatFile
  | archStructsPastEnd
  | slicePastEnd (arch : Arch)
  | alignTooLarge (align : Nat) (arch : Arch)
  | notAligned (offset : Nat) (arch : Arch)
  | twoOfTheSame (arch : Arch)
  | doesNotMatch (arch : Arch)
  | archiveWithoutArch
  | unknownType
  | malformed
  | sameArchitectures (arch : Arch)
  | notFat
  | specifiedTwice (arch : Arch)
  | notContained (arch : Arch)
  | emptyFatFile
  | replacementIsFat
  | outOfBounds
  deriving DecidableEq, Repr

def firstSame : List Arch → Option (Arch × Arch)
  | [] => none
  | a :: rest =>
    match rest.find? (sameArch a) with
    | some b => some (a, b)
    | none => firstSame rest

namespace FatArch

def words (a : FatArch) : List Nat :=
  [a.arch.cputype.toNat, a.arch.cpusubtype.toNat, a.offset, a.size, a.align]

def read (bytes : List UInt8) : FatArch where
  arch :=
    { cputype := BitVec.ofNat 32 (word bytes 0)
      cpusubtype := BitVec.ofNat 32 (word bytes 1) }
  offset := word bytes 2
  size := word bytes 3
  align := word bytes 4

end FatArch

def sizeof_fat_header : Nat := 8
def sizeof_fat_arch : Nat := 20

def isFat (file : List UInt8) : Bool := sizeof_fat_header ≤ file.length ∧ word file 0 = FAT_MAGIC

def readArches : Nat → List UInt8 → List FatArch
  | 0, _ => []
  | n + 1, bytes => FatArch.read bytes :: readArches n (bytes.drop sizeof_fat_arch)

/-- The offset and the size are 32-bit words, and so is their sum. -/
def checkSlice (size : Nat) (a : FatArch) : Except LipoError Unit :=
  if size < (a.offset + a.size) % 2 ^ 32 then .error (.slicePastEnd a.arch)
  else if MAXSECTALIGN < a.align then .error (.alignTooLarge a.align a.arch)
  else if a.offset % 2 ^ a.align ≠ 0 then .error (.notAligned a.offset a.arch)
  else .ok ()

def slice (file : List UInt8) (a : FatArch) : Except LipoError ThinFile :=
  if file.length < a.offset + a.size then .error .outOfBounds
  else .ok { arch := a.arch, align := a.align, bytes := (file.drop a.offset).take a.size }

def fatSlices (file : List UInt8) : Except LipoError (List FatArch × List ThinFile) := do
  let nfat_arch := word file 1
  if file.length < nfat_arch * sizeof_fat_arch + sizeof_fat_header then .error .archStructsPastEnd
  let fat_arches := readArches nfat_arch (file.drop sizeof_fat_header)
  fat_arches.forM (checkSlice file.length)
  match firstSame (fat_arches.map FatArch.arch) with
  | some (a, _) => .error (.twoOfTheSame a)
  | none =>
    let thin_files ← fat_arches.mapM (slice file)
    return (fat_arches, thin_files)

/-- What a file that is not fat is recognized as. -/
inductive Kind where
  | object (arch : Arch) (align : Nat)
  | archive (arch : Arch)

/-- `recognize` stands for the look at a Mach-O file, with `get_align` and `get_align_64`, and at an
archive, with `check_archive`; of these only the bound on the alignment matters. A file of another
type is `none`. -/
structure Recognizer where
  recognize : List UInt8 → Except LipoError (Option Kind)
  align_le : ∀ file arch align, recognize file = .ok (some (.object arch align)) →
    align ≤ MAXSECTALIGN

structure InputFile where
  fat_arches : Option (List FatArch)
  thin_files : List ThinFile

def check_arch (arch_flag : Option Arch) (arch : Arch) : Except LipoError Unit :=
  match arch_flag with
  | none => .ok ()
  | some flag => if flag.cputype ≠ arch.cputype then .error (.doesNotMatch flag) else .ok ()

variable (r : Recognizer)

def thinInput (arch_flag : Option Arch) (file : List UInt8) : Except LipoError ThinFile := do
  match ← r.recognize file with
  | some (.object arch align) =>
    check_arch arch_flag arch
    return { arch := arch, align := align, bytes := file }
  | some (.archive arch) =>
    if arch.cputype = 0 then
      match arch_flag with
      | none => .error .archiveWithoutArch
      | some flag => return { arch := flag, align := 2, bytes := file }
    else
      check_arch arch_flag arch
      return { arch := arch, align := 2, bytes := file }
  | none =>
    match arch_flag with
    | none => .error .unknownType
    | some flag => return { arch := flag, align := 0, bytes := file }

def process_input_file (arch_flag : Option Arch) (file : List UInt8) :
    Except LipoError InputFile :=
  if isFat file then
    if arch_flag.isSome then .error .archForFatFile
    else do
      let (fat_arches, thin_files) ← fatSlices file
      return { fat_arches := some fat_arches, thin_files := thin_files }
  else do
    let thin ← thinInput r arch_flag file
    return { fat_arches := none, thin_files := [thin] }

/-! ## The operations of lipo

`create_fat` writes the thin files of an operation as a fat file. Before that `-extract`,
`-remove` and `-replace` edit the thin files that were made of a fat file. -/

open Lib.ByteBuffer

def lessAligned (a b : ThinFile) : Bool := a.align < b.align

inductive ByteOrder where
  | little
  | big
  deriving DecidableEq, Repr

/-- The host, the recognition of files and the library's `qsort`. -/
structure Tools extends Recognizer where
  host : ByteOrder
  qsort : List ThinFile → List ThinFile
  sorted : ∀ thins, Lib.SortContract.Sorted lessAligned thins (qsort thins)

def updateFirst {α : Type} (p : α → Bool) (f : α → α) : List α → Option (List α)
  | [] => none
  | a :: rest => if p a then some (f a :: rest) else (updateFirst p f rest).map (a :: ·)

/-- `unsigned long` has 32 bits. -/
def round (v r : Nat) : Nat := (v + (r - 1)) % 2 ^ 32 / r * r

def layout : Nat → List ThinFile → List FatArch
  | _, [] => []
  | offset, t :: rest =>
    let offset := round offset (2 ^ t.align)
    { arch := t.arch, offset := offset, size := t.bytes.length, align := t.align } ::
      layout ((offset + t.bytes.length) % 2 ^ 32) rest

def fatHeader (arches : List FatArch) : List UInt8 :=
  encodeWords [FAT_MAGIC, arches.length] ++ arches.flatMap fun a => encodeWords a.words

/-- `lseek` and `write` for every thin file. -/
def writeSlices (output : List UInt8) : List (FatArch × ThinFile) → List UInt8
  | [] => output
  | (a, t) :: rest => writeSlices (writeAt output a.offset t.bytes) rest

/-- A specified alignment goes to the first thin file of its architecture. -/
def foldSegaligns : List (Arch × Nat) → List ThinFile → Except LipoError (List ThinFile)
  | [], thins => .ok thins
  | (flag, align) :: rest, thins =>
    match updateFirst (fun t => sameArch flag t.arch) (fun t => { t with align := align }) thins with
    | none => .error (.notContained flag)
    | some thins => foldSegaligns rest thins

def arches_end (n : Nat) : Nat := sizeof_fat_header + n * sizeof_fat_arch

def writeFat (extract_family_flag : Bool) (thins : List ThinFile) : List UInt8 :=
  if extract_family_flag ∧ thins.length = 1 then thins.flatMap ThinFile.bytes
  else
    let arches := layout (arches_end thins.length) thins
    writeSlices (fatHeader arches) (arches.zip thins)

variable (tools : Tools)

def create_fat (segaligns : List (Arch × Nat)) (extract_family_flag : Bool)
    (thins : List ThinFile) : Except LipoError (List UInt8) :=
  match firstSame (segaligns.map Prod.fst) with
  | some (_, b) => .error (.specifiedTwice b)
  | none => do
    let thins ← foldSegaligns segaligns thins
    return writeFat extract_family_flag (tools.qsort thins)

def create (segaligns : List (Arch × Nat)) (thins : List ThinFile) :
    Except LipoError (List UInt8) :=
  match firstSame (thins.map ThinFile.arch) with
  | some (_, b) => .error (.sameArchitectures b)
  | none => create_fat tools segaligns false thins

def fatInput (file : List UInt8) : Except LipoError (List ThinFile) := do
  let input ← process_input_file tools.toRecognizer none file
  match input.fat_arches with
  | none => .error .notFat
  | some _ => return input.thin_files

def thin (thin_arch_flag : Arch) (file : List UInt8) : Except LipoError (List UInt8) := do
  let thins ← fatInput tools file
  match thins.find? fun t => sameArch thin_arch_flag t.arch with
  | some t => return t.bytes
  | none => .error (.notContained thin_arch_flag)

/-- The test for a flag that is specified again; it compares the subtype with the thin file of that
index, which need not be there. -/
def extractClashes (thins : List ThinFile) (flag : Arch) : Nat → List Arch → Except LipoError Bool
  | _, [] => .ok false
  | j, other :: rest =>
    if flag.cputype = other.cputype then
      match thins[j]? with
      | none => .error .outOfBounds
      | some t =>
        if flag.subtype = t.arch.subtype then .ok true else extractClashes thins flag (j + 1) rest
    else extractClashes thins flag (j + 1) rest

def checkExtracts (thins : List ThinFile) : Nat → List Arch → Except LipoError Unit
  | _, [] => .ok ()
  | i, flag :: rest => do
    if ← extractClashes thins flag (i + 1) rest then .error (.specifiedTwice flag)
    checkExtracts thins (i + 1) rest

def extracts (extract_family_flag : Bool) (flag arch : Arch) : Bool :=
  if extract_family_flag then flag.cputype = arch.cputype else sameArch flag arch

def markExtracts (extract_family_flag : Bool) :
    List Arch → List (ThinFile × Bool) → Except LipoError (List (ThinFile × Bool))
  | [], marked => .ok marked
  | flag :: rest, marked =>
    if marked.any fun p => extracts extract_family_flag flag p.1.arch then
      markExtracts extract_family_flag rest
        (marked.map fun p => (p.1, p.2 || extracts extract_family_flag flag p.1.arch))
    else .error (.notContained flag)

def unmarked (thins : List ThinFile) : List (ThinFile × Bool) := thins.map fun t => (t, false)

def extract (segaligns : List (Arch × Nat)) (extract_family_flag : Bool)
    (extract_arch_flags : List Arch) (file : List UInt8) : Except LipoError (List UInt8) := do
  let thins ← fatInput tools file
  checkExtracts thins 0 extract_arch_flags
  let marked ← markExtracts extract_family_flag extract_arch_flags (unmarked thins)
  create_fat tools segaligns extract_family_flag ((marked.filter Prod.snd).map Prod.fst)

def markRemoves : List Arch → List (ThinFile × Bool) → Except LipoError (List (ThinFile × Bool))
  | [], marked => .ok marked
  | flag :: rest, marked =>
    match updateFirst (fun p => sameArch flag p.1.arch) (fun p => (p.1, true)) marked with
    | none => .error (.notContained flag)
    | some marked => markRemoves rest marked

def remove (segaligns : List (Arch × Nat)) (remove_arch_flags : List Arch) (file : List UInt8) :
    Except LipoError (List UInt8) := do
  let thins ← fatInput tools file
  match firstSame remove_arch_flags with
  | some (a, _) => .error (.specifiedTwice a)
  | none =>
    let marked ← markRemoves remove_arch_flags (unmarked thins)
    let thins := (marked.filter fun p => !p.2).map Prod.fst
    if thins = [] then .error .emptyFatFile
    else create_fat tools segaligns false thins

structure Replace where
  arch_flag : Arch
  file : List UInt8

def hostWord (host : ByteOrder) (file : List UInt8) : Nat :=
  match host with
  | .big => word file 0
  | .little => decode (file.take 4).reverse

def replaceKind (arch_flag : Arch) (file : List UInt8) : Except LipoError ThinFile := do
  match ← tools.recognize file with
  | some (.object arch align) => return { arch := arch, align := align, bytes := file }
  | some (.archive arch) => return { arch := arch, align := 2, bytes := file }
  | none => return { arch := arch_flag, align := 0, bytes := file }

def process_replace_file (replace : Replace) : Except LipoError ThinFile := do
  if sizeof_fat_header ≤ replace.file.length ∧ hostWord tools.host replace.file = FAT_MAGIC then
    .error .replacementIsFat
  let thin ← replaceKind tools replace.arch_flag replace.file
  if sameArch thin.arch replace.arch_flag then return thin
  else .error (.doesNotMatch replace.arch_flag)

def replaceThins : List Replace → List ThinFile → Except LipoError (List ThinFile)
  | [], thins => .ok thins
  | replace :: rest, thins => do
    let thin ← process_replace_file tools replace
    match updateFirst (fun t => sameArch replace.arch_flag t.arch) (fun _ => thin) thins with
    | none => .error (.notContained replace.arch_flag)
    | some thins => replaceThins rest thins

def replace (segaligns : List (Arch × Nat)) (replaces : List Replace) (file : List UInt8) :
    Except LipoError (List UInt8) := do
  let thins ← fatInput tools file
  match firstSame (replaces.map Replace.arch_flag) with
  | some (_, b) => .error (.specifiedTwice b)
  | none =>
    let thins ← replaceThins tools replaces thins
    create_fat tools segaligns false thins

end Toolwhip.Lipo
