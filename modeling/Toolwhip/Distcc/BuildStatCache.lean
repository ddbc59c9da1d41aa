import Toolwhip.Lib.CNumber
import Toolwhip.Lib.Numbering
import Toolwhip.Lib.Substring
import Toolwhip.Distcc.Headermap

/-! # The cache of the include server's path resolution

`BuildStatCache.Resolve` of cache_basics.py with the maps it indexes its strings by, run
with assertions on. The file system does not change: what `os.path.isfile`, the realpath
and the header maps answer are parameters. -/

namespace Toolwhip.Distcc.StatCache
open Lib.CNumber Lib.Interning
set_option autoImplicit false

abbrev Path := List UInt8

inductive Raised where
  | AssertionError | AttributeError | IndexError | TypeError | SystemExit
  deriving DecidableEq, Repr

def assert (condition : Bool) : Except Raised Unit :=
  if condition then .ok () else .error .AssertionError

def isabs (path : Path) : Bool := path.head? == some 47

def pathJoin (a b : Path) : Path :=
  if isabs b then b
  else if a = [] ∨ a.getLast? = some 47 then a ++ b
  else a ++ 47 :: b

def basename (p : Path) : Path := (p.reverse.takeWhile (· ≠ 47)).reverse

def rstripSlash (p : Path) : Path := (p.reverse.dropWhile (· = 47)).reverse

def dirname (p : Path) : Path :=
  let head := (p.reverse.dropWhile (· ≠ 47)).reverse
  if head.all (· = 47) then head else rstripSlash head

/-- `path[-length:]`, which is the whole of `path` for the length 0 -/
def lastBytes (path : Path) (length : Nat) : Path :=
  if length = 0 then path else path.drop (path.length - length)

/-- `none` where the leaf is invalid for a framework search -/
def PathFromDirMapEntryAndInclude (dirmap_entry leaf : Path) : Except Raised (Option Path) :=
  if dirmap_entry.head? ≠ some 42 then .ok (some (dirmap_entry ++ leaf))
  else if 47 ∉ leaf then .ok none
  else
    let i_fwk := leaf.takeWhile (· ≠ 47) ++ ascii ".framework/"
    let i_hdr := (leaf.dropWhile (· ≠ 47)).tail
    match (dirmap_entry[1]? : Option UInt8) with
    | none => .error .IndexError
    | some 72 => .ok (some (dirmap_entry.drop 2 ++ i_fwk ++ ascii "Headers/" ++ i_hdr))
    | some 80 => .ok (some (dirmap_entry.drop 2 ++ i_fwk ++ ascii "PrivateHeaders/" ++ i_hdr))
    | some _ => .error .AssertionError

abbrev MapToIndex := Table Path

/-- The use of `string[i]` as a string, where `string[0]` is `None`. -/
def stringOf (m : MapToIndex) (i : Nat) : Except Raised Path :=
  match m.get? i with
  | some path => .ok path
  | none => .error (if i = 0 then .AttributeError else .IndexError)

def directoryIndex (m : MapToIndex) (directory : Path) : Except Raised (MapToIndex × Nat) :=
  if directory = [] ∨ directory = [47] then .ok (m.intern directory)
  else if directory.getLast? = some 47 then .error .AssertionError
  else .ok (m.intern (directory ++ [47]))

def stripDotSlash : Path → Path
  | 46 :: 47 :: rest => stripDotSlash rest
  | relpath => relpath

def relpathIndex (m : MapToIndex) (relpath : Path) : MapToIndex × Nat :=
  m.intern (stripDotSlash relpath)

/-- What the file system answers, with the current directory as the first argument. -/
structure Files where
  isfile : Path → Path → Bool
  canonicalize : Path → Path
  headermapResolve : Path → Path → Path → Option Path
  observed : Path → Bool

def canonicalIndex (files : Files) (m : MapToIndex) (filepath : Path) : MapToIndex × Nat :=
  m.intern (files.canonicalize filepath)

/-! ## The cache -/

def DIR_ARRAY_SIZE : Nat := 500

structure BuildStatCache where
  build_stat : Nat → Nat → Option (List (Option Bool))
  real_stat : Nat → Nat → Option (List (Option Nat))
  includepath_map : MapToIndex
  directory_map : MapToIndex
  realpath_map : MapToIndex
  path_observations : List (Path × Path × Path)

def BuildStatCache.init : BuildStatCache where
  build_stat _ _ := none
  real_stat _ _ := none
  includepath_map := .empty
  directory_map := .empty
  realpath_map := .empty
  path_observations := []

/-- The arguments of a call, and the directory it is made in. -/
structure Query where
  includepath_idx : Nat
  currdir_idx : Nat
  searchdir_idx : Option Nat
  searchlist_idxs : List Nat
  includer_dir_idx : Nat
  getcwd : Path

/-- `none` for `(None, None)` -/
abbrev Answer := Option ((Nat × Nat) × Option Nat)

structure Search where
  searchdir_stats : List (Option Bool)
  searchdir_realpaths : List (Option Nat)
  directory_map : MapToIndex
  realpath_map : MapToIndex
  path_observations : List (Path × Path × Path)

def isFound (files : Files) (cwd : Path) (built_path : Option Path) : Bool :=
  built_path.any fun path => path ≠ [] && files.isfile cwd path

def headermapPath (files : Files) (cwd sl_str includepath : Path) : Option Path :=
  if (ascii ".hmap/").isSuffixOf sl_str then
    (files.headermapResolve cwd sl_str includepath).filter (· ≠ [])
  else none

/-- `headermap.global_collection` over the header maps that are on the disk. -/
def Files.withHeaderMaps (files : Files) (native : Headermap.Endian) (abspath : Path → Path → Path)
    (disk : Path → Option Headermap.Text) : Files :=
  { files with headermapResolve := fun cwd sl_str includepath =>
      Headermap.Resolve native (disk (abspath cwd sl_str)) includepath }

/-- A header map that is well formed gives what stands first under the include path in its buckets. -/
theorem headermapPath_buckets {files : Files} {native E : Headermap.Endian} {hash : Headermap.Text → Nat}
    {abspath : Path → Path → Path} {disk : Path → Option Headermap.Text} {cwd sl_str includepath : Path}
    {hmap : Headermap.Text} (hread : disk (abspath cwd sl_str) = some hmap)
    (h : Headermap.WellFormed native E hash hmap) (hname : (ascii ".hmap/").isSuffixOf sl_str = true) :
    headermapPath (files.withHeaderMaps native abspath disk) cwd sl_str includepath =
      (Lib.OpenAddressing.firstIn (Headermap.bucket hmap E) (Headermap.LowercaseASCII includepath)
        (List.range (Headermap.field hmap E 16 4))).filter (· ≠ []) := by
  rw [headermapPath, if_pos hname, Files.withHeaderMaps]
  dsimp only
  rw [hread, Headermap.resolve_eq h]

section Resolve
variable (files : Files) (includepath_map : MapToIndex) (q : Query)

def Verify (w : Search) (sl_idx : Nat) : Except Raised Unit := do
  assert (1 ≤ q.includepath_idx && q.includepath_idx < includepath_map.Length)
  assert (1 ≤ sl_idx && sl_idx < w.directory_map.Length)
  assert (w.directory_map.get? q.currdir_idx == some (q.getcwd ++ [47]))
  let sl_str ← stringOf w.directory_map sl_idx
  let includepath ← stringOf includepath_map q.includepath_idx
  let built_path ← PathFromDirMapEntryAndInclude sl_str includepath
  match w.searchdir_stats[sl_idx]? with
  | none => .error .IndexError
  | some none => .error .AssertionError
  | some (some cache_exists) =>
    if cache_exists = isFound files q.getcwd built_path then .ok () else .error .SystemExit

/-- The realpath of an answer, `none` for an entry that does not exist. -/
inductive Known where
  | absent
  | present (realpath_idx : Option Nat)
  | unknown

def cached (w : Search) (sl_idx : Nat) : Except Raised Known :=
  match w.searchdir_stats[sl_idx]? with
  | none => .error .IndexError
  | some (some false) => do
    Verify files includepath_map q w sl_idx
    .ok .absent
  | some (some true) => do
    Verify files includepath_map q w sl_idx
    match w.searchdir_realpaths[sl_idx]? with
    | none => .error .IndexError
    | some realpath_idx => .ok (.present realpath_idx)
  | some none => .ok .unknown

def Search.extend (w : Search) (sl_idx : Nat) : Search :=
  let searchdir_stats :=
    w.searchdir_stats ++ List.replicate (max sl_idx w.searchdir_stats.length) none
  let more := max sl_idx searchdir_stats.length
  { w with
    searchdir_stats := searchdir_stats
    searchdir_realpaths := w.searchdir_realpaths ++ List.replicate more none }

def answerWith (w : Search) (sl_idx : Nat) (includepath relpath : Path) :
    Except Raised (Search × Answer) := do
  let currdir ← stringOf w.directory_map q.currdir_idx
  let (realpath_map, realpath_idx) :=
    canonicalIndex files w.realpath_map (pathJoin currdir relpath)
  if sl_idx < w.searchdir_realpaths.length then
    let realpath ← stringOf realpath_map realpath_idx
    let noticed := if files.observed realpath then [(includepath, relpath, realpath)] else []
    .ok ({ w with
      realpath_map := realpath_map
      searchdir_realpaths := w.searchdir_realpaths.set sl_idx (some realpath_idx)
      path_observations := w.path_observations ++ noticed },
      some ((sl_idx, q.includepath_idx), some realpath_idx))
  else .error .IndexError

def splitRelpath (includepath relpath : Path) : Path × Path :=
  if lastBytes relpath includepath.length = includepath then
    (relpath.take (relpath.length - includepath.length), includepath)
  else (dirname relpath ++ [47], basename relpath)

def lookUp (includepath : Path) (w : Search) (sl_idx : Nat) : Except Raised (Search × Answer) := do
  let sl_str ← stringOf w.directory_map sl_idx
  match headermapPath files q.getcwd sl_str includepath with
  | some relpath => do
    let (sl_str, includepath) := splitRelpath includepath relpath
    let (directory_map, sl_idx) ← directoryIndex w.directory_map sl_str.dropLast
    answerWith files q { w with directory_map := directory_map } sl_idx includepath relpath
  | none => do
    let built_path ← PathFromDirMapEntryAndInclude sl_str includepath
    let found := isFound files q.getcwd built_path
    let w := { w with searchdir_stats := w.searchdir_stats.set sl_idx (some found) }
    match built_path, found with
    | some relpath, true => answerWith files q w sl_idx includepath relpath
    | _, _ => .ok (w, none)

/-- An IndexError of the `try` block makes the arrays longer. -/
def lookAt (includepath : Path) (w : Search) (sl_idx : Nat) : Except Raised (Search × Answer) :=
  match cached files includepath_map q w sl_idx with
  | .ok .absent => .ok (w, none)
  | .ok (.present realpath_idx) => .ok (w, some ((sl_idx, q.includepath_idx), realpath_idx))
  | .ok .unknown => lookUp files q includepath w sl_idx
  | .error .IndexError => lookUp files q includepath (w.extend sl_idx) sl_idx
  | .error e => .error e

def searchIn (includepath : Path) : List Nat → Search → Except Raised (Search × Answer)
  | [], w => .ok (w, none)
  | sl_idx :: searchlist, w => do
    let (w, answer) ← lookAt files includepath_map q includepath w sl_idx
    match answer with
    | some answer => .ok (w, some answer)
    | none => searchIn includepath searchlist w

def subframeworkDir (includepath includer_dir : Path) : Option Path :=
  if 47 ∈ includepath then
    (Lib.Substring.splitFirst (ascii ".framework/") includer_dir).map fun split =>
      split.1 ++ ascii ".framework/" ++ ascii "Frameworks"
  else none

def frameworkFallback (includepath : Path) (directory_map : MapToIndex) :
    Except Raised (MapToIndex × List Nat) := do
  if 47 ∉ includepath then return (directory_map, [])
  let includer_dir ← stringOf directory_map q.includer_dir_idx
  match subframeworkDir includepath includer_dir with
  | none => return (directory_map, [])
  | some subframework_dir =>
    let (directory_map, h) ← directoryIndex directory_map (ascii "*H" ++ subframework_dir)
    let (directory_map, p) ← directoryIndex directory_map (ascii "*P" ++ subframework_dir)
    return (directory_map, [h, p])

def searchAll (includepath : Path) (w : Search) : Except Raised (Search × Answer) := do
  let (w, answer) ← searchIn files includepath_map q includepath q.searchdir_idx.toList w
  if answer.isSome then return (w, answer)
  let (w, answer) ← searchIn files includepath_map q includepath q.searchlist_idxs w
  if answer.isSome then return (w, answer)
  let (directory_map, searchlist) ← frameworkFallback q includepath w.directory_map
  searchIn files includepath_map q includepath searchlist { w with directory_map := directory_map }

/-- The assertions, and the strings that are joined for the debugging text. -/
def checkArguments (directory_map : MapToIndex) : Except Raised Unit := do
  assert (0 < q.includepath_idx && q.includepath_idx < includepath_map.Length)
  assert (0 < q.currdir_idx && q.currdir_idx < directory_map.Length)
  assert (0 < q.includer_dir_idx && q.includer_dir_idx < directory_map.Length)
  assert (q.searchdir_idx.all fun sl_idx => 1 ≤ sl_idx && sl_idx < directory_map.Length)
  assert (q.searchlist_idxs.all fun sl_idx => sl_idx < directory_map.Length)
  assert (directory_map.get? q.currdir_idx == some (q.getcwd ++ [47]))
  if q.searchlist_idxs.all (0 < ·) then .ok () else .error .TypeError

end Resolve

/-- The arrays of a current directory and an include path, new ones where there are none. -/
def BuildStatCache.arrays (s : BuildStatCache) (q : Query) :
    List (Option Bool) × List (Option Nat) :=
  match s.build_stat q.currdir_idx q.includepath_idx,
    s.real_stat q.currdir_idx q.includepath_idx with
  | some searchdir_stats, some searchdir_realpaths => (searchdir_stats, searchdir_realpaths)
  | _, _ => (List.replicate DIR_ARRAY_SIZE none, List.replicate DIR_ARRAY_SIZE none)

def BuildStatCache.search (s : BuildStatCache) (q : Query) : Search where
  searchdir_stats := (s.arrays q).1
  searchdir_realpaths := (s.arrays q).2
  directory_map := s.directory_map
  realpath_map := s.realpath_map
  path_observations := s.path_observations

def putAt {α : Type} (f : Nat → Nat → Option α) (i j : Nat) (a : α) : Nat → Nat → Option α :=
  fun i' j' => if i' = i ∧ j' = j then some a else f i' j'

def BuildStatCache.keep (s : BuildStatCache) (q : Query) (w : Search) : BuildStatCache where
  build_stat := putAt s.build_stat q.currdir_idx q.includepath_idx w.searchdir_stats
  real_stat := putAt s.real_stat q.currdir_idx q.includepath_idx w.searchdir_realpaths
  includepath_map := s.includepath_map
  directory_map := w.directory_map
  realpath_map := w.realpath_map
  path_observations := w.path_observations

def Resolve (files : Files) (s : BuildStatCache) (q : Query) :
    Except Raised (BuildStatCache × Answer) := do
  let includepath ← stringOf s.includepath_map q.includepath_idx
  if isabs includepath then return (s, none)
  checkArguments s.includepath_map q s.directory_map
  let (w, answer) ← searchAll files s.includepath_map q includepath (s.search q)
  return (s.keep q w, answer)

end Toolwhip.Distcc.StatCache
