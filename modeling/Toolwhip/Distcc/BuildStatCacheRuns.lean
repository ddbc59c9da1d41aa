import Toolwhip.Distcc.BuildStatCache

/-! # What the cache of the path resolution answers

The answers of a run of calls beside those of a search that keeps nothing. A header map's
path splits into a directory and the include path in a call that is sound; the arrays, the
maps and the file system then agree after each call. -/

namespace Toolwhip.Distcc.StatCache
open Lib.CNumber Lib.Interning List
set_option autoImplicit false
variable {built : Option Path} {directory : Path} {dirs : List Path} {front : Path}

/-! ## The search that keeps nothing -/

def builtPath (dir includepath : Path) : Option Path :=
  match PathFromDirMapEntryAndInclude dir includepath with
  | .ok built => built
  | .error _ => none

def provided (files : Files) (cwd includepath dir : Path) : Option Path :=
  (headermapPath files cwd dir includepath).or
    ((builtPath dir includepath).filter fun path => isFound files cwd (some path))

def fallbackDirs (directory_map : MapToIndex) (q : Query) (includepath : Path) : List Path :=
  match (directory_map.get? q.includer_dir_idx).bind (subframeworkDir includepath) with
  | none => []
  | some dir => [ascii "*H" ++ dir ++ [47], ascii "*P" ++ dir ++ [47]]

def Query.searched (q : Query) : List Nat := q.searchdir_idx.toList ++ q.searchlist_idxs

def candidates (directory_map : MapToIndex) (q : Query) (includepath : Path) : List Path :=
  if isabs includepath then []
  else q.searched.filterMap directory_map.get? ++ fallbackDirs directory_map q includepath

def firstOf (files : Files) (cwd includepath : Path) (dirs : List Path) : Option (Path × Path) :=
  dirs.findSome? fun dir => (provided files cwd includepath dir).map fun path => (dir, path)

def uncached (files : Files) (directory_map : MapToIndex) (q : Query) (includepath : Path) :
    Option (Path × Path) :=
  firstOf files q.getcwd includepath (candidates directory_map q includepath)

structure Maps where
  includepath : MapToIndex
  directory : MapToIndex
  realpath : MapToIndex

def BuildStatCache.maps (s : BuildStatCache) : Maps :=
  ⟨s.includepath_map, s.directory_map, s.realpath_map⟩

def Search.maps (w : Search) (includepath_map : MapToIndex) : Maps :=
  ⟨includepath_map, w.directory_map, w.realpath_map⟩

/-- The pair and the realpath of the answer are those of the path. -/
def Names (files : Files) (maps : Maps) (cwd includepath path : Path) (sl_idx : Nat)
    (realpath_idx : Option Nat) : Prop :=
  ∃ entry r, maps.directory.get? sl_idx = some entry ∧
    PathFromDirMapEntryAndInclude entry includepath = .ok (some path) ∧
    realpath_idx = some r ∧
    maps.realpath.get? r = some (files.canonicalize (pathJoin (cwd ++ [47]) path))

def IsAnswer (files : Files) (maps : Maps) (q : Query) (includepath : Path) :
    Option (Path × Path) → Answer → Prop
  | none, answer => answer = none
  | some (dir, path), answer => ∃ sl_idx realpath_idx,
      answer = some ((sl_idx, q.includepath_idx), realpath_idx) ∧
      Names files maps q.getcwd includepath path sl_idx realpath_idx ∧
      (maps.directory.get? sl_idx = some dir ∨
        headermapPath files q.getcwd dir includepath = some path)

/-- The indices are indices of the maps. -/
structure WellMade (s : BuildStatCache) (q : Query) (includepath : Path) : Prop where
  included : s.includepath_map.get? q.includepath_idx = some includepath
  here : s.directory_map.get? q.currdir_idx = some (q.getcwd ++ [47])
  includer : ∃ dir, s.directory_map.get? q.includer_dir_idx = some dir
  searched : ∀ sl_idx ∈ q.searched, ∃ dir, s.directory_map.get? sl_idx = some dir

/-- A directory of the map that `Index` gives for the string without its last byte. -/
def IsEntry (dir : Path) : Prop :=
  dir = [] ∨ ∃ directory, dir = directory ++ [47] ∧ directory ≠ [] ∧ directory.getLast? ≠ some 47

def Splits (includepath relpath : Path) (directory_map : MapToIndex) (room : Nat) : Prop :=
  ∃ dir, relpath = dir ++ includepath ∧ IsEntry dir ∧ dir.head? ≠ some 42 ∧
    (directory_map.intern dir).2 < room

def MarkFine (includepath dir : Path) : Prop :=
  dir.head? = some 42 → 47 ∈ includepath → dir[1]? = some 72 ∨ dir[1]? = some 80

def grown (sl_idx : Nat) (lens : Nat × Nat) : Nat × Nat :=
  if sl_idx < lens.1 then lens
  else (lens.1 + max sl_idx lens.1, lens.2 + max sl_idx (lens.1 + max sl_idx lens.1))

/-- Each header map that is asked splits, and each mark is fine, up to the first directory that
provides the file. -/
def SearchFine (files : Files) (cwd includepath : Path) (directory_map : MapToIndex) :
    List Nat → Nat × Nat → Prop
  | [], _ => True
  | sl_idx :: searchlist, lens => ∀ dir, directory_map.get? sl_idx = some dir →
      (∀ relpath, headermapPath files cwd dir includepath = some relpath →
        Splits includepath relpath directory_map (grown sl_idx lens).2) ∧
      (headermapPath files cwd dir includepath = none → MarkFine includepath dir) ∧
      (provided files cwd includepath dir = none →
        SearchFine files cwd includepath directory_map searchlist (grown sl_idx lens))

def QueryFine (files : Files) (s : BuildStatCache) (q : Query) (includepath : Path) : Prop :=
  isabs includepath = false → SearchFine files q.getcwd includepath s.directory_map q.searched
    ((s.arrays q).1.length, (s.arrays q).2.length)

/-! ## What the arrays know -/

/-- The entry `b` of the array is the file system's. -/
def KnownRight (files : Files) (maps : Maps) (currdir_idx includepath_idx sl_idx : Nat)
    (realpaths : List (Option Nat)) (b : Bool) : Prop :=
  ∃ cwd includepath dir built, maps.directory.get? currdir_idx = some (cwd ++ [47]) ∧
    maps.includepath.get? includepath_idx = some includepath ∧
    maps.directory.get? sl_idx = some dir ∧
    headermapPath files cwd dir includepath = none ∧
    PathFromDirMapEntryAndInclude dir includepath = .ok built ∧
    isFound files cwd built = b ∧
    (b = true → ∃ path r, built = some path ∧ realpaths[sl_idx]? = some (some r) ∧
      maps.realpath.get? r = some (files.canonicalize (pathJoin (cwd ++ [47]) path)))

structure ArraysRight (files : Files) (maps : Maps) (currdir_idx includepath_idx : Nat)
    (stats : List (Option Bool)) (realpaths : List (Option Nat)) : Prop where
  pos : 0 < stats.length
  parallel : stats.length ≤ realpaths.length
  known : ∀ sl_idx b, stats[sl_idx]? = some (some b) →
    KnownRight files maps currdir_idx includepath_idx sl_idx realpaths b

structure Maps.Within (maps maps' : Maps) : Prop where
  includepath : Table.Within maps.includepath maps'.includepath
  directory : Table.Within maps.directory maps'.directory
  realpath : Table.Within maps.realpath maps'.realpath

variable {files : Files} {maps maps' : Maps} {includepath_map : MapToIndex} {q : Query}
  {includepath dir path cwd relpath : Path} {currdir_idx includepath_idx sl_idx sl r : Nat}
  {stats : List (Option Bool)} {realpaths : List (Option Nat)} {b : Bool} {w w' : Search}
  {s s' : BuildStatCache} {answer : Answer} {searchlist : List Nat}

theorem KnownRight.within (h : KnownRight files maps currdir_idx includepath_idx sl_idx realpaths b)
    (hmaps : Maps.Within maps maps') :
    KnownRight files maps' currdir_idx includepath_idx sl_idx realpaths b := by
  obtain ⟨cwd, includepath, dir, built, hcwd, hinc, hdir, hhit, hbuilt, hfound, hreal⟩ := h
  refine ⟨cwd, includepath, dir, built, hmaps.directory _ _ hcwd, hmaps.includepath _ _ hinc,
    hmaps.directory _ _ hdir, hhit, hbuilt, hfound, ?_⟩
  intro hb
  obtain ⟨path, r, hpath, hr, hget⟩ := hreal hb
  exact ⟨path, r, hpath, hr, hmaps.realpath _ _ hget⟩

theorem ArraysRight.within (h : ArraysRight files maps currdir_idx includepath_idx stats realpaths)
    (hmaps : Maps.Within maps maps') :
    ArraysRight files maps' currdir_idx includepath_idx stats realpaths :=
  ⟨h.pos, h.parallel, fun sl_idx b hb => (h.known sl_idx b hb).within hmaps⟩

variable {i : Nat}

theorem getElem?_replicate_none {α : Type} {n : Nat} {a : α} :
    (List.replicate n (none : Option α))[i]? ≠ some (some a) := by
  intro h
  rw [getElem?_replicate] at h
  split at h <;> cases h

theorem arraysRight_replicate {n : Nat} (hn : 0 < n) :
    ArraysRight files maps currdir_idx includepath_idx (List.replicate n none)
      (List.replicate n none) where
  pos := by simpa using hn
  parallel := by simp
  known _ _ h := absurd h getElem?_replicate_none

section
variable (h : ArraysRight files maps currdir_idx includepath_idx stats realpaths)
include h

theorem ArraysRight.extend {n n' : Nat} (hn : n ≤ n') :
    ArraysRight files maps currdir_idx includepath_idx (stats ++ List.replicate n none)
      (realpaths ++ List.replicate n' none) where
  pos := by
    rw [length_append]
    exact Nat.lt_of_lt_of_le h.pos (Nat.le_add_right _ _)
  parallel := by
    have hlen := h.parallel
    simp only [length_append, length_replicate]
    omega
  known sl_idx b hb := by
    rcases Nat.lt_or_ge sl_idx stats.length with hlt | hge
    · rw [getElem?_append_left hlt] at hb
      obtain ⟨cwd, includepath, dir, built, hcwd, hinc, hdir, hhit, hbuilt, hfound, hreal⟩ :=
        h.known sl_idx b hb
      refine ⟨cwd, includepath, dir, built, hcwd, hinc, hdir, hhit, hbuilt, hfound, ?_⟩
      intro htrue
      obtain ⟨path, r, hpath, hr, hget⟩ := hreal htrue
      refine ⟨path, r, hpath, ?_, hget⟩
      rw [getElem?_append_left (Nat.lt_of_lt_of_le hlt h.parallel)]
      exact hr
    · rw [getElem?_append_right hge] at hb
      exact absurd hb getElem?_replicate_none

theorem ArraysRight.setRealpath (hcwd : maps.directory.get? currdir_idx = some (cwd ++ [47]))
    (hinc : maps.includepath.get? includepath_idx = some includepath)
    (hdir : maps.directory.get? sl = some dir)
    (hbuilt : PathFromDirMapEntryAndInclude dir includepath = .ok (some path))
    (hr : maps.realpath.get? r = some (files.canonicalize (pathJoin (cwd ++ [47]) path))) :
    ArraysRight files maps currdir_idx includepath_idx stats (realpaths.set sl (some r)) where
  pos := h.pos
  parallel := by
    rw [length_set]
    exact h.parallel
  known sl_idx b hb := by
    obtain ⟨cwd', includepath', dir', built, hcwd', hinc', hdir', hhit, hbuilt', hfound, hreal⟩ :=
      h.known sl_idx b hb
    refine ⟨cwd', includepath', dir', built, hcwd', hinc', hdir', hhit, hbuilt', hfound, ?_⟩
    intro htrue
    obtain ⟨path', r', hpath', hr', hget'⟩ := hreal htrue
    by_cases hsl : sl_idx = sl
    · -- the same directory and include path build the same path
      subst hsl
      cases hdir.symm.trans hdir'
      cases hinc.symm.trans hinc'
      have hsame : built = some path := by
        rw [hbuilt] at hbuilt'
        exact (Except.ok.inj hbuilt').symm
      have hcwds : cwd' = cwd := by
        have hgets := hcwd'.symm.trans hcwd
        exact append_cancel_right (Option.some.inj hgets)
      refine ⟨path, r, hsame, ?_, ?_⟩
      · obtain ⟨hlt, _⟩ := List.getElem?_eq_some_iff.mp hr'
        rw [getElem?_set_self hlt]
      · rw [hcwds]
        exact hr
    · refine ⟨path', r', hpath', ?_, hget'⟩
      rw [getElem?_set_ne (Ne.symm hsl)]
      exact hr'

theorem ArraysRight.setStat
    (hb : KnownRight files maps currdir_idx includepath_idx sl realpaths b) :
    ArraysRight files maps currdir_idx includepath_idx (stats.set sl (some b)) realpaths where
  pos := by
    rw [length_set]
    exact h.pos
  parallel := by
    rw [length_set]
    exact h.parallel
  known sl_idx b' hb' := by
    by_cases hsl : sl = sl_idx
    · subst hsl
      rw [getElem?_set] at hb'
      simp only [if_true] at hb'
      split at hb'
      · cases hb'
        exact hb
      · cases hb'
    · rw [getElem?_set_ne hsl] at hb'
      exact h.known sl_idx b' hb'

end

/-! ## One entry of the search -/

/-- What the loop of a call keeps. -/
structure SearchRight (files : Files) (includepath_map : MapToIndex) (q : Query) (w : Search) :
    Prop where
  arrays : ArraysRight files (w.maps includepath_map) q.currdir_idx q.includepath_idx
    w.searchdir_stats w.searchdir_realpaths
  here : w.directory_map.get? q.currdir_idx = some (q.getcwd ++ [47])

def Search.lens (w : Search) : Nat × Nat := (w.searchdir_stats.length, w.searchdir_realpaths.length)

theorem provided_of_hit (hhit : headermapPath files cwd dir includepath = some relpath) :
    provided files cwd includepath dir = some relpath := by
  unfold provided
  rw [hhit]
  rfl

theorem provided_of_built (hhit : headermapPath files cwd dir includepath = none)
    (hbuilt : PathFromDirMapEntryAndInclude dir includepath = .ok built) :
    provided files cwd includepath dir = if isFound files cwd built then built else none := by
  have hpath : builtPath dir includepath = built := by
    unfold builtPath
    rw [hbuilt]
  unfold provided
  rw [hhit, hpath, Option.none_or]
  cases built with
  | none => rfl
  | some path => exact Option.filter_some

theorem stringOf_of_get? {m : MapToIndex} (h : m.get? i = some path) : stringOf m i = .ok path := by
  unfold stringOf
  rw [h]

theorem built_of_markFine (h : MarkFine includepath dir) :
    ∃ built, PathFromDirMapEntryAndInclude dir includepath = .ok built := by
  unfold PathFromDirMapEntryAndInclude
  by_cases hhead : dir.head? = some 42
  · rw [if_neg (not_not.mpr hhead)]
    by_cases hslash : 47 ∈ includepath
    · rw [if_neg (not_not.mpr hslash)]
      rcases h hhead hslash with hmark | hmark
      · rw [hmark]
        exact ⟨_, rfl⟩
      · rw [hmark]
        exact ⟨_, rfl⟩
    · rw [if_pos hslash]
      exact ⟨_, rfl⟩
  · rw [if_pos hhead]
    exact ⟨_, rfl⟩

theorem SearchRight.knows (h : SearchRight files includepath_map q w)
    (hinc : includepath_map.get? q.includepath_idx = some includepath)
    (hb : w.searchdir_stats[sl_idx]? = some (some b)) :
    ∃ dir built, w.directory_map.get? sl_idx = some dir ∧
      headermapPath files q.getcwd dir includepath = none ∧
      PathFromDirMapEntryAndInclude dir includepath = .ok built ∧
      isFound files q.getcwd built = b ∧
      (b = true → ∃ path r, built = some path ∧ w.searchdir_realpaths[sl_idx]? = some (some r) ∧
        w.realpath_map.get? r = some (files.canonicalize (pathJoin (q.getcwd ++ [47]) path))) := by
  obtain ⟨cwd, includepath', dir, built, hcwd, hinc', hdir, hhit, hbuilt, hfound, hreal⟩ :=
    h.arrays.known sl_idx b hb
  cases hinc.symm.trans hinc'
  have hcwds : cwd = q.getcwd :=
    append_cancel_right (Option.some.inj (hcwd.symm.trans h.here))
  subst hcwds
  exact ⟨dir, built, hdir, hhit, hbuilt, hfound, hreal⟩

theorem assert_true {condition : Bool} (h : condition = true) : assert condition = .ok () := by
  rw [h]
  rfl

theorem SearchRight.verified (h : SearchRight files includepath_map q w)
    (hinc : includepath_map.get? q.includepath_idx = some includepath)
    (hb : w.searchdir_stats[sl_idx]? = some (some b)) :
    Verify files includepath_map q w sl_idx = .ok () := by
  obtain ⟨dir, built, hdir, _, hbuilt, hfound, _⟩ := h.knows hinc hb
  have hipos := Table.pos_of_get? hinc
  have hilt := Table.lt_of_get? hinc
  have hdpos := Table.pos_of_get? hdir
  have hdlt := Table.lt_of_get? hdir
  unfold Verify
  rw [assert_true (by simp; omega), assert_true (by simp; omega),
    assert_true (by simpa using h.here), stringOf_of_get? hdir, stringOf_of_get? hinc]
  dsimp only [bind, Except.bind]
  rw [hbuilt]
  rw [hb]
  exact if_pos hfound.symm

theorem grown_of_lt {lens : Nat × Nat} (h : sl_idx < lens.1) : grown sl_idx lens = lens := if_pos h

theorem Search.lens_extend (h : w.searchdir_stats.length ≤ sl_idx) :
    (w.extend sl_idx).lens = grown sl_idx w.lens := by
  have hnot : ¬ sl_idx < w.lens.1 := Nat.not_lt.mpr h
  unfold grown
  rw [if_neg hnot]
  simp only [Search.lens, Search.extend, length_append, length_replicate]

theorem SearchRight.extend (h : SearchRight files includepath_map q w) :
    SearchRight files includepath_map q (w.extend sl_idx) where
  arrays := by
    apply h.arrays.extend
    simp only [length_append, length_replicate]
    omega
  here := h.here

theorem lt_lens_extend (hpos : 0 < w.searchdir_stats.length)
    (h : w.searchdir_stats.length ≤ sl_idx) : sl_idx < (w.extend sl_idx).searchdir_stats.length := by
  simp only [Search.extend, length_append, length_replicate]
  omega

/-- What is true of the end of a call that found the path. -/
structure Found (files : Files) (includepath_map : MapToIndex) (q : Query) (includepath path : Path)
    (w w' : Search) (answer : (Nat × Nat) × Option Nat) : Prop where
  right : SearchRight files includepath_map q w'
  within : Maps.Within (w.maps includepath_map) (w'.maps includepath_map)
  asked : answer.1.2 = q.includepath_idx
  names : Names files (w'.maps includepath_map) q.getcwd includepath path answer.1.1 answer.2

theorem get?_canonicalIndex (files : Files) (m : MapToIndex) (filepath : Path) :
    (canonicalIndex files m filepath).1.get? (canonicalIndex files m filepath).2 =
      some (files.canonicalize filepath) := Table.get?_intern m _

theorem answerWith_right (h : SearchRight files includepath_map q w)
    (hinc : includepath_map.get? q.includepath_idx = some includepath)
    (hdir : w.directory_map.get? sl_idx = some dir)
    (hbuilt : PathFromDirMapEntryAndInclude dir includepath = .ok (some path))
    (hroom : sl_idx < w.searchdir_realpaths.length) (leaf : Path) :
    ∃ w' answer, answerWith files q w sl_idx leaf path = .ok (w', some answer) ∧
      Found files includepath_map q includepath path w w' answer ∧ answer.1.1 = sl_idx ∧
      w'.searchdir_stats = w.searchdir_stats ∧
      w'.searchdir_realpaths[sl_idx]? = some answer.2 := by
  have hget := get?_canonicalIndex files w.realpath_map (pathJoin (q.getcwd ++ [47]) path)
  have hreals : Table.Within w.realpath_map (canonicalIndex files w.realpath_map
      (pathJoin (q.getcwd ++ [47]) path)).1 := Table.intern_within _ _
  have hmaps : Maps.Within (w.maps includepath_map) ⟨includepath_map, w.directory_map,
      (canonicalIndex files w.realpath_map (pathJoin (q.getcwd ++ [47]) path)).1⟩ :=
    ⟨Table.Within.refl, Table.Within.refl, hreals⟩
  unfold answerWith
  rw [stringOf_of_get? h.here]
  dsimp only [bind, Except.bind]
  rw [if_pos hroom, stringOf_of_get? hget]
  refine ⟨_, _, rfl, ?_, rfl, rfl, getElem?_set_self hroom⟩
  constructor
  · constructor
    · exact (h.arrays.within hmaps).setRealpath h.here hinc hdir hbuilt hget
    · exact h.here
  · exact hmaps
  · rfl
  · exact ⟨dir, _, hdir, hbuilt, rfl, hget⟩

theorem dropLast_isEntry (h : IsEntry dir) (m : MapToIndex) :
    directoryIndex m dir.dropLast = .ok (m.intern dir) := by
  rcases h with hnil | ⟨directory, hdir, hne, hlast⟩
  · subst hnil
    exact if_pos (Or.inl rfl)
  have hdrop : dir.dropLast = directory := by
    rw [hdir]
    exact dropLast_concat
  have hroot : directory ≠ [47] := by
    intro hroot
    rw [hroot] at hlast
    exact hlast rfl
  unfold directoryIndex
  rw [hdrop, if_neg (not_or.mpr ⟨hne, hroot⟩), if_neg hlast, hdir]

theorem basename_concat_slash (directory : Path) : basename (directory ++ [47]) = [] := by
  unfold basename
  rw [reverse_append]
  rfl

theorem rstripSlash_concat_slash (hlast : directory.getLast? ≠ some 47) :
    rstripSlash (directory ++ [47]) = directory := by
  unfold rstripSlash
  rw [reverse_append]
  change (directory.reverse.dropWhile _).reverse = directory
  rw [← head?_reverse] at hlast
  cases hrev : directory.reverse with
  | nil => rw [List.reverse_eq_nil_iff.mp hrev]; rfl
  | cons b rest =>
    have hb : b ≠ 47 := by
      intro hb
      rw [hrev, hb] at hlast
      exact hlast rfl
    rw [dropWhile_cons_of_neg (by simpa using hb), ← hrev, reverse_reverse]

theorem dirname_concat_slash (hne : directory ≠ [])
    (hlast : directory.getLast? ≠ some 47) : dirname (directory ++ [47]) = directory := by
  have hhead : ((directory ++ [47]).reverse.dropWhile (· ≠ 47)).reverse = directory ++ [47] := by
    rw [reverse_append]
    simp
  have hnotall : ¬ (directory ++ [47]).all (· = 47) = true := by
    intro hall
    have hmem := List.all_eq_true.mp hall (directory.getLast hne)
      (mem_append_left _ (getLast_mem hne))
    apply hlast
    rw [getLast?_eq_some_getLast hne, of_decide_eq_true hmem]
  unfold dirname
  simp only [hhead]
  rw [if_neg hnotall, rstripSlash_concat_slash hlast]

theorem splitRelpath_append (hdir : IsEntry dir) (hrel : dir ++ includepath ≠ []) :
    splitRelpath includepath (dir ++ includepath) = (dir, includepath) := by
  by_cases hnil : includepath = []
  · subst hnil
    rw [append_nil] at hrel ⊢
    rcases hdir with hempty | ⟨directory, heq, hne, hlast⟩
    · exact absurd hempty hrel
    have hslice : ¬ lastBytes dir ([] : Path).length = [] := hrel
    unfold splitRelpath
    rw [if_neg hslice, heq, basename_concat_slash, dirname_concat_slash hne hlast]
  · have hpos : includepath.length ≠ 0 := fun h => hnil (List.length_eq_zero_iff.mp h)
    have hsub : (dir ++ includepath).length - includepath.length = dir.length := by
      rw [length_append, Nat.add_sub_cancel]
    have hlast : lastBytes (dir ++ includepath) includepath.length = includepath := by
      unfold lastBytes
      rw [if_neg hpos, hsub, drop_left]
    unfold splitRelpath
    rw [if_pos hlast, hsub, take_left]

theorem headermapPath_ne_nil (h : headermapPath files cwd dir includepath = some relpath) :
    relpath ≠ [] := by
  unfold headermapPath at h
  split at h
  · obtain ⟨_, hne⟩ := Option.filter_eq_some_iff.mp h
    simpa using hne
  · cases h

theorem built_of_unmarked (h : dir.head? ≠ some 42) :
    PathFromDirMapEntryAndInclude dir includepath = .ok (some (dir ++ includepath)) := if_pos h

theorem lookUp_hit (h : SearchRight files includepath_map q w)
    (hinc : includepath_map.get? q.includepath_idx = some includepath)
    (hdir : w.directory_map.get? sl_idx = some dir)
    (hhit : headermapPath files q.getcwd dir includepath = some relpath)
    (hsplits : Splits includepath relpath w.directory_map w.searchdir_realpaths.length) :
    ∃ w' answer, lookUp files q includepath w sl_idx = .ok (w', some answer) ∧
      Found files includepath_map q includepath relpath w w' answer := by
  obtain ⟨entry, hrel, hentry, hmark, hroom⟩ := hsplits
  subst hrel
  have hdirs := Table.intern_within w.directory_map entry
  have hmaps : Maps.Within (w.maps includepath_map)
      ⟨includepath_map, (w.directory_map.intern entry).1, w.realpath_map⟩ :=
    ⟨Table.Within.refl, hdirs, Table.Within.refl⟩
  have hright : SearchRight files includepath_map q
      { w with directory_map := (w.directory_map.intern entry).1 } :=
    ⟨h.arrays.within hmaps, hdirs _ _ h.here⟩
  obtain ⟨w', answer, hanswer, hfound, _⟩ := answerWith_right hright hinc
    (Table.get?_intern w.directory_map entry) (built_of_unmarked hmark) hroom includepath
  refine ⟨w', answer, ?_, hfound.right, ?_, hfound.asked, hfound.names⟩
  · unfold lookUp
    rw [stringOf_of_get? hdir]
    dsimp only [bind, Except.bind]
    rw [hhit]
    dsimp only
    rw [splitRelpath_append hentry (headermapPath_ne_nil hhit)]
    rw [dropLast_isEntry hentry]
    exact hanswer
  · exact ⟨hmaps.includepath.trans hfound.within.includepath,
      hmaps.directory.trans hfound.within.directory, hmaps.realpath.trans hfound.within.realpath⟩

structure Missed (files : Files) (includepath_map : MapToIndex) (q : Query) (sl_idx : Nat)
    (w w' : Search) : Prop where
  right : SearchRight files includepath_map q w'
  directory_map : w'.directory_map = w.directory_map
  realpath_map : w'.realpath_map = w.realpath_map
  lens : w'.lens = grown sl_idx w.lens

theorem answerWith_stats (st : List (Option Bool)) (leaf path : Path) :
    answerWith files q { w with searchdir_stats := st } sl_idx leaf path =
      (answerWith files q w sl_idx leaf path).map
        fun result => ({ result.1 with searchdir_stats := st }, result.2) := by
  unfold answerWith
  cases stringOf w.directory_map q.currdir_idx with
  | error e => rfl
  | ok currdir =>
    dsimp only [bind, Except.bind]
    split
    · cases stringOf (canonicalIndex files w.realpath_map (pathJoin currdir path)).1 _ with
      | error e => rfl
      | ok realpath => rfl
    · rfl

theorem lookUp_absent (h : SearchRight files includepath_map q w)
    (hinc : includepath_map.get? q.includepath_idx = some includepath)
    (hdir : w.directory_map.get? sl_idx = some dir)
    (hhit : headermapPath files q.getcwd dir includepath = none)
    (hbuilt : PathFromDirMapEntryAndInclude dir includepath = .ok built)
    (hlt : sl_idx < w.searchdir_stats.length) (habsent : isFound files q.getcwd built = false) :
    ∃ w', lookUp files q includepath w sl_idx = .ok (w', none) ∧
      Missed files includepath_map q sl_idx w w' := by
  refine ⟨{ w with searchdir_stats := w.searchdir_stats.set sl_idx (some false) }, ?_, ?_⟩
  · unfold lookUp
    rw [stringOf_of_get? hdir]
    dsimp only [bind, Except.bind]
    rw [hhit]
    rw [hbuilt]
    dsimp only
    rw [habsent]
    cases built <;> rfl
  · refine ⟨⟨?_, h.here⟩, rfl, rfl, ?_⟩
    · apply h.arrays.setStat
      exact ⟨q.getcwd, includepath, dir, built, h.here, hinc, hdir, hhit, hbuilt, habsent,
        fun htrue => absurd htrue Bool.false_ne_true⟩
    · rw [grown_of_lt hlt]
      unfold Search.lens
      rw [length_set]

theorem lookUp_present (h : SearchRight files includepath_map q w)
    (hinc : includepath_map.get? q.includepath_idx = some includepath)
    (hdir : w.directory_map.get? sl_idx = some dir)
    (hhit : headermapPath files q.getcwd dir includepath = none)
    (hbuilt : PathFromDirMapEntryAndInclude dir includepath = .ok (some path))
    (hlt : sl_idx < w.searchdir_stats.length)
    (hpresent : isFound files q.getcwd (some path) = true) :
    ∃ w' answer, lookUp files q includepath w sl_idx = .ok (w', some answer) ∧
      Found files includepath_map q includepath path w w' answer ∧ answer.1.1 = sl_idx := by
  have hroom : sl_idx < w.searchdir_realpaths.length := Nat.lt_of_lt_of_le hlt h.arrays.parallel
  obtain ⟨w', answer, hanswer, hfound, hsl, hstats, hreal⟩ :=
    answerWith_right h hinc hdir hbuilt hroom includepath
  have hstat : w'.searchdir_stats.set sl_idx (some true) = w.searchdir_stats.set sl_idx (some true) := by
    rw [hstats]
  refine ⟨{ w' with searchdir_stats := w.searchdir_stats.set sl_idx (some true) }, answer, ?_, ?_, hsl⟩
  · unfold lookUp
    rw [stringOf_of_get? hdir]
    dsimp only [bind, Except.bind]
    rw [hhit]
    rw [hbuilt]
    dsimp only
    rw [hpresent]
    dsimp only
    rw [answerWith_stats, hanswer]
    rfl
  · refine ⟨⟨?_, hfound.right.here⟩, hfound.within, hfound.asked, hfound.names⟩
    rw [← hstat]
    apply hfound.right.arrays.setStat
    obtain ⟨entry, r, hentry, hentrybuilt, hr, hget⟩ := hfound.names
    have hdir' := hfound.within.directory _ _ hdir
    refine ⟨q.getcwd, includepath, dir, some path, hfound.right.here, hinc, hdir', hhit, hbuilt,
      hpresent, ?_⟩
    intro _
    rw [hr] at hreal
    exact ⟨path, r, rfl, hreal, hget⟩

inductive Looked (files : Files) (includepath_map : MapToIndex) (q : Query) (includepath dir : Path)
    (sl_idx : Nat) (w : Search) (result : Except Raised (Search × Answer)) : Prop where
  | missed (w' : Search) (hresult : result = .ok (w', none))
      (hprovided : provided files q.getcwd includepath dir = none)
      (hmissed : Missed files includepath_map q sl_idx w w')
  | found (path : Path) (w' : Search) (answer : (Nat × Nat) × Option Nat)
      (hresult : result = .ok (w', some answer))
      (hprovided : provided files q.getcwd includepath dir = some path)
      (hfound : Found files includepath_map q includepath path w w' answer)
      (hentry : answer.1.1 = sl_idx ∨ headermapPath files q.getcwd dir includepath = some path)

theorem lookUp_right (h : SearchRight files includepath_map q w)
    (hinc : includepath_map.get? q.includepath_idx = some includepath)
    (hdir : w.directory_map.get? sl_idx = some dir) (hlt : sl_idx < w.searchdir_stats.length)
    (hsplits : ∀ relpath, headermapPath files q.getcwd dir includepath = some relpath →
      Splits includepath relpath w.directory_map w.searchdir_realpaths.length)
    (hmark : headermapPath files q.getcwd dir includepath = none → MarkFine includepath dir) :
    Looked files includepath_map q includepath dir sl_idx w
      (lookUp files q includepath w sl_idx) := by
  cases hhit : headermapPath files q.getcwd dir includepath with
  | some relpath =>
    obtain ⟨w', answer, hresult, hfound⟩ := lookUp_hit h hinc hdir hhit (hsplits relpath hhit)
    exact .found relpath w' answer hresult (provided_of_hit hhit) hfound (Or.inr hhit)
  | none =>
    obtain ⟨built, hbuilt⟩ := built_of_markFine (hmark hhit)
    have hprovided := provided_of_built hhit hbuilt
    cases hisFound : isFound files q.getcwd built with
    | false =>
      obtain ⟨w', hresult, hmissed⟩ := lookUp_absent h hinc hdir hhit hbuilt hlt hisFound
      rw [hisFound] at hprovided
      exact .missed w' hresult hprovided hmissed
    | true =>
      cases built with
      | none => cases hisFound
      | some path =>
        obtain ⟨w', answer, hresult, hfound, hsl⟩ :=
          lookUp_present h hinc hdir hhit hbuilt hlt hisFound
        rw [hisFound] at hprovided
        exact .found path w' answer hresult hprovided hfound (Or.inl hsl)

theorem Looked.of_extend {result : Except Raised (Search × Answer)}
    (hle : w.searchdir_stats.length ≤ sl_idx) (hpos : 0 < w.searchdir_stats.length)
    (h : Looked files includepath_map q includepath dir sl_idx (w.extend sl_idx) result) :
    Looked files includepath_map q includepath dir sl_idx w result := by
  cases h with
  | missed w' hresult hprovided hmissed =>
    refine .missed w' hresult hprovided
      ⟨hmissed.right, hmissed.directory_map, hmissed.realpath_map, ?_⟩
    rw [hmissed.lens, grown_of_lt (lt_lens_extend hpos hle), Search.lens_extend hle]
  | found path w' answer hresult hprovided hfound hentry =>
    exact .found path w' answer hresult hprovided
      ⟨hfound.right, hfound.within, hfound.asked, hfound.names⟩ hentry

theorem lookAt_right (h : SearchRight files includepath_map q w)
    (hinc : includepath_map.get? q.includepath_idx = some includepath)
    (hdir : w.directory_map.get? sl_idx = some dir)
    (hsplits : ∀ relpath, headermapPath files q.getcwd dir includepath = some relpath →
      Splits includepath relpath w.directory_map (grown sl_idx w.lens).2)
    (hmark : headermapPath files q.getcwd dir includepath = none → MarkFine includepath dir) :
    Looked files includepath_map q includepath dir sl_idx w
      (lookAt files includepath_map q includepath w sl_idx) := by
  unfold lookAt cached
  cases hstat : w.searchdir_stats[sl_idx]? with
  | none =>
    -- the arrays grow before the look-up
    have hle := List.getElem?_eq_none_iff.mp hstat
    rw [← Search.lens_extend hle] at hsplits
    apply Looked.of_extend hle h.arrays.pos
    exact lookUp_right h.extend hinc hdir (lt_lens_extend h.arrays.pos hle) hsplits hmark
  | some stat =>
    obtain ⟨hlt, _⟩ := List.getElem?_eq_some_iff.mp hstat
    have hlens : grown sl_idx w.lens = w.lens := grown_of_lt hlt
    cases stat with
    | none =>
      rw [hlens] at hsplits
      exact lookUp_right h hinc hdir hlt hsplits hmark
    | some b =>
      obtain ⟨dir', built, hdir', hhit, hbuilt, hfound, hreal⟩ := h.knows hinc hstat
      cases hdir.symm.trans hdir'
      have hprovided := provided_of_built hhit hbuilt
      have hverified := h.verified hinc hstat
      rw [hfound] at hprovided
      cases b with
      | false =>
        refine .missed w ?_ hprovided ⟨h, rfl, rfl, hlens.symm⟩
        dsimp only [bind, Except.bind]
        rw [hverified]
      | true =>
        obtain ⟨path, r, hpath, hr, hget⟩ := hreal rfl
        subst hpath
        refine .found path w ((sl_idx, q.includepath_idx), some r) ?_ hprovided ?_ (Or.inl rfl)
        · dsimp only [bind, Except.bind]
          rw [hverified]
          rw [hr]
        · exact ⟨h, ⟨Table.Within.refl, Table.Within.refl, Table.Within.refl⟩, rfl,
            dir, r, hdir, hbuilt, rfl, hget⟩

/-! ## A whole search -/

inductive Ended (files : Files) (includepath_map : MapToIndex) (q : Query) (includepath : Path)
    (dirs : List Path) (w : Search) (result : Except Raised (Search × Answer)) : Prop where
  | missed (w' : Search) (hresult : result = .ok (w', none))
      (hfirst : firstOf files q.getcwd includepath dirs = none)
      (hright : SearchRight files includepath_map q w')
      (hdirs : w'.directory_map = w.directory_map) (hreals : w'.realpath_map = w.realpath_map)
  | found (dir path : Path) (w' : Search) (answer : (Nat × Nat) × Option Nat)
      (hresult : result = .ok (w', some answer))
      (hfirst : firstOf files q.getcwd includepath dirs = some (dir, path))
      (hfound : Found files includepath_map q includepath path w w' answer)
      (hentry : w'.directory_map.get? answer.1.1 = some dir ∨
        headermapPath files q.getcwd dir includepath = some path)

theorem firstOf_cons_none (h : provided files cwd includepath dir = none) :
    firstOf files cwd includepath (dir :: dirs) = firstOf files cwd includepath dirs := by
  unfold firstOf
  rw [findSome?_cons, h]
  rfl

theorem firstOf_cons_some (h : provided files cwd includepath dir = some path) :
    firstOf files cwd includepath (dir :: dirs) = some (dir, path) := by
  unfold firstOf
  rw [findSome?_cons, h]
  rfl

theorem searchIn_right (hinc : includepath_map.get? q.includepath_idx = some includepath)
    (h : SearchRight files includepath_map q w)
    (hdirs : ∀ sl_idx ∈ searchlist, ∃ dir, w.directory_map.get? sl_idx = some dir)
    (hfine : SearchFine files q.getcwd includepath w.directory_map searchlist w.lens) :
    Ended files includepath_map q includepath (searchlist.filterMap w.directory_map.get?) w
      (searchIn files includepath_map q includepath searchlist w) := by
  induction searchlist generalizing w with
  | nil => exact .missed w rfl rfl h rfl rfl
  | cons sl_idx searchlist ih =>
    obtain ⟨dir, hdir⟩ := hdirs sl_idx mem_cons_self
    obtain ⟨hsplits, hmark, hrest⟩ := hfine dir hdir
    rw [filterMap_cons_some hdir]
    unfold searchIn
    cases lookAt_right h hinc hdir hsplits hmark with
    | missed w' hresult hprovided hmissed =>
      have hfine' := hrest hprovided
      rw [← hmissed.lens, ← hmissed.directory_map] at hfine'
      have hended := ih hmissed.right (by
        intro sl hsl
        rw [hmissed.directory_map]
        exact hdirs sl (mem_cons_of_mem _ hsl)) hfine'
      rw [hmissed.directory_map] at hended
      rw [hresult]
      cases hended with
      | missed w'' hresult' hfirst hright hdirs' hreals' =>
        refine .missed w'' hresult' ?_ hright (hdirs'.trans hmissed.directory_map)
          (hreals'.trans hmissed.realpath_map)
        rw [firstOf_cons_none hprovided, hfirst]
      | found dir' path w'' answer hresult' hfirst hfound hentry =>
        refine .found dir' path w'' answer hresult' ?_ ⟨hfound.right, ?_, hfound.asked, hfound.names⟩
          hentry
        · rw [firstOf_cons_none hprovided, hfirst]
        · have hwithin := hfound.within
          unfold Search.maps at hwithin
          rw [hmissed.directory_map, hmissed.realpath_map] at hwithin
          exact hwithin
    | found path w' answer hresult hprovided hfound hentry =>
      rw [hresult]
      refine .found dir path w' answer rfl (firstOf_cons_some hprovided) hfound ?_
      rcases hentry with hsl | hhit
      · rw [hsl]
        exact Or.inl (hfound.within.directory _ _ hdir)
      · exact Or.inr hhit

theorem searchIn_append (first second : List Nat) :
    searchIn files includepath_map q includepath (first ++ second) w = (do
      let (w, answer) ← searchIn files includepath_map q includepath first w
      if answer.isSome then return (w, answer)
      searchIn files includepath_map q includepath second w) := by
  induction first generalizing w with
  | nil => rfl
  | cons sl_idx first ih =>
    rw [cons_append, searchIn, searchIn]
    cases lookAt files includepath_map q includepath w sl_idx with
    | error e => rfl
    | ok result =>
      obtain ⟨w', answer⟩ := result
      cases answer with
      | some answer => rfl
      | none => exact ih

variable {includer_dir : Path}

theorem subframeworkDir_eq (h : subframeworkDir includepath includer_dir = some dir) :
    ∃ front, dir = front ++ ascii "Frameworks" := by
  unfold subframeworkDir at h
  split at h
  · obtain ⟨split, _, hdir⟩ := Option.map_eq_some_iff.mp h
    exact ⟨_, hdir.symm⟩
  · cases h

theorem directoryIndex_frameworks (m : MapToIndex) (front : Path) :
    directoryIndex m (front ++ ascii "Frameworks") =
      .ok (m.intern (front ++ ascii "Frameworks" ++ [47])) := by
  have hlast : (front ++ ascii "Frameworks").getLast? = some 115 := by
    rw [getLast?_append]
    rfl
  have hne : ¬ (front ++ ascii "Frameworks" = [] ∨ front ++ ascii "Frameworks" = [47]) := by
    intro h
    rcases h with h | h
    · rw [h] at hlast
      cases hlast
    rw [h] at hlast
    revert hlast
    decide
  unfold directoryIndex
  rw [if_neg hne, hlast]
  rfl

theorem headermapPath_frameworks (front : Path) :
    headermapPath files cwd (front ++ ascii "Frameworks" ++ [47]) includepath = none := by
  apply if_neg
  intro h
  have hsuffix := List.isSuffixOf_iff_suffix.mp h
  rw [append_assoc] at hsuffix
  have hends : ascii ".hmap/" <:+ ascii "Frameworks" ++ [47] :=
    suffix_of_suffix_length_le hsuffix (suffix_append _ _) (by decide)
  revert hends
  decide

variable {directory_map : MapToIndex}

theorem searchFine_marked {mark : UInt8}
    (hdir : directory_map.get? sl_idx = some (42 :: mark :: (front ++ ascii "Frameworks" ++ [47])))
    (hmark : mark = 72 ∨ mark = 80) {lens : Nat × Nat}
    (h : ∀ lens, SearchFine files cwd includepath directory_map searchlist lens) :
    SearchFine files cwd includepath directory_map (sl_idx :: searchlist) lens := by
  intro dir hdir'
  cases hdir.symm.trans hdir'
  have hnone : headermapPath files cwd (42 :: mark :: (front ++ ascii "Frameworks" ++ [47]))
      includepath = none := headermapPath_frameworks (42 :: mark :: front)
  refine ⟨?_, ?_, fun _ => h _⟩
  · intro relpath hhit
    rw [hnone] at hhit
    cases hhit
  · intro _ _ _
    rcases hmark with hH | hP
    · exact Or.inl (by rw [hH]; rfl)
    · exact Or.inr (by rw [hP]; rfl)

theorem frameworkFallback_none
    (hincluder : directory_map.get? q.includer_dir_idx = some includer_dir)
    (hnone : subframeworkDir includepath includer_dir = none) :
    frameworkFallback q includepath directory_map = .ok (directory_map, []) := by
  unfold frameworkFallback
  rw [stringOf_of_get? hincluder]
  dsimp only [bind, Except.bind, pure, Except.pure]
  rw [hnone]
  exact ite_self _

theorem frameworkFallback_some
    (hincluder : directory_map.get? q.includer_dir_idx = some includer_dir)
    (hsome : subframeworkDir includepath includer_dir = some (front ++ ascii "Frameworks")) :
    frameworkFallback q includepath directory_map =
      let (directory_map, h) :=
        directory_map.intern (42 :: 72 :: (front ++ ascii "Frameworks" ++ [47]))
      let (directory_map, p) :=
        directory_map.intern (42 :: 80 :: (front ++ ascii "Frameworks" ++ [47]))
      .ok (directory_map, [h, p]) := by
  have hslash : ¬ 47 ∉ includepath := by
    intro hnot
    unfold subframeworkDir at hsome
    rw [if_neg hnot] at hsome
    cases hsome
  have hindex (m : MapToIndex) (mark : UInt8) :
      directoryIndex m (42 :: mark :: (front ++ ascii "Frameworks")) =
        .ok (m.intern (42 :: mark :: (front ++ ascii "Frameworks" ++ [47]))) :=
    directoryIndex_frameworks m (42 :: mark :: front)
  have hH (m : MapToIndex) : directoryIndex m (ascii "*H" ++ (front ++ ascii "Frameworks")) = _ :=
    hindex m 72
  have hP (m : MapToIndex) : directoryIndex m (ascii "*P" ++ (front ++ ascii "Frameworks")) = _ :=
    hindex m 80
  unfold frameworkFallback
  rw [if_neg hslash, stringOf_of_get? hincluder]
  dsimp only [bind, Except.bind, pure, Except.pure]
  rw [hsome]
  dsimp only
  rw [hH]
  dsimp only
  rw [hP]

variable (files includepath) in
theorem frameworkFallback_right
    (hincluder : ∃ dir, directory_map.get? q.includer_dir_idx = some dir) :
    ∃ directory_map' searchlist,
      frameworkFallback q includepath directory_map = .ok (directory_map', searchlist) ∧
      Table.Within directory_map directory_map' ∧
      searchlist.filterMap directory_map'.get? = fallbackDirs directory_map q includepath ∧
      (∀ sl_idx ∈ searchlist, ∃ dir, directory_map'.get? sl_idx = some dir) ∧
      ∀ lens, SearchFine files q.getcwd includepath directory_map' searchlist lens := by
  obtain ⟨includer_dir, hincluder⟩ := hincluder
  cases hsub : subframeworkDir includepath includer_dir with
  | none =>
    have hdirs : fallbackDirs directory_map q includepath = [] := by
      unfold fallbackDirs
      rw [hincluder, Option.bind_some, hsub]
    refine ⟨directory_map, [], frameworkFallback_none hincluder hsub, Table.Within.refl, hdirs.symm,
      ?_, fun _ => trivial⟩
    intro sl_idx hsl
    cases hsl
  | some dir =>
    obtain ⟨front, hfront⟩ := subframeworkDir_eq hsub
    subst hfront
    let H : Path := 42 :: 72 :: (front ++ ascii "Frameworks" ++ [47])
    let P : Path := 42 :: 80 :: (front ++ ascii "Frameworks" ++ [47])
    let first := directory_map.intern H
    let second := first.1.intern P
    have hdirs : fallbackDirs directory_map q includepath = [H, P] := by
      unfold fallbackDirs
      rw [hincluder, Option.bind_some, hsub]
      rfl
    have hH : second.1.get? first.2 = some H :=
      Table.intern_within first.1 P _ _ (Table.get?_intern directory_map H)
    have hP : second.1.get? second.2 = some P := Table.get?_intern first.1 P
    refine ⟨second.1, [first.2, second.2], frameworkFallback_some hincluder hsub,
      (Table.intern_within _ _).trans (Table.intern_within _ _), ?_, ?_, ?_⟩
    · rw [hdirs, filterMap_cons_some hH, filterMap_cons_some hP, filterMap_nil]
    · intro sl_idx hsl
      rcases List.mem_cons.mp hsl with hfirst | hsecond
      · exact ⟨H, hfirst ▸ hH⟩
      · exact ⟨P, List.mem_singleton.mp hsecond ▸ hP⟩
    · intro lens
      apply searchFine_marked hH (Or.inl rfl)
      intro lens
      apply searchFine_marked hP (Or.inr rfl)
      intro lens
      trivial

theorem firstOf_append (first second : List Path) :
    firstOf files cwd includepath (first ++ second) =
      (firstOf files cwd includepath first).or (firstOf files cwd includepath second) :=
  findSome?_append

theorem searchAll_eq : searchAll files includepath_map q includepath w = (do
    let (w, answer) ← searchIn files includepath_map q includepath q.searched w
    if answer.isSome then return (w, answer)
    let (directory_map, searchlist) ← frameworkFallback q includepath w.directory_map
    searchIn files includepath_map q includepath searchlist
      { w with directory_map := directory_map }) := by
  unfold searchAll Query.searched
  rw [searchIn_append]
  cases searchIn files includepath_map q includepath q.searchdir_idx.toList w with
  | error e => rfl
  | ok result =>
    obtain ⟨w', answer⟩ := result
    cases answer with
    | some answer => rfl
    | none => rfl

theorem searchAll_right (hinc : includepath_map.get? q.includepath_idx = some includepath)
    (h : SearchRight files includepath_map q w)
    (hincluder : ∃ dir, w.directory_map.get? q.includer_dir_idx = some dir)
    (hdirs : ∀ sl_idx ∈ q.searched, ∃ dir, w.directory_map.get? sl_idx = some dir)
    (hfine : SearchFine files q.getcwd includepath w.directory_map q.searched w.lens) :
    ∃ w' answer, searchAll files includepath_map q includepath w = .ok (w', answer) ∧
      SearchRight files includepath_map q w' ∧
      Maps.Within (w.maps includepath_map) (w'.maps includepath_map) ∧
      IsAnswer files (w'.maps includepath_map) q includepath
        (firstOf files q.getcwd includepath (q.searched.filterMap w.directory_map.get? ++
          fallbackDirs w.directory_map q includepath)) answer := by
  have hanswer {dirs : List Path} {w' : Search} {dir path : Path} {answer : (Nat × Nat) × Option Nat}
      (hfirst : firstOf files q.getcwd includepath dirs = some (dir, path))
      (hfound : Found files includepath_map q includepath path w w' answer)
      (hentry : w'.directory_map.get? answer.1.1 = some dir ∨
        headermapPath files q.getcwd dir includepath = some path) :
      IsAnswer files (w'.maps includepath_map) q includepath
        (firstOf files q.getcwd includepath dirs) (some answer) := by
    rw [hfirst]
    refine ⟨answer.1.1, answer.2, ?_, hfound.names, hentry⟩
    rw [← hfound.asked]
  rw [searchAll_eq, firstOf_append]
  cases searchIn_right hinc h hdirs hfine with
  | found dir path w' answer hresult hfirst hfound hentry =>
    refine ⟨w', some answer, ?_, hfound.right, hfound.within, ?_⟩
    · rw [hresult]
      rfl
    · rw [hfirst, Option.some_or, ← hfirst]
      exact hanswer hfirst hfound hentry
  | missed w₁ hresult hfirst hright hdirs₁ hreals₁ =>
    rw [hresult, hfirst, Option.none_or]
    rw [← hdirs₁] at hincluder
    obtain ⟨directory_map, searchlist, hfallback, hwithin, hlist, hlistdirs, hlistfine⟩ :=
      frameworkFallback_right files includepath hincluder
    have hright' : SearchRight files includepath_map q { w₁ with directory_map := directory_map } :=
      ⟨hright.arrays.within ⟨Table.Within.refl, hwithin, Table.Within.refl⟩,
        hwithin _ _ hright.here⟩
    have hmaps : Maps.Within (w.maps includepath_map)
        ⟨includepath_map, directory_map, w₁.realpath_map⟩ := by
      refine ⟨Table.Within.refl, ?_, ?_⟩
      · rw [hdirs₁] at hwithin
        exact hwithin
      · rw [hreals₁]
        exact Table.Within.refl
    dsimp only [bind, Except.bind]
    rw [if_neg (by simp), hfallback]
    rw [hdirs₁] at hlist
    have hended := searchIn_right hinc hright' hlistdirs (hlistfine _)
    rw [hlist] at hended
    cases hended with
    | missed w' hresult' hfirst' hright'' hdirs' hreals' =>
      refine ⟨w', none, hresult', hright'', ?_, ?_⟩
      · unfold Search.maps
        rw [hdirs', hreals']
        exact hmaps
      · rw [hfirst']
        rfl
    | found dir path w' answer hresult' hfirst' hfound hentry =>
      have hfound' : Found files includepath_map q includepath path w w' answer :=
        ⟨hfound.right, ⟨hmaps.includepath.trans hfound.within.includepath,
          hmaps.directory.trans hfound.within.directory,
          hmaps.realpath.trans hfound.within.realpath⟩, hfound.asked, hfound.names⟩
      exact ⟨w', some answer, hresult', hfound.right, hfound'.within, hanswer hfirst' hfound' hentry⟩

/-! ## Runs -/

def CacheRight (files : Files) (s : BuildStatCache) : Prop :=
  ∀ currdir_idx includepath_idx stats realpaths, s.build_stat currdir_idx includepath_idx = some stats →
    s.real_stat currdir_idx includepath_idx = some realpaths →
    ArraysRight files s.maps currdir_idx includepath_idx stats realpaths

theorem CacheRight.arrays (h : CacheRight files s) (q : Query) :
    ArraysRight files s.maps q.currdir_idx q.includepath_idx (s.arrays q).1 (s.arrays q).2 := by
  have hfresh : ArraysRight files s.maps q.currdir_idx q.includepath_idx
      (List.replicate DIR_ARRAY_SIZE none) (List.replicate DIR_ARRAY_SIZE none) :=
    arraysRight_replicate (by decide)
  unfold BuildStatCache.arrays
  cases hstats : s.build_stat q.currdir_idx q.includepath_idx with
  | none => exact hfresh
  | some stats =>
    cases hreals : s.real_stat q.currdir_idx q.includepath_idx with
    | none => exact hfresh
    | some realpaths => exact h _ _ _ _ hstats hreals

theorem CacheRight.within (h : CacheRight files s) (hstats : s'.build_stat = s.build_stat)
    (hreals : s'.real_stat = s.real_stat) (hmaps : Maps.Within s.maps s'.maps) :
    CacheRight files s' := by
  intro currdir_idx includepath_idx stats realpaths hs hr
  rw [hstats] at hs
  rw [hreals] at hr
  exact (h _ _ _ _ hs hr).within hmaps

theorem CacheRight.keep (h : CacheRight files s) (hright : SearchRight files s.includepath_map q w)
    (hmaps : Maps.Within s.maps (w.maps s.includepath_map)) : CacheRight files (s.keep q w) := by
  intro currdir_idx includepath_idx stats realpaths hs hr
  by_cases hsame : currdir_idx = q.currdir_idx ∧ includepath_idx = q.includepath_idx
  · obtain ⟨hcurrdir, hincludepath⟩ := hsame
    subst hcurrdir hincludepath
    have hs' : some w.searchdir_stats = some stats := (if_pos ⟨rfl, rfl⟩).symm.trans hs
    have hr' : some w.searchdir_realpaths = some realpaths := (if_pos ⟨rfl, rfl⟩).symm.trans hr
    cases hs'
    cases hr'
    exact hright.arrays
  · have hs' : s.build_stat currdir_idx includepath_idx = some stats := (if_neg hsame).symm.trans hs
    have hr' : s.real_stat currdir_idx includepath_idx = some realpaths :=
      (if_neg hsame).symm.trans hr
    exact (h _ _ _ _ hs' hr').within hmaps

theorem checkArguments_ok (h : WellMade s q includepath) :
    checkArguments s.includepath_map q s.directory_map = .ok () := by
  obtain ⟨includer, hincluder⟩ := h.includer
  have hipos := Table.pos_of_get? h.included
  have hilt := Table.lt_of_get? h.included
  have hcpos := Table.pos_of_get? h.here
  have hclt := Table.lt_of_get? h.here
  have hnpos := Table.pos_of_get? hincluder
  have hnlt := Table.lt_of_get? hincluder
  have hvalid : ∀ sl_idx ∈ q.searched, 0 < sl_idx ∧ sl_idx < s.directory_map.Length := by
    intro sl_idx hsl
    exact Table.get?_isSome_iff.mp (h.searched sl_idx hsl)
  have hlist : ∀ sl_idx ∈ q.searchlist_idxs, 0 < sl_idx ∧ sl_idx < s.directory_map.Length :=
    fun sl_idx hsl => hvalid sl_idx (mem_append_right _ hsl)
  have hfirst : (q.searchdir_idx.all fun sl_idx =>
      1 ≤ sl_idx && sl_idx < s.directory_map.Length) = true := by
    cases hdir : q.searchdir_idx with
    | none => rfl
    | some sl_idx =>
      have hmem : sl_idx ∈ q.searched := by
        unfold Query.searched
        rw [hdir]
        exact mem_append_left _ mem_cons_self
      have hsl := hvalid sl_idx hmem
      simp only [Option.all_some, Bool.and_eq_true, decide_eq_true_eq]
      exact hsl
  unfold checkArguments
  rw [assert_true (by simp; omega), assert_true (by simp; omega), assert_true (by simp; omega),
    assert_true hfirst, assert_true (List.all_eq_true.mpr fun sl_idx hsl =>
      decide_eq_true (hlist sl_idx hsl).2), assert_true (by simpa using h.here)]
  exact if_pos (List.all_eq_true.mpr fun sl_idx hsl => decide_eq_true (hlist sl_idx hsl).1)

theorem uncached_absolute (h : isabs includepath = true) :
    uncached files directory_map q includepath = none := by
  unfold uncached candidates
  rw [if_pos h]
  rfl

theorem uncached_relative (h : ¬ isabs includepath = true) :
    uncached files directory_map q includepath = firstOf files q.getcwd includepath
      (q.searched.filterMap directory_map.get? ++ fallbackDirs directory_map q includepath) := by
  unfold uncached candidates
  rw [if_neg h]

theorem Resolve_right (h : CacheRight files s) (hmade : WellMade s q includepath)
    (hfine : QueryFine files s q includepath) :
    ∃ s' answer, Resolve files s q = .ok (s', answer) ∧ CacheRight files s' ∧
      s'.includepath_map = s.includepath_map ∧
      IsAnswer files s'.maps q includepath
        (uncached files s.directory_map q includepath) answer := by
  unfold Resolve
  rw [stringOf_of_get? hmade.included]
  dsimp only [bind, Except.bind, pure, Except.pure]
  by_cases habs : isabs includepath = true
  · refine ⟨s, none, if_pos habs, h, rfl, ?_⟩
    rw [uncached_absolute habs]
    rfl
  rw [if_neg habs, checkArguments_ok hmade, uncached_relative habs]
  have hright : SearchRight files s.includepath_map q (s.search q) := ⟨h.arrays q, hmade.here⟩
  obtain ⟨w, answer, hresult, hright', hwithin, hanswer⟩ := searchAll_right hmade.included hright
    hmade.includer hmade.searched (hfine (Bool.eq_false_iff.mpr habs))
  rw [hresult]
  exact ⟨s.keep q w, answer, rfl, h.keep hright' hwithin, rfl, hanswer⟩

/-- The states that the include server can bring about, by calls that are sound. -/
inductive Reached (files : Files) : BuildStatCache → Prop
  | init : Reached files .init
  | includepath {s : BuildStatCache} (h : Reached files s) (relpath : Path) :
      Reached files { s with includepath_map := (relpathIndex s.includepath_map relpath).1 }
  | directory {s : BuildStatCache} {m : MapToIndex} {i : Nat} (h : Reached files s)
      (directory : Path) (hindex : directoryIndex s.directory_map directory = .ok (m, i)) :
      Reached files { s with directory_map := m }
  | realpath {s : BuildStatCache} (h : Reached files s) (filepath : Path) :
      Reached files { s with realpath_map := (canonicalIndex files s.realpath_map filepath).1 }
  | warned {s : BuildStatCache} (h : Reached files s) :
      Reached files { s with path_observations := [] }
  | resolved {s s' : BuildStatCache} {q : Query} {includepath : Path} {answer : Answer}
      (h : Reached files s) (hmade : WellMade s q includepath)
      (hfine : QueryFine files s q includepath) (hcall : Resolve files s q = .ok (s', answer)) :
      Reached files s'

theorem directoryIndex_within {m m' : MapToIndex}
    (h : directoryIndex m dir = .ok (m', i)) : Table.Within m m' := by
  have hintern {directory : Path} (heq : (.ok (m.intern directory) : Except Raised _) = .ok (m', i)) :
      Table.Within m m' := by
    have hm : (m.intern directory).1 = m' := congrArg Prod.fst (Except.ok.inj heq)
    rw [← hm]
    exact Table.intern_within _ _
  unfold directoryIndex at h
  split at h
  · exact hintern h
  split at h
  · cases h
  · exact hintern h

theorem Reached.right (h : Reached files s) : CacheRight files s := by
  induction h with
  | init =>
    intro currdir_idx includepath_idx stats realpaths hs
    cases hs
  | includepath _ relpath ih =>
    exact ih.within rfl rfl ⟨Table.intern_within _ _, Table.Within.refl, Table.Within.refl⟩
  | directory _ directory hindex ih =>
    exact ih.within rfl rfl ⟨Table.Within.refl, directoryIndex_within hindex, Table.Within.refl⟩
  | realpath _ filepath ih =>
    exact ih.within rfl rfl ⟨Table.Within.refl, Table.Within.refl, Table.intern_within _ _⟩
  | warned _ ih => exact ih.within rfl rfl ⟨Table.Within.refl, Table.Within.refl, Table.Within.refl⟩
  | resolved _ hmade hfine hcall ih =>
    obtain ⟨s', answer, hresult, hright, _⟩ := Resolve_right ih hmade hfine
    rw [hcall] at hresult
    cases Except.ok.inj hresult
    exact hright

/-- A call that is sound, in a state that sound calls lead to, answers what a search that keeps
nothing finds. -/
theorem resolve_uncached (h : Reached files s) (hmade : WellMade s q includepath)
    (hfine : QueryFine files s q includepath) : ∃ s' answer, Resolve files s q = .ok (s', answer) ∧
      s'.includepath_map.get? q.includepath_idx = some includepath ∧
      IsAnswer files s'.maps q includepath
        (uncached files s.directory_map q includepath) answer := by
  obtain ⟨s', answer, hresult, _, hmap, hanswer⟩ := Resolve_right h.right hmade hfine
  refine ⟨s', answer, hresult, ?_, hanswer⟩
  rw [hmap]
  exact hmade.included

/-- A header map of one bucket -/
def oneBucket (key front back : Path) : Headermap.Text :=
  let word (n : Nat) : Headermap.Text := [UInt8.ofNat n, 0, 0, 0]
  Headermap.magic.reverse ++ [1, 0, 0, 0] ++ word 36 ++ word 1 ++ word 1 ++ word 0 ++
    word 1 ++ word (key.length + 2) ++ word (key.length + front.length + 3) ++
    (0 :: key) ++ (0 :: front) ++ (0 :: back) ++ [0]

/-- No file but header maps like this one -/
def mappedFiles (hmap : Headermap.Text) : Files :=
  Files.withHeaderMaps ⟨fun _ _ => false, id, fun _ _ _ => none, fun _ => false⟩ .little
    (fun _ path => path)
    fun _ => some hmap

def mappedState : BuildStatCache :=
  { BuildStatCache.init with
    includepath_map := ⟨[ascii "A/x.h"]⟩
    directory_map := ⟨[ascii "/w/", ascii "/w/inc/", ascii "/w/p.hmap/"]⟩ }

def mappedQuery : Query where
  includepath_idx := 1
  currdir_idx := 1
  searchdir_idx := none
  searchlist_idxs := [2, 3]
  includer_dir_idx := 1
  getcwd := ascii "/w"

theorem mappedState_reached (files : Files) : Reached files mappedState := by
  have h₀ : Reached files .init := .init
  have h₁ := h₀.includepath (ascii "A/x.h")
  have h₂ := h₁.directory (ascii "/w") rfl
  have h₃ := h₂.directory (ascii "/w/inc") rfl
  exact h₃.directory (ascii "/w/p.hmap") rfl

theorem mappedQuery_wellMade : WellMade mappedState mappedQuery (ascii "A/x.h") where
  included := rfl
  here := rfl
  includer := ⟨_, rfl⟩
  searched sl_idx hsl := by
    rcases List.mem_cons.mp hsl with h | h
    · subst h
      exact ⟨_, rfl⟩
    · rw [List.mem_singleton.mp h]
      exact ⟨_, rfl⟩

/-! ### A long run -/

/-- `/x`, `/xx` and so on -/
def filler (n : Nat) : Path := 47 :: List.replicate (n + 1) 120

def fillers (n : Nat) : List Path := (List.range n).map fun k => filler k ++ [47]

/-- `n` more directories -/
def longState (n : Nat) : BuildStatCache :=
  { mappedState with directory_map := ⟨mappedState.directory_map.seen ++ fillers n⟩ }

theorem filler_inj {m n : Nat} (h : filler m ++ [47] = filler n ++ [47]) : m = n := by
  have hlength := congrArg List.length h
  simpa [filler] using hlength

theorem longState_head {n : Nat} : ∀ dir ∈ (longState n).directory_map.seen, dir.head? = some 47 := by
  intro dir hmem
  rcases List.mem_append.mp hmem with hmem | hmem
  · exact (by decide : ∀ dir ∈ mappedState.directory_map.seen, dir.head? = some 47) dir hmem
  · obtain ⟨m, -, rfl⟩ := List.mem_map.mp hmem
    rfl

theorem filler_new (n : Nat) : filler n ++ [47] ∉ (longState n).directory_map.seen := by
  intro hmem
  rcases List.mem_append.mp hmem with hmem | hmem
  · have hsecond : (mappedState.directory_map.seen.all fun dir => dir[1]? != some 120) = true := by decide
    have hnot := List.all_eq_true.mp hsecond _ hmem
    simp [filler, List.replicate_succ] at hnot
  · obtain ⟨m, hm, heq⟩ := List.mem_map.mp hmem
    have := List.mem_range.mp hm
    have := filler_inj heq
    omega

theorem longState_reached (files : Files) (n : Nat) : Reached files (longState n) := by
  induction n with
  | zero => exact mappedState_reached files
  | succ n ih =>
    have hlast : (filler n).getLast? = some 120 := by
      simp [filler, List.replicate_succ', List.getLast?_cons]
    have hindex : directoryIndex (longState n).directory_map (filler n) =
        .ok ((longState (n + 1)).directory_map, (longState n).directory_map.seen.length + 1) := by
      rw [directoryIndex, if_neg (by simp [filler, List.replicate_succ]), hlast,
        if_neg (by decide), Table.intern,
        if_neg (filler_new n)]
      simp [longState, fillers, List.range_succ]
    exact ih.directory (filler n) hindex

/-- Behind them the headers of a framework directory -/
def frameworkState : BuildStatCache :=
  { longState 500 with directory_map := ⟨(longState 500).directory_map.seen ++ [ascii "*H/fw/"]⟩ }

theorem frameworkState_reached (files : Files) : Reached files frameworkState := by
  have hnew : ascii "*H/fw/" ∉ (longState 500).directory_map.seen := fun hmem =>
    absurd (longState_head _ hmem) (by decide)
  have hindex : directoryIndex (longState 500).directory_map (ascii "*H/fw") =
      .ok (frameworkState.directory_map, (longState 500).directory_map.seen.length + 1) := by
    show Except.ok ((longState 500).directory_map.intern (ascii "*H/fw/")) = _
    rw [Table.intern, if_neg hnew]
    rfl
  exact (longState_reached files 500).directory (ascii "*H/fw") hindex

def firstQuery : Query := { mappedQuery with searchlist_idxs := [2] }

/-- After the first query the cache has that `A/x.h` is not in the second directory. -/
def cachedState : BuildStatCache :=
  { frameworkState with
    build_stat := putAt frameworkState.build_stat 1 1
      ((List.replicate DIR_ARRAY_SIZE none).set 2 (some false))
    real_stat := putAt frameworkState.real_stat 1 1 (List.replicate DIR_ARRAY_SIZE none) }

def secondQuery : Query := { mappedQuery with searchlist_idxs := [2, 504, 3] }

/-- The header map gives the file in `/src/A`. -/
def headerFiles : Files := mappedFiles (oneBucket (ascii "A/x.h") (ascii "/src/A/") (ascii "x.h"))

theorem firstQuery_fine : QueryFine headerFiles frameworkState firstQuery (ascii "A/x.h") := by
  intro _ dir hdir
  cases hdir
  refine ⟨?_, ?_, fun _ => trivial⟩
  · intro relpath hhit
    cases hhit
  · intro _ hmark
    cases hmark

set_option maxRecDepth 20000 in
theorem cachedState_reached : Reached headerFiles cachedState := by
  have hmade : WellMade frameworkState firstQuery (ascii "A/x.h") := by
    refine ⟨rfl, rfl, ⟨_, rfl⟩, fun sl_idx hsl => ?_⟩
    rw [List.mem_singleton.mp hsl]
    exact ⟨_, rfl⟩
  exact (frameworkState_reached _).resolved hmade firstQuery_fine rfl

theorem secondQuery_wellMade : WellMade cachedState secondQuery (ascii "A/x.h") where
  included := rfl
  here := rfl
  includer := ⟨_, rfl⟩
  searched := by
    have hall : (secondQuery.searched.all fun sl_idx =>
      (cachedState.directory_map.get? sl_idx).isSome) = true := by
      decide +kernel
    intro sl_idx hsl
    exact Option.isSome_iff_exists.mp (List.all_eq_true.mp hall sl_idx hsl)

/-- The first entry is cached, the second one lies behind the arrays and is a framework directory without
the file, the third one is the header map. -/
theorem header_map_answered : ∃ s' answer,
    Resolve headerFiles cachedState secondQuery = .ok (s', answer) ∧
      s'.includepath_map.get? secondQuery.includepath_idx = some (ascii "A/x.h") ∧
      IsAnswer headerFiles s'.maps secondQuery (ascii "A/x.h")
        (uncached headerFiles cachedState.directory_map secondQuery (ascii "A/x.h")) answer := by
  apply resolve_uncached cachedState_reached secondQuery_wellMade
  intro _ dir hdir
  cases hdir
  refine ⟨?_, ?_, ?_⟩
  · intro relpath hhit
    cases hhit
  · intro _ hmark
    cases hmark
  intro _ dir hdir
  have hframework : cachedState.directory_map.get? 504 = some (ascii "*H/fw/") := by decide +kernel
  obtain rfl := Option.some.inj (hdir.symm.trans hframework)
  refine ⟨?_, ?_, ?_⟩
  · intro relpath hhit
    cases hhit
  · intro _ _ _
    exact Or.inl rfl
  intro _ dir hdir
  cases hdir
  refine ⟨?_, ?_, fun _ => trivial⟩
  · intro relpath hhit
    cases hhit
    exact ⟨ascii "/src/", rfl,
      Or.inr ⟨ascii "/src", rfl, by decide, by decide⟩, by decide, by decide +kernel⟩
  · intro hnone
    cases hnone

/-- The header map gives the file another name, which the answer's pair does not say. -/
theorem renamed_header_misnamed : ¬ ∀ files s q includepath, Reached files s →
    WellMade s q includepath → ∃ s' answer, Resolve files s q = .ok (s', answer) ∧
      s'.includepath_map.get? q.includepath_idx = some includepath ∧
      IsAnswer files s'.maps q includepath (uncached files s.directory_map q includepath) answer := by
  intro hall
  obtain ⟨s', answer, hresult, _, hanswer⟩ :=
    hall (mappedFiles (oneBucket (ascii "A/x.h") (ascii "/src/") (ascii "y.h"))) mappedState
    mappedQuery (ascii "A/x.h") (mappedState_reached _) mappedQuery_wellMade
  have hrun : (Resolve (mappedFiles (oneBucket (ascii "A/x.h") (ascii "/src/") (ascii "y.h")))
    mappedState mappedQuery).map
      (fun result => (result.2, result.1.directory_map.get? 4)) =
      .ok (some ((4, 1), some 1), some (ascii "/src/")) := by decide +kernel
  rw [hresult] at hrun
  obtain ⟨hfound, hdir⟩ := Prod.mk.inj (Except.ok.inj hrun)
  obtain ⟨sl_idx, realpath_idx, hpair, ⟨entry, _, hentry, hbuilt, _⟩, _⟩ := hanswer
  have hsl : sl_idx = 4 := by
    have hpairs := Option.some.inj (hpair.symm.trans hfound)
    exact congrArg (fun answer => answer.1.1) hpairs
  rw [hsl] at hentry
  cases hdir.symm.trans hentry
  revert hbuilt
  decide +kernel

end Toolwhip.Distcc.StatCache
