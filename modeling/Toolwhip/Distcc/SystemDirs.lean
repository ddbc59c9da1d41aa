
/-! # The cache of system directories

`SystemdirPrefixCache` of cache_basics.py, filled from the map of real paths and the system directories
known at the time, which `SetSystemDirsDefaults` adds to. The directories do not end in a slash, and an
entry is never looked at again. -/

namespace Toolwhip.Distcc.SystemDirs
open List
set_option autoImplicit false

abbrev Text := List UInt8

/-- Place `i` of `string` and of `cache` is index `i + 1` of the source, whose index 0 holds `None`. -/
structure Caches where
  string : List Text
  system_dirs_default : List (Text × Text × Text)
  system_dirs_default_all : List Text
  cache : List Bool

def Caches.initial : Caches := ⟨[], [], [], []⟩

inductive Op where
  | Index (path : Text)
  | SetSystemDirsDefaults (compiler language sysroot : Text)
  | FillCache
  | StartsWithSystemdir (realpath_idx : Nat)
  deriving DecidableEq, Repr

def Index (path : Text) (s : Caches) : Caches :=
  if path ∈ s.string then s else { s with string := s.string ++ [path] }

def startsWithAny (system_dirs : List Text) (realpath : Text) : Bool :=
  system_dirs.any fun systemdir => systemdir.isPrefixOf realpath

def FillCache (s : Caches) : Caches :=
  { s with
    cache := s.cache ++
      (s.string.drop s.cache.length).map (startsWithAny s.system_dirs_default_all) }

/-- `none` where the index is not in the list, whose entry 0 is `None`. -/
def StartsWithSystemdir (realpath_idx : Nat) (s : Caches) : Caches × Option (Option Bool) :=
  (FillCache s, (none :: (FillCache s).cache.map some)[realpath_idx]?)

section Runs
-- what a compiler prints, as real paths; `none` if it cannot be run or understood
variable (SystemSearchdirsGCC : Text → Text → Text → Option (List Text))

def SetSystemDirsDefaults (compiler language sysroot : Text) (s : Caches) : Caches :=
  if (compiler, language, sysroot) ∈ s.system_dirs_default then s
  else
    match SystemSearchdirsGCC compiler language sysroot with
    | none => s
    | some dirs =>
      { s with
        system_dirs_default := (compiler, language, sysroot) :: s.system_dirs_default
        system_dirs_default_all := s.system_dirs_default_all ++ dirs }

def step (s : Caches) : Op → Caches
  | .Index path => Index path s
  | .SetSystemDirsDefaults compiler language sysroot =>
    SetSystemDirsDefaults SystemSearchdirsGCC compiler language sysroot s
  | .FillCache => FillCache s
  | .StartsWithSystemdir realpath_idx => (StartsWithSystemdir realpath_idx s).1

def run (s : Caches) (ops : List Op) : Caches := ops.foldl (step SystemSearchdirsGCC) s

/-! ## What is right -/

/-- The path is the directory, or goes on with a slash behind it. -/
def inside (path systemdir : Text) : Bool :=
  path == systemdir ||
    (if systemdir.getLast? = some 47 then systemdir else systemdir ++ [47]).isPrefixOf path

def insideAny (system_dirs : List Text) (realpath : Text) : Bool := system_dirs.any (inside realpath)

/-- The entry of every index says whether the path is inside one of the directories. -/
def FilledRight (s : Caches) : Prop := s.cache = s.string.map (insideAny s.system_dirs_default_all)

def CachedRight (s : Caches) : Prop :=
  s.cache = (s.string.take s.cache.length).map (insideAny s.system_dirs_default_all)

/-- What is new to the cache is inside a directory if it begins with its name; and a directory that is
new holds no path that the cache has as outside. -/
def Fine (s : Caches) : Op → Prop
  | .Index _ => True
  | .SetSystemDirsDefaults compiler language sysroot =>
    ∀ path ∈ s.string.take s.cache.length,
      insideAny (step SystemSearchdirsGCC s
        (.SetSystemDirsDefaults compiler language sysroot)).system_dirs_default_all path = true →
      insideAny s.system_dirs_default_all path = true
  | _ => ∀ path ∈ s.string.drop s.cache.length,
      startsWithAny s.system_dirs_default_all path = true →
        insideAny s.system_dirs_default_all path = true

def FineRun : Caches → List Op → Prop
  | _, [] => True
  | s, op :: ops => Fine SystemSearchdirsGCC s op ∧ FineRun (step SystemSearchdirsGCC s op) ops

theorem startsWith_of_inside {path systemdir : Text} (h : inside path systemdir = true) :
    systemdir.isPrefixOf path = true := by
  apply isPrefixOf_iff_prefix.mpr
  simp only [inside, Bool.or_eq_true, beq_iff_eq, isPrefixOf_iff_prefix] at h
  rcases h with rfl | h
  · exact prefix_rfl
  split at h
  · exact h
  · exact (prefix_append systemdir [47]).trans h

theorem startsWithAny_of_insideAny {dirs : List Text} {path : Text} (h : insideAny dirs path = true) :
    startsWithAny dirs path = true := by
  obtain ⟨systemdir, hmem, hinside⟩ := List.any_eq_true.mp h
  exact List.any_eq_true.mpr ⟨systemdir, hmem, startsWith_of_inside hinside⟩

theorem insideAny_append (dirs more : List Text) (path : Text) :
    insideAny (dirs ++ more) path = (insideAny dirs path || insideAny more path) := any_append

variable {SystemSearchdirsGCC} {s : Caches}

theorem map_eq_of_imp {f g : Text → Bool} {l : List Text}
    (hgf : ∀ path, g path = true → f path = true) :
    l.map f = l.map g ↔ ∀ path ∈ l, f path = true → g path = true := by
  rw [map_inj_left]
  constructor
  · exact fun h path hmem hf => h path hmem ▸ hf
  · exact fun h path hmem => Bool.eq_iff_iff.mpr ⟨h path hmem, hgf path⟩

theorem fillCache_right (hs : CachedRight s) : FilledRight (FillCache s) ↔
    ∀ path ∈ s.string.drop s.cache.length,
      startsWithAny s.system_dirs_default_all path = true →
        insideAny s.system_dirs_default_all path = true := by
  rw [← map_eq_of_imp fun path => startsWithAny_of_insideAny]
  have hsplit : s.string.map (insideAny s.system_dirs_default_all) =
      s.cache ++ (s.string.drop s.cache.length).map (insideAny s.system_dirs_default_all) := by
    conv => lhs; rw [← take_append_drop s.cache.length s.string, map_append, ← hs]
  simp only [FilledRight, FillCache]
  rw [hsplit, append_cancel_left_eq]

theorem filledRight_iff : CachedRight (FillCache s) ↔ FilledRight (FillCache s) := by
  have hlength : s.string.length ≤ (FillCache s).cache.length := by
    simp [FillCache]
    omega
  have hall : (FillCache s).string.take (FillCache s).cache.length = s.string := take_of_length_le hlength
  rw [CachedRight, hall]
  rfl

theorem step_right (SystemSearchdirsGCC : Text → Text → Text → Option (List Text))
    (hs : CachedRight s) (op : Op) :
    CachedRight (step SystemSearchdirsGCC s op) ↔ Fine SystemSearchdirsGCC s op := by
  cases op with
  | Index path =>
    refine iff_of_true ?_ trivial
    have hle : s.cache.length ≤ s.string.length := by
      have := congrArg List.length hs
      simp only [length_map, length_take] at this
      omega
    simp only [step, Index]
    split
    · exact hs
    · rwa [CachedRight, take_append_of_le_length hle]
  | SetSystemDirsDefaults compiler language sysroot =>
    have hgrows : ∃ more, (step SystemSearchdirsGCC s
        (.SetSystemDirsDefaults compiler language sysroot)).system_dirs_default_all =
          s.system_dirs_default_all ++ more := by
      simp only [step, SetSystemDirsDefaults]
      split
      · exact ⟨[], by simp⟩
      split
      · exact ⟨[], by simp⟩
      · exact ⟨_, rfl⟩
    have hsame : (step SystemSearchdirsGCC s
          (.SetSystemDirsDefaults compiler language sysroot)).cache = s.cache ∧
        (step SystemSearchdirsGCC s (.SetSystemDirsDefaults compiler language sysroot)).string =
          s.string := by
      simp only [step, SetSystemDirsDefaults]
      split
      · exact ⟨rfl, rfl⟩
      · split <;> exact ⟨rfl, rfl⟩
    rw [CachedRight, hsame.1, hsame.2, Fine, ← map_eq_of_imp]
    · rw [← hs, eq_comm]
    · intro path hin
      obtain ⟨more, hmore⟩ := hgrows
      rw [hmore, insideAny_append, hin, Bool.true_or]
  | FillCache => exact filledRight_iff.trans (fillCache_right hs)
  | StartsWithSystemdir realpath_idx => exact filledRight_iff.trans (fillCache_right hs)

theorem run_right {ops : List Op} (hs : CachedRight s) (h : FineRun SystemSearchdirsGCC s ops) :
    CachedRight (run SystemSearchdirsGCC s ops) := by
  induction ops generalizing s with
  | nil => exact hs
  | cons op ops ih => exact ih ((step_right _ hs op).mpr h.1) h.2

/-- After `FillCache` every entry is right if all steps were fine; the first one that is not leaves an
entry that is wrong. -/
theorem FillCache_right (SystemSearchdirsGCC : Text → Text → Text → Option (List Text)) :
    (∀ ops, FineRun SystemSearchdirsGCC .initial (ops ++ [.FillCache]) →
      FilledRight (run SystemSearchdirsGCC .initial (ops ++ [.FillCache]))) ∧
    ∀ ops op, FineRun SystemSearchdirsGCC .initial ops →
      (CachedRight (run SystemSearchdirsGCC .initial (ops ++ [op])) ↔
        Fine SystemSearchdirsGCC (run SystemSearchdirsGCC .initial ops) op) := by
  have hinitial : CachedRight .initial := rfl
  constructor
  · intro ops h
    have hright := run_right hinitial h
    simp only [run, foldl_append, foldl_cons, foldl_nil] at hright ⊢
    exact filledRight_iff.mp hright
  · intro ops op h
    have hstep := step_right SystemSearchdirsGCC (run_right hinitial h) op
    simpa [run] using hstep

end Runs

/-- A path beside the directory `/a`, and one that is inside of it and known before it. -/
theorem sibling_and_stale : ¬ FilledRight (run (fun _ _ _ => some [[47, 97]]) .initial
      [.SetSystemDirsDefaults [] [] [], .Index [47, 97, 50], .FillCache]) ∧
    ¬ FilledRight (run (fun _ _ _ => some [[47, 97]]) .initial
      [.Index [47, 97, 47, 98], .FillCache, .SetSystemDirsDefaults [] [] [], .FillCache]) := by
  constructor <;> simp +decide [FilledRight]

end Toolwhip.Distcc.SystemDirs
