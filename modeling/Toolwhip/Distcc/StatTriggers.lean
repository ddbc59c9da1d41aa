import Mathlib.Data.List.Count
import Mathlib.Data.List.Dedup

/-! # The triggers that reset the stat caches

`DoStatResetTriggers` of include_analyzer.py against what the globs gave at the call before. It records
one difference and returns, and never forgets a path, so what it remembers is what it saw last only as
long as no more than one path changes between two calls, and none goes away. -/

namespace Toolwhip.Distcc.StatTriggers
open List
set_option autoImplicit false

section Model
variable {Glob Path Stamp : Type} [DecidableEq Path]

/-- What `glob.glob` and `basics.Stamp` answer during one call -/
structure Files (Glob Path Stamp : Type) where
  glob : Glob → List Path
  stamp : Path → Stamp
  nodup : ∀ glob_expr, (glob glob_expr).Nodup

abbrev Stamps (Path Stamp : Type) := List (Path × Stamp)

def Stamps.get (path : Path) : Stamps Path Stamp → Option Stamp
  | [] => none
  | (p, stamp) :: more => if p = path then some stamp else Stamps.get path more

def Stamps.set (path : Path) (new_stamp : Stamp) : Stamps Path Stamp → Stamps Path Stamp
  | [] => [(path, new_stamp)]
  | (p, stamp) :: more =>
    if p = path then (p, new_stamp) :: more else (p, stamp) :: Stamps.set path new_stamp more

abbrev TriggerMap (Glob Path Stamp : Type) := List (Glob × Stamps Path Stamp)

theorem get_isSome {stamps : Stamps Path Stamp} {path : Path} :
    (stamps.get path).isSome ↔ path ∈ stamps.map (·.1) := by
  induction stamps with
  | nil => simp [Stamps.get]
  | cons e more ih =>
    simp only [Stamps.get, map_cons, mem_cons]
    split
    · simp_all
    rename_i hne
    rw [ih]
    simp [Ne.symm hne]

theorem get_set (stamps : Stamps Path Stamp) (path p : Path) (stamp : Stamp) :
    (stamps.set path stamp).get p = if path = p then some stamp else stamps.get p := by
  induction stamps with
  | nil => simp [Stamps.set, Stamps.get]
  | cons e more ih =>
    simp only [Stamps.set]
    split
    · rename_i heq
      subst heq
      simp only [Stamps.get]
      split <;> rfl
    rename_i hne
    simp only [Stamps.get, ih]
    split
    · rename_i heq
      subst heq
      simp [Ne.symm hne]
    · rfl

theorem set_nodup {stamps : Stamps Path Stamp} (path : Path) (stamp : Stamp)
    (h : (stamps.map (·.1)).Nodup) :
    ((stamps.set path stamp).map (·.1)).Nodup := by
  induction stamps with
  | nil => simp [Stamps.set]
  | cons e more ih =>
    obtain ⟨hnot, hmore⟩ := List.nodup_cons.mp h
    simp only [Stamps.set]
    split
    · exact h
    rename_i hne
    refine List.nodup_cons.mpr ⟨?_, ih hmore⟩
    rw [← get_isSome, get_set, if_neg (Ne.symm hne), get_isSome]
    exact hnot

section
variable {files : Files Glob Path Stamp} {trigger_map : TriggerMap Glob Path Stamp}
    (hpaths : ∀ e ∈ trigger_map, (e.2.map (·.1)).Nodup)
    (hfound : ∀ e ∈ trigger_map, ∀ path ∈ files.glob e.1, path ∈ e.2.map (·.1))
include hpaths hfound

theorem left_over (path : Path) : (trigger_map.flatMap fun e => files.glob e.1).count path ≤
        (trigger_map.flatMap fun e => e.2.map (·.1)).count path ∧
      ((trigger_map.flatMap fun e => e.2.map (·.1)).count path ≤
          (trigger_map.flatMap fun e => files.glob e.1).count path ↔
        ∀ e ∈ trigger_map, path ∈ e.2.map (·.1) → path ∈ files.glob e.1) := by
  induction trigger_map with
  | nil => simp
  | cons e more ih =>
    obtain ⟨hpaths', hpathsMore⟩ := List.forall_mem_cons.mp hpaths
    obtain ⟨hfound', hfoundMore⟩ := List.forall_mem_cons.mp hfound
    obtain ⟨hle, hiff⟩ := ih hpathsMore hfoundMore
    have hpath := hfound' path
    rw [forall_mem_cons, ← hiff]
    simp only [flatMap_cons, count_append, hpaths'.count, (files.nodup e.1).count]
    by_cases hmem : path ∈ files.glob e.1
    · simp only [hmem, hpath hmem, if_true, implies_true, true_and]
      omega
    simp only [hmem, if_false, imp_false]
    split
    · simp_all
      omega
    · simp_all

theorem diff_isEmpty :
    (trigger_map.flatMap fun e => e.2.map (·.1)).diff (trigger_map.flatMap fun e => files.glob e.1) = [] ↔
      ∀ e ∈ trigger_map, ∀ path ∈ e.2.map (·.1), path ∈ files.glob e.1 := by
  rw [eq_nil_iff_forall_not_mem]
  constructor
  · intro h e he path hpath
    have hcount := mt List.count_pos_iff.mp (h path)
    rw [count_diff] at hcount
    exact (left_over hpaths hfound path).2.mp (by omega) e he hpath
  · intro h path hmem
    have hcount := List.count_pos_iff.mpr hmem
    rw [count_diff] at hcount
    have := (left_over hpaths hfound path).2.mpr fun e he => h e he path
    omega

end

section Paths
variable [DecidableEq Stamp]

/-- The loop over the paths of one glob: the old paths that are left, or the stamps with the first
difference in them -/
def checkPaths (files : Files Glob Path Stamp) (stamps : Stamps Path Stamp) :
    List Path → List Path → List Path ⊕ Stamps Path Stamp
  | old_paths, [] => .inl old_paths
  | old_paths, path :: more =>
    if stamps.get path = some (files.stamp path) then checkPaths files stamps (old_paths.erase path) more
    else .inr (stamps.set path (files.stamp path))

theorem checkPaths_cases (files : Files Glob Path Stamp) (stamps : Stamps Path Stamp)
    (old_paths paths : List Path) :
    (checkPaths files stamps old_paths paths = .inl (old_paths.diff paths) ∧
      ∀ path ∈ paths, stamps.get path = some (files.stamp path)) ∨
    ∃ path ∈ paths, stamps.get path ≠ some (files.stamp path) ∧
      checkPaths files stamps old_paths paths = .inr (stamps.set path (files.stamp path)) := by
  induction paths generalizing old_paths with
  | nil => simp [checkPaths]
  | cons path more ih =>
    by_cases hsame : stamps.get path = some (files.stamp path)
    · simp only [checkPaths, if_pos hsame, diff_cons, forall_mem_cons]
      rcases ih (old_paths.erase path) with ⟨hcheck, hall⟩ | ⟨p, hp, hdiff, hcheck⟩
      · exact Or.inl ⟨hcheck, hsame, hall⟩
      · exact Or.inr ⟨p, mem_cons_of_mem _ hp, hdiff, hcheck⟩
    · exact Or.inr ⟨path, mem_cons_self, hsame, by simp [checkPaths, hsame]⟩

end Paths

variable [DecidableEq Glob]

def initial (files : Files Glob Path Stamp) (globs : List Glob) : TriggerMap Glob Path Stamp :=
  globs.dedup.map fun glob_expr =>
    (glob_expr, (files.glob glob_expr).map fun path => (path, files.stamp path))

def remembered : TriggerMap Glob Path Stamp → Glob → Path → Option Stamp
  | [], _, _ => none
  | (g, stamps) :: more, glob_expr, path =>
    if g = glob_expr then stamps.get path else remembered more glob_expr path

structure Keyed (trigger_map : TriggerMap Glob Path Stamp) : Prop where
  globs : (trigger_map.map (·.1)).Nodup
  paths : ∀ e ∈ trigger_map, (e.2.map (·.1)).Nodup

theorem remembered_of_mem {trigger_map : TriggerMap Glob Path Stamp}
    (hnodup : (trigger_map.map (·.1)).Nodup)
    {e : Glob × Stamps Path Stamp} (he : e ∈ trigger_map) (path : Path) :
    remembered trigger_map e.1 path = e.2.get path := by
  induction trigger_map with
  | nil => simp at he
  | cons head more ih =>
    rw [map_cons, nodup_cons] at hnodup
    obtain ⟨hnot, hmore⟩ := hnodup
    rcases List.mem_cons.mp he with rfl | he
    · simp [remembered]
    have hne : head.1 ≠ e.1 := by
      intro heq
      apply hnot
      rw [heq]
      exact mem_map_of_mem he
    rw [remembered, if_neg hne, ih hmore he]

def seen (files : Files Glob Path Stamp) (glob_expr : Glob) (path : Path) : Option Stamp :=
  if path ∈ files.glob glob_expr then some (files.stamp path) else none

/-- The map holds what was seen last. -/
structure Synced (globs : List Glob) (files : Files Glob Path Stamp)
    (trigger_map : TriggerMap Glob Path Stamp) : Prop where
  keyed : Keyed trigger_map
  keys : ∀ g, g ∈ trigger_map.map (·.1) ↔ g ∈ globs
  same : ∀ g ∈ globs, ∀ path, remembered trigger_map g path = seen files g path

theorem synced_initial (globs : List Glob) (files : Files Glob Path Stamp) :
    Synced globs files (initial files globs) := by
  have hkeys : (initial files globs).map (·.1) = globs.dedup := by simp [initial, Function.comp_def]
  have hglobs : ((initial files globs).map (·.1)).Nodup := hkeys ▸ globs.nodup_dedup
  refine ⟨⟨hglobs, ?_⟩, fun g => by rw [hkeys, mem_dedup], ?_⟩
  · intro e he
    obtain ⟨g, -, rfl⟩ := List.mem_map.mp he
    simpa [Function.comp_def] using files.nodup g
  · intro g hg path
    have hmem : (g, (files.glob g).map fun path => (path, files.stamp path)) ∈ initial files globs :=
      mem_map_of_mem (List.mem_dedup.mpr hg)
    rw [remembered_of_mem hglobs hmem, seen]
    generalize files.glob g = paths
    induction paths with
    | nil => rfl
    | cons p more ih =>
      simp only [map_cons, Stamps.get, ih, mem_cons]
      by_cases hp : p = path
      · simp [hp]
      · simp [hp, Ne.symm hp]

variable [DecidableEq Stamp]

def checkGlobs (files : Files Glob Path Stamp) :
    List Path → TriggerMap Glob Path Stamp → List Path ⊕ TriggerMap Glob Path Stamp
  | old_paths, [] => .inl old_paths
  | old_paths, (glob_expr, stamps) :: more =>
    match checkPaths files stamps old_paths (files.glob glob_expr) with
    | .inr stamps' => .inr ((glob_expr, stamps') :: more)
    | .inl old_paths' =>
      match checkGlobs files old_paths' more with
      | .inr more' => .inr ((glob_expr, stamps) :: more')
      | .inl old_paths'' => .inl old_paths''

/-- The map afterwards, and whether the caches are cleared -/
def DoStatResetTriggers (files : Files Glob Path Stamp) (trigger_map : TriggerMap Glob Path Stamp) :
    TriggerMap Glob Path Stamp × Bool :=
  match checkGlobs files (trigger_map.flatMap fun e => e.2.map (·.1)) trigger_map with
  | .inr trigger_map' => (trigger_map', true)
  | .inl old_paths => (trigger_map, !old_paths.isEmpty)

/-- Some path of a glob appeared, disappeared or has another stamp. -/
def Changed (globs : List Glob) (before after : Files Glob Path Stamp) : Prop :=
  ∃ g ∈ globs, ∃ path, seen before g path ≠ seen after g path

/-- Each call clears the caches just when something changed since the one before. -/
def Right (globs : List Glob) :
    Files Glob Path Stamp → TriggerMap Glob Path Stamp → List (Files Glob Path Stamp) → Prop
  | _, _, [] => True
  | before, trigger_map, files :: more =>
    ((DoStatResetTriggers files trigger_map).2 = true ↔ Changed globs before files) ∧
      Right globs files (DoStatResetTriggers files trigger_map).1 more

/-- No path goes away, and at most one path of one glob appears or has another stamp. -/
structure Small (globs : List Glob) (before after : Files Glob Path Stamp) : Prop where
  stays : ∀ g ∈ globs, ∀ path ∈ before.glob g, path ∈ after.glob g
  one : ∀ g ∈ globs, ∀ path, seen before g path ≠ seen after g path →
    ∀ g' ∈ globs, ∀ path', seen before g' path' ≠ seen after g' path' → g = g' ∧ path = path'

/-! ## One call -/

/-- What a call that finds a difference does to the map -/
structure Noted (files : Files Glob Path Stamp) (before after : TriggerMap Glob Path Stamp) (g : Glob)
    (path : Path) : Prop where
  mem : g ∈ before.map (·.1)
  found : path ∈ files.glob g
  differs : remembered before g path ≠ some (files.stamp path)
  same : after.map (·.1) = before.map (·.1)
  paths : ∀ e ∈ after, (e.2.map (·.1)).Nodup
  now : ∀ g' path', remembered after g' path' =
    if g = g' ∧ path = path' then some (files.stamp path) else remembered before g' path'

theorem checkGlobs_cases (files : Files Glob Path Stamp) {trigger_map : TriggerMap Glob Path Stamp}
    (hkeyed : Keyed trigger_map) (old_paths : List Path) : (checkGlobs files old_paths trigger_map =
        .inl (old_paths.diff (trigger_map.flatMap fun e => files.glob e.1)) ∧
      ∀ e ∈ trigger_map, ∀ path ∈ files.glob e.1, e.2.get path = some (files.stamp path)) ∨
    ∃ after g path, checkGlobs files old_paths trigger_map = .inr after ∧
      Noted files trigger_map after g path := by
  induction trigger_map generalizing old_paths with
  | nil => simp [checkGlobs]
  | cons e more ih =>
    obtain ⟨hnot, hglobs⟩ := List.nodup_cons.mp hkeyed.globs
    obtain ⟨hhead, hpaths⟩ := List.forall_mem_cons.mp hkeyed.paths
    rcases checkPaths_cases files e.2 old_paths (files.glob e.1) with ⟨hcheck, hall⟩ | ⟨path, hmem,
      hdiff, hcheck⟩
    · rcases ih ⟨hglobs, hpaths⟩ (old_paths.diff (files.glob e.1)) with ⟨hmore, hrest⟩ | ⟨after, g,
        path, hmore, hnoted⟩
      · left
        simp only [checkGlobs, hcheck, hmore, flatMap_cons, diff_append]
        exact ⟨trivial, List.forall_mem_cons.mpr ⟨hall, hrest⟩⟩
      right
      have hne : e.1 ≠ g := by
        rintro rfl
        exact hnot hnoted.mem
      refine ⟨e :: after, g, path, by simp [checkGlobs, hcheck, hmore], ?_⟩
      refine ⟨mem_cons_of_mem _ hnoted.mem, hnoted.found, ?_, by simp [hnoted.same], ?_, ?_⟩
      · rw [remembered, if_neg hne]
        exact hnoted.differs
      · exact List.forall_mem_cons.mpr ⟨hhead, hnoted.paths⟩
      · intro g' path'
        simp only [remembered, hnoted.now]
        by_cases heq : e.1 = g'
        · subst heq
          simp [Ne.symm hne]
        · simp [heq]
    · right
      refine ⟨(e.1, e.2.set path (files.stamp path)) :: more, e.1, path, by simp [checkGlobs, hcheck], ?_⟩
      refine ⟨mem_cons_self, hmem, by simpa [remembered] using hdiff, rfl, ?_, ?_⟩
      · exact List.forall_mem_cons.mpr ⟨set_nodup path _ hhead, hpaths⟩
      · intro g' path'
        simp only [remembered, get_set]
        by_cases heq : e.1 = g'
        · simp [heq]
        · simp [heq]

/-- A call notes one difference, or clears for a path that is gone, or sees what is remembered. -/
theorem DoStatResetTriggers_cases (files : Files Glob Path Stamp)
    {trigger_map : TriggerMap Glob Path Stamp} (hkeyed : Keyed trigger_map) :
    (∃ g path, (DoStatResetTriggers files trigger_map).2 = true ∧
      Noted files trigger_map (DoStatResetTriggers files trigger_map).1 g path) ∨
    ((DoStatResetTriggers files trigger_map).1 = trigger_map ∧
      (∀ g ∈ trigger_map.map (·.1), ∀ path ∈ files.glob g,
        remembered trigger_map g path = some (files.stamp path)) ∧
      ((DoStatResetTriggers files trigger_map).2 = true ↔
        ∃ g ∈ trigger_map.map (·.1), ∃ path, remembered trigger_map g path ≠ seen files g path)) := by
  rcases checkGlobs_cases files hkeyed (trigger_map.flatMap fun e => e.2.map (·.1)) with
    ⟨hcheck, hall⟩ | ⟨after, g, path, hcheck, hnoted⟩
  · right
    have hfound : ∀ e ∈ trigger_map, ∀ path ∈ files.glob e.1, path ∈ e.2.map (·.1) := by
      intro e he path hpath
      rw [← get_isSome, hall e he path hpath]
      rfl
    simp only [DoStatResetTriggers, hcheck]
    refine ⟨trivial, ?_, ?_⟩
    · intro g hg path hpath
      obtain ⟨e, he, rfl⟩ := List.mem_map.mp hg
      rw [remembered_of_mem hkeyed.globs he, hall e he path hpath]
    rw [Bool.not_eq_true', ← Bool.not_eq_true, List.isEmpty_iff, diff_isEmpty hkeyed.paths hfound]
    constructor
    · intro h
      simp only [not_forall] at h
      obtain ⟨e, he, path, hrecorded, hgone⟩ := h
      refine ⟨e.1, mem_map_of_mem he, path, ?_⟩
      rw [remembered_of_mem hkeyed.globs he, seen, if_neg hgone]
      exact Option.isSome_iff_ne_none.mp (get_isSome.mpr hrecorded)
    · rintro ⟨g, hg, path, hdiff⟩ h
      obtain ⟨e, he, rfl⟩ := List.mem_map.mp hg
      rw [remembered_of_mem hkeyed.globs he, seen] at hdiff
      split at hdiff
      · exact hdiff (hall e he path (by assumption))
      · exact absurd (h e he path (get_isSome.mp (Option.isSome_iff_ne_none.mpr hdiff))) (by assumption)
  · left
    exact ⟨g, path, by simp [DoStatResetTriggers, hcheck],
      by simpa [DoStatResetTriggers, hcheck] using hnoted⟩

section Step
variable {globs : List Glob} {before files : Files Glob Path Stamp}
  {trigger_map : TriggerMap Glob Path Stamp}

theorem clears_iff (hkeyed : Keyed trigger_map) (hkeys : ∀ g, g ∈ trigger_map.map (·.1) ↔ g ∈ globs) :
    (DoStatResetTriggers files trigger_map).2 = true ↔
      ∃ g ∈ globs, ∃ path, remembered trigger_map g path ≠ seen files g path := by
  simp only [← hkeys]
  rcases DoStatResetTriggers_cases files hkeyed with ⟨g, path, hclear, hnoted⟩ | ⟨-, -, hiff⟩
  · refine ⟨fun _ => ⟨g, hnoted.mem, path, ?_⟩, fun _ => hclear⟩
    rw [seen, if_pos hnoted.found]
    exact hnoted.differs
  · exact hiff

theorem call_right (h : Synced globs before trigger_map) :
    (DoStatResetTriggers files trigger_map).2 = true ↔ Changed globs before files := by
  rw [clears_iff h.keyed h.keys]
  constructor
  · rintro ⟨g, hg, path, hdiff⟩
    exact ⟨g, hg, path, h.same g hg path ▸ hdiff⟩
  · rintro ⟨g, hg, path, hdiff⟩
    exact ⟨g, hg, path, (h.same g hg path).symm ▸ hdiff⟩

theorem call_keyed (files : Files Glob Path Stamp) (h : Synced globs before trigger_map) :
    Keyed (DoStatResetTriggers files trigger_map).1 ∧
      ∀ g, g ∈ (DoStatResetTriggers files trigger_map).1.map (·.1) ↔ g ∈ globs := by
  rcases DoStatResetTriggers_cases files h.keyed with ⟨g, path, -, hnoted⟩ | ⟨hsame, -⟩
  · exact ⟨⟨hnoted.same ▸ h.keyed.globs, hnoted.paths⟩, fun g => hnoted.same ▸ h.keys g⟩
  · exact ⟨hsame.symm ▸ h.keyed, hsame.symm ▸ h.keys⟩

theorem call_synced (h : Synced globs before trigger_map) :
    Synced globs files (DoStatResetTriggers files trigger_map).1 ↔ Small globs before files := by
  rcases DoStatResetTriggers_cases files h.keyed with ⟨g, path, -, hnoted⟩ | ⟨hsame, hall, -⟩
  · have hg := (h.keys g).mp hnoted.mem
    have hdiff : seen before g path ≠ seen files g path := by
      rw [← h.same g hg, seen, if_pos hnoted.found]
      exact hnoted.differs
    constructor
    · intro hsync
      have hsingle : ∀ g' ∈ globs, ∀ path', seen before g' path' ≠ seen files g' path' →
          g = g' ∧ path = path' := by
        intro g' hg' path' hdiff'
        have hnow := hsync.same g' hg' path'
        rw [hnoted.now] at hnow
        split at hnow
        · assumption
        · exact absurd ((h.same g' hg' path').symm.trans hnow) hdiff'
      refine ⟨?_, ?_⟩
      · intro g' hg' path' hmem
        by_contra hgone
        have hdiff' : seen before g' path' ≠ seen files g' path' := by simp [seen, hmem, hgone]
        obtain ⟨rfl, rfl⟩ := hsingle g' hg' path' hdiff'
        exact hgone hnoted.found
      · intro g₁ hg₁ path₁ hdiff₁ g₂ hg₂ path₂ hdiff₂
        obtain ⟨rfl, rfl⟩ := hsingle g₁ hg₁ path₁ hdiff₁
        exact hsingle g₂ hg₂ path₂ hdiff₂
    · intro hsmall
      refine ⟨(call_keyed files h).1, (call_keyed files h).2, ?_⟩
      intro g' hg' path'
      rw [hnoted.now]
      split
      · rename_i heq
        rw [← heq.1, ← heq.2, seen, if_pos hnoted.found]
      rename_i hne
      by_contra hdiff'
      rw [h.same g' hg'] at hdiff'
      exact hne (hsmall.one g hg path hdiff g' hg' path' hdiff')
  · rw [hsame]
    constructor
    · intro hsync
      have hsee : ∀ g ∈ globs, ∀ path, seen before g path = seen files g path := by
        intro g hg path
        rw [← h.same g hg, hsync.same g hg]
      refine ⟨?_, fun g hg path hdiff => absurd (hsee g hg path) hdiff⟩
      intro g hg path hmem
      have := hsee g hg path
      by_contra hgone
      simp [seen, hmem, hgone] at this
    · intro hsmall
      refine ⟨h.keyed, h.keys, ?_⟩
      intro g hg path
      rw [h.same g hg]
      by_contra hdiff
      by_cases hmem : path ∈ files.glob g
      · rw [← h.same g hg, hall g ((h.keys g).mpr hg) path hmem, seen, if_pos hmem] at hdiff
        exact hdiff rfl
      · have hbefore : path ∉ before.glob g := fun hin => hmem (hsmall.stays g hg path hin)
        simp [seen, hmem, hbefore] at hdiff

end Step

theorem right_of_synced {globs : List Glob} {before : Files Glob Path Stamp}
    {trigger_map : TriggerMap Glob Path Stamp} {history : List (Files Glob Path Stamp)}
    (h : Synced globs before trigger_map) (hsmall : List.IsChain (Small globs) (before :: history))
    (last : Files Glob Path Stamp) : Right globs before trigger_map (history ++ [last]) := by
  induction history generalizing before trigger_map with
  | nil => exact ⟨call_right h, trivial⟩
  | cons files more ih =>
    obtain ⟨hstep, hmore⟩ := List.isChain_cons_cons.mp hsmall
    exact ⟨call_right h, ih ((call_synced h).mpr hstep) hmore⟩

/-- The caches are cleared just when something changed as long as the steps before were small; after a
step that was not, some next call goes wrong. -/
theorem DoStatResetTriggers_right (globs : List Glob) (files : Files Glob Path Stamp) :
    (∀ history, List.IsChain (Small globs) (files :: history) →
      ∀ last, Right globs files (initial files globs) (history ++ [last])) ∧
    ∀ after, (∀ last, Right globs files (initial files globs) [after, last]) ↔
      Small globs files after := by
  have hinitial := synced_initial globs files
  refine ⟨fun history hsmall => right_of_synced hinitial hsmall, ?_⟩
  intro after
  constructor
  · intro hright
    rw [← call_synced hinitial]
    obtain ⟨hkeyed, hkeys⟩ := call_keyed after hinitial
    refine ⟨hkeyed, hkeys, ?_⟩
    intro g hg path
    by_contra hdiff
    -- nothing has changed since, and yet the caches are cleared
    have hagain := (hright after).2.1.mp ((clears_iff hkeyed hkeys).mpr ⟨g, hg, path, hdiff⟩)
    obtain ⟨_, _, _, hsame⟩ := hagain
    exact hsame rfl
  · intro hsmall
    have hchain : List.IsChain (Small globs) (files :: [after]) := by simpa using hsmall
    exact right_of_synced hinitial hchain

end Model

def withPath : Files Unit Nat Nat := ⟨fun _ => [0], fun _ => 0, by simp⟩

def withoutPath : Files Unit Nat Nat := ⟨fun _ => [], fun _ => 0, by simp⟩

/-- A path that is gone clears the caches at every call, and not when it is back. -/
theorem path_gone : ¬ Right [()] withPath (initial withPath [()]) [withoutPath, withoutPath] ∧
    ¬ Right [()] withPath (initial withPath [()]) [withoutPath, withPath] := by
  constructor
  · rintro ⟨-, h, -⟩
    obtain ⟨_, _, _, hsame⟩ := h.mp (by decide)
    exact hsame rfl
  · rintro ⟨-, h, -⟩
    have hchanged : Changed [()] withoutPath withPath := ⟨(), by simp, 0, by decide⟩
    exact absurd (h.mpr hchanged) (by decide)

end Toolwhip.Distcc.StatTriggers
