import Mathlib.Data.Finset.Insert
import Mathlib.Data.List.AList
import Toolwhip.Lib.ThrowingFold

/-! # archive::Reader

A member is known by its offset in the file. What the object file reader makes of its
content is part of the member: a list of atoms, or a message that is thrown. -/

namespace Toolwhip.Ld64.Archive
open Lib.ThrowingFold List
set_option autoImplicit false

abbrev Name := List Char

structure Ranlib where
  ran_strx : Nat
  ran_off : Nat
  deriving DecidableEq, Repr

structure Member (α : Type) where
  offset : Nat
  getName : Name
  atoms : Except Name (List α)

/-- A well formed archive: its members follow one another, and the table of contents
lists members. -/
structure File (α : Type) where
  fPath : Name
  members : List (Member α)
  fTableOfContents : List Ranlib
  fStringPool : List Char
  ordered : members.Pairwise fun m n => m.offset < n.offset
  listed : ∀ e ∈ fTableOfContents, ∃ m ∈ members, m.offset = e.ran_off

abbrev NameToEntryMap := AList fun _ : Name => Ranlib

/-- The order in which a hash table is iterated. -/
structure HashOrder where
  arrange : List ((_ : Name) × Ranlib) → List ((_ : Name) × Ranlib)
  perm : ∀ l, (arrange l).Perm l

/-- What the object file reader of a member is asked for. -/
structure ObjectReader (α : Type) where
  offset : Nat
  getAtoms : List α

structure Reader (α : Type) where
  file : File α
  fFullyLoadArchives : Bool
  fLoadAllObjcObjectsFromArchives : Bool
  hashOrder : HashOrder
  fHashTable : NameToEntryMap := ∅
  fAllAtoms : List α := []
  fInstantiatedReaders : List (ObjectReader α) := []
  fInstantiatedEntries : Finset Nat := ∅

namespace File
variable {α : Type}

def entryName (file : File α) (entry : Ranlib) : Name :=
  (file.fStringPool.drop entry.ran_strx).takeWhile (· ≠ Char.ofNat 0)

def buildHashTable (file : File α) : NameToEntryMap :=
  file.fTableOfContents.reverse.foldl (fun table entry => table.insert (file.entryName entry) entry) ∅

/-- `in archive(member), message` -/
def memberError (file : File α) (m : Member α) (msg : Name) : Name :=
  ['i', 'n', ' '] ++ file.fPath ++ ['('] ++ m.getName ++ [')', ',', ' '] ++ msg

def makeObjectReaderForMember (file : File α) (offset : Nat) : Except Name (ObjectReader α) :=
  match file.members.find? (·.offset = offset) with
  | none => .error []
  | some m =>
    match m.atoms with
    | .ok atoms => .ok ⟨offset, atoms⟩
    | .error msg => .error (file.memberError m msg)

end File

namespace Reader
variable {α : Type}

def openFile (file : File α) (fFullyLoadArchives fLoadAllObjcObjectsFromArchives : Bool)
    (hashOrder : HashOrder) : Reader α :=
  { file, fFullyLoadArchives, fLoadAllObjcObjectsFromArchives, hashOrder
    fHashTable := if fFullyLoadArchives then ∅ else file.buildHashTable }

def markInstantiated (s : Reader α) (offset : Nat) : Reader α :=
  { s with fInstantiatedEntries := insert offset s.fInstantiatedEntries }

def addReader (s : Reader α) (r : ObjectReader α) : Reader α :=
  { s with fInstantiatedReaders := s.fInstantiatedReaders ++ [r] }

def addAtoms (s : Reader α) (r : ObjectReader α) : Reader α :=
  { s with fAllAtoms := s.fAllAtoms ++ r.getAtoms }

def forceLoad (s : Reader α) (m : Member α) : Except Name (Reader α) := do
  let r ← s.file.makeObjectReaderForMember m.offset
  .ok ((s.addAtoms r).addReader r)

def objcClassPrefix : Name := ['.', 'o', 'b', 'j', 'c', '_', 'c']

def objcClassSymbolPrefix : Name :=
  ['_', 'O', 'B', 'J', 'C', '_', 'C', 'L', 'A', 'S', 'S', '_', '$', '_']

/-- An entry of the hash table in the loop of `-ObjC`. -/
def forceObjcLoad (s : Reader α) (it : (_ : Name) × Ranlib) : Except Name (Reader α) :=
  if objcClassPrefix.isPrefixOf it.1 || objcClassSymbolPrefix.isPrefixOf it.1 then
    if it.2.ran_off ∈ s.fInstantiatedEntries then .ok s
    else do
      let r ← s.file.makeObjectReaderForMember it.2.ran_off
      .ok (((s.markInstantiated it.2.ran_off).addAtoms r).addReader r)
  else .ok s

def getAtoms (s : Reader α) : Except Name (List α × Reader α) :=
  if s.fFullyLoadArchives then do
    let s ← s.file.members.foldlM forceLoad s
    .ok (s.fAllAtoms, s)
  else if s.fLoadAllObjcObjectsFromArchives then do
    let s ← (s.hashOrder.arrange s.fHashTable.entries).foldlM forceObjcLoad s
    .ok (s.fAllAtoms, s)
  else .ok ([], s)

def getJustInTimeAtomsFor (s : Reader α) (name : Name) : Except Name (Option (List α) × Reader α) :=
  if s.fFullyLoadArchives then .ok (none, s)
  else
    match s.fHashTable.lookup name with
    | none => .ok (none, s)
    | some result =>
      if result.ran_off ∈ s.fInstantiatedEntries then .ok (none, s)
      else do
        let r ← s.file.makeObjectReaderForMember result.ran_off
        .ok (some r.getAtoms, (s.markInstantiated result.ran_off).addReader r)

inductive Call where
  | getAtoms
  | getJustInTimeAtomsFor (name : Name)
  deriving DecidableEq

def call (s : Reader α) : Call → Except Name (Option (List α) × Reader α)
  | .getAtoms => do
    let r ← s.getAtoms
    .ok (some r.1, r.2)
  | .getJustInTimeAtomsFor name => s.getJustInTimeAtomsFor name

def run : List Call → Reader α → Except Name (List (Option (List α)) × Reader α)
  | [], s => .ok ([], s)
  | c :: calls, s => do
    let r ← s.call c
    let rest ← run calls r.2
    .ok (r.1 :: rest.1, rest.2)

def handed (answers : List (Option (List α))) : List α := answers.flatMap fun a => a.getD []

end Reader
/-! ## Members are loaded once, the first listed first

The hash table answers as a search of the table of contents from its beginning does, and
the set of instantiated entries is the set of the readers' members. -/

variable {α : Type}

namespace File

theorem lookup_buildHashTable (file : File α) (name : Name) : file.buildHashTable.lookup name =
      file.fTableOfContents.find? fun e => file.entryName e = name := by
  unfold buildHashTable
  rw [foldl_reverse]
  induction file.fTableOfContents with
  | nil => exact AList.lookup_empty name
  | cons e toc ih =>
    rw [foldr_cons]
    by_cases he : file.entryName e = name
    · subst he
      rw [AList.lookup_insert]
      symm
      apply find?_cons_of_pos
      exact decide_eq_true rfl
    · rw [AList.lookup_insert_ne (Ne.symm he), ih, find?_cons_of_neg]
      rw [decide_eq_true_iff]
      exact he

def Genuine (file : File α) (r : ObjectReader α) : Prop :=
  ∃ m ∈ file.members, m.offset = r.offset ∧ m.atoms = .ok r.getAtoms

theorem find_offset {members : List (Member α)}
    (hordered : members.Pairwise fun m n => m.offset < n.offset) {m : Member α}
    (hm : m ∈ members) : members.find? (·.offset = m.offset) = some m := by
  induction members with
  | nil => cases hm
  | cons n members ih =>
    obtain ⟨hn, hrest⟩ := List.pairwise_cons.mp hordered
    cases hm with
    | head => exact find?_cons_of_pos (decide_eq_true rfl)
    | tail _ hm =>
      have hne : n.offset ≠ m.offset := Nat.ne_of_lt (hn m hm)
      rw [find?_cons_of_neg (by simpa using hne)]
      exact ih hrest hm

theorem makeObjectReaderForMember_ok {file : File α} {offset : Nat} {r : ObjectReader α}
    (h : file.makeObjectReaderForMember offset = .ok r) : r.offset = offset ∧ file.Genuine r := by
  unfold makeObjectReaderForMember at h
  split at h
  · cases h
  rename_i m hfind
  have hoffset := find?_some hfind
  split at h
  · rename_i atoms hatoms
    cases h
    exact ⟨rfl, m, mem_of_find?_eq_some hfind, of_decide_eq_true hoffset, hatoms⟩
  · cases h

theorem makeObjectReaderForMember_member {file : File α} {m : Member α} (hm : m ∈ file.members)
    {atoms : List α} (hatoms : m.atoms = .ok atoms) :
    file.makeObjectReaderForMember m.offset = .ok ⟨m.offset, atoms⟩ := by
  unfold makeObjectReaderForMember
  rw [find_offset file.ordered hm]
  dsimp only
  rw [hatoms]

theorem offsets_nodup (file : File α) : (file.members.map (·.offset)).Nodup := by
  apply List.pairwise_map.mpr
  apply file.ordered.imp
  intro m n hlt
  exact Nat.ne_of_lt hlt

end File

namespace Reader

def offsets (s : Reader α) : List Nat := s.fInstantiatedReaders.map (·.offset)

structure Consistent (s : Reader α) : Prop where
  once : s.offsets.Nodup
  genuine : ∀ r ∈ s.fInstantiatedReaders, s.file.Genuine r
  tracked : s.fFullyLoadArchives = false → ∀ off, off ∈ s.fInstantiatedEntries ↔ off ∈ s.offsets

/-- From `s` to `t` the readers `new` are made, and nothing else is new but the sets that
keep track of them. -/
structure Makes (s t : Reader α) (new : List (ObjectReader α)) : Prop where
  file : t.file = s.file
  mode : t.fFullyLoadArchives = s.fFullyLoadArchives
  table : t.fHashTable = s.fHashTable
  readers : t.fInstantiatedReaders = s.fInstantiatedReaders ++ new

theorem Makes.refl (s : Reader α) : s.Makes s [] :=
  ⟨rfl, rfl, rfl, (append_nil _).symm⟩

variable {s t u : Reader α}

theorem Makes.trans {new new' : List (ObjectReader α)} (h : s.Makes t new)
    (h' : t.Makes u new') : s.Makes u (new ++ new') where
  file := h'.file.trans h.file
  mode := h'.mode.trans h.mode
  table := h'.table.trans h.table
  readers := by rw [h'.readers, h.readers, append_assoc]

theorem Consistent.load {r : ObjectReader α} {offset : Nat} (hs : s.Consistent)
    (hmode : s.fFullyLoadArchives = false) (hnew : offset ∉ s.fInstantiatedEntries)
    (hr : s.file.makeObjectReaderForMember offset = .ok r) (hmakes : s.Makes t [r])
    (hentries : t.fInstantiatedEntries = insert offset s.fInstantiatedEntries) : t.Consistent := by
  obtain ⟨hoffset, hgenuine⟩ := File.makeObjectReaderForMember_ok hr
  have hoffsets : t.offsets = s.offsets ++ [offset] := by
    rw [offsets, hmakes.readers, map_append, map_singleton, hoffset]
    rfl
  have htracked := hs.tracked hmode
  constructor
  · rw [hoffsets]
    apply List.Nodup.append hs.once (nodup_singleton offset)
    intro off hoff hoff'
    rw [mem_singleton] at hoff'
    subst hoff'
    exact hnew ((htracked off).mpr hoff)
  · intro q hq
    rw [hmakes.file]
    rw [hmakes.readers] at hq
    cases List.mem_append.mp hq with
    | inl hq => exact hs.genuine q hq
    | inr hq =>
      rw [mem_singleton] at hq
      exact hq ▸ hgenuine
  · intro _ off
    rw [hentries, hoffsets, Finset.mem_insert, mem_append, mem_singleton, htracked off]
    exact or_comm

/-- The readers made since `s` and their atoms at the end of `fAllAtoms`. -/
def Collects (s t : Reader α) : Prop :=
  ∃ new, s.Makes t new ∧ t.fAllAtoms = s.fAllAtoms ++ new.flatMap (·.getAtoms)

theorem Collects.refl (s : Reader α) : s.Collects s :=
  ⟨[], Makes.refl s, (append_nil _).symm⟩

theorem Collects.trans (h : s.Collects t) (h' : t.Collects u) : s.Collects u := by
  obtain ⟨new, hmakes, hatoms⟩ := h
  obtain ⟨new', hmakes', hatoms'⟩ := h'
  refine ⟨new ++ new', hmakes.trans hmakes', ?_⟩
  rw [hatoms', hatoms, flatMap_append, append_assoc]

theorem forceObjcLoad_step {it : (_ : Name) × Ranlib} (hs : s.Consistent)
    (hmode : s.fFullyLoadArchives = false) (h : s.forceObjcLoad it = .ok t) :
    t.Consistent ∧ s.Collects t := by
  unfold forceObjcLoad at h
  split at h
  · split at h
    · cases h
      exact ⟨hs, Collects.refl s⟩
    rename_i hnew
    obtain ⟨r, hr, h⟩ := bind_eq_ok.mp h
    cases h
    have hmakes : s.Makes (((s.markInstantiated it.2.ran_off).addAtoms r).addReader r) [r] :=
      ⟨rfl, rfl, rfl, rfl⟩
    refine ⟨hs.load hmode hnew hr hmakes rfl, [r], hmakes, ?_⟩
    rw [flatMap_singleton]
    rfl
  · cases h
    exact ⟨hs, Collects.refl s⟩

theorem forceObjcLoads {entries : List ((_ : Name) × Ranlib)}
    (hs : s.Consistent) (hmode : s.fFullyLoadArchives = false)
    (h : entries.foldlM forceObjcLoad s = .ok t) : t.Consistent ∧ s.Collects t := by
  have hinvariant : t.Consistent ∧ t.fFullyLoadArchives = false ∧ s.Collects t := by
    apply foldlM_invariant
      (P := fun t => t.Consistent ∧ t.fFullyLoadArchives = false ∧ s.Collects t)
      _ ⟨hs, hmode, Collects.refl s⟩ h
    intro u it v _ ⟨hu, humode, hsu⟩ hstep
    obtain ⟨hv, huv⟩ := forceObjcLoad_step hu humode hstep
    refine ⟨hv, ?_, hsu.trans huv⟩
    obtain ⟨new, hmakes, _⟩ := huv
    exact hmakes.mode.trans humode
  exact ⟨hinvariant.1, hinvariant.2.2⟩

/-- What has been loaded after the members `pre`. -/
structure LoadedUpTo (s : Reader α) (pre : List (Member α)) (t : Reader α) : Prop where
  collects : s.Collects t
  offsets : t.offsets = pre.map (·.offset)
  genuine : ∀ r ∈ t.fInstantiatedReaders, t.file.Genuine r

theorem forceLoad_step {v : Reader α} {pre : List (Member α)} {m : Member α}
    (hu : s.LoadedUpTo pre u) (h : u.forceLoad m = .ok v) : s.LoadedUpTo (pre ++ [m]) v := by
  obtain ⟨r, hr, h⟩ := bind_eq_ok.mp h
  cases h
  obtain ⟨hoffset, hgenuine⟩ := File.makeObjectReaderForMember_ok hr
  constructor
  · apply hu.collects.trans
    refine ⟨[r], ⟨rfl, rfl, rfl, rfl⟩, ?_⟩
    rw [flatMap_singleton]
    rfl
  · rw [map_append, ← hu.offsets, map_singleton, ← hoffset]
    exact map_append
  · intro q hq
    cases List.mem_append.mp hq with
    | inl hq => exact hu.genuine q hq
    | inr hq =>
      rw [mem_singleton] at hq
      exact hq ▸ hgenuine

theorem forceLoads (hnone : s.fInstantiatedReaders = [])
    (hmode : s.fFullyLoadArchives = true) (h : s.file.members.foldlM forceLoad s = .ok t) :
    t.Consistent ∧ s.Collects t := by
  have hstart : s.LoadedUpTo [] s := by
    refine ⟨Collects.refl s, ?_, ?_⟩
    · rw [offsets, hnone]
      rfl
    · intro r hr
      rw [hnone] at hr
      cases hr
  have hloaded : s.LoadedUpTo s.file.members t := by
    apply foldlM_progress (P := s.LoadedUpTo) _ hstart h
    intro pre m post u v _ hu hstep
    exact forceLoad_step hu hstep
  refine ⟨⟨?_, hloaded.genuine, ?_⟩, hloaded.collects⟩
  · rw [hloaded.offsets]
    exact s.file.offsets_nodup
  · obtain ⟨new, hmakes, _⟩ := hloaded.collects
    intro ht
    rw [hmakes.mode, hmode] at ht
    cases ht

/-- Nothing has been collected, and in `-all_load` nothing loaded. -/
def Unasked (s : Reader α) : Prop :=
  s.fAllAtoms = [] ∧ (s.fFullyLoadArchives = true → s.fInstantiatedReaders = [])

theorem getAtoms_step {atoms : List α} (hs : s.Consistent) (hfirst : s.Unasked)
    (h : s.getAtoms = .ok (atoms, t)) :
    t.Consistent ∧ ∃ new, s.Makes t new ∧ atoms = new.flatMap (·.getAtoms) := by
  have collected : ∀ {u : Reader α}, u.Consistent ∧ s.Collects u →
      u.Consistent ∧ ∃ new, s.Makes u new ∧ u.fAllAtoms = new.flatMap (·.getAtoms) := by
    intro u ⟨hu, new, hmakes, hatoms⟩
    rw [hfirst.1, nil_append] at hatoms
    exact ⟨hu, new, hmakes, hatoms⟩
  unfold getAtoms at h
  split at h
  · rename_i hmode
    obtain ⟨u, hu, h⟩ := bind_eq_ok.mp h
    cases h
    exact collected (forceLoads (hfirst.2 hmode) hmode hu)
  rename_i hmode
  split at h
  · obtain ⟨u, hu, h⟩ := bind_eq_ok.mp h
    cases h
    exact collected (forceObjcLoads hs (Bool.eq_false_iff.mpr hmode) hu)
  · cases h
    exact ⟨hs, [], Makes.refl s, rfl⟩

theorem getJustInTimeAtomsFor_step {name : Name} {answer : Option (List α)}
    (hs : s.Consistent) (h : s.getJustInTimeAtomsFor name = .ok (answer, t)) :
    t.Consistent ∧ t.fAllAtoms = s.fAllAtoms ∧
      ∃ new, s.Makes t new ∧ answer.getD [] = new.flatMap (·.getAtoms) ∧
        (s.fFullyLoadArchives = true → new = []) := by
  have unchanged : s.Consistent ∧ s.fAllAtoms = s.fAllAtoms ∧
      ∃ new, s.Makes s new ∧ (none : Option (List α)).getD [] = new.flatMap (·.getAtoms) ∧
        (s.fFullyLoadArchives = true → new = []) :=
    ⟨hs, rfl, [], Makes.refl s, rfl, fun _ => rfl⟩
  unfold getJustInTimeAtomsFor at h
  split at h
  · cases h
    exact unchanged
  rename_i hmode
  split at h
  · cases h
    exact unchanged
  split at h
  · cases h
    exact unchanged
  rename_i result _ hnew
  obtain ⟨r, hr, h⟩ := bind_eq_ok.mp h
  cases h
  have hmakes : s.Makes ((s.markInstantiated result.ran_off).addReader r) [r] :=
    ⟨rfl, rfl, rfl, rfl⟩
  refine ⟨hs.load (Bool.eq_false_iff.mpr hmode) hnew hr hmakes rfl, rfl, [r], hmakes, ?_, ?_⟩
  · rw [flatMap_singleton]
    rfl
  · intro htrue
    exact absurd htrue hmode

theorem run_hands {calls : List Call} {answers : List (Option (List α))}
    (hs : s.Consistent) (hone : calls.count .getAtoms ≤ 1)
    (hfirst : .getAtoms ∈ calls → s.Unasked) (h : run calls s = .ok (answers, t)) :
    t.Consistent ∧ ∃ new, s.Makes t new ∧ handed answers = new.flatMap (·.getAtoms) := by
  induction calls generalizing s answers with
  | nil =>
    cases h
    exact ⟨hs, [], Makes.refl _, rfl⟩
  | cons c calls ih =>
    obtain ⟨⟨answer, u⟩, hcall, h⟩ := bind_eq_ok.mp h
    obtain ⟨⟨rest, v⟩, hrest, h⟩ := bind_eq_ok.mp h
    obtain ⟨rfl, rfl⟩ := Prod.mk.inj (Except.ok.inj h)
    have compose : ∀ {new}, s.Makes u new → answer.getD [] = new.flatMap (·.getAtoms) →
        (v.Consistent ∧ ∃ new', u.Makes v new' ∧ handed rest = new'.flatMap (·.getAtoms)) →
        v.Consistent ∧
          ∃ new, s.Makes v new ∧ handed (answer :: rest) = new.flatMap (·.getAtoms) := by
      intro new hmakes hanswer ⟨ht, new', hmakes', hhanded⟩
      refine ⟨ht, new ++ new', hmakes.trans hmakes', ?_⟩
      rw [flatMap_append, ← hanswer, ← hhanded]
      rfl
    cases c with
    | getAtoms =>
      obtain ⟨⟨atoms, u'⟩, hget, hcall⟩ := bind_eq_ok.mp hcall
      cases hcall
      obtain ⟨hu, new, hmakes, hatoms⟩ :=
        getAtoms_step hs (hfirst mem_cons_self) hget
      rw [count_cons_self] at hone
      have hnomore : .getAtoms ∉ calls := List.count_eq_zero.mp (by omega)
      exact compose hmakes hatoms
        (ih hu (by omega) (fun hmem => absurd hmem hnomore) hrest)
    | getJustInTimeAtomsFor name =>
      obtain ⟨hu, hall, new, hmakes, hanswer, hfull⟩ := getJustInTimeAtomsFor_step hs hcall
      refine compose hmakes hanswer (ih hu hone ?_ hrest)
      intro hmem
      obtain ⟨hatoms, hreaders⟩ := hfirst (mem_cons_of_mem _ hmem)
      refine ⟨hall.trans hatoms, ?_⟩
      intro hmode
      rw [hmakes.mode] at hmode
      rw [hmakes.readers, hreaders hmode, hfull hmode, append_nil]

/-- A listed symbol whose first member has not been loaded gets that member's atoms. -/
theorem getJustInTimeAtomsFor_first {name : Name} {e : Ranlib}
    (hs : s.Consistent) (hmode : s.fFullyLoadArchives = false)
    (htable : s.fHashTable = s.file.buildHashTable)
    (hfirst : s.file.fTableOfContents.find? (fun e => s.file.entryName e = name) = some e)
    (hnew : e.ran_off ∉ s.offsets) :
    ∃ m ∈ s.file.members, m.offset = e.ran_off ∧ ∀ atoms, m.atoms = .ok atoms →
      ∃ t, s.getJustInTimeAtomsFor name = .ok (some atoms, t) := by
  obtain ⟨m, hm, hoffset⟩ := s.file.listed e (mem_of_find?_eq_some hfirst)
  refine ⟨m, hm, hoffset, ?_⟩
  intro atoms hatoms
  have hmake := File.makeObjectReaderForMember_member hm hatoms
  rw [hoffset] at hmake
  have hentries : e.ran_off ∉ s.fInstantiatedEntries := fun h =>
    hnew ((hs.tracked hmode e.ran_off).mp h)
  refine ⟨(s.markInstantiated e.ran_off).addReader ⟨e.ran_off, atoms⟩, ?_⟩
  unfold getJustInTimeAtomsFor
  rw [if_neg (Bool.eq_false_iff.mp hmode), htable, File.lookup_buildHashTable, hfirst]
  dsimp only
  rw [if_neg hentries, hmake]
  rfl

theorem openFile_consistent (file : File α) (full objc : Bool) (order : HashOrder) :
    (openFile file full objc order).Consistent where
  once := nodup_nil
  genuine := by
    intro r hr
    cases hr
  tracked := by
    intro _ off
    constructor
    · intro hoff
      exact absurd hoff (Finset.notMem_empty off)
    · intro hoff
      cases hoff

/-- In any sequence of calls with at most one to `getAtoms`, a member is instantiated at
most once and its atoms are handed out once, when it is; and a listed symbol whose
first-listed member is not yet instantiated gets exactly that member's atoms. -/
theorem run_loads_once (file : File α) (full objc : Bool) (order : HashOrder)
    (calls : List Call) (hone : calls.count .getAtoms ≤ 1)
    (answers : List (Option (List α))) (s : Reader α)
    (h : run calls (openFile file full objc order) = .ok (answers, s)) :
    (s.fInstantiatedReaders.map (·.offset)).Nodup ∧
    (∀ r ∈ s.fInstantiatedReaders, ∃ m ∈ file.members, m.offset = r.offset ∧
      m.atoms = .ok r.getAtoms) ∧
    handed answers = s.fInstantiatedReaders.flatMap (·.getAtoms) ∧
    (full = false → ∀ name e,
      file.fTableOfContents.find? (fun e => file.entryName e = name) = some e →
      e.ran_off ∉ s.fInstantiatedReaders.map (·.offset) →
      ∃ m ∈ file.members, m.offset = e.ran_off ∧ ∀ atoms, m.atoms = .ok atoms →
        ∃ t, s.getJustInTimeAtomsFor name = .ok (some atoms, t)) := by
  obtain ⟨hs, new, hmakes, hhanded⟩ :=
    run_hands (openFile_consistent file full objc order) hone (fun _ => ⟨rfl, fun _ => rfl⟩) h
  have hfile : s.file = file := hmakes.file
  have hreaders : s.fInstantiatedReaders = new := hmakes.readers
  refine ⟨hs.once, ?_, hreaders ▸ hhanded, ?_⟩
  · intro r hr
    exact hfile ▸ hs.genuine r hr
  · intro hfull name e hfirst hnew
    have hmode : s.fFullyLoadArchives = false := hmakes.mode.trans hfull
    have htable : s.fHashTable = s.file.buildHashTable := by
      rw [hmakes.table, hfile]
      exact if_neg (Bool.eq_false_iff.mp hfull)
    rw [← hfile] at hfirst ⊢
    exact getJustInTimeAtomsFor_first hs hmode htable hfirst hnew

def rivals : File Nat where
  fPath := ['l', 'i', 'b', '.', 'a']
  members := [⟨100, ['m'], .ok [1, 2]⟩, ⟨200, ['n'], .ok [3]⟩]
  fTableOfContents := [⟨0, 200⟩, ⟨0, 100⟩]
  fStringPool := ['x', Char.ofNat 0]
  ordered := by decide
  listed := by decide

theorem run_loads_once_rivals : ∃ answers s,
      run [.getJustInTimeAtomsFor ['x'], .getAtoms, .getJustInTimeAtomsFor ['x']]
        (openFile rivals false true ⟨fun l => l, fun l => List.Perm.refl l⟩) = .ok (answers, s) ∧
      (s.fInstantiatedReaders.map (·.offset)).Nodup ∧
      handed answers = s.fInstantiatedReaders.flatMap (·.getAtoms) ∧ handed answers = [3] := by
  refine ⟨[some [3], some [], none], _, rfl, ?_⟩
  have h := run_loads_once rivals false true ⟨fun l => l, fun l => List.Perm.refl l⟩
    [.getJustInTimeAtomsFor ['x'], .getAtoms, .getJustInTimeAtomsFor ['x']] (by decide)
    [some [3], some [], none] _ rfl
  exact ⟨h.1, h.2.2.1, rfl⟩

end Reader
end Toolwhip.Ld64.Archive
