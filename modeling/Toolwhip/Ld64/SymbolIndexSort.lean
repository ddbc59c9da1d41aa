import Toolwhip.Ld64.SymbolIndexRanges

/-! # When symbolIndex is right

Locals and imports are always found. An exported atom is found when no result of the second
sort moves it, and that depends on the names only. -/

namespace Toolwhip.Ld64
open Lib.SortContract Lib.ThrowingFold List
set_option autoImplicit false

namespace SymbolWriter
variable {w : SymbolWriter} {s : FillState} {f : FilledLists} {out : List SymbolEntry}

/-- What a filled list of lists is known by. -/
structure Holding (w : SymbolWriter) (f : FilledLists) : Prop where
  locals : f.locals.map SymbolEntry.owner = w.fLocalSymbolAtoms.map some
  exports : f.exports.map SymbolEntry.owner = w.fExportedAtoms.map some
  imports : f.imports.map SymbolEntry.owner = w.fImportedAtoms.map some
  stabs : f.stabs.length = w.fSymbolTableStabsCount
  localFilled : ∀ e ∈ f.locals, ∀ a, e.owner = some a → w.FilledFor a e.nlist
  exportFilled : ∀ e ∈ f.exports, ∀ a, e.owner = some a → w.FilledFor a e.nlist
  importFilled : ∀ e ∈ f.imports, ∀ a, e.owner = some a → w.FilledFor a e.nlist

theorem holding (h : w.fillLists s = .ok f) : Holding w f := by
  obtain ⟨s₁, s₂, s₃, s₄, hf⟩ := fillLists_ok.mp h
  refine ⟨fillAll_owners hf.locals, fillAll_owners hf.exports, fillAll_owners hf.imports,
    fillAll_length hf.stabs, ?_, ?_, ?_⟩
  · intro e he a ha
    obtain ⟨x, -, hx, t, t', hfill⟩ := fillAll_filled hf.locals e he
    rw [ha] at hx
    cases hx
    exact ⟨t, t', Or.inl hfill⟩
  · intro e he a ha
    obtain ⟨x, -, hx, t, t', hfill⟩ := fillAll_filled hf.exports e he
    rw [ha] at hx
    cases hx
    exact ⟨t, t', Or.inr (Or.inl hfill)⟩
  · intro e he a ha
    obtain ⟨x, -, hx, t, t', hfill⟩ := fillAll_filled hf.imports e he
    rw [ha] at hx
    cases hx
    exact ⟨t, t', Or.inr (Or.inr hfill)⟩

variable {entries : List SymbolEntry}

theorem length_of_owners {atoms : List AtomPtr}
    (h : entries.map SymbolEntry.owner = atoms.map some) : entries.length = atoms.length := by
  have hlen := congrArg List.length h
  rwa [length_map, length_map] at hlen

theorem Holding.exportStart (h : Holding w f) : w.fSymbolTableExportStartIndex =
    (f.stabs ++ (f.locals ++ labelEntries w.fLocalExtraLabels)).length := by
  simp [h.stabs, length_of_owners h.locals, length_labelEntries, fSymbolTableExportStartIndex,
    fSymbolTableLocalCount, fSymbolTableLocalStartIndex, fSymbolTableStabsStartIndex]

variable {a : AtomPtr}

theorem Holding.import_at (h : Holding w f) (hout : ExportRange w f out)
    (ha : a ∈ w.fImportedAtoms) : ∃ e, e.owner = some a ∧ w.FilledFor a e.nlist ∧
      (f.table w out)[w.fImportedAtoms.idxOf a + w.fSymbolTableImportStartIndex]? = some e := by
  obtain ⟨e, he, howner⟩ := entry_at h.imports ha
  have hmem := mem_of_getElem? he
  refine ⟨e, howner, h.importFilled e hmem a howner, ?_⟩
  rw [← he]
  have hlt : w.fImportedAtoms.idxOf a < f.imports.length := by
    rw [length_of_owners h.imports]
    exact idxOf_lt_length_of_mem ha
  have hmiddle := @getElem?_middle
    (f.stabs ++ (f.locals ++ labelEntries w.fLocalExtraLabels) ++ out) f.imports [] _
    (w.fImportedAtoms.idxOf a + w.fSymbolTableImportStartIndex) hlt (by
      rw [length_append, ← h.exportStart, hout.length_eq, length_of_owners h.exports]
      rfl)
  rwa [append_nil] at hmiddle

theorem Holding.local_at (h : Holding w f) (ha : a ∈ w.fLocalSymbolAtoms) :
    ∃ e, e.owner = some a ∧ w.FilledFor a e.nlist ∧
      (f.table w out)[w.fLocalSymbolAtoms.idxOf a + w.fSymbolTableLocalStartIndex]? = some e := by
  obtain ⟨e, he, howner⟩ := entry_at h.locals ha
  have hmem := mem_of_getElem? he
  refine ⟨e, howner, h.localFilled e hmem a howner, ?_⟩
  rw [← he]
  have hlt : w.fLocalSymbolAtoms.idxOf a < f.locals.length := by
    rw [length_of_owners h.locals]
    exact idxOf_lt_length_of_mem ha
  have hmiddle := @getElem?_middle f.stabs f.locals
    (labelEntries w.fLocalExtraLabels ++ out ++ f.imports) _
    (w.fLocalSymbolAtoms.idxOf a + w.fSymbolTableLocalStartIndex) hlt (by
      rw [h.stabs, fSymbolTableLocalStartIndex, fSymbolTableStabsStartIndex, Nat.zero_add])
  rw [← hmiddle]
  simp [FilledLists.table]

theorem Holding.export_at (h : Holding w f) (hout : ExportRange w f out) {i : Nat}
    (hi : i < f.exports.length) :
    (f.table w out)[i + w.fSymbolTableExportStartIndex]? = out[i]? := by
  have hlt : i < out.length := by
    rw [hout.length_eq]
    omega
  exact getElem?_middle hlt (by rw [h.exportStart])

theorem Holding.agrees_of_starts (h : Holding w f) (hout : ExportRange w f out)
    (hstarts : f.exports <+: out) : w.IndexesAgree (f.table w out) := by
  intro a ha
  unfold symbolIndex
  by_cases himport : a ∈ w.fImportedAtoms
  · obtain ⟨e, howner, hfilled, he⟩ := h.import_at hout himport
    rw [if_pos himport]
    exact ⟨_, e, rfl, he, howner, hfilled⟩
  rw [if_neg himport]
  by_cases hlocal : a ∈ w.fLocalSymbolAtoms
  · obtain ⟨e, howner, hfilled, he⟩ := h.local_at hlocal
    rw [if_pos hlocal]
    exact ⟨_, e, rfl, he, howner, hfilled⟩
  rw [if_neg hlocal]
  have hexport : a ∈ w.fExportedAtoms := by
    rcases List.mem_append.mp ha with ha | ha
    · rcases List.mem_append.mp ha with ha | ha
      · exact absurd ha hlocal
      · exact ha
    · exact absurd ha himport
  obtain ⟨e, he, howner⟩ := entry_at h.exports hexport
  have hlt : w.fExportedAtoms.idxOf a < f.exports.length := by
    rw [length_of_owners h.exports]
    exact idxOf_lt_length_of_mem hexport
  rw [if_pos hexport]
  refine ⟨_, e, rfl, ?_, howner, h.exportFilled e (mem_of_getElem? he) a howner⟩
  rw [h.export_at hout hlt]
  obtain ⟨rest, rfl⟩ := hstarts
  rw [getElem?_append_left hlt, he]

theorem eq_of_owner (hnd : (entries.map SymbolEntry.owner).Nodup)
    {e e' : SymbolEntry} (he : e ∈ entries) (he' : e' ∈ entries) (h : e.owner = e'.owner) :
    e = e' :=
  inj_on_of_nodup_map hnd he he' h

/-- Where all atoms are found, the exports start the range as they were filled. -/
theorem Holding.starts_of_agrees (h : Holding w f) (hout : ExportRange w f out)
    (hset : (w.fLocalSymbolAtoms ++ w.fExportedAtoms ++ w.fImportedAtoms).Nodup)
    (hagree : w.IndexesAgree (f.table w out)) : f.exports <+: out := by
  have hsub : ∀ e ∈ out, e.owner ≠ none → e ∈ f.exports := by
    intro e he howner
    cases hout with
    | noLabels _ => exact he
    | sorts _ out _ hsort =>
      rcases List.mem_append.mp (hsort.perm.mem_iff.mp he) with he | he
      · exact he
      · exact absurd (labelEntries_owner he) howner
  obtain ⟨hdefined, -, himports⟩ := List.nodup_append.mp hset
  obtain ⟨-, hexports, hlocals⟩ := List.nodup_append.mp hdefined
  have hnd : (f.exports.map SymbolEntry.owner).Nodup := by
    rw [h.exports]
    exact hexports.map (Option.some_injective _)
  rw [prefix_iff_getElem?]
  intro i hi
  have hi' : i < w.fExportedAtoms.length := by
    rwa [← length_of_owners h.exports]
  have hmem : w.fExportedAtoms[i] ∈ w.fExportedAtoms := getElem_mem hi'
  obtain ⟨j, e, hj, he, howner, -⟩ := hagree w.fExportedAtoms[i]
    (mem_append_left _ (mem_append_right _ hmem))
  have hnotImport : w.fExportedAtoms[i] ∉ w.fImportedAtoms := by
    intro hmem'
    exact himports _ (mem_append_right _ hmem) _ hmem' rfl
  have hnotLocal : w.fExportedAtoms[i] ∉ w.fLocalSymbolAtoms := by
    intro hmem'
    exact hlocals _ hmem' _ hmem rfl
  rw [symbolIndex, if_neg hnotImport, if_neg hnotLocal, if_pos hmem,
    hexports.idxOf_getElem i hi'] at hj
  cases hj
  rw [h.export_at hout hi] at he
  have hfilled : (f.exports[i]).owner = some w.fExportedAtoms[i] := by
    have hget := congrArg (·[i]?) h.exports
    simpa [hi, hi'] using hget
  have heq : e = f.exports[i] := by
    apply eq_of_owner hnd (hsub e (mem_of_getElem? he) ?_) (getElem_mem hi)
    · rw [howner, hfilled]
    · rw [howner]
      exact nofun
  rw [he, heq]

theorem comparesKey (pool : StringPool) : ComparesKey (nListNameSorter pool) (nameKey pool) := by
  intro a b
  exact decide_eq_true_iff

def ExportsFirst (w : SymbolWriter) (f : FilledLists) : Prop :=
  f.exports.Pairwise (fun a b => nameKey f.pool a < nameKey f.pool b) ∧
    ∀ a ∈ f.exports, ∀ b ∈ labelEntries w.fGlobalExtraLabels, nameKey f.pool a < nameKey f.pool b

theorem ExportRange.starts_with (hout : ExportRange w f out)
    (hfirst : w.fGlobalExtraLabels = [] ∨ w.ExportsFirst f) : f.exports <+: out := by
  cases hout with
  | noLabels _ => exact prefix_refl _
  | sorts hlabels out _ hsort =>
    rcases hfirst with hnone | ⟨hstrict, hless⟩
    · exact absurd hnone hlabels
    · exact hsort.starts_with (comparesKey f.pool) hstrict hless

theorem Holding.exportsFirst (h : Holding w f) (hf : w.fillLists s = .ok f)
    (hset : (w.fLocalSymbolAtoms ++ w.fExportedAtoms ++ w.fImportedAtoms).Nodup)
    (hlabels : w.fGlobalExtraLabels ≠ []) (hread : Comparable f.pool (f.exportInput w))
    (hagree : ∀ table, w.BuildSymbolTable s table → w.IndexesAgree table) : w.ExportsFirst f := by
  have hdefined := (List.nodup_append.mp hset).1
  have hexports := (List.nodup_append.mp hdefined).2.1
  have hnd : f.exports.Nodup := by
    apply List.Nodup.of_map SymbolEntry.owner
    rw [h.exports]
    exact hexports.map (Option.some_injective _)
  refine @strict_of_starts_with _ _ _ _ _ (comparesKey f.pool) [] _ _ hnd ?_ ?_
  · intro e he hlabel
    have hmem := mem_map_of_mem (f := SymbolEntry.owner) he
    rw [h.exports, labelEntries_owner hlabel] at hmem
    obtain ⟨a, -, ha⟩ := List.mem_map.mp hmem
    cases ha
  · intro out hsort
    have hout : ExportRange w f out := .sorts hlabels out hread hsort
    exact h.starts_of_agrees hout hset (hagree _ (buildSymbolTable_iff.mpr ⟨f, out, hf, hout, rfl⟩))

/-- `symbolIndex` leads to the atom's own entry in every table that can be built exactly when
there are no global labels, or the names of the exported atoms stand before theirs. -/
theorem symbolIndex_agrees_iff
    (hset : (w.fLocalSymbolAtoms ++ w.fExportedAtoms ++ w.fImportedAtoms).Nodup)
    (hbuilds : ∃ table, w.BuildSymbolTable s table) :
    (∀ table, w.BuildSymbolTable s table → w.IndexesAgree table) ↔
      w.fGlobalExtraLabels = [] ∨ ∀ f, w.fillLists s = .ok f → w.ExportsFirst f := by
  constructor
  · intro hagree
    obtain ⟨table, hbuild⟩ := hbuilds
    obtain ⟨f, out, hf, hout, -⟩ := buildSymbolTable_iff.mp hbuild
    cases hout with
    | noLabels hnone => exact Or.inl hnone
    | sorts hlabels _ hread _ =>
      right
      intro f' hf'
      rw [hf] at hf'
      cases hf'
      exact (holding hf).exportsFirst hf hset hlabels hread hagree
  · intro hfirst table hbuild
    obtain ⟨f, out, hf, hout, rfl⟩ := buildSymbolTable_iff.mp hbuild
    refine (holding hf).agrees_of_starts hout (hout.starts_with ?_)
    exact hfirst.imp_right fun hfirst => hfirst f hf

def plainNames (w : SymbolWriter) (l : List AtomPtr) : List (List UInt8) :=
  l.map fun a => ((w.atom a).getName.map CString.chars).getD []

def namesSize : List (List UInt8) → Nat
  | [] => 0
  | name :: rest => name.length + 1 + namesSize rest

variable {s' : FillState}

theorem add_ok {name : List UInt8} {o : Int} (h : s.add name = .ok (o, s')) :
    s.fStringsAtom.add name = some (o, s'.fStringsAtom) := by
  unfold FillState.add at h
  cases hadd : s.fStringsAtom.add name with
  | none =>
    rw [hadd] at h
    cases h
  | some r =>
    rw [hadd] at h
    cases h
    rfl

theorem setExportNlist_ok {nlist : Nlist}
    (hplain : w.renamesCStrings = false) (h : w.setExportNlist a s = .ok (nlist, s')) :
    ∃ name, (w.atom a).getName = some name ∧
      s.fStringsAtom.add name.chars = some (nlist.n_strx, s'.fStringsAtom) := by
  obtain ⟨⟨name, t⟩, hname, h⟩ := bind_eq_ok.mp h
  obtain ⟨⟨o, u⟩, hadd, h⟩ := bind_eq_ok.mp h
  cases h
  unfold symbolTableName at hname
  cases hget : (w.atom a).getName with
  | none =>
    rw [hget] at hname
    cases hname
  | some given =>
    rw [hget, hplain] at hname
    cases hname
    have hstored := add_ok hadd
    exact ⟨given, rfl, hstored⟩

theorem fillExports_names {l : List AtomPtr}
    (hplain : w.renamesCStrings = false) (hpool : s.fStringsAtom.FirstBuffer)
    (hsize : s.fStringsAtom.fCurrentBufferUsed + namesSize (w.plainNames l) < kBufferSize)
    (h : fillAll some w.setExportNlist l s = .ok (entries, s')) : s'.fStringsAtom.FirstBuffer ∧
      s.fStringsAtom.fCurrentBuffer <+: s'.fStringsAtom.fCurrentBuffer ∧
      List.Forall₂ (fun e name => 0 ∉ name ∧ s'.fStringsAtom.Holds e.nlist.n_strx name) entries
        (w.plainNames l) := by
  induction l generalizing s entries with
  | nil =>
    cases h
    exact ⟨hpool, prefix_refl _, List.Forall₂.nil⟩
  | cons a l ih =>
    obtain ⟨⟨nlist, t⟩, ht, h⟩ := bind_eq_ok.mp h
    obtain ⟨⟨rest, u⟩, hu, h⟩ := bind_eq_ok.mp h
    cases h
    obtain ⟨name, hname, hadd⟩ := setExportNlist_ok hplain ht
    have hnames : w.plainNames (a :: l) = name.chars :: w.plainNames l := by
      simp [plainNames, hname]
    rw [hnames] at hsize ⊢
    rw [namesSize] at hsize
    obtain ⟨pool, hpool', hfirst, hholds, hpre, -⟩ :=
      @StringPool.FirstBuffer.add_fits s.fStringsAtom hpool name.chars (by omega)
    rw [hpool'] at hadd
    obtain ⟨hoffset, htpool⟩ := Prod.mk.inj (Option.some.inj hadd)
    have hused : pool.fCurrentBufferUsed =
        s.fStringsAtom.fCurrentBufferUsed + name.chars.length + 1 := by
      have hfits := StringPool.FirstBuffer.usedAfter_eq hpool (by omega : name.chars.length < kBufferSize)
      rw [StringPool.add_of_fits (by rw [hfits]; omega)] at hpool'
      have hsame := (Prod.mk.inj (Option.some.inj hpool')).2
      rw [← hsame]
      exact hfits
    rw [htpool] at hfirst hholds hpre hused
    obtain ⟨hfinal, hrest, hall⟩ := ih hfirst (by omega) hu
    refine ⟨hfinal, hpre.trans hrest, List.Forall₂.cons ⟨name.noNul, ?_⟩ hall⟩
    rw [← hoffset]
    exact hholds.mono hrest

section
variable {pool : StringPool} {e : SymbolEntry} {name : List UInt8} (hpool : pool.FirstBuffer)
    (hname : 0 ∉ name) (hold : pool.Holds e.nlist.n_strx name)
include hpool hname hold

theorem nameIn_of_holds : nameIn pool e = name := by
  unfold nameIn
  rw [(hpool.read_back hname hold 4).2.2]
  rfl

theorem readable_of_holds : (pool.stringForIndex e.nlist.n_strx).isSome := by
  rw [(hpool.read_back hname hold 4).2.2]
  rfl

end

/-! ## One exported atom and one label

The atom is `_b`, and the label is an underscore and another letter. -/

def labelWriter : SymbolWriter where
  atom _ := { getName := some ⟨[95, 98], by decide⟩ }
  fForStatic := true
  fExportedAtoms := [1]
  fGlobalExtraLabels := [{ n_strx := 2, n_type := N_SECT ||| N_EXT }]

def labelState (letter : UInt8) : FillState where
  fStringsAtom := { fCurrentBuffer := [0x20, 0, 95, letter, 0], fCurrentBufferUsed := 5 }

theorem labelState_firstBuffer (letter : UInt8) : (labelState letter).fStringsAtom.FirstBuffer where
  full_nil := rfl
  length_eq := rfl
  two_le := Nat.le_add_left 2 3
  lt_size := by
    rw [kBufferSize_eq]
    exact Nat.lt_of_sub_pos (Nat.succ_pos _)
  unique := nofun

theorem labelWriter_exports (letter : UInt8) : ∃ entries s',
    fillAll some labelWriter.setExportNlist [1] (labelState letter) = .ok (entries, s') := by
  have hfits : (labelState letter).fStringsAtom.fCurrentBufferUsed + [(95 : UInt8), 98].length + 1 <
      kBufferSize := by
    rw [kBufferSize_eq]
    exact Nat.lt_of_sub_pos (Nat.succ_pos _)
  obtain ⟨pool, hpool, -⟩ := (labelState_firstBuffer letter).add_fits hfits
  have hadd : (labelState letter).add [95, 98] = .ok
      ((labelState letter).fStringsAtom.nextOffset, { labelState letter with fStringsAtom := pool }) := by
    unfold FillState.add
    rw [hpool]
  have hname : labelWriter.symbolTableName 1 (labelState letter) =
      .ok ([95, 98], labelState letter) := rfl
  unfold fillAll setExportNlist
  rw [hname]
  dsimp only [bind, Except.bind]
  rw [hadd]
  exact ⟨_, _, rfl⟩

theorem labelWriter_fills {letter : UInt8} (hletter : letter ≠ 0) :
    ∃ f, labelWriter.fillLists (labelState letter) = .ok f ∧
      Comparable f.pool (f.exportInput labelWriter) ∧ ∃ e, f.exports = [e] ∧
      nameKey f.pool e = [95, 98] ∧
      ∀ b ∈ labelEntries labelWriter.fGlobalExtraLabels, nameKey f.pool b = [95, letter.toNat] := by
  obtain ⟨entries, s', hfill⟩ := labelWriter_exports letter
  have hsize : (labelState letter).fStringsAtom.fCurrentBufferUsed +
      namesSize (labelWriter.plainNames [1]) < kBufferSize := by
    rw [kBufferSize_eq]
    exact Nat.lt_of_sub_pos (Nat.succ_pos _)
  obtain ⟨hfirst, hpre, hnames⟩ :=
    fillExports_names rfl (labelState_firstBuffer letter) hsize hfill
  obtain ⟨e, hname, hnonul, hold⟩ : ∃ e, entries = [e] ∧ (0 : UInt8) ∉ [(95 : UInt8), 98] ∧
      s'.fStringsAtom.Holds e.nlist.n_strx [95, 98] := by
    cases hnames with
    | cons hhead htail =>
      cases htail
      exact ⟨_, rfl, hhead⟩
  have hzero : (0 : UInt8) ∉ [95, letter] := by
    simp [hletter.symm]
  have hlabel : s'.fStringsAtom.Holds 2 [95, letter] := by
    have hstart : (labelState letter).fStringsAtom.Holds 2 [95, letter] :=
      ⟨Int.le_refl 2, prefix_refl _⟩
    exact hstart.mono hpre
  subst hname
  let f : FilledLists :=
    { locals := [], exports := [e], pool := s'.fStringsAtom, imports := [], stabs := [] }
  have hf : labelWriter.fillLists (labelState letter) = .ok f :=
    fillLists_ok.mpr ⟨_, s', s', s', rfl, hfill, rfl, rfl, rfl⟩
  refine ⟨f, hf, ?_, e, rfl, ?_, ?_⟩
  · intro _ b hb
    rcases List.mem_pair.mp hb with rfl | rfl
    · exact readable_of_holds hfirst hnonul hold
    · exact readable_of_holds hfirst hzero hlabel
  · unfold nameKey
    rw [nameIn_of_holds hfirst hnonul hold]
    rfl
  · intro b hb
    cases List.mem_singleton.mp hb
    unfold nameKey
    rw [nameIn_of_holds hfirst hzero hlabel]
    rfl

theorem one_label_agrees : (∃ table, labelWriter.BuildSymbolTable (labelState 99) table) ∧
      ((∀ table, labelWriter.BuildSymbolTable (labelState 99) table →
          labelWriter.IndexesAgree table) ↔
        labelWriter.fGlobalExtraLabels = [] ∨
          ∀ f, labelWriter.fillLists (labelState 99) = .ok f → labelWriter.ExportsFirst f) := by
  obtain ⟨f, hf, hread, -⟩ := @labelWriter_fills 99 (by decide)
  obtain ⟨out, hsort⟩ := exists_sorted (comparesKey f.pool) (f.exportInput labelWriter)
  have hbuild : ∃ table, labelWriter.BuildSymbolTable (labelState 99) table :=
    ⟨_, buildSymbolTable_iff.mpr ⟨f, out, hf, .sorts (by decide) out hread hsort, rfl⟩⟩
  exact ⟨hbuild, symbolIndex_agrees_iff (by decide) hbuild⟩

/-- The label `_a` is sorted before the atom `_b`, whose index still leads to the first entry. -/
theorem label_moves_atom : ¬ ∀ table, labelWriter.BuildSymbolTable (labelState 97) table →
    labelWriter.IndexesAgree table := by
  intro hagree
  obtain ⟨f, hf, hread, e, he, hname, hlabels⟩ := @labelWriter_fills 97 (by decide)
  have hfirst := (holding hf).exportsFirst hf (by decide) (by decide) hread hagree
  have hless := hfirst.2 e (by rw [he]; exact mem_singleton_self e) _
    (mem_singleton_self _)
  rw [hname, hlabels _ (mem_singleton_self _)] at hless
  exact absurd hless (by decide)

end SymbolWriter

end Toolwhip.Ld64
