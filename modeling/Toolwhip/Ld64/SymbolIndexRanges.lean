import Toolwhip.Ld64.SymbolIndex

/-! # The ranges of the symbol table

The table is the concatenation of its ranges, and an atom is found by its position as long as
the sort leaves the exported atoms where they were. -/

namespace Toolwhip.Ld64
open Lib.SortContract Lib.ThrowingFold List
set_option autoImplicit false

namespace SymbolWriter
variable {w : SymbolWriter} {s s' : FillState}

/-! ## Filling a range -/

def writeRange : List SymbolEntry → Nat → Table → Table
  | [], _, table => table
  | entry :: rest, i, table => writeRange rest (i + 1) (table.set i entry)

theorem writeRange_append {entries blank : List SymbolEntry}
    (hlen : entries.length = blank.length) (before after : List SymbolEntry) :
    writeRange entries before.length (before ++ blank ++ after) = before ++ entries ++ after := by
  induction entries generalizing before blank with
  | nil =>
    rw [List.length_eq_zero_iff.mp hlen.symm]
    rfl
  | cons entry entries ih =>
    cases blank with
    | nil => cases hlen
    | cons old blank =>
      have hset : (before ++ old :: blank ++ after).set before.length entry =
          (before ++ [entry]) ++ blank ++ after := by
        simp
      have hrest := ih (Nat.succ.inj hlen) (before ++ [entry])
      rw [length_append, length_singleton] at hrest
      rw [writeRange, hset, hrest]
      simp

def fillAll {α : Type} (owner : α → Option AtomPtr)
    (fill : α → FillState → Except SymbolError (Nlist × FillState)) :
    List α → FillState → Except SymbolError (List SymbolEntry × FillState)
  | [], s => .ok ([], s)
  | x :: rest, s => do
    let (nlist, s) ← fill x s
    let (entries, s) ← fillAll owner fill rest s
    return ({ owner := owner x, nlist := nlist } :: entries, s)

section Fill
variable {α : Type} {owner : α → Option AtomPtr}
  {fill : α → FillState → Except SymbolError (Nlist × FillState)}

theorem fillRange_eq (l : List α) (i : Nat) (table : Table) (s : FillState) :
    fillRange owner fill l i table s =
      (fillAll owner fill l s).map fun r => (writeRange r.1 i table, r.2) := by
  induction l generalizing i table s with
  | nil => rfl
  | cons x l ih =>
    rw [fillRange, fillAll]
    cases fill x s with
    | error e => rfl
    | ok r =>
      dsimp only [bind, Except.bind]
      rw [ih]
      cases fillAll owner fill l r.2 <;> rfl

section
variable {l : List α} {entries : List SymbolEntry} (h : fillAll owner fill l s = .ok (entries, s'))
include h

theorem fillAll_owners : entries.map SymbolEntry.owner = l.map owner := by
  induction l generalizing s entries with
  | nil =>
    cases h
    rfl
  | cons x l ih =>
    obtain ⟨r, -, h⟩ := bind_eq_ok.mp h
    obtain ⟨q, hq, h⟩ := bind_eq_ok.mp h
    cases h
    exact congrArg (owner x :: ·) (ih hq)

theorem fillAll_filled :
    ∀ e ∈ entries, ∃ x ∈ l, e.owner = owner x ∧ ∃ t t', fill x t = .ok (e.nlist, t') := by
  induction l generalizing s entries with
  | nil =>
    cases h
    exact nofun
  | cons x l ih =>
    obtain ⟨⟨nlist, t⟩, ht, h⟩ := bind_eq_ok.mp h
    obtain ⟨⟨rest, u⟩, hu, h⟩ := bind_eq_ok.mp h
    cases h
    intro e he
    rcases List.mem_cons.mp he with rfl | he
    · exact ⟨x, mem_cons_self, rfl, s, t, ht⟩
    obtain ⟨y, hy, hfilled⟩ := ih hu e he
    exact ⟨y, mem_cons_of_mem x hy, hfilled⟩

theorem fillAll_length : entries.length = l.length := by
  have hlen := congrArg List.length (fillAll_owners h)
  rwa [length_map, length_map] at hlen

end

end Fill

def labelEntries (labels : List Nlist) : List SymbolEntry := labels.map fun n => { nlist := n }

theorem copyNlistRange_eq (labels : List Nlist) (i : Nat) (table : Table) :
    copyNlistRange labels i table = writeRange (labelEntries labels) i table := by
  induction labels generalizing i table with
  | nil => rfl
  | cons n labels ih =>
    rw [copyNlistRange, ih]
    rfl

theorem labelEntries_owner {labels : List Nlist} {e : SymbolEntry} (h : e ∈ labelEntries labels) :
    e.owner = none := by
  obtain ⟨n, -, rfl⟩ := List.mem_map.mp h
  rfl

/-! ## The table as a concatenation -/

/-- What the vectors were filled with, and the pool that the sort reads the names from. -/
structure FilledLists where
  locals : List SymbolEntry
  exports : List SymbolEntry
  pool : StringPool
  imports : List SymbolEntry
  stabs : List SymbolEntry

def fillLists (w : SymbolWriter) (s : FillState) : Except SymbolError FilledLists := do
  let (locals, s) ← fillAll some w.setLocalNlist w.fLocalSymbolAtoms s
  let (exports, s) ← fillAll some w.setExportNlist w.fExportedAtoms s
  let pool := s.fStringsAtom
  let (imports, s) ← fillAll some w.setImportNlist w.fImportedAtoms s
  let (stabs, _) ← fillAll (fun _ => none) w.stabNlist w.fStabs s
  return { locals, exports, pool, imports, stabs }

def FilledLists.exportInput (f : FilledLists) (w : SymbolWriter) : List SymbolEntry :=
  f.exports ++ labelEntries w.fGlobalExtraLabels

/-- What may stand in the range of the exports. -/
inductive ExportRange (w : SymbolWriter) (f : FilledLists) : List SymbolEntry → Prop
  | noLabels (h : w.fGlobalExtraLabels = []) : ExportRange w f f.exports
  | sorts (h : w.fGlobalExtraLabels ≠ []) (sorted : List SymbolEntry)
      (hread : Comparable f.pool (f.exportInput w))
      (hsort : Sorted (nListNameSorter f.pool) (f.exportInput w) sorted) : ExportRange w f sorted

def FilledLists.table (f : FilledLists) (w : SymbolWriter) (exports : List SymbolEntry) : Table :=
  f.stabs ++ (f.locals ++ labelEntries w.fLocalExtraLabels) ++ exports ++ f.imports

theorem writeRange_at {entries blank before after : List SymbolEntry} {i : Nat} {table : Table}
    (htable : table = before ++ blank ++ after) (hi : i = before.length)
    (hlen : entries.length = blank.length) :
    writeRange entries i table = before ++ entries ++ after := by
  rw [htable, hi]
  exact writeRange_append hlen before after

def blanks (n : Nat) : List SymbolEntry := List.replicate n {}

theorem length_blanks (n : Nat) : (blanks n).length = n := length_replicate

theorem blanks_add (m n : Nat) : blanks (m + n) = blanks m ++ blanks n :=
  (replicate_append_replicate).symm

theorem length_labelEntries (labels : List Nlist) : (labelEntries labels).length = labels.length :=
  length_map _

def FilledLists.defined (f : FilledLists) (w : SymbolWriter) : Table :=
  blanks w.fSymbolTableStabsCount ++ (f.locals ++ labelEntries w.fLocalExtraLabels) ++
    f.exportInput w ++ blanks w.fSymbolTableImportCount

def FilledLists.sorted (f : FilledLists) (w : SymbolWriter) (out : List SymbolEntry) : Table :=
  blanks w.fSymbolTableStabsCount ++ (f.locals ++ labelEntries w.fLocalExtraLabels) ++ out ++
    blanks w.fSymbolTableImportCount

section
variable {f : FilledLists} (hlocals : f.locals.length = w.fLocalSymbolAtoms.length)
    (hexports : f.exports.length = w.fExportedAtoms.length)
include hlocals hexports

theorem writeRanges_defined : writeRange (labelEntries w.fGlobalExtraLabels)
      (w.fSymbolTableExportStartIndex + w.fExportedAtoms.length)
      (writeRange f.exports w.fSymbolTableExportStartIndex
        (writeRange (labelEntries w.fLocalExtraLabels)
          (w.fSymbolTableLocalStartIndex + w.fLocalSymbolAtoms.length)
          (writeRange f.locals w.fSymbolTableLocalStartIndex (blanks w.fSymbolTableCount)))) =
      f.defined w := by
  have hlocalLabels := length_labelEntries w.fLocalExtraLabels
  have hglobalLabels := length_labelEntries w.fGlobalExtraLabels
  have hblank : blanks w.fSymbolTableCount = blanks w.fSymbolTableStabsCount ++
      blanks w.fLocalSymbolAtoms.length ++ (blanks w.fLocalExtraLabels.length ++
        (blanks w.fExportedAtoms.length ++ (blanks w.fGlobalExtraLabels.length ++
          blanks w.fSymbolTableImportCount))) := by
    simp only [← blanks_add]
    congr 1
    unfold fSymbolTableCount fSymbolTableLocalCount fSymbolTableExportCount
    omega
  rw [writeRange_at hblank
    (by simp [length_blanks, fSymbolTableLocalStartIndex, fSymbolTableStabsStartIndex])
    (by rw [hlocals, length_blanks])]
  have htable : ∀ a b c d : List SymbolEntry, a ++ b ++ (c ++ d) = (a ++ b) ++ c ++ d := by simp
  rw [writeRange_at (htable _ _ _ _)
    (by simp [length_blanks, hlocals, fSymbolTableLocalStartIndex, fSymbolTableStabsStartIndex])
    (by rw [hlocalLabels, length_blanks])]
  rw [writeRange_at (htable _ _ _ _)
    (by simp [length_blanks, hlocals, hlocalLabels, fSymbolTableExportStartIndex,
      fSymbolTableLocalCount, fSymbolTableLocalStartIndex, fSymbolTableStabsStartIndex])
    (by rw [hexports, length_blanks])]
  rw [writeRange_at (htable _ _ _ _)
    (by simp [length_blanks, hlocals, hlocalLabels, hexports, fSymbolTableExportStartIndex,
      fSymbolTableLocalCount, fSymbolTableLocalStartIndex, fSymbolTableStabsStartIndex]; omega)
    (by rw [hglobalLabels, length_blanks])]
  simp [FilledLists.defined, FilledLists.exportInput]

theorem exportRange_defined : w.exportRange (f.defined w) = f.exportInput w := by
  have hbefore : w.fSymbolTableExportStartIndex = (blanks w.fSymbolTableStabsCount ++
      (f.locals ++ labelEntries w.fLocalExtraLabels)).length := by
    simp [length_blanks, hlocals, length_labelEntries, fSymbolTableExportStartIndex,
      fSymbolTableLocalCount, fSymbolTableLocalStartIndex, fSymbolTableStabsStartIndex]
  have hcount : w.fSymbolTableExportCount = (f.exportInput w).length := by
    simp [FilledLists.exportInput, hexports, length_labelEntries, fSymbolTableExportCount]
  unfold exportRange FilledLists.defined
  rw [hbefore, hcount, append_assoc, drop_left, take_left]

theorem sortsExports_iff {sorted : Table} : w.SortsExports f.pool (f.defined w) sorted ↔
      ∃ out, ExportRange w f out ∧ sorted = f.sorted w out := by
  have hrange := exportRange_defined hlocals hexports
  have hbefore : w.fSymbolTableExportStartIndex = (blanks w.fSymbolTableStabsCount ++
      (f.locals ++ labelEntries w.fLocalExtraLabels)).length := by
    simp [length_blanks, hlocals, length_labelEntries, fSymbolTableExportStartIndex,
      fSymbolTableLocalCount, fSymbolTableLocalStartIndex, fSymbolTableStabsStartIndex]
  have hcount : w.fSymbolTableExportCount = (f.exportInput w).length := by
    simp [FilledLists.exportInput, hexports, length_labelEntries, fSymbolTableExportCount]
  have htake : (f.defined w).take w.fSymbolTableExportStartIndex =
      blanks w.fSymbolTableStabsCount ++ (f.locals ++ labelEntries w.fLocalExtraLabels) := by
    unfold FilledLists.defined
    rw [hbefore, append_assoc, take_left]
  have hdrop : (f.defined w).drop (w.fSymbolTableExportStartIndex + w.fSymbolTableExportCount) =
      blanks w.fSymbolTableImportCount := by
    unfold FilledLists.defined
    rw [hbefore, hcount, ← length_append, drop_left]
  constructor
  · intro h
    cases h with
    | noLabels hnone =>
      refine ⟨f.exports, .noLabels hnone, ?_⟩
      simp [FilledLists.defined, FilledLists.sorted, FilledLists.exportInput, hnone, labelEntries]
    | sorts hlabels out hread hsort =>
      rw [hrange] at hread hsort
      refine ⟨out, .sorts hlabels out hread hsort, ?_⟩
      rw [htake, hdrop]
      rfl
  · rintro ⟨out, h, rfl⟩
    cases h with
    | noLabels hnone =>
      have hsame : f.defined w = f.sorted w f.exports := by
        simp [FilledLists.defined, FilledLists.sorted, FilledLists.exportInput, hnone, labelEntries]
      rw [← hsame]
      exact .noLabels hnone
    | sorts hlabels out hread hsort =>
      unfold FilledLists.sorted
      rw [← htake, ← hdrop]
      rw [← hrange] at hread hsort
      exact .sorts hlabels out hread hsort

end

theorem ExportRange.length_eq {f : FilledLists} {out : List SymbolEntry}
    (h : ExportRange w f out) : out.length = f.exports.length + w.fGlobalExtraLabels.length := by
  cases h with
  | noLabels hnone => simp [hnone]
  | sorts _ out _ hsort =>
    rw [hsort.perm.length_eq]
    simp [FilledLists.exportInput, length_labelEntries]

theorem fillDefined_ok {table : Table} : w.fillDefined s = .ok (table, s') ↔
    ∃ locals s₁ exports, fillAll some w.setLocalNlist w.fLocalSymbolAtoms s = .ok (locals, s₁) ∧
      fillAll some w.setExportNlist w.fExportedAtoms s₁ = .ok (exports, s') ∧
      table = writeRange (labelEntries w.fGlobalExtraLabels)
        (w.fSymbolTableExportStartIndex + w.fExportedAtoms.length)
        (writeRange exports w.fSymbolTableExportStartIndex
          (writeRange (labelEntries w.fLocalExtraLabels)
            (w.fSymbolTableLocalStartIndex + w.fLocalSymbolAtoms.length)
            (writeRange locals w.fSymbolTableLocalStartIndex (blanks w.fSymbolTableCount)))) := by
  unfold fillDefined setNlistRange
  simp only [fillRange_eq, copyNlistRange_eq]
  cases hlocals : fillAll some w.setLocalNlist w.fLocalSymbolAtoms s with
  | error e =>
    constructor
    · exact nofun
    · rintro ⟨_, _, _, h, -⟩
      cases h
  | ok r =>
    obtain ⟨locals, s₁⟩ := r
    dsimp only [bind, Except.bind, Except.map]
    cases hexports : fillAll some w.setExportNlist w.fExportedAtoms s₁ with
    | error e =>
      constructor
      · exact nofun
      · rintro ⟨_, _, _, h, h', -⟩
        cases h
        rw [hexports] at h'
        cases h'
    | ok r =>
      obtain ⟨exports, s₂⟩ := r
      constructor
      · intro h
        cases h
        exact ⟨locals, s₁, exports, rfl, hexports, rfl⟩
      · rintro ⟨_, _, _, h, h', rfl⟩
        cases h
        rw [hexports] at h'
        cases h'
        rfl

theorem fillUndefined_ok {before table : Table} : w.fillUndefined before s = .ok (table, s') ↔
    ∃ imports s₁ stabs, fillAll some w.setImportNlist w.fImportedAtoms s = .ok (imports, s₁) ∧
      fillAll (fun _ => none) w.stabNlist w.fStabs s₁ = .ok (stabs, s') ∧
      table = writeRange stabs fSymbolTableStabsStartIndex
        (writeRange imports w.fSymbolTableImportStartIndex before) := by
  unfold fillUndefined setNlistRange addStabs
  simp only [fillRange_eq]
  cases himports : fillAll some w.setImportNlist w.fImportedAtoms s with
  | error e =>
    constructor
    · exact nofun
    · rintro ⟨_, _, _, h, -⟩
      cases h
  | ok r =>
    obtain ⟨imports, s₁⟩ := r
    dsimp only [bind, Except.bind, Except.map]
    cases hstabs : fillAll (fun _ => none) w.stabNlist w.fStabs s₁ with
    | error e =>
      constructor
      · exact nofun
      · rintro ⟨_, _, _, h, h', -⟩
        cases h
        rw [hstabs] at h'
        cases h'
    | ok r =>
      obtain ⟨stabs, s₂⟩ := r
      constructor
      · intro h
        cases h
        exact ⟨imports, s₁, stabs, rfl, hstabs, rfl⟩
      · rintro ⟨_, _, _, h, h', rfl⟩
        cases h
        rw [hstabs] at h'
        cases h'
        rfl

/-- The steps of a run that returns. -/
structure FillsLists (w : SymbolWriter) (s s₁ s₂ s₃ s₄ : FillState) (f : FilledLists) : Prop where
  locals : fillAll some w.setLocalNlist w.fLocalSymbolAtoms s = .ok (f.locals, s₁)
  exports : fillAll some w.setExportNlist w.fExportedAtoms s₁ = .ok (f.exports, s₂)
  pool : f.pool = s₂.fStringsAtom
  imports : fillAll some w.setImportNlist w.fImportedAtoms s₂ = .ok (f.imports, s₃)
  stabs : fillAll (fun _ => none) w.stabNlist w.fStabs s₃ = .ok (f.stabs, s₄)

theorem fillLists_ok {f : FilledLists} :
    w.fillLists s = .ok f ↔ ∃ s₁ s₂ s₃ s₄, FillsLists w s s₁ s₂ s₃ s₄ f := by
  constructor
  · intro h
    obtain ⟨⟨locals, s₁⟩, hlocals, h⟩ := bind_eq_ok.mp h
    obtain ⟨⟨exports, s₂⟩, hexports, h⟩ := bind_eq_ok.mp h
    obtain ⟨⟨imports, s₃⟩, himports, h⟩ := bind_eq_ok.mp h
    obtain ⟨⟨stabs, s₄⟩, hstabs, h⟩ := bind_eq_ok.mp h
    cases h
    exact ⟨s₁, s₂, s₃, s₄, hlocals, hexports, rfl, himports, hstabs⟩
  · rintro ⟨s₁, s₂, s₃, s₄, h⟩
    unfold fillLists
    rw [h.locals]
    dsimp only [bind, Except.bind]
    rw [h.exports]
    dsimp only
    rw [h.imports]
    dsimp only
    rw [h.stabs]
    rw [← h.pool]
    rfl

theorem writeRanges_undefined {f : FilledLists} {out : List SymbolEntry}
    (hstabs : f.stabs.length = w.fStabs.length)
    (hlocals : f.locals.length = w.fLocalSymbolAtoms.length)
    (hexports : f.exports.length = w.fExportedAtoms.length)
    (himports : f.imports.length = w.fImportedAtoms.length) (hout : ExportRange w f out) :
    writeRange f.stabs fSymbolTableStabsStartIndex
      (writeRange f.imports w.fSymbolTableImportStartIndex (f.sorted w out)) = f.table w out := by
  have hend : ∀ a b : List SymbolEntry, a ++ b = a ++ b ++ [] := by simp
  have hstart : ∀ a b c d e : List SymbolEntry,
      a ++ b ++ c ++ d ++ e = [] ++ a ++ (b ++ c ++ d ++ e) := by simp
  have hlen := hout.length_eq
  have hstabs' : f.stabs.length = (blanks w.fSymbolTableStabsCount).length := by
    rw [hstabs, length_blanks, fSymbolTableStabsCount]
  unfold FilledLists.sorted
  rw [writeRange_at (hend _ _) (by
      simp [length_blanks, hlocals, length_labelEntries, hlen, hexports,
        fSymbolTableImportStartIndex, fSymbolTableExportCount, fSymbolTableExportStartIndex,
        fSymbolTableLocalCount, fSymbolTableLocalStartIndex, fSymbolTableStabsStartIndex]
      omega)
    (by rw [himports, length_blanks, fSymbolTableImportCount])]
  rw [hstart]
  exact (writeRange_append hstabs' [] _).trans (by simp [FilledLists.table])

theorem buildSymbolTable_iff {table : Table} : w.BuildSymbolTable s table ↔
      ∃ f out, w.fillLists s = .ok f ∧ ExportRange w f out ∧ table = f.table w out := by
  constructor
  · rintro ⟨filled, s₂, sorted, s₄, hdefined, hsort, hundefined⟩
    obtain ⟨locals, s₁, exports, hlocals, hexports, rfl⟩ := fillDefined_ok.mp hdefined
    obtain ⟨imports, s₃, stabs, himports, hstabs, rfl⟩ := fillUndefined_ok.mp hundefined
    have hl := fillAll_length hlocals
    have he := fillAll_length hexports
    let f : FilledLists := { locals, exports, pool := s₂.fStringsAtom, imports, stabs }
    rw [@writeRanges_defined w f hl he] at hsort
    obtain ⟨out, hout, rfl⟩ := (@sortsExports_iff w f hl he sorted).mp hsort
    refine ⟨f, out, ?_, hout, ?_⟩
    · exact fillLists_ok.mpr ⟨s₁, s₂, s₃, s₄, hlocals, hexports, rfl, himports, hstabs⟩
    · exact @writeRanges_undefined w f out (fillAll_length hstabs) hl he (fillAll_length himports)
        hout
  · rintro ⟨f, out, hf, hout, rfl⟩
    obtain ⟨s₁, s₂, s₃, s₄, hf⟩ := fillLists_ok.mp hf
    have hl := fillAll_length hf.locals
    have he := fillAll_length hf.exports
    refine ⟨f.defined w, s₂, f.sorted w out, s₄, ?_, ?_, ?_⟩
    · exact fillDefined_ok.mpr
        ⟨f.locals, s₁, f.exports, hf.locals, hf.exports, (writeRanges_defined hl he).symm⟩
    · rw [← hf.pool]
      exact (sortsExports_iff hl he).mpr ⟨out, hout, rfl⟩
    · exact fillUndefined_ok.mpr ⟨f.imports, s₃, f.stabs, hf.imports, hf.stabs,
        (writeRanges_undefined (fillAll_length hf.stabs) hl he (fillAll_length hf.imports)
          hout).symm⟩

theorem getElem?_middle {before entries after : List SymbolEntry} {i j : Nat}
    (hi : i < entries.length) (hj : j = i + before.length) :
    (before ++ entries ++ after)[j]? = entries[i]? := by
  subst j
  rw [append_assoc, getElem?_append_right (by omega), Nat.add_sub_cancel,
    getElem?_append_left hi]

theorem entry_at {entries : List SymbolEntry} {atoms : List AtomPtr} {a : AtomPtr}
    (howners : entries.map SymbolEntry.owner = atoms.map some) (ha : a ∈ atoms) :
    ∃ e, entries[atoms.idxOf a]? = some e ∧ e.owner = some a := by
  have hlt := idxOf_lt_length_of_mem ha
  have hlen := congrArg List.length howners
  have hget : (entries.map SymbolEntry.owner)[atoms.idxOf a]? = some (some a) := by
    rw [howners, getElem?_map, getElem?_eq_getElem hlt, getElem_idxOf hlt]
    rfl
  rw [getElem?_map, Option.map_eq_some_iff] at hget
  exact hget

def FilledFor (w : SymbolWriter) (a : AtomPtr) (nlist : Nlist) : Prop :=
  ∃ t t', w.setLocalNlist a t = .ok (nlist, t') ∨ w.setExportNlist a t = .ok (nlist, t') ∨
    w.setImportNlist a t = .ok (nlist, t')

/-- The entry at `symbolIndex` is the one that was filled for the atom. -/
def IndexesAgree (w : SymbolWriter) (table : Table) : Prop :=
  ∀ a ∈ w.fLocalSymbolAtoms ++ w.fExportedAtoms ++ w.fImportedAtoms, ∃ i e,
    w.symbolIndex a = some i ∧ table[i]? = some e ∧ e.owner = some a ∧ w.FilledFor a e.nlist

end SymbolWriter
end Toolwhip.Ld64
