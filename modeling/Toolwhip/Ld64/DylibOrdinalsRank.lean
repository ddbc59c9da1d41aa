import Toolwhip.Ld64.DylibOrdinals

/-! # Renumbering the dylibs

The first loop of `optimizeDylibReferences` splits the readers into aliases,
dropped ones and those that keep a number. With bundle loaders apart, walking the
numbers is walking the retained commands, and each gets its rank. -/

set_option autoImplicit false

namespace Toolwhip.Ld64.DylibWriter
open Function Lib.Ranks List

def BundleLoadersApart (w : DylibWriter) : Prop :=
  ∀ info ∈ w.dynamicLibraries, info.options.fBundleLoader = true →
    w.canBeOptimizedAway info.reader = false → w.dynamicLibraries.length < 255

variable {w : DylibWriter}

theorem mem_libraryOrder {r : ReaderPtr} :
    r ∈ w.libraryOrder ↔ r ∈ w.dynamicLibraries.map DyLibUsed.reader :=
  mem_insertionSort _

theorem length_libraryOrder : w.libraryOrder.length = w.dynamicLibraries.length := by
  rw [libraryOrder, length_insertionSort, length_map]

theorem libraryOrder_nodup : w.libraryOrder.Nodup :=
  (perm_insertionSort _ _).nodup_iff.mpr w.distinct

section Visit

structure Visited (w : DylibWriter) (t : LibraryTables) (done : List ReaderPtr)
    (s : UnusedDylibs) : Prop where
  ordinal : ∀ r, ¬ (r ∈ done ∧ t.fLibraryAliases r = none ∧ w.canBeOptimizedAway r = true) →
    s.fLibraryToOrdinal r = t.fLibraryToOrdinal r
  away : ∀ c, s.fOptimizedAway c = true ↔ ∃ r ∈ done, t.fLibraryAliases r = none ∧
    w.canBeOptimizedAway r = true ∧ t.fLibraryToLoadCommand r = some c
  known : ∀ r ∈ done, ∀ c, t.fLibraryAliases r = some c → s.readerAliases r = some c
  fresh : ∀ r, r ∉ done → s.readerAliases r = none
  kept : ∀ r ∈ done, t.fLibraryAliases r = none → w.canBeOptimizedAway r = false →
    s.ordinalToReader ((t.fLibraryToOrdinal r).getD 0) = some r ∨
      ∃ first, s.ordinalToReader ((t.fLibraryToOrdinal r).getD 0) = some first ∧
        s.readerAliases r = some first ∧ first ≠ r
  numbered : ∀ o r, s.ordinalToReader o = some r → r ∈ done ∧ t.fLibraryAliases r = none ∧
    w.canBeOptimizedAway r = false ∧ (t.fLibraryToOrdinal r).getD 0 = o ∧
      s.readerAliases r = none

variable {t : LibraryTables} {done : List ReaderPtr} {s : UnusedDylibs} {r : ReaderPtr}

theorem visited_nil : Visited w t [] { fLibraryToOrdinal := t.fLibraryToOrdinal } where
  ordinal := fun _ _ => rfl
  away := by
    intro c
    constructor
    · intro h
      cases h
    · rintro ⟨r, hr, -⟩
      cases hr
  known := by
    intro r hr
    cases hr
  fresh := fun _ _ => rfl
  kept := by
    intro r hr
    cases hr
  numbered := by
    intro o r h
    cases h

theorem mem_concat_of_ne {r' : ReaderPtr} (h : r' ∈ done ++ [r]) (hne : r' ≠ r) : r' ∈ done := by
  rcases List.mem_append.mp h with h | h
  · exact h
  · exact absurd (List.mem_singleton.mp h) hne

section
variable (h : Visited w t done s) (hr : r ∉ done)
include h hr

theorem Visited.visitAlias {aliasOf : ReaderPtr} (halias : t.fLibraryAliases r = some aliasOf) :
    Visited w t (done ++ [r]) (w.visitLibrary t s r) := by
  have hne : ∀ r', t.fLibraryAliases r' = none → r' ≠ r := by
    rintro r' hnone rfl
    rw [halias] at hnone
    cases hnone
  unfold visitLibrary
  rw [halias]
  constructor
  · intro r' hnot
    exact h.ordinal r' fun hin => hnot ⟨mem_append_left _ hin.1, hin.2⟩
  · intro c
    rw [h.away c]
    constructor
    · rintro ⟨r', hr', hrest⟩
      exact ⟨r', mem_append_left _ hr', hrest⟩
    · rintro ⟨r', hr', hnone, hrest⟩
      exact ⟨r', mem_concat_of_ne hr' (hne r' hnone), hnone, hrest⟩
  · intro r' hr' c hc
    by_cases heq : r' = r
    · subst heq
      rw [halias] at hc
      simp only [update_self]
      exact hc
    · simp only [update_of_ne heq]
      exact h.known r' (mem_concat_of_ne hr' heq) c hc
  · intro r' hr'
    rw [mem_append, not_or, mem_singleton] at hr'
    simp only [update_of_ne hr'.2]
    exact h.fresh r' hr'.1
  · intro r' hr' hnone hdrop
    simp only [update_of_ne (hne r' hnone)]
    exact h.kept r' (mem_concat_of_ne hr' (hne r' hnone)) hnone hdrop
  · intro o r' ho
    obtain ⟨hr', hnone, hrest⟩ := h.numbered o r' ho
    simp only [update_of_ne (hne r' hnone)]
    exact ⟨mem_append_left _ hr', hnone, hrest⟩

theorem Visited.visitUnused
    (halias : t.fLibraryAliases r = none) (hdrop : w.canBeOptimizedAway r = true) :
    Visited w t (done ++ [r]) (w.visitLibrary t s r) := by
  unfold visitLibrary
  rw [halias]
  simp only [hdrop, if_true]
  constructor
  · intro r' hnot
    have hne : r' ≠ r := by
      rintro rfl
      exact hnot ⟨mem_append_right _ mem_cons_self, halias, hdrop⟩
    simp only [update_of_ne hne]
    exact h.ordinal r' fun hin => hnot ⟨mem_append_left _ hin.1, hin.2⟩
  · intro c
    have hstep : (∃ r' ∈ done ++ [r], t.fLibraryAliases r' = none ∧
        w.canBeOptimizedAway r' = true ∧ t.fLibraryToLoadCommand r' = some c) ↔
        s.fOptimizedAway c = true ∨ t.fLibraryToLoadCommand r = some c := by
      rw [h.away c]
      constructor
      · rintro ⟨r', hr', hrest⟩
        rcases List.mem_append.mp hr' with hr' | hr'
        · exact Or.inl ⟨r', hr', hrest⟩
        rw [List.mem_singleton.mp hr'] at hrest
        exact Or.inr hrest.2.2
      · rintro (⟨r', hr', hrest⟩ | hcmd)
        · exact ⟨r', mem_append_left _ hr', hrest⟩
        · exact ⟨r, mem_append_right _ mem_cons_self, halias, hdrop, hcmd⟩
    rw [hstep]
    cases hcmd : t.fLibraryToLoadCommand r with
    | none => simp
    | some command =>
      simp only [Option.some.injEq]
      by_cases heq : c = command
      · subst heq
        simp
      · rw [update_of_ne heq]
        simp [Ne.symm heq]
  · intro r' hr' c hc
    have hne : r' ≠ r := by
      rintro rfl
      rw [halias] at hc
      cases hc
    exact h.known r' (mem_concat_of_ne hr' hne) c hc
  · intro r' hr'
    rw [mem_append, not_or] at hr'
    exact h.fresh r' hr'.1
  · intro r' hr' hnone hkeep
    have hne : r' ≠ r := by
      rintro rfl
      rw [hdrop] at hkeep
      cases hkeep
    exact h.kept r' (mem_concat_of_ne hr' hne) hnone hkeep
  · intro o r' ho
    obtain ⟨hr', hrest⟩ := h.numbered o r' ho
    exact ⟨mem_append_left _ hr', hrest⟩

theorem Visited.visitUsed
    (halias : t.fLibraryAliases r = none) (hkeep : w.canBeOptimizedAway r = false) :
    Visited w t (done ++ [r]) (w.visitLibrary t s r) := by
  have hord : s.fLibraryToOrdinal r = t.fLibraryToOrdinal r :=
    h.ordinal r fun hin => hr hin.1
  have hnotDrop : ∀ r', w.canBeOptimizedAway r' = true → r' ≠ r := by
    rintro r' hdrop rfl
    rw [hkeep] at hdrop
    cases hdrop
  have hordinal : ∀ r', ¬ (r' ∈ done ++ [r] ∧ t.fLibraryAliases r' = none ∧
      w.canBeOptimizedAway r' = true) → s.fLibraryToOrdinal r' = t.fLibraryToOrdinal r' := by
    intro r' hnot
    exact h.ordinal r' fun hin => hnot ⟨mem_append_left _ hin.1, hin.2⟩
  have haway : ∀ c, s.fOptimizedAway c = true ↔ ∃ r' ∈ done ++ [r], t.fLibraryAliases r' = none ∧
      w.canBeOptimizedAway r' = true ∧ t.fLibraryToLoadCommand r' = some c := by
    intro c
    rw [h.away c]
    constructor
    · rintro ⟨r', hr', hrest⟩
      exact ⟨r', mem_append_left _ hr', hrest⟩
    · rintro ⟨r', hr', hnone, hdrop, hcmd⟩
      exact ⟨r', mem_concat_of_ne hr' (hnotDrop r' hdrop), hnone, hdrop, hcmd⟩
  have hknownNe : ∀ r' c, t.fLibraryAliases r' = some c → r' ≠ r := by
    rintro r' c hc rfl
    rw [halias] at hc
    cases hc
  unfold visitLibrary
  rw [halias]
  simp only [hkeep, Bool.false_eq_true, if_false, hord]
  cases hfirst : s.ordinalToReader ((t.fLibraryToOrdinal r).getD 0) with
  | none =>
    refine ⟨hordinal, haway, ?_, ?_, ?_, ?_⟩
    · intro r' hr' c hc
      exact h.known r' (mem_concat_of_ne hr' (hknownNe r' c hc)) c hc
    · intro r' hr'
      rw [mem_append, not_or] at hr'
      exact h.fresh r' hr'.1
    · intro r' hr' hnone hkeep'
      by_cases heq : r' = r
      · subst heq
        exact Or.inl (update_self ..)
      have hold := h.kept r' (mem_concat_of_ne hr' heq) hnone hkeep'
      have hne : (t.fLibraryToOrdinal r').getD 0 ≠ (t.fLibraryToOrdinal r).getD 0 := by
        intro ho
        rw [ho, hfirst] at hold
        rcases hold with hold | ⟨first, hold, -⟩
        · cases hold
        · cases hold
      simp only [update_of_ne hne]
      exact hold
    · intro o r' ho
      by_cases heq : o = (t.fLibraryToOrdinal r).getD 0
      · subst heq
        simp only [update_self] at ho
        obtain rfl := Option.some.inj ho
        exact ⟨mem_append_right _ mem_cons_self, halias, hkeep, rfl, h.fresh r hr⟩
      · simp only [update_of_ne heq] at ho
        obtain ⟨hr', hrest⟩ := h.numbered o r' ho
        exact ⟨mem_append_left _ hr', hrest⟩
  | some first =>
    have hfirstDone := (h.numbered _ first hfirst).1
    have hfirstNe : first ≠ r := by
      rintro rfl
      exact hr hfirstDone
    refine ⟨hordinal, haway, ?_, ?_, ?_, ?_⟩
    · intro r' hr' c hc
      simp only [update_of_ne (hknownNe r' c hc)]
      exact h.known r' (mem_concat_of_ne hr' (hknownNe r' c hc)) c hc
    · intro r' hr'
      rw [mem_append, not_or, mem_singleton] at hr'
      simp only [update_of_ne hr'.2]
      exact h.fresh r' hr'.1
    · intro r' hr' hnone hkeep'
      by_cases heq : r' = r
      · subst heq
        exact Or.inr ⟨first, hfirst, update_self .., hfirstNe⟩
      · simp only [update_of_ne heq]
        exact h.kept r' (mem_concat_of_ne hr' heq) hnone hkeep'
    · intro o r' ho
      obtain ⟨hr', hnone, hkeep', hord', haliases⟩ := h.numbered o r' ho
      have hne : r' ≠ r := by
        rintro rfl
        exact hr hr'
      simp only [update_of_ne hne]
      exact ⟨mem_append_left _ hr', hnone, hkeep', hord', haliases⟩

theorem Visited.visit : Visited w t (done ++ [r]) (w.visitLibrary t s r) := by
  cases halias : t.fLibraryAliases r with
  | some aliasOf => exact h.visitAlias hr halias
  | none =>
    cases hdrop : w.canBeOptimizedAway r with
    | true => exact h.visitUnused hr halias hdrop
    | false => exact h.visitUsed hr halias hdrop

end

theorem foldl_visited {l : List ReaderPtr} (h : Visited w t done s) (hd : (done ++ l).Nodup) :
    Visited w t (done ++ l) (l.foldl (w.visitLibrary t) s) := by
  induction l generalizing done s with
  | nil =>
    rw [append_nil]
    exact h
  | cons r l ih =>
    have hr : r ∉ done := fun hmem =>
      (List.nodup_append.mp hd).2.2 r hmem r mem_cons_self rfl
    have hsplit : done ++ r :: l = (done ++ [r]) ++ l := by
      rw [append_assoc, singleton_append]
    rw [hsplit] at hd ⊢
    exact ih (h.visit hr) hd

end Visit

def unusedDylibs (w : DylibWriter) : UnusedDylibs :=
  w.libraryOrder.foldl (w.visitLibrary w.tables)
    { fLibraryToOrdinal := w.tables.fLibraryToOrdinal }

theorem unusedDylibs_visited (w : DylibWriter) :
    Visited w w.tables w.libraryOrder w.unusedDylibs := by
  have h := @foldl_visited w w.tables [] _ w.libraryOrder visited_nil
  exact h w.libraryOrder_nodup

/-! ## Ranks of the retained dylibs

What `optimizeDylibReferences` returns, while bundle loaders stay apart: each
retained command's reader has the command's rank, its aliases share it. -/

variable {w : DylibWriter}
variable {r : OptimizedDylibs} {info : DyLibUsed}

def keptCommands (w : DylibWriter) : List DylibLoadCommandsAtom :=
  w.tables.dylibCommands.filter fun c => !w.canBeOptimizedAway c.reader

def precedes (a b : DylibLoadCommandsAtom) : Bool :=
  a.fLazyLoad = b.fLazyLoad && a.number < b.number || !a.fLazyLoad && b.fLazyLoad

def rank (w : DylibWriter) (c : DylibLoadCommandsAtom) : Nat :=
  w.keptCommands.countP fun d => precedes d c

variable {c : DylibLoadCommandsAtom}

theorem mem_keptCommands :
    c ∈ w.keptCommands ↔ c ∈ w.tables.dylibCommands ∧ w.canBeOptimizedAway c.reader = false := by
  rw [keptCommands, mem_filter, Bool.not_eq_true']

theorem keptCommands_nodup : w.keptCommands.Nodup :=
  commands_nodup.filter _

theorem mem_libraries_of_command (hc : c ∈ w.tables.dylibCommands) :
    c.reader ∈ w.dynamicLibraries.map DyLibUsed.reader := by
  obtain ⟨info, hinfo, hreader, -⟩ := w.tables_numbered.command_mem hc
  exact List.mem_map.mpr ⟨info, hinfo, hreader⟩

theorem number_cases {o : Nat} {r : ReaderPtr} (h : w.unusedDylibs.ordinalToReader o = some r) :
    (o = 255 ∧ ∃ info ∈ w.dynamicLibraries, info.reader = r ∧
      info.options.fBundleLoader = true ∧ w.canBeOptimizedAway info.reader = false) ∨
    ∃ i c, w.tables.dylibCommands[i]? = some c ∧ c.reader = r ∧ o = i + 1 ∧
      w.canBeOptimizedAway r = false := by
  obtain ⟨hr, halias, hkeep, ho, -⟩ := w.unusedDylibs_visited.numbered o r h
  rcases bundle_or_command (mem_libraryOrder.mp hr) halias with ⟨info, hinfo, rfl, hb⟩ | ⟨c, hc, rfl⟩
  · left
    rw [(w.tables_numbered.bundle info hinfo hb).1] at ho
    exact ⟨ho.symm, info, hinfo, rfl, hb, hkeep⟩
  right
  obtain ⟨i, hi⟩ := mem_iff_getElem?.mp hc
  rw [(w.tables_numbered.command i c hi).1] at ho
  exact ⟨i, c, hi, rfl, ho.symm, hkeep⟩

section Apart

variable (hapart : w.BundleLoadersApart)

include hapart

theorem number_command {o : Nat} {r : ReaderPtr} (h : w.unusedDylibs.ordinalToReader o = some r)
    (ho : o ≤ w.dynamicLibraries.length) :
    ∃ i c, w.tables.dylibCommands[i]? = some c ∧ c.reader = r ∧ o = i + 1 ∧
      w.canBeOptimizedAway r = false := by
  rcases number_cases h with ⟨h255, info, hinfo, -, hb, hkeep⟩ | hcmd
  · have := hapart info hinfo hb hkeep
    omega
  · exact hcmd

variable {c : DylibLoadCommandsAtom}

omit hapart in
theorem index_lt {i : Nat}
    (hi : w.tables.dylibCommands[i]? = some c) : i + 1 ≤ w.dynamicLibraries.length := by
  have hlt := (List.getElem?_eq_some_iff.mp hi).1
  have := w.tables_numbered.length_le
  omega

theorem ordinalToReader_command {i : Nat} (hi : w.tables.dylibCommands[i]? = some c) :
    w.unusedDylibs.ordinalToReader (i + 1) =
      if w.canBeOptimizedAway c.reader = false then some c.reader else none := by
  obtain ⟨hord, -, halias, -⟩ := w.tables_numbered.command i c hi
  have hmem := mem_libraryOrder.mpr (mem_libraries_of_command (mem_of_getElem? hi))
  have hunique : ∀ r, w.unusedDylibs.ordinalToReader (i + 1) = some r →
      r = c.reader ∧ w.canBeOptimizedAway c.reader = false := by
    intro r hr
    obtain ⟨j, d, hj, rfl, hij, hkeep⟩ := number_command hapart hr (index_lt hi)
    have hji : j = i := by omega
    rw [hji, hi] at hj
    rw [← Option.some.inj hj] at hkeep ⊢
    exact ⟨rfl, hkeep⟩
  split
  · rename_i hkeep
    have hkept := w.unusedDylibs_visited.kept c.reader hmem halias hkeep
    rw [hord] at hkept
    rcases hkept with hkept | ⟨first, hkept, -, hne⟩
    · exact hkept
    · exact absurd (hunique first hkept).1 hne
  · rename_i hdrop
    cases hr : w.unusedDylibs.ordinalToReader (i + 1) with
    | none => rfl
    | some r => exact absurd (hunique r hr).2 hdrop

theorem readerAliases_command (hc : c ∈ w.keptCommands) :
    w.unusedDylibs.readerAliases c.reader = none := by
  obtain ⟨hc, hkeep⟩ := mem_keptCommands.mp hc
  obtain ⟨i, hi⟩ := mem_iff_getElem?.mp hc
  have hnum := ordinalToReader_command hapart hi
  rw [if_pos hkeep] at hnum
  exact (w.unusedDylibs_visited.numbered _ _ hnum).2.2.2.2

theorem inOrder_eq :
    (List.range (w.libraryOrder.length + 1)).filterMap w.unusedDylibs.ordinalToReader =
      w.keptCommands.map (·.reader) := by
  have hle := w.tables_numbered.length_le
  have hsplit : w.libraryOrder.length = w.tables.dylibCommands.length +
      (w.libraryOrder.length - w.tables.dylibCommands.length) := by
    rw [length_libraryOrder]
    omega
  have hnone : ∀ o, o ≤ w.dynamicLibraries.length → (∀ i, o = i + 1 →
      w.tables.dylibCommands.length ≤ i) → w.unusedDylibs.ordinalToReader o = none := by
    intro o ho hbig
    cases hr : w.unusedDylibs.ordinalToReader o with
    | none => rfl
    | some r =>
      obtain ⟨i, c, hi, -, hoi, -⟩ := number_command hapart hr ho
      have hlt := (List.getElem?_eq_some_iff.mp hi).1
      have := hbig i hoi
      omega
  rw [range_succ_eq_map, filterMap_cons, hnone 0 (Nat.zero_le _) (by omega),
    filterMap_map, hsplit, range_add, filterMap_append]
  have hrest : ((List.range (w.libraryOrder.length - w.tables.dylibCommands.length)).map
      (w.tables.dylibCommands.length + ·)).filterMap
        (w.unusedDylibs.ordinalToReader ∘ Nat.succ) = [] := by
    rw [filterMap_eq_nil_iff]
    intro i hi
    obtain ⟨k, hk, rfl⟩ := List.mem_map.mp hi
    rw [length_libraryOrder, mem_range] at hk
    exact hnone _ (by omega) (by omega)
  have hcommands : (List.range w.tables.dylibCommands.length).filterMap
      (w.unusedDylibs.ordinalToReader ∘ Nat.succ) = w.tables.dylibCommands.filterMap fun c =>
        if w.canBeOptimizedAway c.reader = false then some c.reader else none :=
    filterMap_range fun i c hi => ordinalToReader_command hapart hi
  rw [hrest, append_nil, hcommands, keptCommands]
  induction w.tables.dylibCommands with
  | nil => rfl
  | cons c l ih =>
    rw [filterMap_cons, filter_cons]
    cases w.canBeOptimizedAway c.reader with
    | true => exact ih
    | false => exact congrArg (c.reader :: ·) ih

end Apart

section Loops

theorem foldl_renumber {b : Bool} {l : List ReaderPtr} (hnd : l.Nodup)
    (s : (ReaderPtr → Option Nat) × Nat) : (l.foldl (w.renumber b) s).2 =
        s.2 + l.countP (fun r => (w.library r).isLazyLoadedDylib = b) ∧
      (∀ r, ¬ (r ∈ l ∧ (w.library r).isLazyLoadedDylib = b) →
        (l.foldl (w.renumber b) s).1 r = s.1 r) ∧
      ∀ l₁ r l₂, l = l₁ ++ r :: l₂ → (w.library r).isLazyLoadedDylib = b →
        (l.foldl (w.renumber b) s).1 r =
          some (s.2 + l₁.countP (fun r => (w.library r).isLazyLoadedDylib = b) + 1) := by
  induction l generalizing s with
  | nil =>
    refine ⟨rfl, fun _ _ => rfl, ?_⟩
    intro l₁ r l₂ h
    exact absurd h.symm (append_ne_nil_of_right_ne_nil l₁ (cons_ne_nil r l₂))
  | cons x l ih =>
    obtain ⟨hx, hnd⟩ := List.nodup_cons.mp hnd
    rw [foldl_cons, renumber]
    by_cases hb : (w.library x).isLazyLoadedDylib = b
    · rw [if_pos hb]
      obtain ⟨hcount, hother, hnumber⟩ := ih hnd (update s.1 x (some (s.2 + 1)), s.2 + 1)
      refine ⟨?_, ?_, ?_⟩
      · rw [hcount, countP_cons, decide_eq_true hb, if_pos rfl]
        omega
      · intro r hr
        have hne : r ≠ x := by
          rintro rfl
          exact hr ⟨mem_cons_self, hb⟩
        rw [hother r fun h => hr ⟨mem_cons_of_mem x h.1, h.2⟩]
        simp only [update_of_ne hne]
      · intro l₁ r l₂ hsplit hr
        cases l₁ with
        | nil =>
          obtain ⟨rfl, rfl⟩ := List.cons.inj hsplit
          rw [hother x fun h => hx h.1]
          simp only [update_self, countP_nil, Nat.add_zero]
        | cons y l₁ =>
          obtain ⟨rfl, rfl⟩ := List.cons.inj hsplit
          rw [hnumber l₁ r l₂ rfl hr, countP_cons, decide_eq_true hb, if_pos rfl]
          congr 1
          omega
    · rw [if_neg hb]
      obtain ⟨hcount, hother, hnumber⟩ := ih hnd s
      refine ⟨?_, ?_, ?_⟩
      · rw [hcount, countP_cons, decide_eq_false hb]
        simp only [Bool.false_eq_true, if_false, Nat.add_zero]
      · intro r hr
        exact hother r fun h => hr ⟨mem_cons_of_mem x h.1, h.2⟩
      · intro l₁ r l₂ hsplit hr
        cases l₁ with
        | nil =>
          obtain ⟨rfl, rfl⟩ := List.cons.inj hsplit
          exact absurd hr hb
        | cons y l₁ =>
          obtain ⟨rfl, rfl⟩ := List.cons.inj hsplit
          rw [hnumber l₁ r l₂ rfl hr, countP_cons, decide_eq_false hb]
          simp only [Bool.false_eq_true, if_false, Nat.add_zero]

theorem foldl_addAlias {aliases : ReaderPtr → Option ReaderPtr} {l : List ReaderPtr}
    (hnd : l.Nodup) (ordinals : ReaderPtr → Option Nat) :
    (∀ r, aliases r = none → l.foldl (addAlias aliases) ordinals r = ordinals r) ∧
      ∀ r ∈ l, ∀ c, aliases r = some c → aliases c = none →
        l.foldl (addAlias aliases) ordinals r = some ((ordinals c).getD 0) := by
  induction l generalizing ordinals with
  | nil =>
    refine ⟨fun _ _ => rfl, ?_⟩
    intro r hr
    cases hr
  | cons x l ih =>
    obtain ⟨hx, hnd⟩ := List.nodup_cons.mp hnd
    obtain ⟨hnone, hsome⟩ := ih hnd (addAlias aliases ordinals x)
    have hstep : ∀ r, aliases r = none → addAlias aliases ordinals x r = ordinals r := by
      intro r hr
      unfold addAlias
      cases hax : aliases x with
      | none => rfl
      | some c =>
        have hne : r ≠ x := by
          rintro rfl
          rw [hr] at hax
          cases hax
        exact update_of_ne hne _ _
    rw [foldl_cons]
    refine ⟨fun r hr => (hnone r hr).trans (hstep r hr), ?_⟩
    intro r hr c hc hcNone
    rcases List.mem_cons.mp hr with rfl | hr
    · -- Later rounds touch other readers only.
      have hlater : ∀ l' : List ReaderPtr, r ∉ l' → ∀ ord : ReaderPtr → Option Nat,
          l'.foldl (addAlias aliases) ord r = ord r := by
        intro l'
        induction l' with
        | nil => exact fun _ _ => rfl
        | cons y l' ih' =>
          intro hy ord
          rw [mem_cons, not_or] at hy
          rw [foldl_cons, ih' hy.2, addAlias]
          cases aliases y with
          | none => rfl
          | some d => exact update_of_ne hy.1 _ _
      rw [hlater l hx, addAlias, hc]
      exact update_self ..
    · rw [hsome r hr c hc hcNone, hstep c hcNone]

end Loops

theorem kept_pairwise : w.keptCommands.Pairwise fun a b => a.number < b.number :=
  w.tables_numbered.numbers.filter _

theorem lazy_kept (hc : c ∈ w.keptCommands) :
    (w.library c.reader).isLazyLoadedDylib = c.fLazyLoad :=
  lazy_command (mem_keptCommands.mp hc).1

theorem countP_lazy {l : List DylibLoadCommandsAtom} (hl : ∀ c ∈ l, c ∈ w.keptCommands) (b : Bool) :
    (l.map (·.reader)).countP (fun r => (w.library r).isLazyLoadedDylib = b) =
      l.countP fun c => c.fLazyLoad = b := by
  rw [countP_map]
  apply countP_congr
  intro c hc
  simp only [comp_apply, decide_eq_true_eq]
  rw [lazy_kept (hl c hc)]

theorem countP_lazy_add (l : List DylibLoadCommandsAtom) :
    l.countP (fun c => c.fLazyLoad = false) + l.countP (fun c => c.fLazyLoad = true) =
      l.length := by
  induction l with
  | nil => rfl
  | cons c l ih =>
    rw [countP_cons, countP_cons, length_cons]
    cases c.fLazyLoad with
    | true =>
      simp only [Bool.true_eq_false, decide_false, decide_true, Bool.false_eq_true, if_false,
        if_true]
      omega
    | false =>
      simp only [Bool.false_eq_true, decide_false, decide_true, if_false, if_true]
      omega

theorem rank_eq {l₁ l₂ : List DylibLoadCommandsAtom} (hsplit : w.keptCommands = l₁ ++ c :: l₂) :
    w.rank c = if c.fLazyLoad then
        w.keptCommands.countP (fun d => d.fLazyLoad = false) +
          l₁.countP (fun d => d.fLazyLoad = true)
      else l₁.countP fun d => d.fLazyLoad = false := by
  have hpair := w.kept_pairwise
  rw [hsplit] at hpair
  obtain ⟨-, hcons, hbefore⟩ := List.pairwise_append.mp hpair
  have hfirst : l₁.countP (fun d => precedes d c) =
      if c.fLazyLoad then l₁.length else l₁.countP fun d => d.fLazyLoad = false := by
    have hlt : ∀ d ∈ l₁, d.number < c.number := fun d hd => hbefore d hd c mem_cons_self
    cases hc : c.fLazyLoad with
    | true =>
      apply List.countP_eq_length.mpr
      intro d hd
      unfold precedes
      rw [hc, decide_eq_true (hlt d hd)]
      cases d.fLazyLoad <;> rfl
    | false =>
      apply countP_congr
      intro d hd
      unfold precedes
      rw [hc, decide_eq_true (hlt d hd)]
      cases d.fLazyLoad <;> rfl
  have hlast : l₂.countP (fun d => precedes d c) =
      if c.fLazyLoad then l₂.countP (fun d => d.fLazyLoad = false) else 0 := by
    have hgt : ∀ d ∈ l₂, ¬ d.number < c.number := by
      intro d hd
      have := rel_of_pairwise_cons hcons hd
      omega
    cases hc : c.fLazyLoad with
    | true =>
      apply countP_congr
      intro d hd
      unfold precedes
      rw [hc, decide_eq_false (hgt d hd)]
      cases d.fLazyLoad <;> rfl
    | false =>
      apply List.countP_eq_zero.mpr
      intro d hd
      unfold precedes
      rw [hc, decide_eq_false (hgt d hd)]
      cases d.fLazyLoad <;> exact Bool.false_ne_true
  have hself : precedes c c = false := by
    unfold precedes
    rw [decide_eq_false (Nat.lt_irrefl c.number), Bool.and_false]
    cases c.fLazyLoad <;> rfl
  have hadd := countP_lazy_add l₁
  unfold rank
  rw [hsplit, countP_append, countP_cons, hself, hfirst, hlast]
  cases hc : c.fLazyLoad with
  | true =>
    simp only [if_true, Bool.false_eq_true, if_false, countP_append, countP_cons, hc,
      Bool.true_eq_false, decide_false]
    omega
  | false =>
    simp only [Bool.false_eq_true, if_false]
    omega

theorem rank_lt (hc : c ∈ w.keptCommands) : w.rank c < w.keptCommands.length := by
  have hself : precedes c c = false := by
    unfold precedes
    rw [decide_eq_false (Nat.lt_irrefl c.number), Bool.and_false]
    cases c.fLazyLoad <;> rfl
  have h := @countP_lt_of_imp _ (fun d => precedes d c) (fun _ => true) w.keptCommands
    (fun _ _ _ => rfl) c hc hself rfl
  rw [countP_true] at h
  exact h

/-- What `optimizeDylibReferences` returns while bundle loaders stay apart. -/
structure Renumbered (w : DylibWriter) (r : OptimizedDylibs) : Prop where
  length_lt : w.nameSpace = .kTwoLevelNameSpace → w.keptCommands.length < MAX_LIBRARY_ORDINAL
  command : ∀ c ∈ w.keptCommands, r.fLibraryToOrdinal c.reader = some (w.rank c + 1)
  aliasOf : ∀ info ∈ w.dynamicLibraries, ∀ c ∈ w.keptCommands,
    w.tables.fLibraryAliases info.reader = some c.reader →
      r.fLibraryToOrdinal info.reader = some (w.rank c + 1)
  bundle : ∀ info ∈ w.dynamicLibraries, info.options.fBundleLoader = true →
    w.canBeOptimizedAway info.reader = false →
      r.fLibraryToOrdinal info.reader = some EXECUTABLE_ORDINAL
  away : ∀ c ∈ w.tables.dylibCommands,
    r.fOptimizedAway c.reader = w.canBeOptimizedAway c.reader

theorem optimizedAway_command (hc : c ∈ w.tables.dylibCommands) :
    w.unusedDylibs.fOptimizedAway c.reader = w.canBeOptimizedAway c.reader := by
  rw [Bool.eq_iff_iff, w.unusedDylibs_visited.away c.reader]
  obtain ⟨i, hi⟩ := mem_iff_getElem?.mp hc
  obtain ⟨-, hcmd, halias, -⟩ := w.tables_numbered.command i c hi
  constructor
  · rintro ⟨r, hr, hralias, hdrop, hrcmd⟩
    rcases bundle_or_command (mem_libraryOrder.mp hr) hralias with ⟨info, hinfo, rfl, hb⟩ | ⟨d, hd, rfl⟩
    · rw [(w.tables_numbered.bundle info hinfo hb).2.1] at hrcmd
      cases hrcmd
    obtain ⟨j, hj⟩ := mem_iff_getElem?.mp hd
    rw [(w.tables_numbered.command j d hj).2.1] at hrcmd
    rw [← Option.some.inj hrcmd]
    exact hdrop
  · intro hdrop
    exact ⟨c.reader, mem_libraryOrder.mpr (mem_libraries_of_command hc), halias, hdrop, hcmd⟩

def keptReaders (w : DylibWriter) : List ReaderPtr :=
  w.keptCommands.map (·.reader)

theorem keptReaders_nodup : w.keptReaders.Nodup := by
  refine List.Nodup.map_on ?_ keptCommands_nodup
  intro c hc d hd heq
  obtain ⟨i, hi⟩ := mem_iff_getElem?.mp (mem_keptCommands.mp hc).1
  obtain ⟨j, hj⟩ := mem_iff_getElem?.mp (mem_keptCommands.mp hd).1
  exact (command_inj hi hj heq).2

def renumbered (w : DylibWriter) : (ReaderPtr → Option Nat) × Nat :=
  w.keptReaders.foldl (w.renumber true)
    (w.keptReaders.foldl (w.renumber false) (w.unusedDylibs.fLibraryToOrdinal, 0))

theorem optimizeDylibReferences_ok (hapart : w.BundleLoadersApart)
    (h : w.optimizeDylibReferences = .ok r) :
    ¬ (MAX_LIBRARY_ORDINAL ≤ w.renumbered.2 ∧ w.nameSpace = .kTwoLevelNameSpace) ∧
      r.fLibraryToOrdinal =
        w.libraryOrder.foldl (addAlias w.unusedDylibs.readerAliases) w.renumbered.1 ∧
      r.fOptimizedAway = w.unusedDylibs.fOptimizedAway := by
  unfold renumbered keptReaders
  rw [← inOrder_eq hapart]
  unfold optimizeDylibReferences at h
  simp only at h
  split at h
  · cases h
  rename_i hfew
  obtain rfl := Except.ok.inj h
  exact ⟨hfew, rfl, rfl⟩

theorem renumbered_count : w.renumbered.2 = w.keptCommands.length := by
  unfold renumbered
  rw [(foldl_renumber keptReaders_nodup _).1, (foldl_renumber keptReaders_nodup _).1]
  unfold keptReaders
  rw [countP_lazy (fun c hc => hc), countP_lazy (fun c hc => hc), Nat.zero_add, countP_lazy_add]

theorem renumbered_command (hc : c ∈ w.keptCommands) :
    w.renumbered.1 c.reader = some (w.rank c + 1) := by
  obtain ⟨l₁, l₂, hsplit⟩ := append_of_mem hc
  have hmap : w.keptReaders = l₁.map (·.reader) ++ c.reader :: l₂.map (·.reader) := by
    rw [keptReaders, hsplit, map_append, map_cons]
  have hl₁ : ∀ d ∈ l₁, d ∈ w.keptCommands := by
    intro d hd
    rw [hsplit]
    exact mem_append_left _ hd
  have hlazy := lazy_kept hc
  rw [rank_eq hsplit]
  unfold renumbered
  cases hcl : c.fLazyLoad with
  | true =>
    rw [hcl] at hlazy
    rw [(foldl_renumber keptReaders_nodup _).2.2 _ _ _ hmap hlazy,
      (foldl_renumber keptReaders_nodup _).1, Nat.zero_add, countP_lazy hl₁, if_pos rfl]
    unfold keptReaders
    rw [countP_lazy fun c hc => hc]
  | false =>
    rw [hcl] at hlazy
    rw [(foldl_renumber keptReaders_nodup _).2.1 c.reader,
      (foldl_renumber keptReaders_nodup _).2.2 _ _ _ hmap hlazy, Nat.zero_add, countP_lazy hl₁,
      if_neg Bool.false_ne_true]
    rintro ⟨-, htrue⟩
    rw [hlazy] at htrue
    exact Bool.false_ne_true htrue

theorem renumbered_other {r : ReaderPtr} (hr : ∀ c ∈ w.keptCommands, c.reader ≠ r) :
    w.renumbered.1 r = w.unusedDylibs.fLibraryToOrdinal r := by
  have hmem : r ∉ w.keptReaders := by
    intro h
    obtain ⟨c, hc, heq⟩ := List.mem_map.mp h
    exact hr c hc heq
  unfold renumbered
  rw [(foldl_renumber keptReaders_nodup _).2.1 r fun h => hmem h.1,
    (foldl_renumber keptReaders_nodup _).2.1 r fun h => hmem h.1]

theorem bundle_ne_command (hinfo : info ∈ w.dynamicLibraries)
    (hb : info.options.fBundleLoader = true)
    (hc : c ∈ w.tables.dylibCommands) : c.reader ≠ info.reader := by
  intro heq
  obtain ⟨i, hi⟩ := mem_iff_getElem?.mp hc
  have hcmd := (w.tables_numbered.command i c hi).2.1
  rw [heq, (w.tables_numbered.bundle info hinfo hb).2.1] at hcmd
  cases hcmd

theorem renumbered_bundle (hinfo : info ∈ w.dynamicLibraries)
    (hb : info.options.fBundleLoader = true) (hkeep : w.canBeOptimizedAway info.reader = false) :
    w.renumbered.1 info.reader = some EXECUTABLE_ORDINAL := by
  rw [renumbered_other fun c hc => bundle_ne_command hinfo hb (mem_keptCommands.mp hc).1,
    w.unusedDylibs_visited.ordinal, (w.tables_numbered.bundle info hinfo hb).1]
  rintro ⟨-, -, hdrop⟩
  rw [hkeep] at hdrop
  cases hdrop

theorem optimizeDylibReferences_renumbered (hapart : w.BundleLoadersApart)
    (h : w.optimizeDylibReferences = .ok r) : w.Renumbered r := by
  obtain ⟨hfew, hord, haway⟩ := optimizeDylibReferences_ok hapart h
  obtain ⟨hnone, hsome⟩ := @foldl_addAlias w.unusedDylibs.readerAliases _
    w.libraryOrder_nodup w.renumbered.1
  rw [← hord] at hnone hsome
  constructor
  · intro htwo
    rw [← renumbered_count]
    exact Nat.lt_of_not_le fun hle => hfew ⟨hle, htwo⟩
  · intro c hc
    rw [hnone c.reader (readerAliases_command hapart hc), renumbered_command hc]
  · intro info hinfo c hc halias
    have hmem := mem_libraryOrder.mpr (mem_map_of_mem (f := DyLibUsed.reader) hinfo)
    rw [hsome info.reader hmem c.reader (w.unusedDylibs_visited.known _ hmem _ halias)
      (readerAliases_command hapart hc), renumbered_command hc, Option.getD_some]
  · intro info hinfo hb hkeep
    have hmem := mem_libraryOrder.mpr (mem_map_of_mem (f := DyLibUsed.reader) hinfo)
    obtain ⟨h255, -, halias⟩ := w.tables_numbered.bundle info hinfo hb
    have hkept := w.unusedDylibs_visited.kept info.reader hmem halias hkeep
    rw [h255, Option.getD_some] at hkept
    rcases hkept with hself | ⟨first, hfirst, hal, -⟩
    · have hal := (w.unusedDylibs_visited.numbered _ _ hself).2.2.2.2
      rw [hnone _ hal, renumbered_bundle hinfo hb hkeep]
    -- Another bundle loader came first, since no command has this number.
    have hal' := (w.unusedDylibs_visited.numbered _ _ hfirst).2.2.2.2
    rw [hsome _ hmem first hal hal']
    rcases number_cases hfirst with ⟨-, other, hother, rfl, hob, hokeep⟩ | ⟨i, c, hi, -, ho, -⟩
    · rw [renumbered_bundle hother hob hokeep, Option.getD_some]
    have hlt := hapart info hinfo hb hkeep
    have hle := index_lt hi
    rw [← ho] at hle
    exact absurd (Nat.lt_of_le_of_lt hle hlt) (Nat.lt_irrefl 255)
  · intro c hc
    rw [haway]
    exact optimizedAway_command hc

end Toolwhip.Ld64.DylibWriter
