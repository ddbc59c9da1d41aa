import Toolwhip.Ld64.LinkerDeadStrip

/-! # What addAtom can do

One specification for each function that changes the list of atoms or the symbol
table. Later proofs cite these and never unfold `addAtom`. -/

namespace Toolwhip.Ld64
open Lib.ThrowingFold List
set_option autoImplicit false

variable {σ : Type}

/-- `markDead` only inserts dead atoms, and records those that are new. -/
structure DeadGrows (s s' : LinkerState σ) : Prop where
  frame : s' = { s with fDeadAtoms := s'.fDeadAtoms, history := s'.history }
  subset : s.fDeadAtoms ⊆ s'.fDeadAtoms
  recorded : ∃ es, s'.history = s.history ++ es ∧
    (∀ e ∈ es, ∃ b wasLive wasListed, e = .markedDead b wasLive wasListed) ∧
    ∀ b ∈ s'.fDeadAtoms, b ∉ s.fDeadAtoms →
      .markedDead b (b ∈ s.fLiveAtoms) (b ∈ s.fAllAtoms) ∈ es

namespace DeadGrows
variable {s t u : LinkerState σ}

theorem refl (s : LinkerState σ) : DeadGrows s s where
  frame := rfl
  subset := Finset.Subset.refl _
  recorded := by
    refine ⟨[], (append_nil _).symm, ?_, ?_⟩
    · intro e he
      cases he
    · intro b hb hnot
      exact absurd hb hnot

theorem trans (hst : DeadGrows s t) (htu : DeadGrows t u) : DeadGrows s u where
  frame := by
    rw [htu.frame, hst.frame]
  subset := Finset.Subset.trans hst.subset htu.subset
  recorded := by
    obtain ⟨es, hes, hkind, hnew⟩ := hst.recorded
    obtain ⟨fs, hfs, hkind', hnew'⟩ := htu.recorded
    have hlive : t.fLiveAtoms = s.fLiveAtoms := by rw [hst.frame]
    have hall : t.fAllAtoms = s.fAllAtoms := by rw [hst.frame]
    refine ⟨es ++ fs, ?_, ?_, ?_⟩
    · rw [hfs, hes, append_assoc]
    · intro e he
      cases List.mem_append.mp he with
      | inl he => exact hkind e he
      | inr he => exact hkind' e he
    · intro b hb hnot
      apply List.mem_append.mpr
      by_cases hbt : b ∈ t.fDeadAtoms
      · exact Or.inl (hnew b hbt hnot)
      right
      rw [← hlive, ← hall]
      exact hnew' b hb hbt

theorem insertDead (s : LinkerState σ) (a : AtomPtr) : DeadGrows s (s.insertDead a) where
  frame := rfl
  subset := Finset.subset_insert _ _
  recorded := by
    refine ⟨_, rfl, ?_, ?_⟩
    · intro e he
      exact ⟨a, _, _, List.mem_singleton.mp he⟩
    · intro b hb hnot
      obtain rfl | hb := Finset.mem_insert.mp hb
      · exact List.mem_singleton.mpr rfl
      · exact absurd hb hnot

end DeadGrows

/-- What `SymbolTable::add` and `markDead` do to the table between them: an atom
leaves it only by being marked dead. -/
structure TableGrows (objs : Objects) (a : AtomPtr) (s s' : LinkerState σ) : Prop where
  kept : ∀ name t, s.find name = some t → s'.find name = some t ∨ t ∈ s'.fDeadAtoms
  fresh : ∀ name t, s'.find name = some t →
    s.find name = some t ∨ t = a ∧ name = objs.nameOf a

namespace Linker
variable {ld : Linker σ} {s s' : LinkerState σ} {a : AtomPtr}

theorem markDead_spec {fuel : Nat} (h : ld.markDead fuel s a = .ok s') :
    DeadGrows s s' ∧ a ∈ s'.fDeadAtoms := by
  induction fuel generalizing s a s' with
  | zero => cases h
  | succ fuel ih =>
    have hrest : DeadGrows (s.insertDead a) s' :=
      foldlM_relates DeadGrows.refl (fun _ _ _ => DeadGrows.trans) (fun _ _ _ _ hv => (ih hv).1) h
    exact ⟨(DeadGrows.insertDead s a).trans hrest, hrest.subset (Finset.mem_insert_self a _)⟩

theorem addToSymbolTable_spec (h : ld.addToSymbolTable s a = .ok s') :
    DeadGrows { s with fGlobalSymbolTable := s'.fGlobalSymbolTable } s' ∧ TableGrows ld.objs a s s' ∧
      (s'.find (ld.objs.nameOf a) = some a ∨ a ∈ s'.fDeadAtoms) := by
  obtain ⟨r, hr, h⟩ := bind_eq_ok.mp h
  have hne : ∀ name, name ≠ ld.objs.nameOf a → r.table.find name = s.find name :=
    fun name hname => SymbolTable.find_add_ne hr hname
  -- whatever is marked dead afterwards, the table stays
  have hmark : ∀ {d : AtomPtr} {u : LinkerState σ},
      ld.markDead ld.fuel { s with fGlobalSymbolTable := r.table } d = .ok u →
        u.fGlobalSymbolTable = r.table ∧ d ∈ u.fDeadAtoms ∧
          DeadGrows { s with fGlobalSymbolTable := u.fGlobalSymbolTable } u := by
    intro d u hu
    obtain ⟨hgrows, hd⟩ := markDead_spec hu
    have htable : u.fGlobalSymbolTable = r.table := by rw [hgrows.frame]
    refine ⟨htable, hd, ?_⟩
    rw [htable]
    exact hgrows
  cases SymbolTable.add_cases hr with
  | isNew hnone hfind hdead =>
    rw [hdead] at h
    cases h
    refine ⟨DeadGrows.refl _, ⟨?_, ?_⟩, Or.inl hfind⟩
    · intro name t ht
      left
      rw [← ht]
      apply hne
      rintro rfl
      exact absurd (hnone.symm.trans ht) (by simp)
    · intro name t ht
      by_cases hname : name = ld.objs.nameOf a
      · subst hname
        exact Or.inr ⟨Option.some.inj (ht.symm.trans hfind), rfl⟩
      · exact Or.inl ((hne name hname).symm.trans ht)
  | replaces existing hsome huse hfind hdead =>
    rw [hdead] at h
    obtain ⟨htable, hd, hgrows⟩ := hmark h
    refine ⟨hgrows, ⟨?_, ?_⟩, Or.inl ?_⟩
    · intro name t ht
      by_cases hname : name = ld.objs.nameOf a
      · subst hname
        rw [← Option.some.inj (hsome.symm.trans ht)]
        exact Or.inr hd
      · left
        rw [← ht, LinkerState.find, htable]
        exact hne name hname
    · intro name t ht
      rw [LinkerState.find, htable] at ht
      by_cases hname : name = ld.objs.nameOf a
      · subst hname
        exact Or.inr ⟨Option.some.inj (ht.symm.trans hfind), rfl⟩
      · exact Or.inl ((hne name hname).symm.trans ht)
    · rw [LinkerState.find, htable]
      exact hfind
  | keeps existing hsome huse hfind hdead =>
    rw [hdead] at h
    obtain ⟨htable, hd, hgrows⟩ := hmark h
    have hsame : ∀ name, s'.find name = s.find name := by
      intro name
      rw [LinkerState.find, htable]
      by_cases hname : name = ld.objs.nameOf a
      · subst hname
        exact hfind.trans hsome.symm
      · exact hne name hname
    refine ⟨hgrows, ⟨?_, ?_⟩, Or.inr hd⟩
    · intro name t ht
      exact Or.inl ((hsame name).trans ht)
    · intro name t ht
      exact Or.inl ((hsame name).symm.trans ht)

theorem addDtraceProbe_frame (ld : Linker σ) (s : LinkerState σ) (a : AtomPtr) (offset : Nat)
    (probeName : Option String) :
    ∃ p, ld.addDtraceProbe s a offset probeName = { s with probes := p } := by
  unfold addDtraceProbe
  split
  · exact ⟨s.probes, rfl⟩
  · split_ifs <;> exact ⟨_, rfl⟩

theorem addSlotProbe_frame (ld : Linker σ) (s : LinkerState σ) (sl : Slot) :
    ∃ p, ld.addSlotProbe s sl = { s with probes := p } := by
  unfold addSlotProbe
  split
  · exact ⟨s.probes, rfl⟩
  split
  · exact addDtraceProbe_frame ld s _ _ _
  · exact ⟨s.probes, rfl⟩

theorem noteReferences_frame (ld : Linker σ) (s : LinkerState σ) (a : AtomPtr) :
    ∃ t p, ld.noteReferences s a =
        ld.countSize { s with fGlobalSymbolTable := t, probes := p } a ∧
      ∀ name, t.find name = s.find name := by
  unfold noteReferences
  dsimp only
  generalize ld.objs.slots a = slots
  induction slots generalizing s with
  | nil => exact ⟨_, _, rfl, fun _ => rfl⟩
  | cons sl slots ih =>
    rw [foldl_cons]
    split
    · rename_i name _
      obtain ⟨t, p, heq, hfind⟩ := ih (s.require name)
      refine ⟨t, p, heq, ?_⟩
      intro n
      exact (hfind n).trans (SymbolTable.find_require _ _ _)
    · obtain ⟨p, hp⟩ := addSlotProbe_frame ld s sl
      rw [hp]
      exact ih _

end Linker

/-- All that `listAtom` can do. -/
structure AtomListed (ld : Linker σ) (a : AtomPtr) (s s' : LinkerState σ) : Prop where
  frame : s' = { s with
    fAllAtoms := s.fAllAtoms ++ [a]
    fGlobalSymbolTable := s'.fGlobalSymbolTable
    fLiveRootAtoms := s'.fLiveRootAtoms
    probes := s'.probes
    fTotalSize := s'.fTotalSize
    fTotalZeroFillSize := s'.fTotalZeroFillSize
    history := s'.history }
  find : ∀ name, s'.find name = s.find name
  rootSubset : s.fLiveRootAtoms ⊆ s'.fLiveRootAtoms
  root : ld.fOptions.deadStrip ≠ .kDeadStripOff → (ld.objs.atom a).dontDeadStrip →
    a ∈ s'.fLiveRootAtoms
  recorded : ∃ es, s'.history = s.history ++ .added a (a ∈ s.fDeadAtoms) (a ∈ s.fAllAtoms) :: es ∧
    (∀ e ∈ es, e = .rootInserted a s.walking) ∧
    ∀ r ∈ s'.fLiveRootAtoms, r ∉ s.fLiveRootAtoms → .rootInserted r s.walking ∈ es
  size : s'.fTotalSize = if ld.fOptions.deadStrip = .kDeadStripOff then
    (s.fTotalSize + ld.readableSize a) % 2 ^ 64 else s.fTotalSize
  zeroFill : s'.fTotalZeroFillSize = if ld.fOptions.deadStrip = .kDeadStripOff then
    (s.fTotalZeroFillSize + ld.zeroFillSize a) % 2 ^ 64 else s.fTotalZeroFillSize

/-- All that `addAtom` can do. -/
structure AtomAdded (ld : Linker σ) (a : AtomPtr) (s s' : LinkerState σ) : Prop where
  frame : s' = { s with
    fAllAtoms := s.fAllAtoms ++ [a]
    fGlobalSymbolTable := s'.fGlobalSymbolTable
    fDeadAtoms := s'.fDeadAtoms
    fLiveRootAtoms := s'.fLiveRootAtoms
    probes := s'.probes
    fTotalSize := s'.fTotalSize
    fTotalZeroFillSize := s'.fTotalZeroFillSize
    getScope := s'.getScope
    history := s'.history }
  deadSubset : s.fDeadAtoms ⊆ s'.fDeadAtoms
  rootSubset : s.fLiveRootAtoms ⊆ s'.fLiveRootAtoms
  root : ld.fOptions.deadStrip ≠ .kDeadStripOff → (ld.objs.atom a).dontDeadStrip →
    a ∈ s'.fLiveRootAtoms
  recorded : ∃ es, s'.history = s.history ++ .added a (a ∈ s.fDeadAtoms) (a ∈ s.fAllAtoms) :: es ∧
    (∀ e ∈ es, e = .rootInserted a s.walking ∨
      ∃ b wasLive wasListed, e = .markedDead b wasLive wasListed) ∧
    (∀ r ∈ s'.fLiveRootAtoms, r ∉ s.fLiveRootAtoms → .rootInserted r s.walking ∈ es) ∧
    ∀ b ∈ s'.fDeadAtoms, b ∉ s.fDeadAtoms →
      .markedDead b (b ∈ s.fLiveAtoms) (b ∈ s.fAllAtoms ++ [a]) ∈ es
  table : TableGrows ld.objs a s s'
  offered : ∀ name t, s'.find name = some t → s.find name = some t ∨
    (ld.objs.atom a).getName = some name ∧ s.getScope a ≠ .scopeTranslationUnit
  defined : ∀ name, (ld.objs.atom a).getName = some name →
    s.getScope a ≠ .scopeTranslationUnit → ld.inSymbolTable a →
      s'.find name = some a ∨ a ∈ s'.fDeadAtoms
  scope : ∀ b, s'.getScope b = .scopeTranslationUnit ↔ s.getScope b = .scopeTranslationUnit
  size : s'.fTotalSize = if ld.fOptions.deadStrip = .kDeadStripOff then
    (s.fTotalSize + ld.readableSize a) % 2 ^ 64 else s.fTotalSize
  zeroFill : s'.fTotalZeroFillSize = if ld.fOptions.deadStrip = .kDeadStripOff then
    (s.fTotalZeroFillSize + ld.zeroFillSize a) % 2 ^ 64 else s.fTotalZeroFillSize

variable {ld : Linker σ} {s s' : LinkerState σ} {a : AtomPtr}

theorem AtomListed.added {u : LinkerState σ} (h : AtomListed ld a s u) {scope : AtomPtr → Scope}
    (hscope : ∀ b, scope b = .scopeTranslationUnit ↔ u.getScope b = .scopeTranslationUnit)
    (hdead : DeadGrows
      { u with getScope := scope, fGlobalSymbolTable := s'.fGlobalSymbolTable } s')
    (htable : TableGrows ld.objs a u s')
    (hoffered : ∀ name t, s'.find name = some t → u.find name = some t ∨
      (ld.objs.atom a).getName = some name ∧ u.getScope a ≠ .scopeTranslationUnit)
    (hdefined : ∀ name, (ld.objs.atom a).getName = some name →
      u.getScope a ≠ .scopeTranslationUnit → ld.inSymbolTable a →
        s'.find name = some a ∨ a ∈ s'.fDeadAtoms) : AtomAdded ld a s s' := by
  have hrest : u.getScope = s.getScope ∧ u.fDeadAtoms = s.fDeadAtoms ∧
      u.fLiveAtoms = s.fLiveAtoms ∧ u.fAllAtoms = s.fAllAtoms ++ [a] := by
    rw [h.frame]
    exact ⟨rfl, rfl, rfl, rfl⟩
  obtain ⟨hsame, hdeadEq, hlive, hall⟩ := hrest
  have hroots : s'.fLiveRootAtoms = u.fLiveRootAtoms := by rw [hdead.frame]
  refine ⟨?_, ?_, ?_, ?_, ?_, ?_, ?_, ?_, ?_, ?_, ?_⟩
  · rw [hdead.frame, h.frame]
  · rw [← hdeadEq]
    exact hdead.subset
  · rw [hroots]
    exact h.rootSubset
  · rw [hroots]
    exact h.root
  · obtain ⟨es, hes, hkind, hroot⟩ := h.recorded
    obtain ⟨ds, hds, hmarked, hnew⟩ := hdead.recorded
    refine ⟨es ++ ds, ?_, ?_, ?_, ?_⟩
    · rw [hds]
      rw [hes, append_assoc, cons_append]
    · intro e he
      cases List.mem_append.mp he with
      | inl he => exact Or.inl (hkind e he)
      | inr he => exact Or.inr (hmarked e he)
    · intro r hr hnot
      rw [hroots] at hr
      exact mem_append_left _ (hroot r hr hnot)
    · intro b hb hnot
      apply mem_append_right
      rw [← hlive, ← hall]
      apply hnew b hb
      rw [← hdeadEq] at hnot
      exact hnot
  · refine ⟨?_, ?_⟩
    · intro name t ht
      exact htable.kept name t ((h.find name).trans ht)
    · intro name t ht
      rw [← h.find name]
      exact htable.fresh name t ht
  · intro name t ht
    rw [← h.find name, ← hsame]
    exact hoffered name t ht
  · rw [← hsame]
    exact hdefined
  · intro b
    rw [hdead.frame, ← hsame]
    exact hscope b
  · rw [hdead.frame]
    exact h.size
  · rw [hdead.frame]
    exact h.zeroFill

theorem tableGrows_of_find (h : ∀ name, s'.find name = s.find name) : TableGrows ld.objs a s s' where
  kept name _ ht := Or.inl ((h name).trans ht)
  fresh name _ ht := Or.inl ((h name).symm.trans ht)

namespace Linker

theorem listAtom_spec (ld : Linker σ) (s : LinkerState σ) (a : AtomPtr) :
    AtomListed ld a s (ld.listAtom s a) := by
  unfold listAtom
  split
  · rename_i hoff
    obtain ⟨t, p, heq, hfind⟩ := noteReferences_frame ld (s.push a) a
    rw [heq]
    refine ⟨rfl, hfind, Finset.Subset.refl _, fun hon => absurd hoff hon, ⟨[], rfl, ?_, ?_⟩, ?_, ?_⟩
    · intro e he
      cases he
    · intro r hr hnot
      exact absurd hr hnot
    · rw [if_pos hoff]
      rfl
    · rw [if_pos hoff]
      rfl
  · rename_i hon
    by_cases hin : (ld.objs.atom a).dontDeadStrip = true ∧ a ∉ s.fLiveRootAtoms
    · have heq : (s.push a).insertRoot a =
          { s.push a with
            fLiveRootAtoms := insert a s.fLiveRootAtoms
            history := (s.push a).history ++ [.rootInserted a s.walking] } := if_neg hin.2
      rw [if_pos hin.1, heq]
      refine ⟨rfl, fun _ => rfl, Finset.subset_insert _ _, fun _ _ => Finset.mem_insert_self _ _,
        ⟨[.rootInserted a s.walking], ?_, ?_, ?_⟩, ?_, ?_⟩
      · exact append_assoc _ _ _
      · intro e he
        exact List.mem_singleton.mp he
      · intro r hr hnot
        obtain rfl | hr := Finset.mem_insert.mp hr
        · exact List.mem_singleton.mpr rfl
        · exact absurd hr hnot
      · rw [if_neg hon]
        rfl
      · rw [if_neg hon]
        rfl
    · have heq : (if (ld.objs.atom a).dontDeadStrip then (s.push a).insertRoot a else s.push a) =
          s.push a := by
        split
        · rename_i hdont
          exact if_pos (not_not.mp fun hnot => hin ⟨hdont, hnot⟩)
        · rfl
      rw [heq]
      refine ⟨rfl, fun _ => rfl, Finset.Subset.refl _, fun _ hdont => ?_, ⟨[], rfl, ?_, ?_⟩, ?_, ?_⟩
      · exact not_not.mp fun hnot => hin ⟨hdont, hnot⟩
      · intro e he
        cases he
      · intro r hr hnot
        exact absurd hr hnot
      · rw [if_neg hon]
        rfl
      · rw [if_neg hon]
        rfl

theorem restrictScope_frame (ld : Linker σ) (s : LinkerState σ) (a : AtomPtr) (name : String) :
    ∃ scope, ld.restrictScope s a name = { s with getScope := scope } ∧
      ∀ b, scope b = .scopeTranslationUnit ↔ s.getScope b = .scopeTranslationUnit := by
  unfold restrictScope
  split
  · rename_i h
    refine ⟨_, rfl, ?_⟩
    intro b
    by_cases hb : b = a
    · subst hb
      rw [Function.update_self, h.2.1]
      decide
    · rw [Function.update_of_ne hb]
  · exact ⟨s.getScope, rfl, fun _ => Iff.rfl⟩

theorem addAtom_spec (h : ld.addAtom s a = .ok s') : AtomAdded ld a s s' := by
  have hlisted := listAtom_spec ld s a
  unfold addAtom at h
  dsimp only at h
  split at h
  · rename_i hnone
    cases h
    refine hlisted.added (fun _ => Iff.rfl) (DeadGrows.refl _) (tableGrows_of_find fun _ => rfl)
      (fun _ _ => Or.inl) ?_
    intro name hname
    rw [hnone] at hname
    cases hname
  · rename_i name hname
    split at h
    · rename_i hunit
      cases h
      refine hlisted.added (fun _ => Iff.rfl) (DeadGrows.refl _)
        (tableGrows_of_find fun _ => rfl) (fun _ _ => Or.inl) ?_
      intro _ _ hscope
      exact absurd hunit hscope
    · rename_i hunit
      obtain ⟨scope, heq, hscope⟩ := restrictScope_frame ld (ld.listAtom s a) a name
      rw [heq] at h
      split at h
      · obtain ⟨hdead, htable, hdef⟩ := addToSymbolTable_spec h
        refine hlisted.added hscope hdead ⟨htable.kept, htable.fresh⟩ ?_ ?_
        · intro name' t ht
          obtain ht | ⟨-, hsame⟩ := htable.fresh name' t ht
          · exact Or.inl ht
          right
          rw [hsame, Objects.nameOf_eq hname]
          exact ⟨hname, hunit⟩
        · intro name' hname' _ _
          rw [← Objects.nameOf_eq hname']
          exact hdef
      · rename_i hout
        cases h
        refine hlisted.added hscope (DeadGrows.refl _) (tableGrows_of_find fun _ => rfl)
          (fun _ _ => Or.inl) ?_
        intro _ _ _ hin
        exact absurd hin hout

end Linker
end Toolwhip.Ld64
