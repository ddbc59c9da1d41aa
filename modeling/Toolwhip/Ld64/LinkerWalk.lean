import Toolwhip.Ld64.LinkerSteps

/-! # What a visit leaves behind

A visit binds references only of atoms it makes live itself, and leaves every one
of them with its references dealt with: bound to live atoms, or queued. -/

namespace Toolwhip.Ld64
open Lib.ThrowingFold List
set_option autoImplicit false

variable {σ : Type} {ld : Linker σ}
variable {sl : Slot}

theorem Objects.mem_slots {objs : Objects} {a : AtomPtr} (h : sl ∈ objs.slots a) : sl.atom = a := by
  obtain ⟨i, -, hi⟩ := List.mem_flatMap.mp h
  cases List.mem_pair.mp hi with
  | inl hsl => rw [hsl]
  | inr hsl => rw [hsl]

theorem Objects.slots_nodup (objs : Objects) (a : AtomPtr) : (objs.slots a).Nodup := by
  apply List.nodup_flatMap.mpr
  constructor
  · intro i _
    simp
  · apply List.nodup_range.imp
    intro i j hij sl hi hj
    rcases List.mem_pair.mp hi with rfl | rfl <;> simp [hij] at hj

/-- What a visit has done about one side of a reference. -/
structure SlotDone (ld : Linker σ) (s : LinkerState σ) (sl : Slot) : Prop where
  boundLive : ∀ t, ld.boundAtom s sl = some t → t ∈ s.fLiveAtoms
  queued : ∀ name, ld.unboundName s sl = some name → sl.side = .target →
    sl.atom ∈ s.fAtomsWithUnresolvedReferences
  recorded : ∀ name, ld.unboundName s sl = some name → .unresolved sl name ∈ s.history

namespace Linker
variable {s s' : LinkerState σ}
variable {sl : Slot}

theorem binding_congr (h : s'.bound sl = s.bound sl) : ld.binding s' sl = ld.binding s sl := by
  unfold binding
  rw [h]

theorem boundAtom_congr (h : s'.bound sl = s.bound sl) :
    ld.boundAtom s' sl = ld.boundAtom s sl := by
  unfold boundAtom
  rw [binding_congr h, h]

theorem unboundName_congr (h : s'.bound sl = s.bound sl) :
    ld.unboundName s' sl = ld.unboundName s sl := by
  unfold unboundName
  rw [binding_congr h]

end Linker

theorem SlotDone.mono {s s' : LinkerState σ} (h : SlotDone ld s sl)
    (hgrows : Grows s s') (hbound : s'.bound sl = s.bound sl) : SlotDone ld s' sl where
  boundLive t ht := by
    rw [Linker.boundAtom_congr hbound] at ht
    exact hgrows.live (h.boundLive t ht)
  queued name hname hside := by
    rw [Linker.unboundName_congr hbound] at hname
    exact hgrows.queue (h.queued name hname hside)
  recorded name hname := by
    rw [Linker.unboundName_congr hbound] at hname
    exact hgrows.history.subset (h.recorded name hname)

/-- A visit, or several: what is live already keeps its bindings. -/
structure Visits (ld : Linker σ) (s s' : LinkerState σ) : Prop where
  run : VisitRun ld s s'
  frozen : ∀ sl, sl.atom ∈ s.fLiveAtoms → s'.bound sl = s.bound sl
  done : ∀ a ∈ s'.fLiveAtoms, a ∉ s.fLiveAtoms → ∀ sl ∈ ld.objs.slots a, SlotDone ld s' sl

namespace Visits
variable {s t u : LinkerState σ}

theorem of_still (hrun : VisitRun ld s t) (hlive : t.fLiveAtoms = s.fLiveAtoms)
    (hbound : t.bound = s.bound) : Visits ld s t where
  run := hrun
  frozen _ _ := by rw [hbound]
  done a ha hnot := by
    rw [hlive] at ha
    exact absurd ha hnot

theorem refl (s : LinkerState σ) : Visits ld s s :=
  of_still .refl rfl rfl

theorem trans (hst : Visits ld s t) (htu : Visits ld t u) : Visits ld s u where
  run := hst.run.trans htu.run
  frozen sl h := (htu.frozen sl (hst.run.grows.live h)).trans (hst.frozen sl h)
  done a ha hnot := by
    intro sl hsl
    by_cases hat : a ∈ t.fLiveAtoms
    · apply (hst.done a hat hnot sl hsl).mono htu.run.grows
      apply htu.frozen
      rw [Objects.mem_slots hsl]
      exact hat
    · exact htu.done a ha hat sl hsl

theorem of_loads (h : Loads ld s t) : Visits ld s t :=
  of_still h.visitRun h.walkKept.live h.walkKept.bound

theorem foldlM {α : Type} {f : LinkerState σ → α → Except LinkError (LinkerState σ)} {l : List α}
    (hstep : ∀ u a v, f u a = .ok v → Visits ld u v) (h : l.foldlM f s = .ok t) : Visits ld s t :=
  foldlM_relates refl (fun _ _ _ => trans) (fun u a v _ => hstep u a v) h

end Visits

namespace Linker
variable {s s' : LinkerState σ}
variable {a : AtomPtr}

section Body
variable {markLive : LinkerState σ → AtomPtr → Except LinkError (LinkerState σ)}
  (hmark : ∀ u a v, markLive u a = .ok v → Visits ld u v ∧ a ∈ v.fLiveAtoms)
variable {name : String} {sl : Slot}
include hmark

theorem addJustInTimeAtomsAndMarkLive_visits
    (h : ld.addJustInTimeAtomsAndMarkLive markLive s name = .ok s') : Visits ld s s' := by
  obtain ⟨⟨atoms, t⟩, ht, h⟩ := bind_eq_ok.mp h
  apply (Visits.of_loads (addJustInTimeAtoms_loads ht)).trans
  cases atoms with
  | none =>
    cases h
    exact Visits.refl _
  | some atoms =>
    dsimp only at h
    split at h
    · apply Visits.foldlM _ h
      intro u a v hv
      split at hv
      · exact (hmark u a v hv).1
      cases hv
      exact Visits.refl _
    · cases h
      exact Visits.refl _

theorem loadName_visits (h : ld.loadName markLive s name = .ok s') : Visits ld s s' := by
  unfold loadName at h
  split at h
  · cases h
    exact Visits.refl _
  · exact addJustInTimeAtomsAndMarkLive_visits hmark h

/-- What the loop body leaves of one side of the atom it visits. -/
structure SlotVisited (ld : Linker σ) (sl : Slot) (s s' : LinkerState σ) : Prop where
  run : VisitRun ld s s'
  frozen : ∀ sl', sl' ≠ sl → sl'.atom ∈ s.fLiveAtoms → s'.bound sl' = s.bound sl'
  done : ∀ a ∈ s'.fLiveAtoms, a ∉ s.fLiveAtoms → ∀ sl' ∈ ld.objs.slots a, SlotDone ld s' sl'
  queued : ∀ name, ld.unboundName s' sl = some name → sl.side = .target →
    sl.atom ∈ s'.fAtomsWithUnresolvedReferences
  recorded : ∀ name, ld.unboundName s' sl = some name → .unresolved sl name ∈ s'.history

theorem bindSlot_visited (hlive : sl.atom ∈ s.fLiveAtoms)
    (h : ld.bindSlot markLive s sl = .ok s') : SlotVisited ld sl s s' := by
  unfold bindSlot at h
  split at h
  · rename_i hnone
    cases h
    refine ⟨.refl, fun _ _ _ => rfl, fun a ha hnot => absurd ha hnot, ?_, ?_⟩
    · intro name hname
      rw [hnone] at hname
      cases hname
    · intro name hname
      rw [hnone] at hname
      cases hname
  · rename_i name hname
    obtain ⟨hfree, hby⟩ := unboundName_eq_some.mp hname
    obtain ⟨t, ht, h⟩ := bind_eq_ok.mp h
    have hvisits := loadName_visits hmark ht
    have hlive' := hvisits.run.grows.live hlive
    have hfree' : t.bound sl = none := (hvisits.frozen sl hlive).trans hfree
    split at h
    · rename_i target hfind
      cases h
      have hother : ∀ sl', sl' ≠ sl → (t.bind sl target).bound sl' = t.bound sl' :=
        fun _ => t.bound_bind_ne target
      have hbind : VisitStep ld t (t.bind sl target) := .bind t sl name target hby hfree' hfind hlive'
      have hbound : ∀ n, ld.unboundName (t.bind sl target) sl ≠ some n := by
        intro n hn
        have hnone := (unboundName_eq_some.mp hn).1
        rw [LinkerState.bound_bind] at hnone
        cases hnone
      refine ⟨hvisits.run.tail hbind, ?_, ?_, fun n hn => absurd hn (hbound n),
        fun n hn => absurd hn (hbound n)⟩
      · intro sl' hne hsl'
        exact (hother sl' hne).trans (hvisits.frozen sl' hsl')
      · intro a ha hnot sl' hsl'
        apply (hvisits.done a ha hnot sl' hsl').mono hbind.grows
        apply hother
        intro heq
        have hatom := Objects.mem_slots hsl'
        rw [heq] at hatom
        exact hnot (hatom ▸ hlive)
    · rename_i hnone
      cases h
      have hnote : VisitStep ld t (t.noteUnresolved sl name) :=
        .noteUnresolved t sl name hby hfree' hnone hlive'
      have hsame : (t.noteUnresolved sl name).fLiveAtoms = t.fLiveAtoms ∧
          (t.noteUnresolved sl name).bound = t.bound := by
        rw [noteUnresolved_frame]
        exact ⟨rfl, rfl⟩
      have hall := hvisits.trans (Visits.of_still (.single hnote) hsame.1 hsame.2)
      refine ⟨hall.run, fun sl' _ => hall.frozen sl', hall.done, ?_, ?_⟩
      · intro _ _ hside
        unfold LinkerState.noteUnresolved
        rw [hside]
        exact mem_append_right _ (List.mem_singleton.mpr rfl)
      · intro n hn
        have hsame' := Option.some.inj ((unboundName_eq_some.mp hn).2.symm.trans hby)
        rw [noteUnresolved_frame, hsame']
        exact mem_append_right _ (List.mem_singleton.mpr rfl)

theorem visitSlot_visited (hlive : sl.atom ∈ s.fLiveAtoms)
    (h : ld.visitSlot markLive s sl = .ok s') : SlotVisited ld sl s s' ∧ SlotDone ld s' sl := by
  obtain ⟨t, ht, h⟩ := bind_eq_ok.mp h
  have hbind := bindSlot_visited hmark hlive ht
  have hlive' := hbind.run.grows.live hlive
  have hrest : Visits ld t s' ∧ ∀ x, ld.boundAtom t sl = some x → x ∈ s'.fLiveAtoms := by
    split at h
    · rename_i target htarget
      obtain ⟨hvisits, htlive⟩ := hmark t target s' h
      refine ⟨hvisits, ?_⟩
      intro x hx
      rw [← Option.some.inj (htarget.symm.trans hx)]
      exact htlive
    · rename_i hnone
      cases h
      obtain ⟨p, hp⟩ := addSlotProbe_frame ld t sl
      refine ⟨?_, ?_⟩
      · apply Visits.of_still (addSlotProbe_loads sl).visitRun
        · rw [hp]
        · rw [hp]
      · intro x hx
        rw [hnone] at hx
        cases hx
  obtain ⟨hvisits, hbound⟩ := hrest
  have hsl := hvisits.frozen sl hlive'
  have hqueued : ∀ name, ld.unboundName s' sl = some name → sl.side = .target →
      sl.atom ∈ s'.fAtomsWithUnresolvedReferences := by
    intro name hname hside
    rw [unboundName_congr hsl] at hname
    exact hvisits.run.grows.queue (hbind.queued name hname hside)
  have hrecorded : ∀ name, ld.unboundName s' sl = some name →
      .unresolved sl name ∈ s'.history := by
    intro name hname
    rw [unboundName_congr hsl] at hname
    exact hvisits.run.grows.history.subset (hbind.recorded name hname)
  refine ⟨⟨hbind.run.trans hvisits.run, ?_, ?_, hqueued, hrecorded⟩, ⟨?_, hqueued, hrecorded⟩⟩
  · intro sl' hne hsl'
    exact (hvisits.frozen sl' (hbind.run.grows.live hsl')).trans (hbind.frozen sl' hne hsl')
  · intro a ha hnot sl' hsl'
    by_cases hat : a ∈ t.fLiveAtoms
    · apply (hbind.done a hat hnot sl' hsl').mono hvisits.run.grows
      apply hvisits.frozen
      rw [Objects.mem_slots hsl']
      exact hat
    · exact hvisits.done a ha hat sl' hsl'
  · intro x hx
    rw [boundAtom_congr hsl] at hx
    exact hbound x hx

end Body

/-- Where the loop over the references of `a` stands after the sides `pre`. -/
structure Progress (ld : Linker σ) (a : AtomPtr) (s : LinkerState σ) (pre : List Slot)
    (u : LinkerState σ) : Prop where
  run : VisitRun ld s u
  live : a ∈ u.fLiveAtoms
  frozen : ∀ sl, sl.atom ∈ s.fLiveAtoms → u.bound sl = s.bound sl
  done : ∀ b ∈ u.fLiveAtoms, b ∉ s.fLiveAtoms → b ≠ a → ∀ sl ∈ ld.objs.slots b, SlotDone ld u sl
  visited : ∀ sl ∈ pre, SlotDone ld u sl

theorem Progress.step {pre : List Slot} {u v : LinkerState σ} {sl : Slot}
    (h : Progress ld a s pre u) (hnot : a ∉ s.fLiveAtoms) (hsl : sl.atom = a)
    (hpre : ∀ sl' ∈ pre, sl'.atom = a ∧ sl' ≠ sl) (hvisited : SlotVisited ld sl u v)
    (hdone : SlotDone ld v sl) : Progress ld a s (pre ++ [sl]) v := by
  have hgrows := hvisited.run.grows
  refine ⟨h.run.trans hvisited.run, hgrows.live h.live, ?_, ?_, ?_⟩
  · intro sl' hsl'
    have hne : sl' ≠ sl := by
      intro heq
      rw [heq, hsl] at hsl'
      exact hnot hsl'
    exact (hvisited.frozen sl' hne (h.run.grows.live hsl')).trans (h.frozen sl' hsl')
  · intro b hb hbs hba sl' hsl'
    by_cases hbu : b ∈ u.fLiveAtoms
    · apply (h.done b hbu hbs hba sl' hsl').mono hgrows
      have hatom := Objects.mem_slots hsl'
      apply hvisited.frozen
      · intro heq
        rw [heq, hsl] at hatom
        exact hba hatom.symm
      · rw [hatom]
        exact hbu
    · exact hvisited.done b hb hbu sl' hsl'
  · intro sl' hsl'
    cases List.mem_append.mp hsl' with
    | inl hsl' =>
      obtain ⟨hatom, hne⟩ := hpre sl' hsl'
      apply (h.visited sl' hsl').mono hgrows
      apply hvisited.frozen sl' hne
      rw [hatom]
      exact h.live
    | inr hsl' =>
      rw [List.mem_singleton.mp hsl']
      exact hdone

theorem markLive_visits {fuel : Nat} (h : ld.markLive fuel s a = .ok s') :
    Visits ld s s' ∧ a ∈ s'.fLiveAtoms := by
  induction fuel generalizing s a s' with
  | zero => cases h
  | succ fuel ih =>
    rw [markLive] at h
    split at h
    · rename_i hin
      cases h
      exact ⟨Visits.refl _, hin⟩
    rename_i hnot
    have hstart : Progress ld a s [] (ld.insertLive s a) := by
      refine ⟨.single (.insertLive s a hnot), Finset.mem_insert_self _ _, fun _ _ => rfl, ?_, ?_⟩
      · intro b hb hbs hba
        exact absurd (Finset.mem_of_mem_insert_of_ne hb hba) hbs
      · intro sl hsl
        cases hsl
    have hend : Progress ld a s (ld.objs.slots a) s' := by
      apply foldlM_progress _ hstart h
      intro pre sl post u v hl hu hv
      have hmem : ∀ sl' ∈ pre ++ sl :: post, sl'.atom = a := fun sl' hsl' =>
        Objects.mem_slots (hl ▸ hsl')
      have hsl := hmem sl (mem_append_right _ mem_cons_self)
      have hnd := ld.objs.slots_nodup a
      rw [hl] at hnd
      obtain ⟨hvisited, hdone⟩ := visitSlot_visited (fun u a v => ih) (hsl ▸ hu.live) hv
      apply hu.step hnot hsl _ hvisited hdone
      intro sl' hsl'
      refine ⟨hmem sl' (mem_append_left _ hsl'), ?_⟩
      exact (List.nodup_append.mp hnd).2.2 sl' hsl' sl mem_cons_self
    refine ⟨⟨hend.run, hend.frozen, ?_⟩, hend.live⟩
    intro b hb hbs
    by_cases hba : b = a
    · rw [hba]
      exact hend.visited
    · exact hend.done b hb hbs hba

end Linker
end Toolwhip.Ld64
