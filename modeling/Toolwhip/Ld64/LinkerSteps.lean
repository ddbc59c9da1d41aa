import Toolwhip.Ld64.LinkerAdd
import Toolwhip.Lib.Runs

/-! # The linker's steps

Every phase of the resolver is a run of a few kinds of steps. What a step
preserves is proved once for each kind, and holds of whole phases. -/

namespace Toolwhip.Ld64
open Lib.ThrowingFold Lib.History Relation List
set_option autoImplicit false

variable {σ : Type}

/-- A step that changes no atom, reference or name. -/
structure Quiet (s s' : LinkerState σ) : Prop where
  frame : s' = { s with
    fGlobalSymbolTable := s'.fGlobalSymbolTable
    fReadersThatHaveSuppliedAtoms := s'.fReadersThatHaveSuppliedAtoms
    fCurrentObjCConstraint := s'.fCurrentObjCConstraint
    fObjcReplacmentClasses := s'.fObjcReplacmentClasses
    probes := s'.probes
    files := s'.files }
  find : ∀ name, s'.find name = s.find name

/-- A step of a phase that only loads atoms. -/
inductive LoadStep (ld : Linker σ) : LinkerState σ → LinkerState σ → Prop
  | quiet {s s' : LinkerState σ} (h : Quiet s s') : LoadStep ld s s'
  | addAtom {s s' : LinkerState σ} (a : AtomPtr) (h : AtomAdded ld a s s') : LoadStep ld s s'

/-- A step of a visit: it moves no iterator, and finds roots only by loading atoms. -/
inductive VisitStep (ld : Linker σ) : LinkerState σ → LinkerState σ → Prop
  | load {s s' : LinkerState σ} (h : LoadStep ld s s') : VisitStep ld s s'
  | insertLive (s : LinkerState σ) (a : AtomPtr) (h : a ∉ s.fLiveAtoms) :
      VisitStep ld s (ld.insertLive s a)
  | bind (s : LinkerState σ) (sl : Slot) (name : String) (target : AtomPtr)
      (hname : ld.objs.byName sl = some name) (hfree : s.bound sl = none)
      (hfind : s.find name = some target) (hlive : sl.atom ∈ s.fLiveAtoms) :
      VisitStep ld s (s.bind sl target)
  | noteUnresolved (s : LinkerState σ) (sl : Slot) (name : String)
      (hname : ld.objs.byName sl = some name) (hfree : s.bound sl = none)
      (hfind : s.find name = none) (hlive : sl.atom ∈ s.fLiveAtoms) :
      VisitStep ld s (s.noteUnresolved sl name)

inductive Step (ld : Linker σ) : LinkerState σ → LinkerState σ → Prop
  | visit {s s' : LinkerState σ} (h : VisitStep ld s s') : Step ld s s'
  | insertRoot (s : LinkerState σ) (a : AtomPtr) : Step ld s (s.insertRoot a)
  | walkTo (s : LinkerState σ) (p : Option AtomPtr) : Step ld s { s with walking := p }
  | fixUp (s : LinkerState σ) (sl : Slot) (name : String) (target : AtomPtr)
      (hname : ld.objs.byName sl = some name) (hfree : s.bound sl = none)
      (hfind : s.find name = some target)
      (hqueued : sl.atom ∈ s.fAtomsWithUnresolvedReferences) :
      Step ld s { s.bind sl target with
        fLiveAtoms := insert target s.fLiveAtoms
        history := (s.bind sl target).history ++
          [.fixedUp target (target ∈ s.fDeadAtoms) (target ∈ s.fLiveAtoms)] }

abbrev Loads (ld : Linker σ) : LinkerState σ → LinkerState σ → Prop :=
  ReflTransGen (LoadStep ld)

abbrev VisitRun (ld : Linker σ) : LinkerState σ → LinkerState σ → Prop :=
  ReflTransGen (VisitStep ld)

abbrev Run (ld : Linker σ) : LinkerState σ → LinkerState σ → Prop :=
  ReflTransGen (Step ld)

theorem Loads.visitRun {ld : Linker σ} {s s' : LinkerState σ} (h : Loads ld s s') :
    VisitRun ld s s' := by
  induction h with
  | refl => exact .refl
  | tail _ hstep ih => exact ih.tail (.load hstep)

theorem VisitRun.run {ld : Linker σ} {s s' : LinkerState σ} (h : VisitRun ld s s') :
    Run ld s s' := by
  induction h with
  | refl => exact .refl
  | tail _ hstep ih => exact ih.tail (.visit hstep)

theorem Loads.run {ld : Linker σ} {s s' : LinkerState σ} (h : Loads ld s s') : Run ld s s' :=
  h.visitRun.run

variable {ld : Linker σ} {s s' : LinkerState σ}

theorem insertRoot_frame (s : LinkerState σ) (a : AtomPtr) : s.insertRoot a = { s with
      fLiveRootAtoms := insert a s.fLiveRootAtoms
      history := (s.insertRoot a).history } := by
  unfold LinkerState.insertRoot
  split
  · rename_i h
    rw [Finset.insert_eq_self.mpr h]
  · rfl

theorem noteUnresolved_frame (s : LinkerState σ) (sl : Slot) (name : String) :
    s.noteUnresolved sl name = { s.require name with
      fAtomsWithUnresolvedReferences :=
        (s.noteUnresolved sl name).fAtomsWithUnresolvedReferences
      history := s.history ++ [.unresolved sl name] } := by
  unfold LinkerState.noteUnresolved
  cases sl.side <;> rfl

theorem find_noteUnresolved (s : LinkerState σ) (sl : Slot) (name other : String) :
    (s.noteUnresolved sl name).find other = s.find other := by
  rw [noteUnresolved_frame]
  exact SymbolTable.find_require _ _ _

theorem queue_noteUnresolved (s : LinkerState σ) (sl : Slot) (name : String) :
    s.fAtomsWithUnresolvedReferences ⊆
      (s.noteUnresolved sl name).fAtomsWithUnresolvedReferences := by
  unfold LinkerState.noteUnresolved
  cases sl.side with
  | target => exact subset_append_left _ _
  | fromTarget => exact List.Subset.refl _

section Growth

theorem LoadStep.history_grows (h : LoadStep ld s s') : s.history <+: s'.history := by
  cases h with
  | quiet h => rw [h.frame]
  | addAtom a h =>
    obtain ⟨es, hes, -⟩ := h.recorded
    rw [hes]
    exact prefix_append _ _

theorem VisitStep.history_grows (h : VisitStep ld s s') : s.history <+: s'.history := by
  cases h with
  | load h => exact h.history_grows
  | insertLive a h => exact prefix_append _ _
  | bind sl name target hname hfree hfind hlive => exact prefix_append _ _
  | noteUnresolved sl name hname hfree hfind hlive =>
    rw [noteUnresolved_frame]
    exact prefix_append _ _

theorem Step.history_grows (h : Step ld s s') : s.history <+: s'.history := by
  cases h with
  | visit h => exact h.history_grows
  | insertRoot a =>
    unfold LinkerState.insertRoot
    split
    · exact prefix_refl _
    · exact prefix_append _ _
  | walkTo p => exact prefix_refl _
  | fixUp sl name target hname hfree hfind hqueued =>
    apply (prefix_append _ _).trans
    exact prefix_append (s.bind sl target).history _

theorem Run.history_grows (h : Run ld s s') : s.history <+: s'.history :=
  run_appends LinkerState.history (fun _ _ => Step.history_grows) h

/-- What only grows: the sets of atoms, the queue, and the bindings made. -/
structure Grows (s s' : LinkerState σ) : Prop where
  live : s.fLiveAtoms ⊆ s'.fLiveAtoms
  dead : s.fDeadAtoms ⊆ s'.fDeadAtoms
  roots : s.fLiveRootAtoms ⊆ s'.fLiveRootAtoms
  all : s.fAllAtoms ⊆ s'.fAllAtoms
  queue : s.fAtomsWithUnresolvedReferences ⊆ s'.fAtomsWithUnresolvedReferences
  bound : ∀ sl t, s.bound sl = some t → s'.bound sl = some t
  scope : ∀ a, s'.getScope a = .scopeTranslationUnit ↔ s.getScope a = .scopeTranslationUnit
  history : s.history <+: s'.history

theorem Grows.refl (s : LinkerState σ) : Grows s s where
  live := Finset.Subset.refl _
  dead := Finset.Subset.refl _
  roots := Finset.Subset.refl _
  all := List.Subset.refl _
  queue := List.Subset.refl _
  bound _ _ h := h
  scope _ := Iff.rfl
  history := prefix_refl _

theorem Grows.trans {t u : LinkerState σ} (hst : Grows s t) (htu : Grows t u) : Grows s u where
  live := Finset.Subset.trans hst.live htu.live
  dead := Finset.Subset.trans hst.dead htu.dead
  roots := Finset.Subset.trans hst.roots htu.roots
  all := List.Subset.trans hst.all htu.all
  queue := List.Subset.trans hst.queue htu.queue
  bound sl t h := htu.bound sl t (hst.bound sl t h)
  scope a := (htu.scope a).trans (hst.scope a)
  history := hst.history.trans htu.history

theorem bind_keeps {sl sl' : Slot} {t t' : AtomPtr} (hfree : s.bound sl = none)
    (h : s.bound sl' = some t) : (s.bind sl t').bound sl' = some t := by
  have hne : sl' ≠ sl := by
    intro heq
    rw [heq, hfree] at h
    cases h
  exact (s.bound_bind_ne t' hne).trans h

theorem LoadStep.grows (h : LoadStep ld s s') : Grows s s' := by
  have hhistory := h.history_grows
  have hsame := Grows.refl s
  cases h with
  | quiet h =>
    rw [h.frame]
    exact { hsame with }
  | addAtom a h =>
    refine ⟨?_, h.deadSubset, h.rootSubset, ?_, ?_, ?_, h.scope, hhistory⟩
    · rw [h.frame]
    · rw [h.frame]
      exact subset_append_left _ _
    · rw [h.frame]
      exact hsame.queue
    · rw [h.frame]
      exact hsame.bound

theorem VisitStep.grows (h : VisitStep ld s s') : Grows s s' := by
  have hhistory := h.history_grows
  have hsame := Grows.refl s
  cases h with
  | load h => exact h.grows
  | insertLive a h =>
    exact { hsame with live := Finset.subset_insert _ _, history := hhistory }
  | bind sl name target hname hfree hfind hlive =>
    exact { hsame with bound := fun _ _ => bind_keeps hfree, history := hhistory }
  | noteUnresolved sl name hname hfree hfind hlive =>
    have hqueue := queue_noteUnresolved s sl name
    rw [noteUnresolved_frame] at hhistory hqueue ⊢
    exact { hsame with queue := hqueue, history := hhistory }

theorem Step.grows (h : Step ld s s') : Grows s s' := by
  have hhistory := h.history_grows
  have hsame := Grows.refl s
  cases h with
  | visit h => exact h.grows
  | insertRoot a =>
    refine ⟨?_, ?_, ?_, ?_, ?_, ?_, ?_, hhistory⟩ <;> rw [insertRoot_frame]
    · exact Finset.subset_insert _ _
    · exact hsame.all
    · exact hsame.queue
    · exact hsame.bound
    · exact hsame.scope
  | walkTo p => exact { hsame with }
  | fixUp sl name target hname hfree hfind hqueued =>
    exact { hsame with
      live := Finset.subset_insert _ _
      bound := fun _ _ => bind_keeps hfree
      history := hhistory }

theorem Run.grows (h : Run ld s s') : Grows s s' := by
  induction h with
  | refl => exact Grows.refl s
  | tail _ hstep ih => exact ih.trans hstep.grows

theorem VisitRun.grows (h : VisitRun ld s s') : Grows s s' :=
  h.run.grows

/-- Loading leaves what the walk over the roots has done alone. -/
structure WalkKept (s s' : LinkerState σ) : Prop where
  live : s'.fLiveAtoms = s.fLiveAtoms
  bound : s'.bound = s.bound
  queue : s'.fAtomsWithUnresolvedReferences = s.fAtomsWithUnresolvedReferences
  walking : s'.walking = s.walking

theorem LoadStep.walkKept (h : LoadStep ld s s') : WalkKept s s' := by
  cases h with
  | quiet h =>
    rw [h.frame]
    exact ⟨rfl, rfl, rfl, rfl⟩
  | addAtom a h =>
    rw [h.frame]
    exact ⟨rfl, rfl, rfl, rfl⟩

theorem Loads.walkKept (h : Loads ld s s') : WalkKept s s' := by
  induction h with
  | refl => exact ⟨rfl, rfl, rfl, rfl⟩
  | tail _ hstep ih =>
    have hlast := hstep.walkKept
    exact ⟨hlast.live.trans ih.live, hlast.bound.trans ih.bound, hlast.queue.trans ih.queue,
      hlast.walking.trans ih.walking⟩

end Growth

theorem Loads.quiet (h : Quiet s s') : Loads ld s s' :=
  .single (.quiet h)

theorem Loads.foldlM {α : Type} {f : LinkerState σ → α → Except LinkError (LinkerState σ)}
    {l : List α} (hstep : ∀ u a v, f u a = .ok v → Loads ld u v) (h : l.foldlM f s = .ok s') :
    Loads ld s s' :=
  foldlM_relates (fun _ => .refl) (fun _ _ _ => .trans) (fun u a v _ => hstep u a v) h

namespace Linker
variable {name : String} {a : AtomPtr} {sl : Slot}

theorem unboundName_eq_some :
    ld.unboundName s sl = some name ↔ s.bound sl = none ∧ ld.objs.byName sl = some name := by
  unfold unboundName binding Objects.byName
  cases hside : sl.side with
  | target =>
    cases s.bound sl <;> cases ld.objs.isDtrace sl <;> cases ld.objs.slotName sl <;> simp
  | fromTarget =>
    have hprobe : ld.objs.isDtrace sl = false := by simp [Objects.isDtrace, hside]
    rw [hprobe]
    cases s.bound sl <;> cases ld.objs.slotName sl <;> simp

theorem boundAtom_of_byName (h : ld.objs.byName sl = some name) :
    ld.boundAtom s sl = s.bound sl := by
  unfold Objects.byName at h
  split at h
  · cases h
  rename_i hprobe
  unfold boundAtom binding
  rw [Bool.not_eq_true] at hprobe
  rw [hprobe, h]
  cases sl.side <;> cases s.bound sl <;> rfl

theorem addSlotProbe_loads (sl : Slot) : Loads ld s (ld.addSlotProbe s sl) := by
  obtain ⟨p, hp⟩ := addSlotProbe_frame ld s sl
  rw [hp]
  exact Loads.quiet ⟨rfl, fun _ => rfl⟩

theorem require_loads (name : String) : Loads ld s (s.require name) :=
  Loads.quiet ⟨rfl, SymbolTable.find_require _ _⟩

theorem noteSupplier_loads {i : Nat} (h : ld.noteSupplier s a i = .ok s') : Loads ld s s' := by
  unfold noteSupplier at h
  dsimp only at h
  split at h
  · obtain ⟨constraint, -, h⟩ := bind_eq_ok.mp h
    cases h
    exact Loads.quiet ⟨rfl, fun _ => rfl⟩
  · cases h
    exact .refl

theorem addAtom_loads (h : ld.addAtom s a = .ok s') : Loads ld s s' :=
  .single (.addAtom a (addAtom_spec h))

theorem addAtoms_loads {atoms : List AtomPtr} (h : ld.addAtoms s atoms = .ok s') : Loads ld s s' := by
  refine Loads.foldlM ?_ h
  intro u a v hv
  obtain ⟨t, ht, hv⟩ := bind_eq_ok.mp hv
  exact (noteSupplier_loads ht).trans (addAtom_loads hv)

theorem askSuppliers_loads {suppliers : List Supplier} {found : Option (List AtomPtr)}
    (h : ld.askSuppliers name suppliers s = .ok (found, s')) : Loads ld s s' := by
  induction suppliers generalizing s with
  | nil =>
    cases h
    exact .refl
  | cons supplier rest ih =>
    rw [askSuppliers] at h
    have hask : Loads ld s
        { s with files := (ld.files.getJustInTimeAtomsFor supplier.reader name s.files).2 } :=
      Loads.quiet ⟨rfl, fun _ => rfl⟩
    apply hask.trans
    split at h
    · exact ih h
    obtain ⟨t, ht, h⟩ := bind_eq_ok.mp h
    apply (addAtoms_loads ht).trans
    split at h
    · exact ih h
    cases h
    exact .refl

theorem addProxy_loads (h : ld.addProxy name s = .ok s') : Loads ld s s' := by
  unfold addProxy at h
  have hask : Loads ld s { s with files := (ld.files.getUndefinedProxyAtom name s.files).2 } :=
    Loads.quiet ⟨rfl, fun _ => rfl⟩
  apply hask.trans
  dsimp only at h
  split at h
  · cases h
    exact .refl
  · exact addAtom_loads h

theorem addJustInTimeAtoms_loads {dylibsOnly : Bool} {r : Option (List AtomPtr) × LinkerState σ}
    (h : ld.addJustInTimeAtoms name dylibsOnly s = .ok r) : Loads ld s r.2 := by
  obtain ⟨⟨found, t⟩, ht, h⟩ := bind_eq_ok.mp h
  apply (askSuppliers_loads ht).trans
  cases found with
  | some atoms =>
    cases h
    exact .refl
  | none =>
    dsimp only at h
    split at h
    · obtain ⟨u, hu, h⟩ := bind_eq_ok.mp h
      cases h
      exact addProxy_loads hu
    · cases h
      exact .refl

theorem loadUndefine_loads (h : ld.loadUndefine s name = .ok s') : Loads ld s s' := by
  unfold loadUndefine at h
  split at h
  · obtain ⟨r, hr, h⟩ := bind_eq_ok.mp h
    cases h
    exact addJustInTimeAtoms_loads hr
  · cases h
    exact .refl

theorem loadUndefinesLoop_loads {fuel undefineCount : Nat}
    (h : ld.loadUndefinesLoop fuel undefineCount s = .ok s') : Loads ld s s' := by
  induction fuel generalizing undefineCount s with
  | zero => cases h
  | succ fuel ih =>
    rw [loadUndefinesLoop] at h
    split at h
    · cases h
      exact .refl
    · obtain ⟨t, ht, h⟩ := bind_eq_ok.mp h
      exact (Loads.foldlM (fun _ _ _ => loadUndefine_loads) ht).trans (ih h)

theorem checkTentative_loads (h : ld.checkTentative s name = .ok s') : Loads ld s s' := by
  unfold checkTentative at h
  split at h
  · cases h
    exact .refl
  split at h
  · split at h
    · cases h
      exact .refl
    obtain ⟨r, hr, h⟩ := bind_eq_ok.mp h
    cases h
    exact addJustInTimeAtoms_loads hr
  · cases h
    exact .refl

theorem checkTentatives_loads (h : ld.checkTentatives s = .ok s') : Loads ld s s' := by
  unfold checkTentatives at h
  split at h
  · exact Loads.foldlM (fun _ _ _ => checkTentative_loads) h
  cases h
  exact .refl

theorem findWeakExport_loads {readers : List ReaderPtr} {r : Bool × LinkerState σ}
    (h : ld.findWeakExport name readers s = .ok r) : Loads ld s r.2 := by
  induction readers generalizing s with
  | nil =>
    cases h
    exact .refl
  | cons reader rest ih =>
    rw [findWeakExport] at h
    split at h
    · have hask : Loads ld s
          { s with files := (ld.files.getJustInTimeAtomsFor reader name s.files).2 } :=
        Loads.quiet ⟨rfl, fun _ => rfl⟩
      apply hask.trans
      dsimp only at h
      split at h
      · exact ih h
      · cases h
      split at h
      · cases h
        exact Loads.quiet ⟨rfl, fun _ => rfl⟩
      · exact ih h
    · exact ih h

theorem checkWeakOverrides_loads {names : List String} (h : ld.checkWeakOverrides names s = .ok s') :
    Loads ld s s' := by
  induction names generalizing s with
  | nil =>
    cases h
    exact .refl
  | cons name rest ih =>
    rw [checkWeakOverrides] at h
    split at h
    · exact ih h
    split at h
    · obtain ⟨⟨done, t⟩, ht, h⟩ := bind_eq_ok.mp h
      apply (findWeakExport_loads ht).trans
      cases done with
      | true =>
        cases h
        exact .refl
      | false => exact ih h
    · exact ih h

theorem checkUndefines_loads (h : ld.checkUndefines s = .ok s') : Loads ld s s' := by
  unfold checkUndefines at h
  split at h
  · cases h
  obtain ⟨t, ht, h⟩ := bind_eq_ok.mp h
  apply (checkTentatives_loads ht).trans
  split at h
  · cases h
    exact .refl
  · exact checkWeakOverrides_loads h

theorem requireAll_loads (names : List String) : Loads ld s (names.foldl LinkerState.require s) := by
  induction names generalizing s with
  | nil => exact .refl
  | cons name names ih => exact (require_loads name).trans ih

theorem buildAtomList_loads (h : ld.buildAtomList s = .ok s') : Loads ld s s' := by
  obtain ⟨t, ht, h⟩ := bind_eq_ok.mp h
  obtain ⟨u, hu, h⟩ := bind_eq_ok.mp h
  have hrequire : Loads ld s (ld.fOptions.initialUndefines.foldl LinkerState.require s) :=
    requireAll_loads _
  have hreaders : Loads ld t u := Loads.foldlM (fun _ _ _ => addAtoms_loads) hu
  have hextra : Loads ld u s' := Loads.foldlM (fun _ _ _ => addAtoms_loads) h
  exact hrequire.trans ((addAtoms_loads ht).trans (hreaders.trans hextra))

end Linker
end Toolwhip.Ld64
