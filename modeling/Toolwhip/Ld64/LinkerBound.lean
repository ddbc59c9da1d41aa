import Toolwhip.Ld64.LinkerCoalesced

/-! # Names that are defined late

A name may be undefined when its reference is visited, and defined by a member that is
loaded afterwards. The fix-up loop binds the references of the atoms that had an
unresolved target; an unresolved from-target alone queues nothing. -/

namespace Toolwhip.Ld64
open Lib.ThrowingFold Lib.History List
set_option autoImplicit false

variable {σ : Type} {ld : Linker σ} {s s' : LinkerState σ}

namespace Objects

def defines (objs : Objects) (a : AtomPtr) (name : String) : Prop :=
  (objs.atom a).getName = some name ∧ (objs.atom a).getScope ≠ .scopeTranslationUnit

def DefinesFrom (objs : Objects) : Event → Event → Prop
  | .unresolved sl name, .added a _ _ => sl.side = .fromTarget ∧ objs.defines a name
  | _, _ => False

instance (objs : Objects) (a : AtomPtr) (name : String) : Decidable (objs.defines a name) :=
  inferInstanceAs (Decidable (_ ∧ _))

instance (objs : Objects) (e later : Event) : Decidable (objs.DefinesFrom e later) := by
  unfold DefinesFrom
  split <;> infer_instance

end Objects

namespace Event

def Queues (a : AtomPtr) : Event → Prop
  | .unresolved sl _ => sl.side = .target ∧ sl.atom = a
  | _ => False

def Queued (history : List Event) : Event → Prop
  | .unresolved sl _ => ∃ e ∈ history, e.Queues sl.atom
  | _ => False

instance (a : AtomPtr) (e : Event) : Decidable (e.Queues a) := by
  unfold Queues
  split <;> infer_instance

instance (history : List Event) (e : Event) : Decidable (e.Queued history) := by
  unfold Queued
  split <;> infer_instance

end Event

def FromTargetsCaught (objs : Objects) (history : List Event) : Prop :=
  history.Pairwise fun e later => objs.DefinesFrom e later → e.Queued history

instance (objs : Objects) (history : List Event) : Decidable (FromTargetsCaught objs history) :=
  inferInstanceAs (Decidable (history.Pairwise _))

/-- A side is bound to a listed atom, and the fix-up loop makes live only what has no
references by name. -/
def Event.BindsListed (objs : Objects) : Event → Prop
  | .bound _ _ wasListed => wasListed = true
  | .fixedUp a _ wasLive => wasLive = true ∨ ∀ sl ∈ objs.slots a, objs.byName sl = none
  | .added .. | .rootInserted .. | .markedDead .. | .markedLive .. | .unresolved .. => True

instance (objs : Objects) (e : Event) : Decidable (e.BindsListed objs) := by
  unfold Event.BindsListed
  split <;> infer_instance

/-- What the history says of the names that were undefined when they were looked up. -/
structure Recorded (ld : Linker σ) (s : LinkerState σ) : Prop where
  scope : ∀ a, s.getScope a = .scopeTranslationUnit ↔
    (ld.objs.atom a).getScope = .scopeTranslationUnit
  queued : ∀ sl name, .unresolved sl name ∈ s.history → sl.side = .target →
    sl.atom ∈ s.fAtomsWithUnresolvedReferences
  later : ∀ sl name t, .unresolved sl name ∈ s.history → s.find name = some t →
    ∃ pre post a wasDead wasListed, s.history = pre ++ post ∧ .unresolved sl name ∈ pre ∧
      .added a wasDead wasListed ∈ post ∧ ld.objs.defines a name

theorem Recorded.of_same (hs : Recorded ld s) (hgrows : Grows s s')
    (hfind : ∀ name, s'.find name = s.find name) {es : List Event}
    (hes : s'.history = s.history ++ es)
    (hno : ∀ sl name, .unresolved sl name ∈ es → s.find name = none ∧
      (sl.side = .target → sl.atom ∈ s'.fAtomsWithUnresolvedReferences)) : Recorded ld s' where
  scope a := (hgrows.scope a).trans (hs.scope a)
  queued sl name he hside := by
    rw [hes] at he
    cases List.mem_append.mp he with
    | inl he => exact hgrows.queue (hs.queued sl name he hside)
    | inr he => exact (hno sl name he).2 hside
  later sl name t he ht := by
    rw [hfind] at ht
    rw [hes] at he ⊢
    cases List.mem_append.mp he with
    | inl he =>
      obtain ⟨pre, post, a, wasDead, wasListed, hsplit, hpre, hpost, hdef⟩ :=
        hs.later sl name t he ht
      refine ⟨pre, post ++ es, a, wasDead, wasListed, ?_, hpre, ?_, hdef⟩
      · rw [hsplit, append_assoc]
      · exact mem_append_left _ hpost
    | inr he =>
      rw [(hno sl name he).1] at ht
      cases ht

theorem LoadStep.recorded (h : LoadStep ld s s') (hs : Recorded ld s) : Recorded ld s' := by
  have hgrows := h.grows
  cases h with
  | quiet h =>
    have hes : s'.history = s.history ++ [] := by rw [h.frame, append_nil]
    apply hs.of_same hgrows h.find hes
    intro sl name he
    cases he
  | addAtom a h =>
    obtain ⟨es, hes, hkind, -⟩ := h.recorded
    have hold : ∀ sl name, .unresolved sl name ∈ s'.history → .unresolved sl name ∈ s.history := by
      intro sl name he
      rw [hes] at he
      cases List.mem_append.mp he with
      | inl he => exact he
      | inr he =>
        cases List.mem_cons.mp he with
        | inl he => cases he
        | inr he => obtain he | ⟨_, _, _, he⟩ := hkind _ he <;> cases he
    refine ⟨fun b => (hgrows.scope b).trans (hs.scope b), ?_, ?_⟩
    · intro sl name he hside
      exact hgrows.queue (hs.queued sl name (hold sl name he) hside)
    · intro sl name t he ht
      rw [hes]
      obtain ht | ⟨hname, hscope⟩ := h.offered name t ht
      · obtain ⟨pre, post, b, wasDead, wasListed, hsplit, hpre, hpost, hdef⟩ :=
          hs.later sl name t (hold sl name he) ht
        refine ⟨pre, post ++ .added a (a ∈ s.fDeadAtoms) (a ∈ s.fAllAtoms) :: es, b, wasDead,
          wasListed, ?_, hpre, ?_, hdef⟩
        · rw [hsplit, append_assoc]
        · exact mem_append_left _ hpost
      · refine ⟨s.history, _, a, _, _, rfl, hold sl name he, mem_cons_self, hname, ?_⟩
        intro hunit
        exact hscope ((hs.scope a).mpr hunit)

theorem Step.recorded (h : Step ld s s') (hs : Recorded ld s) : Recorded ld s' := by
  have hgrows := h.grows
  cases h with
  | visit h =>
    cases h with
    | load h => exact h.recorded hs
    | insertLive a h =>
      apply hs.of_same hgrows (fun _ => rfl) rfl
      simp
    | bind sl name target hname hfree hfind hlive =>
      apply hs.of_same hgrows (fun _ => rfl) rfl
      simp
    | noteUnresolved sl name hname hfree hfind hlive =>
      have hes : (s.noteUnresolved sl name).history = s.history ++ [.unresolved sl name] := by
        rw [noteUnresolved_frame]
      apply hs.of_same hgrows (find_noteUnresolved s sl name) hes
      intro sl' name' he
      cases List.mem_singleton.mp he
      refine ⟨hfind, ?_⟩
      intro hside
      unfold LinkerState.noteUnresolved
      rw [hside]
      exact mem_append_right _ (List.mem_singleton.mpr rfl)
  | insertRoot a =>
    unfold LinkerState.insertRoot at hgrows ⊢
    split
    · exact hs
    rename_i hnot
    rw [if_neg hnot] at hgrows
    apply hs.of_same hgrows (fun _ => rfl) rfl
    simp
  | walkTo p => exact { hs with }
  | fixUp sl name target hname hfree hfind hqueued =>
    apply hs.of_same hgrows (fun _ => rfl) (append_assoc _ _ _)
    simp

theorem Run.recorded (h : Run ld s s') (hs : Recorded ld s) : Recorded ld s' := by
  induction h with
  | refl => exact hs
  | tail _ hstep ih => exact hstep.recorded ih

def BoundListed (ld : Linker σ) (s : LinkerState σ) : Prop :=
  ∀ sl name t, ld.objs.byName sl = some name → s.bound sl = some t → t ∈ s.fAllAtoms

theorem BoundListed.bind (hs : BoundListed ld s) {sl : Slot} {target : AtomPtr}
    (hlisted : target ∈ s.fAllAtoms) : BoundListed ld (s.bind sl target) := by
  intro sl' name t hby ht
  obtain ⟨-, rfl⟩ | ht := bound_bind_cases ht
  · exact hlisted
  · exact hs sl' name t hby ht

theorem LoadStep.boundListed (h : LoadStep ld s s') (hs : BoundListed ld s) :
    BoundListed ld s' := by
  intro sl name t hby ht
  rw [h.walkKept.bound] at ht
  exact h.grows.all (hs sl name t hby ht)

theorem Step.boundListed (h : Step ld s s')
    (hok : ∀ e ∈ since LinkerState.history s s', e.BindsListed ld.objs) (hs : BoundListed ld s) :
    BoundListed ld s' := by
  cases h with
  | visit h =>
    cases h with
    | load h => exact h.boundListed hs
    | insertLive a h => exact hs
    | bind sl name target hname hfree hfind hlive =>
      have hes : (s.bind sl target).history =
          s.history ++ [.bound sl target (target ∈ s.fAllAtoms)] := rfl
      rw [since_eq hes] at hok
      exact hs.bind (of_decide_eq_true (hok _ mem_cons_self))
    | noteUnresolved sl name hname hfree hfind hlive =>
      rw [noteUnresolved_frame]
      exact hs
  | insertRoot a =>
    rw [insertRoot_frame]
    exact hs
  | walkTo p => exact hs
  | fixUp sl name target hname hfree hfind hqueued =>
    rw [since_eq (append_assoc _ _ _)] at hok
    have hbound : BoundListed ld (s.bind sl target) :=
      hs.bind (of_decide_eq_true (hok _ mem_cons_self))
    exact hbound

theorem Run.boundListed (h : Run ld s s')
    (hok : ∀ e ∈ since LinkerState.history s s', e.BindsListed ld.objs) (hs : BoundListed ld s) :
    BoundListed ld s' :=
  run_invariant LinkerState.history (fun _ _ => Step.history_grows) (fun _ _ => Step.boundListed)
    h hok hs

namespace Linker

/-- The states in which `deadStripResolve` is called. -/
inductive Entered (ld : Linker σ) (files : σ) : LinkerState σ → Prop
  | first {s : LinkerState σ} (h : ld.buildAtomList (ld.init files) = .ok s) : Entered ld files s
  | second {s t u : LinkerState σ} (hs : ld.firstDeadStrip files = .ok s)
      (ht : ld.checkUndefines s = .ok t) (hu : ld.loadOptimized t = .ok u) :
      Entered ld files u.clearLive

theorem init_recorded (ld : Linker σ) (files : σ) : Recorded ld (ld.init files) where
  scope _ := Iff.rfl
  queued sl name he := by cases he
  later sl name t he := by cases he

theorem deadStripResolve_recorded (hs : Recorded ld s) (h : ld.deadStripResolve s = .ok s') :
    Recorded ld s' := by
  obtain ⟨t, ht, h⟩ := bind_eq_ok.mp h
  cases h
  exact { (fixUpReferences_run ld t).recorded ((markRootsLive_run ht).recorded hs) with }

theorem Entered.recorded {files : σ} (h : Entered ld files s) :
    Recorded ld s ∧ s.fLiveAtoms = ∅ := by
  have hbuild : ∀ s, ld.buildAtomList (ld.init files) = .ok s → Recorded ld s :=
    fun s hs => (buildAtomList_loads hs).run.recorded (init_recorded ld files)
  cases h with
  | first h => exact ⟨hbuild s h, (buildAtomList_loads h).walkKept.live⟩
  | @second s t u hs ht hu =>
    obtain ⟨r, hr, hs⟩ := bind_eq_ok.mp hs
    obtain ⟨allAtoms, files', hloads, -⟩ := loadOptimized_loads hu
    have hfirst := deadStripResolve_recorded (hbuild r hr) hs
    have hundefines := (checkUndefines_loads ht).run.recorded hfirst
    have hreplaced : Recorded ld { t with fAllAtoms := allAtoms, files := files' } :=
      { hundefines with }
    exact ⟨{ hloads.run.recorded hreplaced with }, rfl⟩

/-- No listed atom refers by name to a defined atom that it is not bound to, or that is
not listed. -/
def NamesBound (ld : Linker σ) (s : LinkerState σ) : Prop :=
  ∀ a ∈ s.fAllAtoms, ∀ sl ∈ ld.objs.slots a, ∀ name, ld.objs.byName sl = some name →
    ∀ t, s.find name = some t → ∃ t', s.bound sl = some t' ∧ t' ∈ s.fAllAtoms

/-- What a visited atom refers to by name is bound when the fix-up loop is done, if the
name is defined. -/
theorem fixUpReferences_binds {sl : Slot} {name : String} {t : AtomPtr}
    (hs : Recorded ld (ld.fixUpReferences s)) (hdone : SlotDone ld s sl)
    (hby : ld.objs.byName sl = some name) (hfind : (ld.fixUpReferences s).find name = some t)
    (hcaught : FromTargetsCaught ld.objs (ld.fixUpReferences s).history) :
    ∃ t', (ld.fixUpReferences s).bound sl = some t' := by
  have hgrows := (fixUpReferences_run ld s).grows
  cases hbound : s.bound sl with
  | some t' => exact ⟨t', hgrows.bound sl t' hbound⟩
  | none =>
    have hname := unboundName_eq_some.mpr ⟨hbound, hby⟩
    have hqueued : sl.atom ∈ s.fAtomsWithUnresolvedReferences := by
      cases hside : sl.side with
      | target => exact hdone.queued name hname hside
      | fromTarget =>
        have hunresolved := hgrows.history.subset (hdone.recorded name hname)
        have hqueue : (ld.fixUpReferences s).fAtomsWithUnresolvedReferences =
            s.fAtomsWithUnresolvedReferences := by
          obtain ⟨bound, live, history, heq⟩ := fixUpReferences_frame ld s
          rw [heq]
        obtain ⟨pre, post, a, wasDead, wasListed, hsplit, hpre, hpost, hdef⟩ :=
          hs.later sl name t hunresolved hfind
        have hcatch : ∀ e ∈ pre, ∀ later ∈ post, ld.objs.DefinesFrom e later →
            e.Queued (ld.fixUpReferences s).history := by
          have hpairs := hcaught
          rw [hsplit] at hpairs ⊢
          exact (List.pairwise_append.mp hpairs).2.2
        obtain ⟨e, he, hqueues⟩ := hcatch _ hpre _ hpost ⟨hside, hdef⟩
        cases e with
        | unresolved sl' name' =>
          rw [← hqueues.2, ← hqueue]
          exact hs.queued sl' name' he hqueues.1
        | added | rootInserted | markedDead | markedLive | bound | fixedUp => cases hqueues
    have hfind' := (find_fixUps ld _ s name).symm.trans hfind
    apply fixUps_bound _ (fun _ => atom_mem_of_flatMap) hby hfind'
    exact List.mem_flatMap.mpr ⟨sl.atom, hqueued, Objects.mem_slots_of_byName hby⟩

theorem deadStripResolve_names_bound {files : σ} (hin : Entered ld files s)
    (h : ld.deadStripResolve s = .ok s') (hlisted : BoundListed ld s)
    (hbinds : ∀ e ∈ s'.history, e.BindsListed ld.objs)
    (hcaught : FromTargetsCaught ld.objs s'.history) : NamesBound ld s' := by
  obtain ⟨t, ht, h⟩ := bind_eq_ok.mp h
  cases h
  obtain ⟨hrecorded, hempty⟩ := hin.recorded
  have hwalk := markRootsLive_run ht
  have hfix := fixUpReferences_run ld t
  have hrun : Run ld s (ld.fixUpReferences t) := hwalk.trans hfix
  have hdone : AllDone ld t := by
    apply markRootsLive_allDone _ ht
    intro a ha
    rw [hempty] at ha
    cases ha
  have hfixed := fixUpReferences_fixedUp ld t
  have hall : BoundListed ld (ld.fixUpReferences t) := by
    apply hrun.boundListed _ hlisted
    intro e he
    exact hbinds e (mem_of_mem_drop he)
  intro a ha sl hsl name hby target hfind
  have halive := of_decide_eq_true (List.mem_filter.mp ha).2
  obtain hvisited | ⟨wasDead, he⟩ := hfixed.live a halive
  · have hslot := hdone a hvisited sl hsl
    obtain ⟨t', ht'⟩ :=
      fixUpReferences_binds (hrun.recorded hrecorded) hslot hby hfind hcaught
    refine ⟨t', ht', ?_⟩
    apply List.mem_filter.mpr
    refine ⟨hall sl name t' hby ht', decide_eq_true ?_⟩
    obtain hold | hnew := hfixed.bound sl t' ht'
    · apply hfix.grows.live
      apply hslot.boundLive
      rw [boundAtom_of_byName hby]
      exact hold
    · exact hnew
  · -- the fix-up loop made the atom live, and it has nothing to bind
    obtain hlive | hbare := hbinds _ he
    · cases hlive
    rw [hbare sl hsl] at hby
    cases hby

theorem Entered.first_boundListed {files : σ} (h : ld.buildAtomList (ld.init files) = .ok s) :
    BoundListed ld s := by
  intro sl name t hby ht
  rw [(buildAtomList_loads h).walkKept.bound, init_bound ld files hby] at ht
  cases ht

/-- `start` holds the difference of `_x` and `_c`, and calls `_foo`. An archive member that
supplies `_foo` has a common symbol `_c`, which its table of contents does not list. -/
def differenceAtom (callsFirst : Bool) (a : AtomPtr) : Atom :=
  if a = 1 then
    { getName := some "start"
      getScope := .scopeGlobal
      getDefinitionKind := .kRegularDefinition
      getReferences :=
        if callsFirst then [refersByName "_foo", differsByName 2 "_c"]
        else [differsByName 2 "_c", refersByName "_foo"] }
  else if a = 4 then
    { getFile := 1
      getName := some "_c"
      getScope := .scopeGlobal
      getDefinitionKind := .kTentativeDefinition }
  else
    { getFile := if a = 2 then 0 else 1
      getName := some (if a = 2 then "_x" else "_foo")
      getScope := .scopeGlobal
      getDefinitionKind := .kRegularDefinition }

def differenceLink (callsFirst : Bool) : Linker Bool :=
  smallLink .kDeadStripOn { atom := differenceAtom callsFirst } [1, 2]
    (supplyOnce "_foo" [3, 4])

theorem call_first_bound :
    ∃ r s, (differenceLink true).buildAtomList ((differenceLink true).init false) = .ok r ∧
      (differenceLink true).deadStripResolve r = .ok s ∧ NamesBound (differenceLink true) s := by
  have hrun : ∃ r s,
      (differenceLink true).buildAtomList ((differenceLink true).init false) = .ok r ∧
        (differenceLink true).deadStripResolve r = .ok s ∧
        (∀ e ∈ s.history, e.BindsListed (differenceLink true).objs) ∧
        FromTargetsCaught (differenceLink true).objs s.history :=
    ⟨_, _, rfl, rfl, by decide, by decide⟩
  obtain ⟨r, s, hr, hs, hbinds, hcaught⟩ := hrun
  exact ⟨r, s, hr, hs, deadStripResolve_names_bound (.first hr) hs
    (Entered.first_boundListed hr) hbinds hcaught⟩

/-- The member is loaded after `_c` was looked up, and no fix-up follows. -/
theorem difference_first_unbound :
    ∃ r s, (differenceLink false).buildAtomList ((differenceLink false).init false) = .ok r ∧
      (differenceLink false).deadStripResolve r = .ok s ∧ 1 ∈ s.fAllAtoms ∧
      s.find "_c" = some 4 ∧ ⟨1, 0, .fromTarget⟩ ∈ (differenceLink false).objs.slots 1 ∧
      (differenceLink false).objs.byName ⟨1, 0, .fromTarget⟩ = some "_c" ∧
      s.bound ⟨1, 0, .fromTarget⟩ = none ∧ 4 ∉ s.fAllAtoms :=
  ⟨_, _, rfl, rfl, by decide, rfl, by decide, by decide, rfl, by decide⟩

end Linker
end Toolwhip.Ld64
