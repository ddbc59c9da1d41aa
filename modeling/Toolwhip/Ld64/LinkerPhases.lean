import Toolwhip.Ld64.LinkerWalk

/-! # The phases of a dead-stripped link

Each phase is a run. `deadStripResolve` is called twice: by `loadAndResolve`, and
again by `optimize` after `fLiveAtoms` is cleared. -/

set_option autoImplicit false

namespace Toolwhip.Ld64
open Lib.ThrowingFold Lib.GrowingSet Relation List

variable {σ : Type} {ld : Linker σ} {s s' : LinkerState σ}

theorem LinkerState.mem_added {a : AtomPtr} :
    a ∈ s.added ↔ ∃ wasDead wasListed, .added a wasDead wasListed ∈ s.history := by
  unfold LinkerState.added
  rw [mem_filterMap]
  constructor
  · intro ⟨e, he, ha⟩
    cases e with
    | added b wasDead wasListed =>
      rw [← Option.some.inj ha]
      exact ⟨wasDead, wasListed, he⟩
    | rootInserted | markedDead | markedLive | bound | unresolved | fixedUp => cases ha
  · intro ⟨wasDead, wasListed, he⟩
    exact ⟨_, he, rfl⟩

namespace Linker

/-- The link, up to where `deadStripResolve` returns to `loadAndResolve`. -/
def firstDeadStrip (ld : Linker σ) (files : σ) : Except LinkError (LinkerState σ) := do
  let s ← ld.buildAtomList (ld.init files)
  ld.deadStripResolve s

/-- The link, up to where it returns to `optimize`. -/
def secondDeadStrip (ld : Linker σ) (files : σ) : Except LinkError (LinkerState σ) := do
  let s ← ld.firstDeadStrip files
  let s ← ld.checkUndefines s
  let s ← ld.loadOptimized s
  ld.deadStripResolve s.clearLive

theorem loadAndResolve_on (hon : ld.fOptions.deadStrip ≠ .kDeadStripOff) (s : LinkerState σ) :
    ld.loadAndResolve s = ld.deadStripResolve s >>= ld.checkUndefines :=
  if_neg hon

theorem optimize_on (hon : ld.fOptions.deadStrip ≠ .kDeadStripOff) (s : LinkerState σ) :
    ld.optimize s = ld.loadOptimized s >>= fun s => ld.deadStripResolve s.clearLive := by
  unfold optimize
  simp only [if_neg hon]

theorem insertRoots_run (roots : List AtomPtr) : Run ld s (s.insertRoots roots) := by
  induction roots generalizing s with
  | nil => exact .refl
  | cons a roots ih => exact (ReflTransGen.single (.insertRoot s a)).trans ih

theorem addLiveRoot_run {name : String} (h : ld.addLiveRoot s name = .ok s') : Run ld s s' := by
  obtain ⟨t, ht, h⟩ := bind_eq_ok.mp h
  have hload := (loadName_visits (fun _ _ _ => markLive_visits) ht).run.run
  split at h
  · cases h
    exact hload
  · cases h
    exact hload.tail (.insertRoot t _)

theorem addLiveRoots_run (h : ld.addLiveRoots s = .ok s') : Run ld s s' := by
  obtain ⟨entryPoint, -, h⟩ := bind_eq_ok.mp h
  obtain ⟨t, ht, h⟩ := bind_eq_ok.mp h
  cases h
  have hnames : Run ld _ t := foldlM_relates (fun _ => .refl) (fun _ _ _ => .trans)
    (fun _ _ _ _ => addLiveRoot_run) ht
  apply ReflTransGen.trans _ (hnames.trans (insertRoots_run _))
  apply (insertRoots_run entryPoint.toList).trans
  apply (insertRoots_run _).trans
  split
  · exact insertRoots_run _
  · exact .refl

theorem visitRoot_run {root : AtomPtr} (h : ld.visitRoot s root = .ok s') : Run ld s s' :=
  ReflTransGen.head (.walkTo s (some root)) (markLive_visits h).1.run.run

theorem walkLiveRoots_run (h : ld.walkLiveRoots s = .ok s') : Run ld s s' :=
  walk_relates (fun _ => .refl) (fun _ _ _ => .trans) (fun _ _ _ => visitRoot_run) h

theorem markRootsLive_run (h : ld.markRootsLive s = .ok s') : Run ld s s' := by
  obtain ⟨t, ht, h⟩ := bind_eq_ok.mp h
  obtain ⟨u, hu, h⟩ := bind_eq_ok.mp h
  cases h
  exact ((addLiveRoots_run ht).trans (walkLiveRoots_run hu)).tail (.walkTo u none)

theorem fixUp_cases (ld : Linker σ) (s : LinkerState σ) (sl : Slot) :
    ld.fixUp s sl = s ∨ ∃ name target, ld.objs.byName sl = some name ∧ s.bound sl = none ∧
      s.find name = some target ∧ ld.fixUp s sl = { s.bind sl target with
        fLiveAtoms := insert target s.fLiveAtoms
        history := (s.bind sl target).history ++
          [.fixedUp target (target ∈ s.fDeadAtoms) (target ∈ s.fLiveAtoms)] } := by
  unfold fixUp
  split
  · exact Or.inl rfl
  rename_i target htarget
  obtain ⟨name, hname, hfind⟩ := Option.bind_eq_some_iff.mp htarget
  obtain ⟨hfree, hby⟩ := unboundName_eq_some.mp hname
  exact Or.inr ⟨name, target, hby, hfree, hfind, rfl⟩

theorem fixUp_run {sl : Slot} (hqueued : sl.atom ∈ s.fAtomsWithUnresolvedReferences) :
    Run ld s (ld.fixUp s sl) := by
  obtain heq | ⟨name, target, hby, hfree, hfind, heq⟩ := fixUp_cases ld s sl
  · rw [heq]
  rw [heq]
  exact .single (.fixUp s sl name target hby hfree hfind hqueued)

theorem fixUps_run {slots : List Slot}
    (hqueued : ∀ sl ∈ slots, sl.atom ∈ s.fAtomsWithUnresolvedReferences) :
    Run ld s (slots.foldl ld.fixUp s) := by
  induction slots generalizing s with
  | nil => exact .refl
  | cons sl slots ih =>
    have hfirst : Run ld s (ld.fixUp s sl) := fixUp_run (hqueued sl mem_cons_self)
    apply hfirst.trans
    apply ih
    intro sl' hsl'
    exact hfirst.grows.queue (hqueued sl' (mem_cons_of_mem _ hsl'))

theorem atom_mem_of_flatMap {objs : Objects} {atoms : List AtomPtr} {sl : Slot}
    (h : sl ∈ atoms.flatMap objs.slots) : sl.atom ∈ atoms := by
  obtain ⟨a, ha, hsl⟩ := List.mem_flatMap.mp h
  rw [Objects.mem_slots hsl]
  exact ha

theorem fixUpReferences_run (ld : Linker σ) (s : LinkerState σ) : Run ld s (ld.fixUpReferences s) :=
  fixUps_run fun _ => atom_mem_of_flatMap

theorem fixUps_frame (ld : Linker σ) (slots : List Slot) (s : LinkerState σ) :
    ∃ bound live history, slots.foldl ld.fixUp s =
      { s with bound := bound, fLiveAtoms := live, history := history } := by
  induction slots generalizing s with
  | nil => exact ⟨s.bound, s.fLiveAtoms, s.history, rfl⟩
  | cons sl slots ih =>
    obtain ⟨bound, live, history, heq⟩ := ih (ld.fixUp s sl)
    rw [foldl_cons, heq]
    obtain hsame | ⟨name, target, -, -, -, hbound⟩ := fixUp_cases ld s sl
    · rw [hsame]
      exact ⟨bound, live, history, rfl⟩
    · rw [hbound]
      exact ⟨bound, live, history, rfl⟩

theorem fixUpReferences_frame (ld : Linker σ) (s : LinkerState σ) :
    ∃ bound live history, ld.fixUpReferences s =
      { s with bound := bound, fLiveAtoms := live, history := history } :=
  fixUps_frame ld _ s

theorem loadOptimized_loads (h : ld.loadOptimized s = .ok s') :
    ∃ allAtoms files, Loads ld { s with fAllAtoms := allAtoms, files := files } s' ∧
      (∀ a ∈ s.fAllAtoms, (ld.objs.atom a).dontDeadStrip → a ∈ allAtoms) ∧
      ((∀ reader all dead st, (ld.files.optimize reader all dead st).allAtoms = all) →
        allAtoms = s.fAllAtoms) := by
  have hfold : ∀ (readers : List ReaderPtr) (r : LinkerState σ × List AtomPtr × List String),
      ∃ allAtoms files, (readers.foldl ld.optimizeReader r).1 =
          { r.1 with fAllAtoms := allAtoms, files := files } ∧
        (∀ a ∈ r.1.fAllAtoms, (ld.objs.atom a).dontDeadStrip → a ∈ allAtoms) ∧
        ((∀ reader all dead st, (ld.files.optimize reader all dead st).allAtoms = all) →
          allAtoms = r.1.fAllAtoms) := by
    intro readers
    induction readers with
    | nil =>
      intro r
      exact ⟨r.1.fAllAtoms, r.1.files, rfl, fun a ha _ => ha, fun _ => rfl⟩
    | cons reader readers ih =>
      intro r
      obtain ⟨allAtoms, files, heq, hkeep, hsame⟩ := ih (ld.optimizeReader r reader)
      refine ⟨allAtoms, files, heq, ?_, ?_⟩
      · intro a ha hdont
        exact hkeep a (ld.optimize_keeps reader _ _ _ a ha hdont) hdont
      · intro hnone
        exact (hsame hnone).trans (hnone reader _ _ _)
  obtain ⟨allAtoms, files, heq, hkeep⟩ := hfold ld.files.fInputFiles (s, [], [])
  obtain ⟨t, ht, h⟩ := bind_eq_ok.mp h
  refine ⟨allAtoms, files, ?_, hkeep⟩
  rw [← heq]
  apply (addAtoms_loads ht).trans
  apply Loads.foldlM _ h
  intro u name v hv
  unfold loadAdditionalUndefine at hv
  split at hv
  · cases hv
    exact .refl
  obtain ⟨r, hr, hv⟩ := bind_eq_ok.mp hv
  cases hv
  exact (require_loads name).trans (addJustInTimeAtoms_loads hr)

end Linker

/-! ## Parts of small links -/

theorem isSome_name (name : String) : (some name).isSome ∨ (none : Option AtomPtr).isSome :=
  Or.inl rfl

theorem isSome_atom (a : AtomPtr) : (none : Option String).isSome ∨ (some a).isSome :=
  Or.inr rfl

theorem name_unbound (name : String) : some name = none ∨ (none : Option AtomPtr) = none :=
  Or.inr rfl

theorem atom_unnamed (a : AtomPtr) : (none : Option String) = none ∨ some a = none :=
  Or.inl rfl

theorem nothing_unnamed : (none : Option String) = none ∨ (none : Option AtomPtr) = none :=
  Or.inl rfl

def refersByName (name : String) : Reference where
  getKind := 0
  fToTargetName := some name
  hasTarget := isSome_name name
  toByName := name_unbound name
  fromByName := nothing_unnamed

def differsByName (target : AtomPtr) (name : String) : Reference where
  getKind := 0
  fToTarget := some target
  fFromTargetName := some name
  hasTarget := isSome_atom target
  toByName := atom_unnamed target
  fromByName := name_unbound name

theorem executable_not_object : OutputKind.kDynamicExecutable ≠ .kObjectFile := by decide

def executableOptions (mode : DeadStripMode) : Options where
  deadStrip := mode
  notRelocatable := fun _ => executable_not_object

theorem id_perm (names : List String) : (id names).Perm names :=
  List.Perm.refl names

/-- An executable of the atoms of an object file, and of what an archive supplies. -/
def smallLink {σ : Type} (mode : DeadStripMode) (objs : Objects) (initial : List AtomPtr)
    (supply : String → σ → Option (List AtomPtr) × σ) : Linker σ where
  objs := objs
  fOptions := executableOptions mode
  files :=
    { fInputFiles := [0, 1]
      getAtoms := fun reader => if reader = 0 then initial else []
      getJustInTimeAtomsFor := fun reader name supplied =>
        if reader = 1 then supply name supplied else (none, supplied) }
  tableOrder_perm := id_perm
  fuel := 5

def supplyOnce (name : String) (atoms : List AtomPtr) (wanted : String) (supplied : Bool) :
    Option (List AtomPtr) × Bool :=
  if wanted = name ∧ supplied = false then (some atoms, true) else (none, supplied)

/-! ## The live roots

`addAtom` may insert a root while `deadStripResolve` iterates the roots. The
iterator reaches it only if its address lies ahead. -/

variable {σ : Type} {ld : Linker σ} {s s' : LinkerState σ}

def Event.RootAhead : Event → Prop
  | .rootInserted root walking => After walking root
  | _ => True

instance : DecidablePred Event.RootAhead
  | .rootInserted root walking => inferInstanceAs (Decidable (After walking root))
  | .added .. | .markedDead .. | .markedLive .. | .bound .. | .unresolved .. | .fixedUp .. =>
    .isTrue trivial

/-- What a visit leaves of the iterator, and what the history says of its roots. -/
structure RootsRecorded (s s' : LinkerState σ) : Prop where
  walking : s'.walking = s.walking
  recorded : ∀ r ∈ s'.fLiveRootAtoms, r ∉ s.fLiveRootAtoms →
    .rootInserted r s.walking ∈ s'.history

theorem RootsRecorded.of_same (hwalking : s'.walking = s.walking)
    (hroots : s'.fLiveRootAtoms = s.fLiveRootAtoms) : RootsRecorded s s' where
  walking := hwalking
  recorded r hr hnot := by
    rw [hroots] at hr
    exact absurd hr hnot

theorem VisitStep.rootsRecorded (h : VisitStep ld s s') : RootsRecorded s s' := by
  cases h with
  | load h =>
    cases h with
    | quiet h =>
      apply RootsRecorded.of_same
      · rw [h.frame]
      · rw [h.frame]
    | addAtom a h =>
      constructor
      · rw [h.frame]
      · intro r hr hnot
        obtain ⟨es, hes, -, hroot, -⟩ := h.recorded
        rw [hes]
        exact mem_append_right _ (mem_cons_of_mem _ (hroot r hr hnot))
  | insertLive a h => exact .of_same rfl rfl
  | bind sl name target hname hfree hfind hlive => exact .of_same rfl rfl
  | noteUnresolved sl name hname hfree hfind hlive =>
    rw [noteUnresolved_frame]
    exact .of_same rfl rfl

theorem VisitRun.rootsRecorded (h : VisitRun ld s s') : RootsRecorded s s' := by
  induction h with
  | refl => exact .of_same rfl rfl
  | @tail t u _ hstep ih =>
    have hlast := hstep.rootsRecorded
    constructor
    · exact hlast.walking.trans ih.walking
    · intro r hr hnot
      by_cases hrt : r ∈ t.fLiveRootAtoms
      · exact hstep.history_grows.subset (ih.recorded r hrt hnot)
      rw [← ih.walking]
      exact hlast.recorded r hr hrt

theorem mem_added_of_append {es : List Event} (h : s'.history = s.history ++ es) {a : AtomPtr}
    (ha : a ∈ s'.added) : a ∈ s.added ∨ ∃ wasDead wasListed, .added a wasDead wasListed ∈ es := by
  obtain ⟨wasDead, wasListed, he⟩ := LinkerState.mem_added.mp ha
  rw [h] at he
  cases List.mem_append.mp he with
  | inl he => exact Or.inl (LinkerState.mem_added.mpr ⟨wasDead, wasListed, he⟩)
  | inr he => exact Or.inr ⟨wasDead, wasListed, he⟩

def RootsKept (ld : Linker σ) (s : LinkerState σ) : Prop :=
  ∀ a ∈ s.added, (ld.objs.atom a).dontDeadStrip → a ∈ s.fAllAtoms ∧ a ∈ s.fLiveRootAtoms

theorem RootsKept.of_same (hs : RootsKept ld s) (hgrows : Grows s s') {es : List Event}
    (hes : s'.history = s.history ++ es)
    (hno : ∀ e ∈ es, ∀ a wasDead wasListed, e ≠ .added a wasDead wasListed) : RootsKept ld s' := by
  intro a ha hdont
  obtain ha | ⟨wasDead, wasListed, he⟩ := mem_added_of_append hes ha
  · obtain ⟨hall, hroot⟩ := hs a ha hdont
    exact ⟨hgrows.all hall, hgrows.roots hroot⟩
  · exact absurd rfl (hno _ he a wasDead wasListed)

section Steps
variable (hon : ld.fOptions.deadStrip ≠ .kDeadStripOff)
include hon

theorem LoadStep.rootsKept (h : LoadStep ld s s') (hs : RootsKept ld s) : RootsKept ld s' := by
  have hgrows := h.grows
  cases h with
  | quiet h =>
    have hes : s'.history = s.history ++ [] := by rw [h.frame, append_nil]
    apply hs.of_same hgrows hes
    intro e he
    cases he
  | addAtom b h =>
    intro a ha hdont
    obtain ⟨es, hes, hkind, -⟩ := h.recorded
    obtain ha | ⟨wasDead, wasListed, he⟩ := mem_added_of_append hes ha
    · obtain ⟨hall, hroot⟩ := hs a ha hdont
      exact ⟨hgrows.all hall, hgrows.roots hroot⟩
    cases List.mem_cons.mp he with
    | inl he =>
      cases he
      refine ⟨?_, h.root hon hdont⟩
      rw [h.frame]
      exact mem_append_right _ (List.mem_singleton.mpr rfl)
    | inr he =>
      obtain he | ⟨c, wasLive, wasListed', he⟩ := hkind _ he
      · cases he
      · cases he

theorem Step.rootsKept (h : Step ld s s') (hs : RootsKept ld s) : RootsKept ld s' := by
  have hgrows := h.grows
  cases h with
  | visit h =>
    cases h with
    | load h => exact h.rootsKept hon hs
    | insertLive a h =>
      apply hs.of_same hgrows rfl
      simp
    | bind sl name target hname hfree hfind hlive =>
      apply hs.of_same hgrows rfl
      simp
    | noteUnresolved sl name hname hfree hfind hlive =>
      have hes : (s.noteUnresolved sl name).history = s.history ++ [.unresolved sl name] := by
        rw [noteUnresolved_frame]
      apply hs.of_same hgrows hes
      simp
  | insertRoot a =>
    unfold LinkerState.insertRoot at hgrows ⊢
    split
    · exact hs
    rename_i hnot
    rw [if_neg hnot] at hgrows
    apply hs.of_same hgrows rfl
    simp
  | walkTo p => exact hs
  | fixUp sl name target hname hfree hfind hqueued =>
    apply hs.of_same hgrows (append_assoc _ _ _)
    simp

theorem Run.rootsKept (h : Run ld s s') (hs : RootsKept ld s) : RootsKept ld s' := by
  induction h with
  | refl => exact hs
  | tail _ hstep ih => exact hstep.rootsKept hon ih

end Steps

namespace Linker

theorem walkLiveRoots_live (h : ld.walkLiveRoots s = .ok s')
    (hahead : ∀ e ∈ s'.history, e.RootAhead) : ∀ r ∈ s'.fLiveRootAtoms, r ∈ s'.fLiveAtoms := by
  have hnone : ∀ r ∈ s.fLiveRootAtoms, ¬ After none r → r ∈ s.fLiveAtoms := by
    intro r _ hbefore
    exact absurd (fun _ h => by cases h) hbefore
  have hok : ∀ t x u, ld.visitRoot t x = .ok u → (∀ e ∈ u.history, e.RootAhead) →
      ∀ e ∈ t.history, e.RootAhead := by
    intro t x u hu hok e he
    exact hok e ((visitRoot_run hu).history_grows.subset he)
  have hdone : ∀ t x u, ld.visitRoot t x = .ok u → x ∈ u.fLiveAtoms :=
    fun t x u hu => (markLive_visits hu).2
  have hkeep : ∀ t x u r, ld.visitRoot t x = .ok u → r ∈ t.fLiveAtoms → r ∈ u.fLiveAtoms :=
    fun t x u r hu hr => (visitRoot_run hu).grows.live hr
  have hlate : ∀ t x u, ld.visitRoot t x = .ok u → (∀ e ∈ u.history, e.RootAhead) →
      ∀ r ∈ u.fLiveRootAtoms, r ∉ t.fLiveRootAtoms → x < r := by
    intro t x u hu hok r hr hnot
    have hnew := (markLive_visits hu).1.run.rootsRecorded.recorded r hr hnot
    exact after_some.mp (hok _ hnew)
  exact walk_visits_all hok hdone hkeep hlate h hahead hnone

section DeadStrip
variable (hon : ld.fOptions.deadStrip ≠ .kDeadStripOff)
include hon

theorem deadStripResolve_live (hs : RootsKept ld s) (h : ld.deadStripResolve s = .ok s')
    (hahead : ∀ e ∈ s'.history, e.RootAhead) :
    RootsKept ld s' ∧ ∀ a ∈ s'.added, (ld.objs.atom a).dontDeadStrip → a ∈ s'.fLiveAtoms := by
  obtain ⟨t, ht, h⟩ := bind_eq_ok.mp h
  cases h
  have hfix := fixUpReferences_run ld t
  have hroots : RootsKept ld (ld.fixUpReferences t) :=
    hfix.rootsKept hon ((markRootsLive_run ht).rootsKept hon hs)
  obtain ⟨bound, live, history, hframe⟩ := fixUpReferences_frame ld t
  have hlive : ∀ a ∈ t.fLiveRootAtoms, a ∈ t.fLiveAtoms := by
    obtain ⟨u, -, ht⟩ := bind_eq_ok.mp ht
    obtain ⟨v, hv, ht⟩ := bind_eq_ok.mp ht
    cases ht
    apply walkLiveRoots_live hv
    intro e he
    exact hahead e (hfix.history_grows.subset he)
  have hall : ∀ a ∈ (ld.fixUpReferences t).added, (ld.objs.atom a).dontDeadStrip →
      a ∈ (ld.fixUpReferences t).fLiveAtoms := by
    intro a ha hdont
    apply hfix.grows.live
    apply hlive
    have hroot := (hroots a ha hdont).2
    rw [hframe] at hroot
    exact hroot
  refine ⟨?_, hall⟩
  intro a ha hdont
  refine ⟨?_, (hroots a ha hdont).2⟩
  exact List.mem_filter.mpr ⟨(hroots a ha hdont).1, decide_eq_true (hall a ha hdont)⟩

end DeadStrip

theorem deadStripResolve_history (h : ld.deadStripResolve s = .ok s') :
    s.history <+: s'.history := by
  obtain ⟨t, ht, h⟩ := bind_eq_ok.mp h
  cases h
  exact (markRootsLive_run ht).history_grows.trans (fixUpReferences_run ld t).history_grows

theorem reloaded_history {t : LinkerState σ} (ht : ld.checkUndefines s = .ok t)
    (h : ld.loadOptimized t = .ok s') : s.history <+: s'.history := by
  obtain ⟨allAtoms, files, hloads, -⟩ := loadOptimized_loads h
  exact (checkUndefines_loads ht).run.history_grows.trans hloads.run.history_grows

theorem reloaded_rootsKept (hon : ld.fOptions.deadStrip ≠ .kDeadStripOff) (hs : RootsKept ld s)
    {t : LinkerState σ} (ht : ld.checkUndefines s = .ok t) (h : ld.loadOptimized t = .ok s') :
    RootsKept ld s' := by
  obtain ⟨allAtoms, files, hloads, hkeep, -⟩ := loadOptimized_loads h
  apply hloads.run.rootsKept hon
  intro a ha hdont
  obtain ⟨hall, hroot⟩ := (checkUndefines_loads ht).run.rootsKept hon hs a ha hdont
  exact ⟨hkeep a hall hdont, hroot⟩

theorem firstDeadStrip_live (hon : ld.fOptions.deadStrip ≠ .kDeadStripOff) {files : σ}
    (h : ld.firstDeadStrip files = .ok s) (hahead : ∀ e ∈ s.history, e.RootAhead) :
    RootsKept ld s ∧ ∀ a ∈ s.added, (ld.objs.atom a).dontDeadStrip → a ∈ s.fLiveAtoms := by
  obtain ⟨t, ht, h⟩ := bind_eq_ok.mp h
  apply deadStripResolve_live hon _ h hahead
  apply (buildAtomList_loads ht).run.rootsKept hon
  intro a ha
  cases ha

/-- Whenever `deadStripResolve` returns, if every root inserted during a walk over the
roots lay ahead of the iterator. -/
theorem deadStripResolve_keeps_roots {files : σ}
    (h : ld.firstDeadStrip files = .ok s ∨ ld.secondDeadStrip files = .ok s)
    (hon : ld.fOptions.deadStrip ≠ .kDeadStripOff) (hahead : ∀ e ∈ s.history, e.RootAhead) :
    ∀ a ∈ s.added, (ld.objs.atom a).dontDeadStrip → a ∈ s.fLiveAtoms ∧ a ∈ s.fAllAtoms := by
  have hkept : RootsKept ld s ∧
      ∀ a ∈ s.added, (ld.objs.atom a).dontDeadStrip → a ∈ s.fLiveAtoms := by
    cases h with
    | inl h => exact firstDeadStrip_live hon h hahead
    | inr h =>
      obtain ⟨t, ht, h⟩ := bind_eq_ok.mp h
      obtain ⟨u, hu, h⟩ := bind_eq_ok.mp h
      obtain ⟨v, hv, h⟩ := bind_eq_ok.mp h
      -- what the first walk met is part of the history of the second
      have hlast : v.clearLive.history <+: s.history := deadStripResolve_history h
      have hgrows : t.history <+: s.history := (reloaded_history hu hv).trans hlast
      have hfirst := (firstDeadStrip_live hon ht fun e he => hahead e (hgrows.subset he)).1
      have hsecond := reloaded_rootsKept hon hfirst hu hv
      have hcleared : RootsKept ld v.clearLive := hsecond
      exact deadStripResolve_live hon hcleared h hahead
  intro a ha hdont
  exact ⟨hkept.2 a ha hdont, (hkept.1 a ha hdont).1⟩

/-- `start` calls `_foo`, which an archive member defines beside an atom at the address
`kept` that must not be stripped. -/
def lateRootAtom (kept a : AtomPtr) : Atom :=
  if a = 2 then
    { getName := some "start"
      getScope := .scopeGlobal
      getDefinitionKind := .kRegularDefinition
      getReferences := [refersByName "_foo"] }
  else if a = kept then
    { getFile := 1
      getName := some "_used"
      getScope := .scopeTranslationUnit
      getDefinitionKind := .kRegularDefinition
      dontDeadStrip := true }
  else
    { getFile := 1
      getName := some "_foo"
      getScope := .scopeGlobal
      getDefinitionKind := .kRegularDefinition }

def lateRootLink (kept : AtomPtr) : Linker Bool :=
  smallLink .kDeadStripOn { atom := lateRootAtom kept } [2] (supplyOnce "_foo" [3, kept])

theorem root_ahead_kept : ∃ s, (lateRootLink 4).firstDeadStrip false = .ok s ∧ 4 ∈ s.added ∧
      4 ∈ s.fLiveAtoms ∧ 4 ∈ s.fAllAtoms := by
  have hrun : ∃ s, (lateRootLink 4).firstDeadStrip false = .ok s ∧
      (∀ e ∈ s.history, e.RootAhead) ∧ 4 ∈ s.added := ⟨_, rfl, by decide, by decide⟩
  obtain ⟨s, hs, hahead, hadded⟩ := hrun
  have hon : (lateRootLink 4).fOptions.deadStrip ≠ .kDeadStripOff := by decide
  exact ⟨s, hs, hadded, deadStripResolve_keeps_roots (Or.inl hs) hon hahead 4 hadded rfl⟩

/-- The member's atom lies below the iterator, so the walk misses it. -/
theorem root_behind_stripped : ∃ s, (lateRootLink 1).firstDeadStrip false = .ok s ∧ 1 ∈ s.added ∧
      ((lateRootLink 1).objs.atom 1).dontDeadStrip = true ∧
      1 ∉ s.fLiveAtoms ∧ 1 ∉ s.fAllAtoms :=
  ⟨_, rfl, by decide, rfl, by decide, by decide⟩

end Linker
end Toolwhip.Ld64
