import Toolwhip.Ld64.LinkerPhases

/-! # References bound by name

When the walk over the roots ends, every live atom has been visited. The fix-up
loop then goes over the atoms that had an unresolved target. -/

set_option autoImplicit false

namespace Toolwhip.Ld64
open Lib.ThrowingFold Lib.GrowingSet List

variable {σ : Type} {ld : Linker σ} {s s' : LinkerState σ}
variable {name : String} {sl : Slot}

theorem Objects.mem_slots_of_byName {objs : Objects}
    (h : objs.byName sl = some name) : sl ∈ objs.slots sl.atom := by
  have hindex : sl.index < (objs.atom sl.atom).getReferences.length := by
    unfold Objects.byName at h
    split at h
    · cases h
    obtain ⟨ref, href, -⟩ := Option.bind_eq_some_iff.mp h
    exact (List.getElem?_eq_some_iff.mp href).1
  apply List.mem_flatMap.mpr
  refine ⟨sl.index, List.mem_range.mpr hindex, ?_⟩
  obtain ⟨a, i, side⟩ := sl
  cases side with
  | target => exact mem_cons_self
  | fromTarget => exact mem_cons_of_mem _ mem_cons_self

theorem Linker.init_bound (ld : Linker σ) (files : σ)
    (h : ld.objs.byName sl = some name) : (ld.init files).bound sl = none := by
  unfold Objects.byName at h
  split at h
  · cases h
  obtain ⟨ref, href, hname⟩ := Option.bind_eq_some_iff.mp h
  change (ld.objs.reference sl).bind _ = none
  rw [href, Option.bind_some]
  cases hside : sl.side with
  | target =>
    rw [hside] at hname
    exact ref.toByName.resolve_left (by simp [hname])
  | fromTarget =>
    rw [hside] at hname
    exact ref.fromByName.resolve_left (by simp [hname])

def AllDone (ld : Linker σ) (s : LinkerState σ) : Prop :=
  ∀ a ∈ s.fLiveAtoms, ∀ sl ∈ ld.objs.slots a, SlotDone ld s sl

theorem AllDone.visits (hs : AllDone ld s) (h : Visits ld s s') : AllDone ld s' := by
  intro a ha sl hsl
  by_cases hold : a ∈ s.fLiveAtoms
  · apply (hs a hold sl hsl).mono h.run.grows
    apply h.frozen
    rw [Objects.mem_slots hsl]
    exact hold
  · exact h.done a ha hold sl hsl

theorem AllDone.insertRoot (hs : AllDone ld s) (a : AtomPtr) : AllDone ld (s.insertRoot a) := by
  have hgrows : Grows s (s.insertRoot a) := (Step.insertRoot s a : Step ld _ _).grows
  rw [insertRoot_frame] at hgrows ⊢
  intro b hb sl hsl
  exact (hs b hb sl hsl).mono hgrows rfl

theorem AllDone.insertRoots (hs : AllDone ld s) (roots : List AtomPtr) :
    AllDone ld (s.insertRoots roots) := by
  induction roots generalizing s with
  | nil => exact hs
  | cons a roots ih => exact ih (hs.insertRoot a)

namespace Linker
variable {name : String} {t : AtomPtr} {sl : Slot}

theorem addLiveRoot_allDone (hs : AllDone ld s)
    (h : ld.addLiveRoot s name = .ok s') : AllDone ld s' := by
  obtain ⟨t, ht, h⟩ := bind_eq_ok.mp h
  have hdone := hs.visits (loadName_visits (fun _ _ _ => markLive_visits) ht)
  split at h
  · cases h
    exact hdone
  · cases h
    exact hdone.insertRoot _

theorem addLiveRoots_allDone (hs : AllDone ld s) (h : ld.addLiveRoots s = .ok s') :
    AllDone ld s' := by
  obtain ⟨entryPoint, -, h⟩ := bind_eq_ok.mp h
  obtain ⟨t, ht, h⟩ := bind_eq_ok.mp h
  cases h
  apply AllDone.insertRoots
  apply foldlM_relates (R := fun s t => AllDone ld s → AllDone ld t) (fun _ h => h)
    (fun _ _ _ hst htu hs => htu (hst hs)) (fun _ _ _ _ hv hu => addLiveRoot_allDone hu hv) ht
  have hhelpers := (hs.insertRoots entryPoint.toList).insertRoots
    ((s.insertRoots entryPoint.toList).find "dyld_stub_binding_helper").toList
  split
  · exact hhelpers.insertRoots _
  · exact hhelpers

theorem visitRoot_allDone {root : AtomPtr} (hs : AllDone ld s)
    (h : ld.visitRoot s root = .ok s') : AllDone ld s' := by
  have hwalking : AllDone ld { s with walking := some root } := fun a ha sl hsl =>
    (hs a ha sl hsl).mono (Step.walkTo s (some root) : Step ld _ _).grows rfl
  exact hwalking.visits (markLive_visits h).1

theorem markRootsLive_allDone (hs : AllDone ld s) (h : ld.markRootsLive s = .ok s') :
    AllDone ld s' := by
  obtain ⟨t, ht, h⟩ := bind_eq_ok.mp h
  obtain ⟨u, hu, h⟩ := bind_eq_ok.mp h
  cases h
  have hwalk : AllDone ld u :=
    walk_relates (R := fun s t => AllDone ld s → AllDone ld t) (fun _ h => h)
      (fun _ _ _ hst htu hs => htu (hst hs)) (fun _ _ _ hv hs => visitRoot_allDone hs hv) hu
      (addLiveRoots_allDone hs ht)
  intro a ha sl hsl
  exact (hwalk a ha sl hsl).mono (Step.walkTo u none : Step ld _ _).grows rfl

theorem find_fixUps (ld : Linker σ) (slots : List Slot) (s : LinkerState σ) (name : String) :
    (slots.foldl ld.fixUp s).find name = s.find name := by
  obtain ⟨bound, live, history, heq⟩ := fixUps_frame ld slots s
  rw [heq]
  rfl

theorem fixUp_bound (hby : ld.objs.byName sl = some name)
    (hfind : s.find name = some t) : ∃ t', (ld.fixUp s sl).bound sl = some t' := by
  unfold fixUp
  cases hbound : s.bound sl with
  | none =>
    rw [unboundName_eq_some.mpr ⟨hbound, hby⟩, Option.bind_some, hfind]
    exact ⟨t, s.bound_bind sl t⟩
  | some t' =>
    have hnone : ld.unboundName s sl = none := by
      cases hname : ld.unboundName s sl with
      | none => rfl
      | some n =>
        have hfree := (unboundName_eq_some.mp hname).1
        rw [hbound] at hfree
        cases hfree
    rw [hnone]
    exact ⟨t', hbound⟩

theorem fixUps_bound {slots : List Slot} (hsl : sl ∈ slots)
    (hqueued : ∀ sl ∈ slots, sl.atom ∈ s.fAtomsWithUnresolvedReferences)
    (hby : ld.objs.byName sl = some name) (hfind : s.find name = some t) :
    ∃ t', (slots.foldl ld.fixUp s).bound sl = some t' := by
  induction slots generalizing s with
  | nil => cases hsl
  | cons head slots ih =>
    have hfirst : Grows s (ld.fixUp s head) := (fixUp_run (hqueued head mem_cons_self)).grows
    have hrest : ∀ sl ∈ slots, sl.atom ∈ (ld.fixUp s head).fAtomsWithUnresolvedReferences :=
      fun sl hsl => hfirst.queue (hqueued sl (mem_cons_of_mem _ hsl))
    cases List.mem_cons.mp hsl with
    | inl heq =>
      rw [← heq] at hrest ⊢
      obtain ⟨t', ht'⟩ := fixUp_bound hby hfind
      exact ⟨t', (fixUps_run hrest).grows.bound sl t' ht'⟩
    | inr hsl =>
      exact ih hsl hrest ((find_fixUps ld [head] s name).trans hfind)

end Linker

theorem bound_bind_cases {sl sl' : Slot} {t t' : AtomPtr} (h : (s.bind sl t').bound sl' = some t) :
    sl' = sl ∧ t = t' ∨ s.bound sl' = some t := by
  by_cases hsame : sl' = sl
  · rw [hsame, LinkerState.bound_bind] at h
    exact Or.inl ⟨hsame, (Option.some.inj h).symm⟩
  · rw [s.bound_bind_ne t' hsame] at h
    exact Or.inr h

/-- What the fix-up loop can bind a side to, and what it can make live: each time an atom
that is live afterwards, without a visit. -/
structure FixedUp (s s' : LinkerState σ) : Prop where
  bound : ∀ sl t, s'.bound sl = some t → s.bound sl = some t ∨ t ∈ s'.fLiveAtoms
  live : ∀ a ∈ s'.fLiveAtoms, a ∈ s.fLiveAtoms ∨ ∃ wasDead, .fixedUp a wasDead false ∈ s'.history

namespace Linker

theorem fixUp_fixedUp (ld : Linker σ) (s : LinkerState σ) (sl : Slot) :
    FixedUp s (ld.fixUp s sl) := by
  obtain heq | ⟨name, target, -, -, -, heq⟩ := fixUp_cases ld s sl
  · rw [heq]
    exact ⟨fun _ _ => Or.inl, fun _ => Or.inl⟩
  rw [heq]
  constructor
  · intro sl' t ht
    obtain ⟨-, rfl⟩ | ht := bound_bind_cases ht
    · exact Or.inr (Finset.mem_insert_self _ _)
    · exact Or.inl ht
  · intro a ha
    by_cases hold : a ∈ s.fLiveAtoms
    · exact Or.inl hold
    right
    obtain rfl | ha := Finset.mem_insert.mp ha
    · refine ⟨a ∈ s.fDeadAtoms, mem_append_right _ (List.mem_singleton.mpr ?_)⟩
      rw [decide_eq_false hold]
    · exact absurd ha hold

theorem fixUps_fixedUp {slots : List Slot}
    (hqueued : ∀ sl ∈ slots, sl.atom ∈ s.fAtomsWithUnresolvedReferences) :
    FixedUp s (slots.foldl ld.fixUp s) := by
  induction slots generalizing s with
  | nil => exact ⟨fun _ _ => Or.inl, fun _ => Or.inl⟩
  | cons sl slots ih =>
    have hfirst : Grows s (ld.fixUp s sl) := (fixUp_run (hqueued sl mem_cons_self)).grows
    have hrest : ∀ sl' ∈ slots, sl'.atom ∈ (ld.fixUp s sl).fAtomsWithUnresolvedReferences :=
      fun sl' hsl' => hfirst.queue (hqueued sl' (mem_cons_of_mem _ hsl'))
    have hgrows : Grows (ld.fixUp s sl) (slots.foldl ld.fixUp (ld.fixUp s sl)) :=
      (fixUps_run hrest).grows
    have hone := fixUp_fixedUp ld s sl
    constructor
    · intro sl' t ht
      obtain ht | ht := (ih hrest).bound sl' t ht
      · exact (hone.bound sl' t ht).imp_right (hgrows.live ·)
      · exact Or.inr ht
    · intro a ha
      obtain ha | ha := (ih hrest).live a ha
      · exact (hone.live a ha).imp_right fun ⟨wasDead, he⟩ => ⟨wasDead, hgrows.history.subset he⟩
      · exact Or.inr ha

theorem fixUpReferences_fixedUp (ld : Linker σ) (s : LinkerState σ) :
    FixedUp s (ld.fixUpReferences s) :=
  fixUps_fixedUp fun _ => atom_mem_of_flatMap

end Linker

def BoundLive (ld : Linker σ) (s : LinkerState σ) : Prop :=
  ∀ sl name t, ld.objs.byName sl = some name → s.bound sl = some t → t ∈ s.fLiveAtoms

theorem AllDone.boundLive (hs : AllDone ld s)
    (hlive : ∀ sl name t, ld.objs.byName sl = some name → s.bound sl = some t →
      sl.atom ∈ s.fLiveAtoms) : BoundLive ld s := by
  intro sl name t hby ht
  apply (hs sl.atom (hlive sl name t hby ht) sl (Objects.mem_slots_of_byName hby)).boundLive
  rw [Linker.boundAtom_of_byName hby]
  exact ht

/-! ## Coalesced atoms in a dead-stripped link

A reference is bound when its atom is visited, and a member that is loaded later may
still replace what it was bound to. Without dead stripping `loadAndResolve` erases
the dead atoms; with it, only what is not live. -/

open Lib.History

variable {σ : Type} {ld : Linker σ} {s s' : LinkerState σ}
variable {target : AtomPtr} {name : String} {a : AtomPtr} {sl : Slot}

def Event.KeepsLive : Event → Prop
  | .markedDead _ wasLive _ => wasLive = false
  | .markedLive _ wasDead _ => wasDead = false
  | .fixedUp _ wasDead _ => wasDead = false
  | .added .. | .rootInserted .. | .bound .. | .unresolved .. => True

def Event.KeepsListed : Event → Prop
  | .added _ wasDead _ => wasDead = false
  | .markedDead _ _ wasListed => wasListed = false
  | .rootInserted .. | .markedLive .. | .bound .. | .unresolved .. | .fixedUp .. => True

instance : DecidablePred Event.KeepsLive
  | .markedDead .. | .markedLive .. | .fixedUp .. => inferInstanceAs (Decidable (_ = false))
  | .added .. | .rootInserted .. | .bound .. | .unresolved .. => .isTrue trivial

instance : DecidablePred Event.KeepsListed
  | .added .. | .markedDead .. => inferInstanceAs (Decidable (_ = false))
  | .rootInserted .. | .markedLive .. | .bound .. | .unresolved .. | .fixedUp .. => .isTrue trivial

def LiveNotDead (s : LinkerState σ) : Prop :=
  ∀ a ∈ s.fLiveAtoms, a ∉ s.fDeadAtoms

def ListedNotDead (s : LinkerState σ) : Prop :=
  ∀ a ∈ s.fAllAtoms, a ∉ s.fDeadAtoms

theorem LiveNotDead.insert (hs : LiveNotDead s) (hdead : s'.fDeadAtoms = s.fDeadAtoms)
    (hlive : s'.fLiveAtoms = insert a s.fLiveAtoms) (ha : decide (a ∈ s.fDeadAtoms) = false) :
    LiveNotDead s' := by
  intro b hb
  rw [hdead]
  rw [hlive] at hb
  obtain rfl | hb := Finset.mem_insert.mp hb
  · exact of_decide_eq_false ha
  · exact hs b hb

theorem AtomAdded.liveNotDead (h : AtomAdded ld a s s')
    (hok : ∀ e ∈ since LinkerState.history s s', e.KeepsLive) (hs : LiveNotDead s) :
    LiveNotDead s' := by
  obtain ⟨es, hes, -, -, hnew⟩ := h.recorded
  have hsame : s'.fLiveAtoms = s.fLiveAtoms := by rw [h.frame]
  rw [since_eq hes] at hok
  intro b hb hdead
  rw [hsame] at hb
  have hmarked := hnew b hdead (hs b hb)
  exact of_decide_eq_false (hok _ (mem_cons_of_mem _ hmarked)) hb

theorem Step.liveNotDead (h : Step ld s s')
    (hok : ∀ e ∈ since LinkerState.history s s', e.KeepsLive) (hs : LiveNotDead s) :
    LiveNotDead s' := by
  cases h with
  | visit h =>
    cases h with
    | load h =>
      cases h with
      | quiet h =>
        rw [h.frame]
        exact hs
      | addAtom a h => exact h.liveNotDead hok hs
    | insertLive a h =>
      have hes : (ld.insertLive s a).history =
          s.history ++ [.markedLive a (a ∈ s.fDeadAtoms) (a ∈ s.fAllAtoms)] := rfl
      rw [since_eq hes] at hok
      exact hs.insert rfl rfl (hok _ mem_cons_self)
    | bind sl name target hname hfree hfind hlive => exact hs
    | noteUnresolved sl name hname hfree hfind hlive =>
      rw [noteUnresolved_frame]
      exact hs
  | insertRoot a =>
    rw [insertRoot_frame]
    exact hs
  | walkTo p => exact hs
  | fixUp sl name target hname hfree hfind hqueued =>
    rw [since_eq (append_assoc _ _ _)] at hok
    have hfixed := hok _ (mem_append_right _ (List.mem_singleton.mpr rfl))
    exact hs.insert rfl rfl hfixed

theorem Run.liveNotDead (h : Run ld s s')
    (hok : ∀ e ∈ since LinkerState.history s s', e.KeepsLive) (hs : LiveNotDead s) :
    LiveNotDead s' :=
  run_invariant LinkerState.history (fun _ _ => Step.history_grows) (fun _ _ => Step.liveNotDead)
    h hok hs

theorem LoadStep.listedNotDead (h : LoadStep ld s s')
    (hok : ∀ e ∈ since LinkerState.history s s', e.KeepsListed) (hs : ListedNotDead s) :
    ListedNotDead s' := by
  cases h with
  | quiet h =>
    rw [h.frame]
    exact hs
  | addAtom a h =>
    obtain ⟨es, hes, -, -, hnew⟩ := h.recorded
    have hall : s'.fAllAtoms = s.fAllAtoms ++ [a] := by rw [h.frame]
    rw [since_eq hes] at hok
    intro b hb hdead
    rw [hall] at hb
    by_cases hold : b ∈ s.fDeadAtoms
    · cases List.mem_append.mp hb with
      | inl hb => exact hs b hb hold
      | inr hb =>
        rw [List.mem_singleton.mp hb] at hold
        exact of_decide_eq_false (hok _ mem_cons_self) hold
    · have hmarked := hnew b hdead hold
      exact of_decide_eq_false (hok _ (mem_cons_of_mem _ hmarked)) hb

theorem Loads.listedNotDead (h : Loads ld s s')
    (hok : ∀ e ∈ since LinkerState.history s s', e.KeepsListed) (hs : ListedNotDead s) :
    ListedNotDead s' :=
  run_invariant LinkerState.history (fun _ _ => LoadStep.history_grows)
    (fun _ _ => LoadStep.listedNotDead) h hok hs

/-- What the names mean: a listed atom with a global name is what the name means, or
dead, and so is what a reference is bound to by name. -/
structure NamesHeld (ld : Linker σ) (s : LinkerState σ) : Prop where
  queueLive : ∀ a ∈ s.fAtomsWithUnresolvedReferences, a ∈ s.fLiveAtoms
  boundBy : ∀ sl name t, ld.objs.byName sl = some name → s.bound sl = some t →
    sl.atom ∈ s.fLiveAtoms
  boundTo : ∀ sl name t, ld.objs.byName sl = some name → s.bound sl = some t →
    s.find name = some t ∨ t ∈ s.fDeadAtoms
  defined : ∀ a ∈ s.fAllAtoms, ∀ name, (ld.objs.atom a).getName = some name →
    s.getScope a ≠ .scopeTranslationUnit → s.find name = some a ∨ a ∈ s.fDeadAtoms

/-- In the first resolution nothing is erased, so that what a name means is listed. -/
structure NamesListed (ld : Linker σ) (s : LinkerState σ) : Prop where
  found : ∀ name t, s.find name = some t → t ∈ s.fAllAtoms
  bound : ∀ sl name t, ld.objs.byName sl = some name → s.bound sl = some t → t ∈ s.fAllAtoms

theorem NamesHeld.bind (hs : NamesHeld ld s)
    (hname : ld.objs.byName sl = some name) (hfind : s.find name = some target)
    (hlive : sl.atom ∈ s.fLiveAtoms) : NamesHeld ld (s.bind sl target) where
  queueLive := hs.queueLive
  boundBy sl' name' t hby ht := by
    obtain ⟨rfl, -⟩ | ht := bound_bind_cases ht
    · exact hlive
    · exact hs.boundBy sl' name' t hby ht
  boundTo sl' name' t hby ht := by
    obtain ⟨rfl, rfl⟩ | ht := bound_bind_cases ht
    · rw [← Option.some.inj (hname.symm.trans hby)]
      exact Or.inl hfind
    · exact hs.boundTo sl' name' t hby ht
  defined := hs.defined

theorem NamesHeld.insertLive (hs : NamesHeld ld s) (hlive : s.fLiveAtoms ⊆ s'.fLiveAtoms)
    (hframe : s' = { s with
      fLiveAtoms := s'.fLiveAtoms
      fTotalSize := s'.fTotalSize
      fTotalZeroFillSize := s'.fTotalZeroFillSize
      history := s'.history }) : NamesHeld ld s' := by
  rw [hframe]
  exact
    { queueLive := fun a ha => hlive (hs.queueLive a ha)
      boundBy := fun sl name t hby ht => hlive (hs.boundBy sl name t hby ht)
      boundTo := hs.boundTo
      defined := hs.defined }

section Steps
variable (hon : ld.fOptions.deadStrip ≠ .kDeadStripOff)
include hon

theorem LoadStep.namesHeld (h : LoadStep ld s s') (hs : NamesHeld ld s) : NamesHeld ld s' := by
  have hkept := h.walkKept
  have hgrows := h.grows
  cases h with
  | quiet h =>
    rw [h.frame]
    refine ⟨hs.queueLive, hs.boundBy, ?_, ?_⟩
    · intro sl name t hby ht
      exact (hs.boundTo sl name t hby ht).imp_left (h.find name).trans
    · intro a ha name hname hscope
      exact (hs.defined a ha name hname hscope).imp_left (h.find name).trans
  | addAtom a h =>
    have hfound : ∀ name t, s.find name = some t ∨ t ∈ s.fDeadAtoms →
        s'.find name = some t ∨ t ∈ s'.fDeadAtoms := by
      intro name t ht
      cases ht with
      | inl ht => exact h.table.kept name t ht
      | inr ht => exact Or.inr (hgrows.dead ht)
    refine ⟨?_, ?_, ?_, ?_⟩
    · rw [hkept.queue, hkept.live]
      exact hs.queueLive
    · rw [hkept.bound, hkept.live]
      exact hs.boundBy
    · intro sl name t hby ht
      rw [hkept.bound] at ht
      exact hfound name t (hs.boundTo sl name t hby ht)
    · intro b hb name hname hscope
      have hall : s'.fAllAtoms = s.fAllAtoms ++ [a] := by rw [h.frame]
      have hscope' : s.getScope b ≠ .scopeTranslationUnit := fun heq => hscope ((h.scope b).mpr heq)
      rw [hall] at hb
      cases List.mem_append.mp hb with
      | inl hb => exact hfound name b (hs.defined b hb name hname hscope')
      | inr hb =>
        rw [List.mem_singleton.mp hb] at hname hscope' ⊢
        exact h.defined name hname hscope' (if_neg (ld.fOptions.notRelocatable hon))

theorem Loads.namesHeld (h : Loads ld s s') (hs : NamesHeld ld s) : NamesHeld ld s' := by
  induction h with
  | refl => exact hs
  | tail _ hstep ih => exact hstep.namesHeld hon ih

theorem Step.namesHeld (h : Step ld s s') (hs : NamesHeld ld s) : NamesHeld ld s' := by
  cases h with
  | visit h =>
    cases h with
    | load h => exact h.namesHeld hon hs
    | insertLive a h => exact hs.insertLive (Finset.subset_insert a _) rfl
    | bind sl name target hname hfree hfind hlive => exact hs.bind hname hfind hlive
    | noteUnresolved sl name hname hfree hfind hlive =>
      have hqueue : ∀ a ∈ (s.noteUnresolved sl name).fAtomsWithUnresolvedReferences,
          a ∈ s.fLiveAtoms := by
        intro a ha
        unfold LinkerState.noteUnresolved at ha
        split at ha
        · cases List.mem_append.mp ha with
          | inl ha => exact hs.queueLive a ha
          | inr ha =>
            rw [List.mem_singleton.mp ha]
            exact hlive
        · exact hs.queueLive a ha
      have hfind' := find_noteUnresolved s sl name
      rw [noteUnresolved_frame] at hqueue hfind' ⊢
      refine ⟨hqueue, hs.boundBy, ?_, ?_⟩
      · intro sl' name' t hby ht
        rw [hfind']
        exact hs.boundTo sl' name' t hby ht
      · intro a ha name' hname' hscope
        rw [hfind']
        exact hs.defined a ha name' hname' hscope
  | insertRoot a =>
    rw [insertRoot_frame]
    exact { hs with }
  | walkTo p => exact { hs with }
  | fixUp sl name target hname hfree hfind hqueued =>
    have hbound := hs.bind hname hfind (hs.queueLive _ hqueued)
    exact hbound.insertLive (Finset.subset_insert target _) rfl

theorem Run.namesHeld (h : Run ld s s') (hs : NamesHeld ld s) : NamesHeld ld s' := by
  induction h with
  | refl => exact hs
  | tail _ hstep ih => exact hstep.namesHeld hon ih

end Steps

theorem NamesListed.bind (hs : NamesListed ld s)
    (hfind : s.find name = some target) : NamesListed ld (s.bind sl target) where
  found := hs.found
  bound sl' name' t hby ht := by
    obtain ⟨-, rfl⟩ | ht := bound_bind_cases ht
    · exact hs.found name t hfind
    · exact hs.bound sl' name' t hby ht

theorem LoadStep.namesListed (h : LoadStep ld s s') (hs : NamesListed ld s) :
    NamesListed ld s' := by
  have hkept := h.walkKept
  have hgrows := h.grows
  have hbound : ∀ sl name t, ld.objs.byName sl = some name → s'.bound sl = some t →
      t ∈ s'.fAllAtoms := by
    intro sl name t hby ht
    rw [hkept.bound] at ht
    exact hgrows.all (hs.bound sl name t hby ht)
  refine ⟨?_, hbound⟩
  intro name t ht
  cases h with
  | quiet h => exact hgrows.all (hs.found name t ((h.find name).symm.trans ht))
  | addAtom a h =>
    obtain ht | ⟨rfl, -⟩ := h.table.fresh name t ht
    · exact hgrows.all (hs.found name t ht)
    rw [h.frame]
    exact mem_append_right _ (List.mem_singleton.mpr rfl)

theorem Step.namesListed (h : Step ld s s') (hs : NamesListed ld s) : NamesListed ld s' := by
  cases h with
  | visit h =>
    cases h with
    | load h => exact h.namesListed hs
    | insertLive a h => exact { hs with }
    | bind sl name target hname hfree hfind hlive => exact hs.bind hfind
    | noteUnresolved sl name hname hfree hfind hlive =>
      have hfind' := find_noteUnresolved s sl name
      rw [noteUnresolved_frame] at hfind' ⊢
      refine ⟨?_, hs.bound⟩
      intro name' t ht
      exact hs.found name' t ((hfind' name').symm.trans ht)
  | insertRoot a =>
    rw [insertRoot_frame]
    exact { hs with }
  | walkTo p => exact { hs with }
  | fixUp sl name target hname hfree hfind hqueued =>
    have hbound : NamesListed ld (s.bind sl target) := hs.bind hfind
    exact { hbound with }

theorem Run.namesListed (h : Run ld s s') (hs : NamesListed ld s) : NamesListed ld s' := by
  induction h with
  | refl => exact hs
  | tail _ hstep ih => exact hstep.namesListed ih

namespace Linker

theorem init_namesHeld (ld : Linker σ) (files : σ) : NamesHeld ld (ld.init files) where
  queueLive a ha := by cases ha
  boundBy sl name t hby ht := by
    rw [init_bound ld files hby] at ht
    cases ht
  boundTo sl name t hby ht := by
    rw [init_bound ld files hby] at ht
    cases ht
  defined a ha := by cases ha

theorem init_namesListed (ld : Linker σ) (files : σ) : NamesListed ld (ld.init files) where
  found name t ht := by
    cases ht
  bound sl name t hby ht := by
    rw [init_bound ld files hby] at ht
    cases ht

/-- What holds where `deadStripResolve` returns to `loadAndResolve`. -/
structure Coalesced (ld : Linker σ) (s : LinkerState σ) : Prop where
  listed : ListedNotDead s
  held : NamesHeld ld s
  bound : ∀ sl name t, ld.objs.byName sl = some name → s.bound sl = some t → t ∈ s.fAllAtoms

theorem firstDeadStrip_coalesced (hon : ld.fOptions.deadStrip ≠ .kDeadStripOff) {files : σ}
    (h : ld.firstDeadStrip files = .ok s) (hok : ∀ e ∈ s.history, e.KeepsLive) :
    Coalesced ld s := by
  obtain ⟨t, ht, h⟩ := bind_eq_ok.mp h
  obtain ⟨u, hu, h⟩ := bind_eq_ok.mp h
  cases h
  have hbuild := buildAtomList_loads ht
  have hrun : Run ld (ld.init files) u := hbuild.run.trans (markRootsLive_run hu)
  have hall : Run ld (ld.init files) (ld.fixUpReferences u) :=
    hrun.trans (fixUpReferences_run ld u)
  have hdead : LiveNotDead (ld.fixUpReferences u) := by
    apply hall.liveNotDead
    · intro e he
      exact hok e (mem_of_mem_drop he)
    · intro a ha
      cases ha
  have hheld := hall.namesHeld hon (init_namesHeld ld files)
  have hlisted := hall.namesListed (init_namesListed ld files)
  have hdone : AllDone ld u := by
    apply markRootsLive_allDone _ hu
    intro a ha
    rw [hbuild.walkKept.live] at ha
    cases ha
  have hlive : BoundLive ld (ld.fixUpReferences u) := by
    intro sl name t hby ht
    obtain ht | ht := (fixUpReferences_fixedUp ld u).bound sl t ht
    · have hboundLive := hdone.boundLive (hrun.namesHeld hon (init_namesHeld ld files)).boundBy
      exact (fixUpReferences_run ld u).grows.live (hboundLive sl name t hby ht)
    · exact ht
  refine ⟨?_, ⟨hheld.queueLive, hheld.boundBy, hheld.boundTo, ?_⟩, ?_⟩
  · intro a ha
    exact hdead a (of_decide_eq_true (List.mem_filter.mp ha).2)
  · intro a ha
    exact hheld.defined a (List.mem_filter.mp ha).1
  · intro sl name t hby ht
    exact List.mem_filter.mpr
      ⟨hlisted.bound sl name t hby ht, decide_eq_true (hlive sl name t hby ht)⟩

/-- A name stands for one listed atom, and what is bound by it is bound to that atom. -/
structure NamesUnique (ld : Linker σ) (s : LinkerState σ) : Prop where
  notDead : ∀ a ∈ s.fAllAtoms, a ∉ s.fDeadAtoms
  unique : ∀ a ∈ s.fAllAtoms, ∀ b ∈ s.fAllAtoms, s.getScope a ≠ .scopeTranslationUnit →
    s.getScope b ≠ .scopeTranslationUnit → ∀ name, (ld.objs.atom a).getName = some name →
      (ld.objs.atom b).getName = some name → a = b
  bound : ∀ a ∈ s.fAllAtoms, ∀ sl ∈ ld.objs.slots a, ∀ name t, ld.objs.byName sl = some name →
    s.bound sl = some t → s.find name = some t

theorem Coalesced.namesUnique (hs : Coalesced ld s) : NamesUnique ld s where
  notDead := hs.listed
  unique a ha b hb hascope hbscope name haname hbname := by
    have hafind := (hs.held.defined a ha name haname hascope).resolve_right (hs.listed a ha)
    have hbfind := (hs.held.defined b hb name hbname hbscope).resolve_right (hs.listed b hb)
    exact Option.some.inj (hafind.symm.trans hbfind)
  bound a _ sl _ name t hby ht :=
    (hs.held.boundTo sl name t hby ht).resolve_right (hs.listed t (hs.bound sl name t hby ht))

theorem Coalesced.loads (hon : ld.fOptions.deadStrip ≠ .kDeadStripOff) (hs : Coalesced ld s)
    (h : Loads ld s s') (hok : ∀ e ∈ since LinkerState.history s s', e.KeepsListed) :
    Coalesced ld s' where
  listed := h.listedNotDead hok hs.listed
  held := h.namesHeld hon hs.held
  bound sl name t hby ht := by
    rw [h.walkKept.bound] at ht
    exact h.run.grows.all (hs.bound sl name t hby ht)

/-- When `loadAndResolve` succeeds, if `deadStripResolve` coalesced away nothing live, and
`checkUndefines` after it nothing that is listed. -/
theorem loadAndResolve_namesUnique (hon : ld.fOptions.deadStrip ≠ .kDeadStripOff) {files : σ}
    {r t : LinkerState σ} (hr : ld.buildAtomList (ld.init files) = .ok r)
    (h : ld.loadAndResolve r = .ok s) (ht : ld.deadStripResolve r = .ok t)
    (hlive : ∀ e ∈ t.history, e.KeepsLive)
    (hlisted : ∀ e ∈ since LinkerState.history t s, e.KeepsListed) : NamesUnique ld s := by
  have hfirst : ld.firstDeadStrip files = .ok t := bind_eq_ok.mpr ⟨r, hr, ht⟩
  rw [loadAndResolve_on hon, ht] at h
  have hcoalesced := firstDeadStrip_coalesced hon hfirst hlive
  exact (hcoalesced.loads hon (checkUndefines_loads h) hlisted).namesUnique

/-- `start` refers to a weak `_w` beside it and to `_foo`, which an archive member
defines together with another symbol. -/
def lateMemberAtom (other : String) (a : AtomPtr) : Atom :=
  if a = 1 then
    { getName := some "start"
      getScope := .scopeGlobal
      getDefinitionKind := .kRegularDefinition
      getReferences := [refersByName "_w", refersByName "_foo"] }
  else if a = 2 then
    { getName := some "_w"
      getScope := .scopeGlobal
      getDefinitionKind := .kWeakDefinition }
  else
    { getFile := 1
      getName := some (if a = 3 then "_foo" else other)
      getScope := .scopeGlobal
      getDefinitionKind := .kRegularDefinition }

def lateMemberLink (other : String) : Linker Bool :=
  smallLink .kDeadStripOn { atom := lateMemberAtom other } [1, 2] (supplyOnce "_foo" [3, 4])

theorem late_member_unique :
    ∃ r s, (lateMemberLink "_v").buildAtomList ((lateMemberLink "_v").init false) = .ok r ∧
      (lateMemberLink "_v").loadAndResolve r = .ok s ∧ NamesUnique (lateMemberLink "_v") s := by
  have hrun : ∃ r t s, (lateMemberLink "_v").buildAtomList ((lateMemberLink "_v").init false) =
        .ok r ∧ (lateMemberLink "_v").loadAndResolve r = .ok s ∧
      (lateMemberLink "_v").deadStripResolve r = .ok t ∧ (∀ e ∈ t.history, e.KeepsLive) ∧
      ∀ e ∈ since LinkerState.history t s, e.KeepsListed :=
    ⟨_, _, _, rfl, rfl, rfl, by decide, by decide⟩
  obtain ⟨r, t, s, hr, hs, ht, hlive, hlisted⟩ := hrun
  have hon : (lateMemberLink "_v").fOptions.deadStrip ≠ .kDeadStripOff := by decide
  exact ⟨r, s, hr, hs, loadAndResolve_namesUnique hon hr hs ht hlive hlisted⟩

/-- The member's `_w` replaces the weak one after `start` is bound to it. -/
theorem late_member_dead :
    ∃ r s, (lateMemberLink "_w").buildAtomList ((lateMemberLink "_w").init false) = .ok r ∧
      (lateMemberLink "_w").loadAndResolve r = .ok s ∧ 2 ∈ s.fAllAtoms ∧ 2 ∈ s.fDeadAtoms ∧
      s.bound ⟨1, 0, .target⟩ = some 2 ∧ s.find "_w" = some 4 :=
  ⟨_, _, rfl, rfl, by decide, by decide, rfl, rfl⟩

end Linker
end Toolwhip.Ld64
