import Mathlib.Combinatorics.Pigeonhole
import Toolwhip.Ld64.LinkerPhases

/-! # The totals that tweakLayout reads

An atom is counted when it is added or, with dead stripping, when it becomes live.
What is coalesced away later stays counted, and `optimize` makes everything live a
second time without resetting the totals. -/

namespace Toolwhip.Ld64
open Lib.ThrowingFold Lib.History Relation List
set_option autoImplicit false

variable {σ : Type} {ld : Linker σ} {s s' : LinkerState σ}
variable {live : Finset AtomPtr} {l : List AtomPtr} {a : AtomPtr}

namespace Linker

def outputSize (ld : Linker σ) (s : LinkerState σ) : Nat :=
  (s.fAllAtoms.map ld.readableSize).sum

def outputZeroFill (ld : Linker σ) (s : LinkerState σ) : Nat :=
  (s.fAllAtoms.map ld.zeroFillSize).sum

theorem zeroFillSize_le (ld : Linker σ) (a : AtomPtr) : ld.zeroFillSize a ≤ ld.readableSize a := by
  unfold zeroFillSize
  split
  · exact Nat.le_refl _
  · exact Nat.zero_le _

theorem zeroFillSize_eq_zero {a : AtomPtr} (h : ld.readableSize a = 0) : ld.zeroFillSize a = 0 :=
  Nat.le_zero.mp (h ▸ ld.zeroFillSize_le a)

theorem outputZeroFill_le (ld : Linker σ) (s : LinkerState σ) :
    ld.outputZeroFill s ≤ ld.outputSize s := by
  unfold outputZeroFill outputSize
  induction s.fAllAtoms with
  | nil => exact Nat.le_refl _
  | cons a atoms ih =>
    exact Nat.add_le_add (ld.zeroFillSize_le a) ih

/-- The states that a link passes through on its way to `tweakLayout`. -/
structure LinkRun (ld : Linker σ) (files : σ) where
  built : LinkerState σ
  resolved : LinkerState σ
  optimized : LinkerState σ
  final : LinkerState σ
  buildAtomList : ld.buildAtomList (ld.init files) = .ok built
  loadAndResolve : ld.loadAndResolve built = .ok resolved
  optimize : ld.optimize resolved = .ok optimized
  finish : (ld.checkObjC optimized >>= ld.processDTrace) = .ok final

theorem checkObjC_loads (h : ld.checkObjC s = .ok s') : Loads ld s s' := by
  obtain ⟨-, -, h⟩ := bind_eq_ok.mp h
  split at h
  · cases h
    exact .refl
  · apply ReflTransGen.trans _ (addAtom_loads h)
    exact Loads.quiet ⟨rfl, fun _ => rfl⟩

theorem processDTrace_loads (h : ld.processDTrace s = .ok s') : Loads ld s s' := by
  unfold processDTrace at h
  dsimp only at h
  split at h
  · obtain ⟨sections, -, h⟩ := bind_eq_ok.mp h
    exact Loads.foldlM (fun _ _ _ => addAtoms_loads) h
  · cases h
    exact .refl

theorem LinkRun.finish_loads {files : σ} (run : ld.LinkRun files) :
    Loads ld run.optimized run.final := by
  obtain ⟨t, ht, h⟩ := bind_eq_ok.mp run.finish
  exact (checkObjC_loads ht).trans (processDTrace_loads h)

theorem resolve_grows (ld : Linker σ) (s : LinkerState σ) (sl : Slot) :
    Grows s (ld.resolve s sl) := by
  unfold resolve
  split
  · exact Grows.refl s
  · rename_i target htarget
    obtain ⟨name, hname, -⟩ := Option.bind_eq_some_iff.mp htarget
    exact { Grows.refl s with
      bound := fun _ _ => bind_keeps (unboundName_eq_some.mp hname).1
      history := prefix_append _ _ }

theorem resolveReferences_grows (ld : Linker σ) (s : LinkerState σ) :
    Grows s (ld.resolveReferences s) := by
  unfold resolveReferences
  rw [← foldl_flatMap]
  exact foldlRecOn _ _ (Grows.refl s) fun t ht sl _ => ht.trans (resolve_grows ld t sl)

/-- What no phase takes back, not even one that erases atoms or clears those that are live. -/
structure Keeps (s s' : LinkerState σ) : Prop where
  dead : s.fDeadAtoms ⊆ s'.fDeadAtoms
  roots : s.fLiveRootAtoms ⊆ s'.fLiveRootAtoms
  bound : ∀ sl t, s.bound sl = some t → s'.bound sl = some t
  scope : ∀ a, s'.getScope a = .scopeTranslationUnit ↔ s.getScope a = .scopeTranslationUnit

theorem Keeps.trans {t u : LinkerState σ} (hst : Keeps s t) (htu : Keeps t u) : Keeps s u where
  dead := Finset.Subset.trans hst.dead htu.dead
  roots := Finset.Subset.trans hst.roots htu.roots
  bound sl t h := htu.bound sl t (hst.bound sl t h)
  scope a := (htu.scope a).trans (hst.scope a)

theorem keeps_of_grows (h : Grows s s') : Keeps s s' :=
  ⟨h.dead, h.roots, h.bound, h.scope⟩

theorem deadStripResolve_keeps (h : ld.deadStripResolve s = .ok s') : Keeps s s' := by
  obtain ⟨t, ht, h⟩ := bind_eq_ok.mp h
  cases h
  have hrun : Run ld s (ld.fixUpReferences t) := (markRootsLive_run ht).trans (fixUpReferences_run ld t)
  exact { keeps_of_grows hrun.grows with }

theorem loadAndResolve_keeps (h : ld.loadAndResolve s = .ok s') : Keeps s s' := by
  unfold loadAndResolve at h
  split at h
  · obtain ⟨t, ht, h⟩ := bind_eq_ok.mp h
    obtain ⟨u, hu, h⟩ := bind_eq_ok.mp h
    cases h
    have hload : Loads ld s u := (loadUndefinesLoop_loads ht).trans (checkUndefines_loads hu)
    exact { keeps_of_grows (hload.run.grows.trans (resolveReferences_grows ld u)) with }
  · obtain ⟨t, ht, h⟩ := bind_eq_ok.mp h
    exact (deadStripResolve_keeps ht).trans (keeps_of_grows (checkUndefines_loads h).run.grows)

theorem keeps_optimize (h : ld.optimize s = .ok s') : Keeps s s' := by
  obtain ⟨t, ht, h⟩ := bind_eq_ok.mp h
  obtain ⟨allAtoms, files', hloads, -⟩ := loadOptimized_loads ht
  have hloaded : Keeps s t := { keeps_of_grows hloads.run.grows with }
  apply hloaded.trans
  split at h
  · obtain ⟨u, hu, h⟩ := bind_eq_ok.mp h
    cases h
    exact keeps_of_grows ((checkUndefines_loads hu).run.grows.trans (resolveReferences_grows ld u))
  · exact { deadStripResolve_keeps h with }

/-- With or without dead stripping, from the command line's files to the layout. -/
theorem LinkRun.keeps {files : σ} (run : ld.LinkRun files) :
    Keeps (ld.init files) run.built ∧ Keeps run.built run.resolved ∧
      Keeps run.resolved run.optimized ∧ Keeps run.optimized run.final :=
  ⟨keeps_of_grows (buildAtomList_loads run.buildAtomList).run.grows,
    loadAndResolve_keeps run.loadAndResolve, keeps_optimize run.optimize,
    keeps_of_grows run.finish_loads.run.grows⟩

end Linker

def Event.AddsNothing (ld : Linker σ) : Event → Prop
  | .added a _ _ => ld.readableSize a = 0
  | .rootInserted .. | .markedDead .. | .markedLive .. | .bound .. | .unresolved .. |
    .fixedUp .. => True

/-- What is made live by a visit is listed, and what the fix-up loop makes live was so
already, or else it has no readable bytes. -/
def Event.CountsListed (ld : Linker σ) : Event → Prop
  | .markedLive a _ wasListed => wasListed = true ∨ ld.readableSize a = 0
  | .fixedUp a _ wasLive => wasLive = true ∨ ld.readableSize a = 0
  | .added .. | .rootInserted .. | .markedDead .. | .bound .. | .unresolved .. => True

/-- The totals count the listed atoms. -/
structure Summed (ld : Linker σ) (s : LinkerState σ) : Prop where
  total : s.fTotalSize = ld.outputSize s % 2 ^ 64
  zeroFill : s.fTotalZeroFillSize = ld.outputZeroFill s % 2 ^ 64

theorem Summed.of_same (hs : Summed ld s) (hall : s'.fAllAtoms = s.fAllAtoms)
    (htotal : s'.fTotalSize = s.fTotalSize)
    (hzero : s'.fTotalZeroFillSize = s.fTotalZeroFillSize) : Summed ld s' where
  total := by
    unfold Linker.outputSize
    rw [htotal, hall]
    exact hs.total
  zeroFill := by
    unfold Linker.outputZeroFill
    rw [hzero, hall]
    exact hs.zeroFill

theorem AtomAdded.summed (h : AtomAdded ld a s s')
    (hok : ld.fOptions.deadStrip = .kDeadStripOff ∨ ld.readableSize a = 0) (hs : Summed ld s) :
    Summed ld s' := by
  have hall : s'.fAllAtoms = s.fAllAtoms ++ [a] := by rw [h.frame]
  have hsize : ld.outputSize s' = ld.outputSize s + ld.readableSize a := by
    unfold Linker.outputSize
    rw [hall, map_append, sum_append, map_singleton, sum_singleton]
  have hzero : ld.outputZeroFill s' = ld.outputZeroFill s + ld.zeroFillSize a := by
    unfold Linker.outputZeroFill
    rw [hall, map_append, sum_append, map_singleton, sum_singleton]
  constructor
  · rw [h.size, hsize, hs.total]
    split
    · exact Nat.mod_add_mod _ _ _
    rename_i hon
    rw [hok.resolve_left hon, Nat.add_zero]
  · rw [h.zeroFill, hzero, hs.zeroFill]
    split
    · exact Nat.mod_add_mod _ _ _
    rename_i hon
    rw [Linker.zeroFillSize_eq_zero (hok.resolve_left hon), Nat.add_zero]

theorem LoadStep.summed (h : LoadStep ld s s') (hok : ∀ e ∈ since LinkerState.history s s',
      ld.fOptions.deadStrip = .kDeadStripOff ∨ e.AddsNothing ld) (hs : Summed ld s) :
    Summed ld s' := by
  cases h with
  | quiet h =>
    apply hs.of_same
    · rw [h.frame]
    · rw [h.frame]
    · rw [h.frame]
  | addAtom a h =>
    obtain ⟨es, hes, -⟩ := h.recorded
    rw [since_eq hes] at hok
    exact h.summed (hok _ mem_cons_self) hs

theorem Loads.summed (h : Loads ld s s') (hok : ∀ e ∈ since LinkerState.history s s',
      ld.fOptions.deadStrip = .kDeadStripOff ∨ e.AddsNothing ld) (hs : Summed ld s) :
    Summed ld s' :=
  run_invariant LinkerState.history (fun _ _ => LoadStep.history_grows)
    (fun _ _ => LoadStep.summed) h hok hs

theorem Loads.summed_off (hoff : ld.fOptions.deadStrip = .kDeadStripOff) (h : Loads ld s s')
    (hs : Summed ld s) : Summed ld s' :=
  h.summed (fun _ _ => Or.inl hoff) hs

variable {size : AtomPtr → Nat}

theorem sum_filter {p : AtomPtr → Bool}
    (h : ∀ a ∈ l, p a = false → size a = 0) : ((l.filter p).map size).sum = (l.map size).sum := by
  induction l with
  | nil => rfl
  | cons a l ih =>
    have hrest := ih fun b hb => h b (mem_cons_of_mem _ hb)
    rw [map_cons, sum_cons]
    cases hp : p a with
    | true => rw [filter_cons_of_pos hp, map_cons, sum_cons, hrest]
    | false =>
      rw [filter_cons_of_neg (by simp [hp]), h a mem_cons_self hp, Nat.zero_add, hrest]

theorem Summed.eraseDead (hs : Summed ld s)
    (hempty : ∀ a ∈ s.fAllAtoms, a ∈ s.fDeadAtoms → ld.readableSize a = 0) :
    Summed ld s.eraseDead := by
  have hgone : ∀ a ∈ s.fAllAtoms, decide (a ∉ s.fDeadAtoms) = false → ld.readableSize a = 0 := by
    intro a ha hdead
    exact hempty a ha (not_not.mp (of_decide_eq_false hdead))
  constructor
  · rw [Linker.outputSize]
    rw [LinkerState.eraseDead, sum_filter hgone]
    exact hs.total
  · rw [Linker.outputZeroFill]
    rw [LinkerState.eraseDead,
      sum_filter fun a ha hdead => Linker.zeroFillSize_eq_zero (hgone a ha hdead)]
    exact hs.zeroFill

/-- With dead stripping the totals count the live atoms, and those are listed. -/
structure Tallied (ld : Linker σ) (s : LinkerState σ) : Prop where
  total : s.fTotalSize = s.fLiveAtoms.sum ld.readableSize % 2 ^ 64
  zeroFill : s.fTotalZeroFillSize = s.fLiveAtoms.sum ld.zeroFillSize % 2 ^ 64
  listed : ∀ a ∈ s.fLiveAtoms, a ∈ s.fAllAtoms ∨ ld.readableSize a = 0

theorem Tallied.of_same (hs : Tallied ld s) (hall : s.fAllAtoms ⊆ s'.fAllAtoms)
    (hlive : s'.fLiveAtoms = s.fLiveAtoms) (htotal : s'.fTotalSize = s.fTotalSize)
    (hzero : s'.fTotalZeroFillSize = s.fTotalZeroFillSize) : Tallied ld s' where
  total := by
    rw [htotal, hlive]
    exact hs.total
  zeroFill := by
    rw [hzero, hlive]
    exact hs.zeroFill
  listed a ha := by
    rw [hlive] at ha
    exact (hs.listed a ha).imp_left (hall ·)

theorem sum_insert_of_empty
    (h : a ∈ live ∨ size a = 0) : (insert a live).sum size = live.sum size := by
  by_cases ha : a ∈ live
  · rw [Finset.insert_eq_self.mpr ha]
  · rw [Finset.sum_insert ha, h.resolve_left ha, Nat.zero_add]

section On
variable (hon : ld.fOptions.deadStrip ≠ .kDeadStripOff)
include hon

theorem LoadStep.totals_on (h : LoadStep ld s s') :
    s'.fTotalSize = s.fTotalSize ∧ s'.fTotalZeroFillSize = s.fTotalZeroFillSize := by
  cases h with
  | quiet h =>
    rw [h.frame]
    exact ⟨rfl, rfl⟩
  | addAtom a h =>
    rw [h.size, h.zeroFill, if_neg hon, if_neg hon]
    exact ⟨rfl, rfl⟩

theorem Loads.totals_on (h : Loads ld s s') :
    s'.fTotalSize = s.fTotalSize ∧ s'.fTotalZeroFillSize = s.fTotalZeroFillSize := by
  induction h with
  | refl => exact ⟨rfl, rfl⟩
  | tail _ hstep ih =>
    obtain ⟨htotal, hzero⟩ := hstep.totals_on hon
    exact ⟨htotal.trans ih.1, hzero.trans ih.2⟩

theorem LoadStep.tallied (h : LoadStep ld s s') (hs : Tallied ld s) : Tallied ld s' := by
  obtain ⟨htotal, hzero⟩ := h.totals_on hon
  exact hs.of_same h.grows.all h.walkKept.live htotal hzero

theorem Step.tallied (h : Step ld s s')
    (hok : ∀ e ∈ since LinkerState.history s s', e.CountsListed ld) (hs : Tallied ld s) :
    Tallied ld s' := by
  cases h with
  | visit h =>
    cases h with
    | load h => exact h.tallied hon hs
    | insertLive a h =>
      have hes : (ld.insertLive s a).history =
          s.history ++ [.markedLive a (a ∈ s.fDeadAtoms) (a ∈ s.fAllAtoms)] := rfl
      rw [since_eq hes] at hok
      have hsize : (insert a s.fLiveAtoms).sum ld.readableSize =
          ld.readableSize a + s.fLiveAtoms.sum ld.readableSize := Finset.sum_insert h
      have hzero : (insert a s.fLiveAtoms).sum ld.zeroFillSize =
          ld.zeroFillSize a + s.fLiveAtoms.sum ld.zeroFillSize := Finset.sum_insert h
      refine ⟨?_, ?_, ?_⟩
      · change (s.fTotalSize + ld.readableSize a) % 2 ^ 64 =
          (insert a s.fLiveAtoms).sum ld.readableSize % 2 ^ 64
        rw [hsize, hs.total, Nat.mod_add_mod, Nat.add_comm]
      · change (s.fTotalZeroFillSize + ld.zeroFillSize a) % 2 ^ 64 =
          (insert a s.fLiveAtoms).sum ld.zeroFillSize % 2 ^ 64
        rw [hzero, hs.zeroFill, Nat.mod_add_mod, Nat.add_comm]
      · intro b hb
        obtain rfl | hb := Finset.mem_insert.mp hb
        · exact (hok _ mem_cons_self).imp_left of_decide_eq_true
        · exact hs.listed b hb
    | bind sl name target hname hfree hfind hlive => exact { hs with }
    | noteUnresolved sl name hname hfree hfind hlive =>
      rw [noteUnresolved_frame]
      exact { hs with }
  | insertRoot a =>
    rw [insertRoot_frame]
    exact { hs with }
  | walkTo p => exact { hs with }
  | fixUp sl name target hname hfree hfind hqueued =>
    rw [since_eq (append_assoc _ _ _)] at hok
    have hfixed : target ∈ s.fLiveAtoms ∨ ld.readableSize target = 0 :=
      (hok _ (mem_append_right _ (List.mem_singleton.mpr rfl))).imp_left of_decide_eq_true
    refine ⟨?_, ?_, ?_⟩
    · rw [sum_insert_of_empty hfixed]
      exact hs.total
    · rw [sum_insert_of_empty (hfixed.imp_right Linker.zeroFillSize_eq_zero)]
      exact hs.zeroFill
    · intro b hb
      obtain rfl | hb := Finset.mem_insert.mp hb
      · exact hfixed.elim (hs.listed b) Or.inr
      · exact hs.listed b hb

theorem Run.tallied (h : Run ld s s')
    (hok : ∀ e ∈ since LinkerState.history s s', e.CountsListed ld) (hs : Tallied ld s) :
    Tallied ld s' :=
  run_invariant LinkerState.history (fun _ _ => Step.history_grows)
    (fun _ _ => Step.tallied hon) h hok hs

end On

theorem sum_live
    (hnodup : l.Nodup) (hlive : ∀ a ∈ l, a ∈ live) (hlisted : ∀ a ∈ live, a ∈ l ∨ size a = 0) :
    (l.map size).sum = live.sum size := by
  rw [← sum_toFinset size hnodup]
  apply Finset.sum_subset
  · intro a ha
    exact hlive a (List.mem_toFinset.mp ha)
  · intro a ha hnot
    exact (hlisted a ha).resolve_left fun hin => hnot (List.mem_toFinset.mpr hin)

theorem Tallied.eraseNotLive (hs : Tallied ld s) (hnodup : s.eraseNotLive.fAllAtoms.Nodup) :
    Summed ld s.eraseNotLive := by
  have hmem : ∀ a, a ∈ s.eraseNotLive.fAllAtoms ↔ a ∈ s.fAllAtoms ∧ a ∈ s.fLiveAtoms := by
    intro a
    unfold LinkerState.eraseNotLive
    rw [mem_filter, decide_eq_true_iff]
  have hlisted : ∀ a ∈ s.fLiveAtoms,
      a ∈ s.eraseNotLive.fAllAtoms ∨ ld.readableSize a = 0 := by
    intro a ha
    exact (hs.listed a ha).imp_left fun hin => (hmem a).mpr ⟨hin, ha⟩
  have hlive : ∀ a ∈ s.eraseNotLive.fAllAtoms, a ∈ s.fLiveAtoms := fun a ha => ((hmem a).mp ha).2
  constructor
  · rw [Linker.outputSize, sum_live hnodup hlive hlisted]
    exact hs.total
  · rw [Linker.outputZeroFill, sum_live hnodup hlive fun a ha =>
      (hlisted a ha).imp_right Linker.zeroFillSize_eq_zero]
    exact hs.zeroFill

def ListedAdded (s : LinkerState σ) : Prop :=
  ∀ a ∈ s.fAllAtoms, a ∈ s.added

theorem Loads.listedAdded (h : Loads ld s s') (hs : ListedAdded s) : ListedAdded s' := by
  induction h with
  | refl => exact hs
  | @tail t u _ hstep ih =>
    have hold : ∀ a ∈ t.added, a ∈ u.added := by
      intro a ha
      obtain ⟨wasDead, wasListed, he⟩ := LinkerState.mem_added.mp ha
      exact LinkerState.mem_added.mpr ⟨wasDead, wasListed, hstep.history_grows.subset he⟩
    intro a ha
    cases hstep with
    | quiet h =>
      rw [h.frame] at ha
      exact hold a (ih a ha)
    | addAtom b h =>
      rw [h.frame] at ha
      cases List.mem_append.mp ha with
      | inl ha => exact hold a (ih a ha)
      | inr ha =>
        obtain ⟨es, hes, -⟩ := h.recorded
        rw [List.mem_singleton.mp ha]
        apply LinkerState.mem_added.mpr
        refine ⟨b ∈ t.fDeadAtoms, b ∈ t.fAllAtoms, ?_⟩
        rw [hes]
        exact mem_append_right _ mem_cons_self

namespace Linker

theorem resolve_frame (ld : Linker σ) (s : LinkerState σ) (sl : Slot) :
    ∃ bound history, ld.resolve s sl = { s with bound := bound, history := history } ∧
      s.history <+: history := by
  unfold resolve
  split
  · exact ⟨s.bound, s.history, rfl, prefix_refl _⟩
  · exact ⟨_, _, rfl, prefix_append _ _⟩

theorem resolveReferences_frame (ld : Linker σ) (s : LinkerState σ) :
    ∃ bound history, ld.resolveReferences s = { s with bound := bound, history := history } ∧
      s.history <+: history := by
  have hfold : ∀ (slots : List Slot) (s : LinkerState σ), ∃ bound history,
      slots.foldl ld.resolve s = { s with bound := bound, history := history } ∧
        s.history <+: history := by
    intro slots
    induction slots with
    | nil =>
      intro s
      exact ⟨s.bound, s.history, rfl, prefix_refl _⟩
    | cons sl slots ih =>
      intro s
      obtain ⟨bound, history, heq, hgrows⟩ := resolve_frame ld s sl
      obtain ⟨bound', history', heq', hgrows'⟩ := ih (ld.resolve s sl)
      rw [foldl_cons, heq']
      rw [heq] at hgrows' ⊢
      exact ⟨bound', history', rfl, hgrows.trans hgrows'⟩
  unfold resolveReferences
  rw [← foldl_flatMap]
  exact hfold _ s

end Linker

theorem Summed.resolveReferences (hs : Summed ld s) : Summed ld (ld.resolveReferences s) := by
  obtain ⟨bound, history, heq, -⟩ := ld.resolveReferences_frame s
  rw [heq]
  exact hs.of_same rfl rfl rfl

namespace Linker
variable {files : σ}

/-- Without dead stripping: no optimizer changes the list, and what is coalesced away
before the references are resolved has no readable bytes. -/
structure CountsOff {files : σ} (run : ld.LinkRun files) : Prop where
  optimizers : ∀ reader all dead st, (ld.files.optimize reader all dead st).allAtoms = all
  coalesced : ∀ a ∈ run.resolved.added, a ∈ run.resolved.fDeadAtoms → ld.readableSize a = 0

/-- With dead stripping: the first resolution counts nothing, the second only what it
leaves in the list, and nothing readable is added afterwards. -/
structure CountsOn {files : σ} (run : ld.LinkRun files) : Prop where
  total : run.resolved.fTotalSize = 0
  zeroFill : run.resolved.fTotalZeroFillSize = 0
  listed : ∀ e ∈ since LinkerState.history run.resolved run.optimized, e.CountsListed ld
  nodup : run.optimized.fAllAtoms.Nodup
  added : ∀ e ∈ since LinkerState.history run.optimized run.final, e.AddsNothing ld

theorem CountsOff.summed {run : ld.LinkRun files}
    (hoff : ld.fOptions.deadStrip = .kDeadStripOff) (h : CountsOff run) : Summed ld run.final := by
  have hbuilt := buildAtomList_loads run.buildAtomList
  have hresolved := run.loadAndResolve
  unfold loadAndResolve at hresolved
  rw [if_pos hoff] at hresolved
  obtain ⟨t, ht, hresolved⟩ := bind_eq_ok.mp hresolved
  obtain ⟨u, hu, hresolved⟩ := bind_eq_ok.mp hresolved
  have hload : Loads ld (ld.init files) u :=
    hbuilt.trans ((loadUndefinesLoop_loads ht).trans (checkUndefines_loads hu))
  have hinit : Summed ld (ld.init files) := ⟨rfl, rfl⟩
  have hlisted : ListedAdded u := hload.listedAdded fun a ha => by cases ha
  have hsummed : Summed ld run.resolved := by
    have hcoalesced := h.coalesced
    rw [← Except.ok.inj hresolved] at hcoalesced ⊢
    apply (hload.summed_off hoff hinit).resolveReferences.eraseDead
    intro a ha hdead
    obtain ⟨bound, history, heq, hgrows⟩ := resolveReferences_frame ld u
    apply hcoalesced a _ hdead
    have hall : (ld.resolveReferences u).fAllAtoms = u.fAllAtoms := by rw [heq]
    rw [hall] at ha
    obtain ⟨wasDead, wasListed, he⟩ := LinkerState.mem_added.mp (hlisted a ha)
    apply LinkerState.mem_added.mpr
    refine ⟨wasDead, wasListed, ?_⟩
    rw [heq]
    exact hgrows.subset he
  have hoptimized := run.optimize
  obtain ⟨v, hv, hoptimized⟩ := bind_eq_ok.mp hoptimized
  rw [if_pos hoff] at hoptimized
  obtain ⟨w, hw, hoptimized⟩ := bind_eq_ok.mp hoptimized
  obtain ⟨allAtoms, files', hloads, -, hsame⟩ := loadOptimized_loads hv
  have hreplaced : Summed ld { run.resolved with fAllAtoms := allAtoms, files := files' } :=
    hsummed.of_same (hsame h.optimizers) rfl rfl
  have hlast : Summed ld run.optimized := by
    rw [← Except.ok.inj hoptimized]
    have hafter : Loads ld { run.resolved with fAllAtoms := allAtoms, files := files' } w :=
      hloads.trans (checkUndefines_loads hw)
    exact (hafter.summed_off hoff hreplaced).resolveReferences
  exact run.finish_loads.summed_off hoff hlast

theorem CountsOn.summed {run : ld.LinkRun files}
    (hon : ld.fOptions.deadStrip ≠ .kDeadStripOff) (h : CountsOn run) : Summed ld run.final := by
  have hoptimized := run.optimize
  rw [optimize_on hon] at hoptimized
  obtain ⟨v, hv, hoptimized⟩ := bind_eq_ok.mp hoptimized
  obtain ⟨w, hw, hoptimized⟩ := bind_eq_ok.mp hoptimized
  obtain ⟨allAtoms, files', hloads, -⟩ := loadOptimized_loads hv
  obtain ⟨htotal, hzero⟩ := hloads.totals_on hon
  have hcleared : Tallied ld v.clearLive := by
    refine ⟨?_, ?_, fun a ha => by cases ha⟩
    · exact htotal.trans h.total
    · exact hzero.trans h.zeroFill
  have hrun : Run ld v.clearLive (ld.fixUpReferences w) :=
    (markRootsLive_run hw).trans (fixUpReferences_run ld w)
  have hresolved : run.resolved.history <+: v.history := hloads.run.history_grows
  have hlast : Summed ld run.optimized := by
    have hnodup := h.nodup
    have hlisted := h.listed
    rw [← Except.ok.inj hoptimized] at hnodup hlisted ⊢
    have hsince : since LinkerState.history run.resolved (ld.fixUpReferences w) =
        since LinkerState.history run.resolved v ++
          since LinkerState.history v (ld.fixUpReferences w) :=
      since_append hresolved hrun.history_grows
    apply (hrun.tallied hon _ hcleared).eraseNotLive hnodup
    intro e he
    apply hlisted
    change e ∈ since LinkerState.history run.resolved (ld.fixUpReferences w)
    rw [hsince]
    exact mem_append_right _ he
  exact run.finish_loads.summed (fun e he => Or.inr (h.added e he)) hlast

/-- The totals are those of the listed atoms, and `tweakLayout` decides by them. -/
structure TotalsRight (ld : Linker σ) (s : LinkerState σ) : Prop where
  total : s.fTotalSize = ld.outputSize s
  zeroFill : s.fTotalZeroFillSize = ld.outputZeroFill s
  tweakLayout : ld.tweakLayout s =
    if 0x7F000000 < ld.outputSize s then
      if 0x7F000000 < ld.outputSize s - ld.outputZeroFill s then
        .error (tooBig (ld.outputSize s - ld.outputZeroFill s))
      else .ok { s with
        fBiggerThanTwoGigOutput := true
        hugeZeroFills := s.fAllAtoms.filter ld.isHugeZeroFill }
    else .ok s

theorem totalsRight_of_summed (hs : Summed ld s) (hsmall : ld.outputSize s < 2 ^ 64) :
    TotalsRight ld s := by
  have hle := ld.outputZeroFill_le s
  have htotal : s.fTotalSize = ld.outputSize s := hs.total.trans (Nat.mod_eq_of_lt hsmall)
  have hzero : s.fTotalZeroFillSize = ld.outputZeroFill s :=
    hs.zeroFill.trans (Nat.mod_eq_of_lt (Nat.lt_of_le_of_lt hle hsmall))
  refine ⟨htotal, hzero, ?_⟩
  have hfilled : (ld.outputSize s + 2 ^ 64 - ld.outputZeroFill s) % 2 ^ 64 =
      ld.outputSize s - ld.outputZeroFill s := by
    rw [Nat.sub_add_comm hle, Nat.add_mod_right]
    exact Nat.mod_eq_of_lt (Nat.lt_of_le_of_lt (Nat.sub_le _ _) hsmall)
  unfold Linker.tweakLayout
  rw [htotal, hzero]
  rw [hfilled]

theorem tweakLayout_totals {files : σ} (run : ld.LinkRun files)
    (hoff : ld.fOptions.deadStrip = .kDeadStripOff → CountsOff run)
    (hon : ld.fOptions.deadStrip ≠ .kDeadStripOff → CountsOn run)
    (hsmall : ld.outputSize run.final < 2 ^ 64) : TotalsRight ld run.final := by
  apply totalsRight_of_summed _ hsmall
  by_cases h : ld.fOptions.deadStrip = .kDeadStripOff
  · exact (hoff h).summed h
  · exact (hon h).summed h

/-- `start` refers to `_w`, a weak definition of one gigabyte in each of the other atoms. -/
def gigabyteAtom (a : AtomPtr) : Atom :=
  if a = 1 then
    { getName := some "start"
      getScope := .scopeGlobal
      getDefinitionKind := .kRegularDefinition
      getReferences := [refersByName "_w"] }
  else
    { getName := some "_w"
      getScope := .scopeGlobal
      getDefinitionKind := .kWeakDefinition
      getSize := 0x40000000 }

def gigabyteLink (mode : DeadStripMode) (atoms : List AtomPtr) : Linker Unit :=
  smallLink mode { atom := gigabyteAtom } atoms fun _ supplied => (none, supplied)

/-- `_w` stays bound to the first definition, over a second load and a second dead strip. -/
theorem second_definition_stays_dead : ∃ run : (gigabyteLink .kDeadStripOn [1, 2, 3]).LinkRun (),
      run.final.bound ⟨1, 0, .target⟩ = some 2 ∧ 3 ∈ run.final.fDeadAtoms := by
  have hrun : ∃ run : (gigabyteLink .kDeadStripOn [1, 2, 3]).LinkRun (),
      run.resolved.bound ⟨1, 0, .target⟩ = some 2 ∧ 3 ∈ run.built.fDeadAtoms :=
    ⟨⟨_, _, _, _, rfl, rfl, rfl, rfl⟩, rfl, by decide⟩
  obtain ⟨run, hbound, hdead⟩ := hrun
  obtain ⟨-, hloaded, hoptimized, hfinished⟩ := LinkRun.keeps run
  have hlater := hoptimized.trans hfinished
  exact ⟨run, hlater.bound _ _ hbound, (hloaded.trans hlater).dead hdead⟩

theorem one_definition_counted : ∃ run : (gigabyteLink .kDeadStripOff [1, 2]).LinkRun (),
      TotalsRight (gigabyteLink .kDeadStripOff [1, 2]) run.final ∧
        run.final.fTotalSize = 0x40000000 := by
  have hrun : ∃ run : (gigabyteLink .kDeadStripOff [1, 2]).LinkRun (),
      CountsOff run ∧ (gigabyteLink .kDeadStripOff [1, 2]).outputSize run.final = 0x40000000 :=
    ⟨⟨_, _, _, _, rfl, rfl, rfl, rfl⟩, ⟨fun _ _ _ _ => rfl, by decide⟩, rfl⟩
  obtain ⟨run, hcounts, hsize⟩ := hrun
  have hright := tweakLayout_totals run (fun _ => hcounts) (fun hon => absurd rfl hon)
    (by rw [hsize]; decide)
  exact ⟨run, hright, hright.total.trans hsize⟩

theorem tweakLayout_throws {size : Nat} (htotal : s.fTotalSize = size)
    (hzero : s.fTotalZeroFillSize = 0) (hbig : 0x7F000000 < size) (hsmall : size < 2 ^ 64) :
    ld.tweakLayout s = .error (tooBig size) := by
  unfold tweakLayout
  rw [htotal, hzero, if_pos hbig]
  rw [Nat.sub_zero, Nat.add_mod_right, Nat.mod_eq_of_lt hsmall, if_pos hbig]

/-- A second definition that is coalesced away stays counted, and with dead stripping even
the only one is counted twice: both links throw, for an output of one gigabyte. -/
theorem gigabyte_throws : (∃ run : (gigabyteLink .kDeadStripOff [1, 2, 3]).LinkRun (),
      run.final.fAllAtoms = [1, 2] ∧ run.final.fTotalSize = 0x80000000 ∧
        (gigabyteLink .kDeadStripOff [1, 2, 3]).outputSize run.final = 0x40000000 ∧
        (gigabyteLink .kDeadStripOff [1, 2, 3]).tweakLayout run.final =
          .error (tooBig 0x80000000)) ∧
    ∃ run : (gigabyteLink .kDeadStripOn [1, 2]).LinkRun (),
      run.final.fAllAtoms = [1, 2] ∧ run.final.fTotalSize = 0x80000000 ∧
        (gigabyteLink .kDeadStripOn [1, 2]).outputSize run.final = 0x40000000 ∧
        (gigabyteLink .kDeadStripOn [1, 2]).tweakLayout run.final =
          .error (tooBig 0x80000000) := by
  have hoff : ∃ run : (gigabyteLink .kDeadStripOff [1, 2, 3]).LinkRun (),
      run.final.fAllAtoms = [1, 2] ∧ run.final.fTotalSize = 0x80000000 ∧
        run.final.fTotalZeroFillSize = 0 ∧
        (gigabyteLink .kDeadStripOff [1, 2, 3]).outputSize run.final = 0x40000000 :=
    ⟨⟨_, _, _, _, rfl, rfl, rfl, rfl⟩, rfl, by decide, rfl, rfl⟩
  have hon : ∃ run : (gigabyteLink .kDeadStripOn [1, 2]).LinkRun (),
      run.final.fAllAtoms = [1, 2] ∧ run.final.fTotalSize = 0x80000000 ∧
        run.final.fTotalZeroFillSize = 0 ∧
        (gigabyteLink .kDeadStripOn [1, 2]).outputSize run.final = 0x40000000 :=
    ⟨⟨_, _, _, _, rfl, rfl, rfl, rfl⟩, rfl, by decide, rfl, rfl⟩
  constructor
  · obtain ⟨run, hall, htotal, hzero, hsize⟩ := hoff
    exact ⟨run, hall, htotal, hsize, tweakLayout_throws htotal hzero (by decide) (by decide)⟩
  · obtain ⟨run, hall, htotal, hzero, hsize⟩ := hon
    exact ⟨run, hall, htotal, hsize, tweakLayout_throws htotal hzero (by decide) (by decide)⟩

end Linker
end Toolwhip.Ld64
