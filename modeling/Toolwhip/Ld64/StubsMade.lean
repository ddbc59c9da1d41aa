import Mathlib.Data.List.Dedup
import Toolwhip.Lib.Numbering
import Toolwhip.Ld64.StubsWalk

/-! # The atoms that are made

Each is in one of the vectors once, and what is in the vector of the stubs follows from the references
that were visited. -/

namespace Toolwhip.Ld64.Stubs
open Function Lib.FreshNumbers Lib.ThrowingFold Reloc.Fixups List
set_option autoImplicit false

section Made
variable {A : Architecture} {w : StubWriter} {objs : Objects A}
variable {st : Synthesis A} {parts : List (SynthesizedKind × String)} {stub : Synthesized}

def allSynthesized (st : Synthesis A) : List Synthesized :=
  st.fAllSynthesizedStubs ++ st.fAllSynthesizedStubHelpers ++ st.fAllSynthesizedLazyPointers ++
    st.fAllSynthesizedLazyDylibPointers ++ st.fAllSynthesizedNonLazyPointers

theorem allSynthesized_make (st : Synthesis A) (kind : SynthesizedKind) (name : String) :
    (allSynthesized (st.make kind name)).Perm (⟨st.made, kind, name⟩ :: allSynthesized st) := by
  rw [perm_iff_count]
  intro atom
  unfold allSynthesized Synthesis.make
  rcases kind with _ | _ | fForLazyDylib | _
  case lazyPointer =>
    cases fForLazyDylib <;> simp only [count_append, count_cons, count_nil] <;> omega
  all_goals
    simp only [count_append, count_cons, count_nil]
    omega

theorem make_made (st : Synthesis A) (kind : SynthesizedKind) (name : String) :
    (st.make kind name).made = st.made + 1 := by
  cases kind with
  | lazyPointer fForLazyDylib => cases fForLazyDylib <;> rfl
  | _ => rfl

def WellNumbered (st : Synthesis A) : Prop :=
  Numbered Synthesized.number st.made (allSynthesized st)

theorem WellNumbered.make (h : WellNumbered st) (kind : SynthesizedKind)
    (name : String) : WellNumbered (st.make kind name) := by
  unfold WellNumbered
  rw [make_made]
  exact (Numbered.add h rfl).perm (allSynthesized_make st kind name)

theorem makeAll_induction {P : Synthesis A → Prop}
    (hparts : ∀ part ∈ parts, IsStubPart A part)
    (hstep : ∀ st part, IsStubPart A part → P st → P (st.make part.1 part.2)) (hst : P st) :
    P (st.makeAll parts) := by
  induction parts generalizing st with
  | nil => exact hst
  | cons part parts ih =>
    rw [forall_mem_cons] at hparts
    exact ih hparts.2 (hstep st part hparts.1 hst)

/-! ## The invariant of the walk -/

def stubKind (objs : Objects A) (target : AtomPtr) : SynthesizedKind :=
  .stub (some target) (forLazyDylib objs target)

def stubTargets (w : StubWriter) (objs : Objects A) (visited : List (AtomPtr × Reference A AtomPtr)) :
    List AtomPtr :=
  (visited.filter fun seen => isBound seen.2 && needsStub w objs seen.1 seen.2).map fun seen =>
    seen.2.getTarget

/-- One stub for each of the targets. -/
structure StubsOf (objs : Objects A) (targets : List AtomPtr) (st : Synthesis A) : Prop where
  nodup : targets.Nodup
  kinds : st.fAllSynthesizedStubs.map Synthesized.kind = targets.map (stubKind objs)
  mapped : ∀ target, target ∈ targets ↔ st.fStubsMap target ≠ none

structure Made (w : StubWriter) (objs : Objects A) (visited : List (AtomPtr × Reference A AtomPtr))
    (st : Synthesis A) : Prop where
  numbered : WellNumbered st
  stubs : ∃ targets, StubsOf objs targets st ∧
    ∀ target, target ∈ targets ↔ target ∈ stubTargets w objs visited
  helpers : st.fAllSynthesizedStubHelpers ≠ [] → A = .x86_64 ∧ st.fAllSynthesizedStubs ≠ []
  helperKinds : ∀ helper ∈ st.fAllSynthesizedStubHelpers, helper.kind = .stubHelper
  stubsMap : ∀ target stub, st.fStubsMap target = some stub → stub ∈ st.fAllSynthesizedStubs
  gotMap : ∀ target nlp, st.fGOTMap target = some nlp → nlp ∈ st.fAllSynthesizedNonLazyPointers
  referred : ∀ seen ∈ st.references, ∀ atom, seen.2.getTarget = .synthesized atom →
    atom ∈ st.fAllSynthesizedStubs ∨ atom ∈ st.fAllSynthesizedNonLazyPointers

theorem made_start : Made w objs [] {} where
  numbered := numbered_nil _
  stubs := ⟨[], ⟨nodup_nil, rfl, fun _ => ⟨fun h => absurd h not_mem_nil,
    fun h => absurd rfl h⟩⟩, fun _ => Iff.rfl⟩
  helpers h := absurd rfl h
  helperKinds _ h := absurd h not_mem_nil
  stubsMap _ _ h := by cases h
  gotMap _ _ h := by cases h
  referred _ h := absurd h not_mem_nil

theorem stubTargets_concat (visited : List (AtomPtr × Reference A AtomPtr)) (atom : AtomPtr)
    (ref : Reference A AtomPtr) (target : AtomPtr) :
    target ∈ stubTargets w objs (visited ++ [(atom, ref)]) ↔
      target ∈ stubTargets w objs visited ∨
        (isBound ref = true ∧ needsStub w objs atom ref = true) ∧ target = ref.getTarget := by
  unfold stubTargets
  rw [filter_append, map_append, mem_append]
  apply or_congr_right
  rw [filter_cons, filter_nil]
  rw [← Bool.and_eq_true]
  cases isBound ref && needsStub w objs atom ref <;> simp

theorem Made.see {visited : List (AtomPtr × Reference A AtomPtr)}
    (h : Made w objs visited st) {atom : AtomPtr} {ref : Reference A AtomPtr}
    (hneeds : isBound ref = true → needsStub w objs atom ref = true →
      ref.getTarget ∈ stubTargets w objs visited) {new : Reference A AtomRef}
    (hnew : ∀ made, new.getTarget = .synthesized made →
      made ∈ st.fAllSynthesizedStubs ∨ made ∈ st.fAllSynthesizedNonLazyPointers) :
    Made w objs (visited ++ [(atom, ref)]) (st.see atom new) where
  numbered := h.numbered
  stubs := by
    obtain ⟨targets, hstubs, htargets⟩ := h.stubs
    refine ⟨targets, ⟨hstubs.nodup, hstubs.kinds, hstubs.mapped⟩, ?_⟩
    intro target
    rw [htargets, stubTargets_concat]
    constructor
    · exact Or.inl
    · rintro (hold | ⟨⟨hbound, hneeded⟩, rfl⟩)
      · exact hold
      · exact hneeds hbound hneeded
  helpers := h.helpers
  helperKinds := h.helperKinds
  stubsMap := h.stubsMap
  gotMap := h.gotMap
  referred := by
    intro seen hseen made hmade
    rcases List.mem_append.mp hseen with hold | hlast
    · exact h.referred seen hold made hmade
    rw [List.mem_singleton.mp hlast] at hmade
    exact hnew made hmade

/-- A stub and what comes with it. -/
structure StubAdded (st : Synthesis A) (stub : Synthesized) (st' : Synthesis A) : Prop where
  numbered : WellNumbered st'
  stubs : st'.fAllSynthesizedStubs = st.fAllSynthesizedStubs ++ [stub]
  nonLazyPointers : st'.fAllSynthesizedNonLazyPointers = st.fAllSynthesizedNonLazyPointers
  gotMap : st'.fGOTMap = st.fGOTMap
  references : st'.references = st.references
  helpers : st'.fAllSynthesizedStubHelpers ≠ [] → st.fAllSynthesizedStubHelpers ≠ [] ∨ A = .x86_64
  helperKinds : ∀ helper ∈ st'.fAllSynthesizedStubHelpers,
    helper ∈ st.fAllSynthesizedStubHelpers ∨ helper.kind = .stubHelper

theorem StubAdded.part {st st' : Synthesis A} (h : StubAdded st stub st')
    {part : SynthesizedKind × String} (hpart : IsStubPart A part) :
    StubAdded st stub (st'.make part.1 part.2) := by
  obtain ⟨kind, name⟩ := part
  have hnumbered := h.numbered.make kind name
  rcases hpart with ⟨forLazyDylib, hkind⟩ | ⟨harch, hkind⟩
  · subst hkind
    cases forLazyDylib <;>
      exact ⟨hnumbered, h.stubs, h.nonLazyPointers, h.gotMap, h.references, h.helpers,
        h.helperKinds⟩
  subst hkind
  refine ⟨hnumbered, h.stubs, h.nonLazyPointers, h.gotMap, h.references, fun _ => Or.inr harch, ?_⟩
  intro helper hhelper
  rcases List.mem_append.mp hhelper with hold | hlast
  · exact h.helperKinds helper hold
  rw [List.mem_singleton.mp hlast]
  exact Or.inr rfl

theorem stubAdded_makeAll (h : WellNumbered st) {target : Option AtomPtr}
    {forLazyDylib : Bool} {name : String} (hparts : ∀ part ∈ parts, IsStubPart A part) :
    StubAdded st ⟨st.made, .stub target forLazyDylib, name⟩
      ((st.make (.stub target forLazyDylib) name).makeAll parts) := by
  apply makeAll_induction hparts
  · intro st' part hpart hst'
    exact hst'.part hpart
  · exact ⟨h.make _ _, rfl, rfl, rfl, rfl, Or.inl, fun _ => Or.inl⟩

section
variable {visited : List (AtomPtr × Reference A AtomPtr)}
variable {ref : Reference A AtomPtr} {st st' : Synthesis A} {atom : AtomPtr}

theorem Made.addStub {st added : Synthesis A} (h : Made w objs visited st)
    (hbound : isBound ref = true) (hneeds : needsStub w objs atom ref = true)
    (hmap : st.fStubsMap ref.getTarget = none) (hadded : StubAdded st (newStub objs st ref) added) :
    Made w objs (visited ++ [(atom, ref)]) (Synthesis.see
      { added with fStubsMap := update st.fStubsMap ref.getTarget (some (newStub objs st ref)) }
      atom (ref.setTarget (.synthesized (newStub objs st ref)) 0)) := by
  obtain ⟨targets, hstubs, htargets⟩ := h.stubs
  have hmem : ∀ stub ∈ st.fAllSynthesizedStubs, stub ∈ added.fAllSynthesizedStubs := by
    intro stub hstub
    rw [hadded.stubs]
    exact mem_append_left _ hstub
  have hlast : newStub objs st ref ∈ added.fAllSynthesizedStubs := by
    rw [hadded.stubs]
    exact mem_append_right _ mem_cons_self
  have hnew : ref.getTarget ∉ targets := by
    rw [hstubs.mapped, hmap]
    exact fun h => h rfl
  constructor
  · exact hadded.numbered
  · refine ⟨targets ++ [ref.getTarget], ⟨?_, ?_, ?_⟩, ?_⟩
    · rw [nodup_append]
      refine ⟨hstubs.nodup, nodup_singleton _, ?_⟩
      intro a ha b hb hab
      rw [List.mem_singleton.mp hb] at hab
      exact hnew (hab ▸ ha)
    · change added.fAllSynthesizedStubs.map _ = _
      rw [hadded.stubs, map_append, map_append, hstubs.kinds]
      rfl
    · intro target
      change _ ↔ update st.fStubsMap _ _ target ≠ none
      rw [mem_append, mem_singleton, hstubs.mapped]
      by_cases htarget : target = ref.getTarget
      · rw [htarget, update_self]
        simp
      · rw [update_of_ne htarget]
        simp only [htarget, or_false]
    · intro target
      rw [mem_append, mem_singleton, htargets, stubTargets_concat]
      simp only [hbound, hneeds, and_self, true_and]
  · intro hhelpers
    refine ⟨?_, ne_nil_of_mem hlast⟩
    rcases hadded.helpers hhelpers with hold | harch
    · exact (h.helpers hold).1
    · exact harch
  · intro helper hhelper
    exact (hadded.helperKinds helper hhelper).elim (h.helperKinds helper) id
  · intro target stub hstub
    change update st.fStubsMap _ _ target = some stub at hstub
    by_cases htarget : target = ref.getTarget
    · rw [htarget, update_self] at hstub
      rw [← Option.some.inj hstub]
      exact hlast
    · rw [update_of_ne htarget] at hstub
      exact hmem stub (h.stubsMap target stub hstub)
  · intro target nlp hnlp
    rw [hadded.nonLazyPointers]
    exact h.gotMap target nlp (hadded.gotMap ▸ hnlp)
  · intro seen hseen made hmade
    rw [hadded.nonLazyPointers]
    rw [hadded.references] at hseen
    rcases List.mem_append.mp hseen with hold | hlast'
    · exact (h.referred seen hold made hmade).imp_left (hmem made)
    rw [List.mem_singleton.mp hlast'] at hmade
    rw [← AtomRef.synthesized.inj hmade]
    exact Or.inl hlast

theorem Made.addPointer {st : Synthesis A} (h : Made w objs visited st) : Made w objs visited
      { st.make (newPointer objs st ref).kind (newPointer objs st ref).getName with
        fGOTMap := update st.fGOTMap ref.getTarget (some (newPointer objs st ref)) } where
  numbered := h.numbered.make _ _
  stubs := by
    obtain ⟨targets, hstubs, htargets⟩ := h.stubs
    exact ⟨targets, ⟨hstubs.nodup, hstubs.kinds, hstubs.mapped⟩, htargets⟩
  helpers := h.helpers
  helperKinds := h.helperKinds
  stubsMap := h.stubsMap
  gotMap := by
    intro target nlp hnlp
    change update st.fGOTMap _ _ target = some nlp at hnlp
    by_cases htarget : target = ref.getTarget
    · rw [htarget, update_self] at hnlp
      rw [← Option.some.inj hnlp]
      exact mem_append_right _ mem_cons_self
    · rw [update_of_ne htarget] at hnlp
      exact mem_append_left _ (h.gotMap target nlp hnlp)
  referred := by
    intro seen hseen made hmade
    exact (h.referred seen hseen made hmade).imp_right (mem_append_left _)

theorem retarget_made (h : Made w objs visited st)
    (hbound : isBound ref = true) (hst' : Retargeted w objs st atom ref st') :
    Made w objs (visited ++ [(atom, ref)]) st' := by
  have hno : needsStub w objs atom ref = false → isBound ref = true →
      needsStub w objs atom ref = true → ref.getTarget ∈ stubTargets w objs visited := by
    intro hneeds _ hneeds'
    rw [hneeds] at hneeds'
    cases hneeds'
  cases hst' with
  | stub stub hneeds hmap =>
    apply h.see
    · intro _ _
      obtain ⟨targets, hstubs, htargets⟩ := h.stubs
      rw [← htargets, hstubs.mapped, hmap]
      exact Option.some_ne_none stub
    · intro made hmade
      rw [← AtomRef.synthesized.inj hmade]
      exact Or.inl (h.stubsMap _ stub hmap)
  | newStub parts hneeds hmap hparts =>
    exact h.addStub hbound hneeds hmap (stubAdded_makeAll h.numbered hparts)
  | pointer nlp hneeds hmap =>
    apply h.see (hno hneeds)
    intro made hmade
    rw [← AtomRef.synthesized.inj hmade]
    exact Or.inr (h.gotMap _ nlp hmap)
  | newPointer hneeds hmap =>
    apply h.addPointer.see (hno hneeds)
    intro made hmade
    rw [← AtomRef.synthesized.inj hmade]
    exact Or.inr (mem_append_right _ mem_cons_self)
  | kept hneeds =>
    apply h.see (hno hneeds)
    intro made hmade
    cases hmade

theorem visit_made (h : Made w objs visited st) {seen : AtomPtr × Reference A AtomPtr}
    (hvisit : visit w objs st seen = .ok st') : Made w objs (visited ++ [seen]) st' := by
  obtain ⟨atom, ref⟩ := seen
  unfold visit at hvisit
  cases hbound : isBound ref with
  | false =>
    rw [hbound, if_neg Bool.false_ne_true] at hvisit
    obtain rfl := Except.ok.inj hvisit
    apply h.see
    · intro htrue
      rw [hbound] at htrue
      cases htrue
    · intro made hmade
      cases hmade
  | true =>
    rw [hbound, if_pos rfl] at hvisit
    obtain ⟨noted, hnoted, hretarget⟩ := bind_eq_ok.mp hvisit
    refine retarget_made ?_ hbound (retarget_ok hretarget)
    unfold noteImport at hnoted
    split at hnoted
    · obtain ⟨value, -, hset⟩ := bind_eq_ok.mp hnoted
      obtain rfl := Except.ok.inj hset
      cases value <;>
        exact ⟨h.numbered, h.stubs.imp fun _ ht => ⟨⟨ht.1.nodup, ht.1.kinds, ht.1.mapped⟩, ht.2⟩,
          h.helpers, h.helperKinds, h.stubsMap, h.gotMap, h.referred⟩
    · obtain rfl := Except.ok.inj hnoted
      exact h

end

theorem walk_made {fAllAtoms : List AtomPtr}
    (h : walk w objs fAllAtoms = .ok st) : Made w objs (allReferences objs fAllAtoms) st :=
  foldlM_progress (P := fun visited st => Made w objs visited st)
    (fun _ _ _ _ _ _ hu hv => visit_made hu hv) made_start h

variable {count made : Nat} {stubs : List Synthesized}

theorem subset_padded (h : stub ∈ stubs) : stub ∈ padded count made stubs := by
  induction stubs generalizing count made with
  | nil => cases h
  | cons first rest ih =>
    have hmem : ∀ {count made}, stub ∈ first :: padded count made rest := by
      intro count made
      rcases List.mem_cons.mp h with rfl | h
      · exact mem_cons_self
      · exact mem_cons_of_mem _ (ih h)
    rw [padded]
    split
    · exact mem_cons_of_mem _ hmem
    · exact hmem

theorem not_crossesLine_of_lt (h : count < 12) : crossesLine count = false := by
  unfold crossesLine
  simp only [Bool.or_eq_false_iff, beq_eq_false_iff_ne]
  omega

theorem padded_of_le (h : count + stubs.length ≤ 12) : padded count made stubs = stubs := by
  induction stubs generalizing count with
  | nil => rfl
  | cons first rest ih =>
    rw [length_cons] at h
    rw [padded, not_crossesLine_of_lt (by omega), if_neg Bool.false_ne_true, ih (by omega)]

theorem dummy_mem_padded (hcount : count ≤ 12)
    (h : 12 < count + stubs.length) : ∃ number, dummyStub number ∈ padded count made stubs := by
  induction stubs generalizing count with
  | nil =>
    rw [length_nil] at h
    omega
  | cons first rest ih =>
    rw [length_cons] at h
    rw [padded]
    rcases Nat.lt_or_eq_of_le hcount with hlt | rfl
    · obtain ⟨number, hnumber⟩ := @ih (count + 1) (by omega) (by omega)
      rw [not_crossesLine_of_lt hlt, if_neg Bool.false_ne_true]
      exact ⟨number, mem_cons_of_mem _ hnumber⟩
    · exact ⟨made, mem_cons_self⟩

theorem foldl_addBetterStub_numbered {others : List Synthesized} (better : List Synthesized × Nat)
    (h : Numbered Synthesized.number better.2 (better.1 ++ (stubs ++ others))) :
    Numbered Synthesized.number (stubs.foldl addBetterStub better).2
      ((stubs.foldl addBetterStub better).1 ++ others) := by
  induction stubs generalizing better with
  | nil => exact h
  | cons stub rest ih =>
    apply ih
    rw [addBetterStub_eq]
    split
    · apply (Numbered.add (x := dummyStub better.2) h rfl).perm
      rw [append_assoc]
      exact perm_middle
    · rw [append_assoc]
      exact h

/-! ## Sorted -/

/-- The members behind the sorts and the dummies. -/
structure SortedFrom (w : StubWriter) (st st' : Synthesis A) : Prop where
  numbered : WellNumbered st'
  kept : ∀ stub ∈ st.fAllSynthesizedStubs, stub ∈ st'.fAllSynthesizedStubs
  stubs : ∀ stub ∈ st'.fAllSynthesizedStubs, stub ∈ st.fAllSynthesizedStubs ∨
    isFastStub w A false = true ∧ 12 < st.fAllSynthesizedStubs.length ∧
      ∃ number, stub = dummyStub number
  dummy : isFastStub w A false = true → 12 < st.fAllSynthesizedStubs.length →
    ∃ number, dummyStub number ∈ st'.fAllSynthesizedStubs
  helpers : st'.fAllSynthesizedStubHelpers = st.fAllSynthesizedStubHelpers
  nonLazyPointers : st'.fAllSynthesizedNonLazyPointers = st.fAllSynthesizedNonLazyPointers
  references : st'.references = st.references

theorem isFastStub_false (w : StubWriter) (A : Architecture) :
    isFastStub w A false = true ↔ A = .x86 ∧ w.slowx86Stubs = false := by
  unfold isFastStub
  simp

theorem allSynthesized_perm {st st' : Synthesis A}
    (hstubs : st'.fAllSynthesizedStubs.Perm st.fAllSynthesizedStubs)
    (hlazy : st'.fAllSynthesizedLazyPointers.Perm st.fAllSynthesizedLazyPointers)
    (hlazyDylib : st'.fAllSynthesizedLazyDylibPointers.Perm st.fAllSynthesizedLazyDylibPointers)
    (hhelpers : st'.fAllSynthesizedStubHelpers = st.fAllSynthesizedStubHelpers)
    (hnonLazy : st'.fAllSynthesizedNonLazyPointers = st.fAllSynthesizedNonLazyPointers) :
    (allSynthesized st').Perm (allSynthesized st) := by
  unfold allSynthesized
  rw [hhelpers, hnonLazy]
  exact (((hstubs.append_right _).append hlazy).append hlazyDylib).append_right _

theorem insertDummyStubs_sorted (h : WellNumbered st)
    (hslow : w.slowx86Stubs = false) : SortedFrom w st (insertDummyStubs st) := by
  cases A with
  | x86 =>
    have hfast : isFastStub w .x86 false = true := (isFastStub_false w .x86).mpr ⟨rfl, hslow⟩
    constructor
    · unfold WellNumbered allSynthesized at h ⊢
      simp only [append_assoc] at h ⊢
      exact foldl_addBetterStub_numbered ([], st.made) h
    · intro stub hstub
      rw [betterStubs_eq]
      exact subset_padded hstub
    · intro stub hstub
      rw [betterStubs_eq] at hstub
      rcases Nat.lt_or_ge 12 st.fAllSynthesizedStubs.length with hmany | hfew
      · exact (mem_padded hstub).imp_right fun hdummy => ⟨hfast, hmany, hdummy⟩
      rw [padded_of_le (by omega)] at hstub
      exact Or.inl hstub
    · intro _ hmany
      rw [betterStubs_eq]
      exact dummy_mem_padded (Nat.zero_le 12) (by omega)
    · rfl
    · rfl
    · rfl
  | _ =>
    refine ⟨h, fun _ => id, fun _ => Or.inl, ?_, rfl, rfl, rfl⟩
    intro hfast _
    cases ((isFastStub_false w _).mp hfast).1

theorem sortSynthesized_sorted (h : WellNumbered st) : SortedFrom w st (sortSynthesized w st) := by
  have hperm := fun atoms => (w.sort_spec atoms).perm
  let sorted : Synthesis A := { st with fAllSynthesizedStubs := w.sort st.fAllSynthesizedStubs }
  have hlength : sorted.fAllSynthesizedStubs.length = st.fAllSynthesizedStubs.length :=
    (hperm st.fAllSynthesizedStubs).length_eq
  have hmem : ∀ stub, stub ∈ sorted.fAllSynthesizedStubs ↔ stub ∈ st.fAllSynthesizedStubs :=
    fun stub => (hperm st.fAllSynthesizedStubs).mem_iff
  have hsorted : WellNumbered sorted :=
    Numbered.perm h (allSynthesized_perm (hperm _) (List.Perm.refl _) (List.Perm.refl _) rfl rfl)
  have hdummies : SortedFrom w sorted (if w.slowx86Stubs then sorted else insertDummyStubs sorted) := by
    cases hslow : w.slowx86Stubs with
    | false =>
      exact insertDummyStubs_sorted hsorted hslow
    | true =>
      refine ⟨hsorted, fun _ => id, fun _ => Or.inl, ?_, rfl, rfl, rfl⟩
      intro hfast _
      rw [((isFastStub_false w A).mp hfast).2] at hslow
      cases hslow
  refine ⟨?_, ?_, ?_, ?_, hdummies.helpers, hdummies.nonLazyPointers, hdummies.references⟩
  · apply Numbered.perm hdummies.numbered
    exact allSynthesized_perm (List.Perm.refl _) (hperm _) (hperm _) rfl rfl
  · intro stub hstub
    exact hdummies.kept stub ((hmem stub).mpr hstub)
  · intro stub hstub
    rw [← hmem, ← hlength]
    exact hdummies.stubs stub hstub
  · rw [← hlength]
    exact hdummies.dummy

section Needs
variable (w objs) (targets : List AtomPtr)

/-- One of the stubs for these targets is in `__TEXT`. -/
def NeedsTextStub : Prop :=
  ∃ target ∈ targets, isFastStub w A (forLazyDylib objs target) = false

def NeedsImportStub : Prop :=
  (∃ target ∈ targets, isFastStub w A (forLazyDylib objs target) = true) ∨
    isFastStub w A false = true ∧ 12 < targets.dedup.length

end Needs

theorem StubsOf.exists_iff {targets : List AtomPtr} (h : StubsOf objs targets st) (text : Bool) :
    (∃ stub ∈ st.fAllSynthesizedStubs, isTextStub w A stub = text) ↔
      ∃ target ∈ targets, isFastStub w A (forLazyDylib objs target) = !text := by
  have hmember : ∀ kind, kind ∈ st.fAllSynthesizedStubs.map Synthesized.kind ↔
      kind ∈ targets.map (stubKind objs) := by
    intro kind
    rw [h.kinds]
  constructor
  · rintro ⟨stub, hstub, htext⟩
    obtain ⟨target, htarget, hkind⟩ :=
      List.mem_map.mp ((hmember stub.kind).mp (mem_map_of_mem hstub))
    rw [isTextStub_kind hkind.symm] at htext
    exact ⟨target, htarget, by rw [← htext, Bool.not_not]⟩
  · rintro ⟨target, htarget, hfast⟩
    obtain ⟨stub, hstub, hkind⟩ :=
      List.mem_map.mp ((hmember (stubKind objs target)).mpr (mem_map_of_mem htarget))
    refine ⟨stub, hstub, ?_⟩
    rw [isTextStub_kind hkind, hfast, Bool.not_not]

theorem dummy_isTextStub (w : StubWriter) (A : Architecture) (number : Nat) :
    isTextStub w A (dummyStub number) = !isFastStub w A false := isTextStub_kind rfl

section Lists
variable {visited : List (AtomPtr × Reference A AtomPtr)} {st st' : Synthesis A}
  (hmade : Made w objs visited st) (hsorted : SortedFrom w st st')
include hmade hsorted

theorem stubs_ne_nil_of_helpers (h : st'.fAllSynthesizedStubHelpers ≠ []) :
    A = .x86_64 ∧ st'.fAllSynthesizedStubs ≠ [] := by
  rw [hsorted.helpers] at h
  obtain ⟨harch, hstubs⟩ := hmade.helpers h
  obtain ⟨stub, hstub⟩ := exists_mem_of_ne_nil _ hstubs
  exact ⟨harch, ne_nil_of_mem (hsorted.kept stub hstub)⟩

theorem exists_text_iff : (∃ stub ∈ st'.fAllSynthesizedStubs, isTextStub w A stub = true) ↔
      NeedsTextStub w objs (stubTargets w objs visited) := by
  obtain ⟨targets, hstubs, htargets⟩ := hmade.stubs
  have hexists := hstubs.exists_iff (w := w) true
  simp only [htargets] at hexists
  refine Iff.trans ?_ hexists
  constructor
  · rintro ⟨stub, hstub, htext⟩
    rcases hsorted.stubs stub hstub with hold | ⟨hfast, -, number, rfl⟩
    · exact ⟨stub, hold, htext⟩
    rw [dummy_isTextStub, hfast] at htext
    cases htext
  · rintro ⟨stub, hstub, htext⟩
    exact ⟨stub, hsorted.kept stub hstub, htext⟩

theorem textStubs_ne_nil : textStubs w st' ≠ [] ↔ NeedsTextStub w objs (stubTargets w objs visited) := by
  rw [← exists_text_iff hmade hsorted]
  unfold textStubs
  constructor
  · intro h
    by_cases hhelpers : st'.fAllSynthesizedStubHelpers = []
    · rw [hhelpers, append_nil] at h
      obtain ⟨stub, hstub⟩ := exists_mem_of_ne_nil _ h
      exact ⟨stub, List.mem_filter.mp hstub⟩
    obtain ⟨harch, hstubs⟩ := stubs_ne_nil_of_helpers hmade hsorted hhelpers
    obtain ⟨stub, hstub⟩ := exists_mem_of_ne_nil _ hstubs
    refine ⟨stub, hstub, ?_⟩
    have hslow : ∀ forLazyDylib, isFastStub w A forLazyDylib = false := by
      intro forLazyDylib
      rw [harch]
      rfl
    rcases hsorted.stubs stub hstub with hold | ⟨hfast, -, -⟩
    · obtain ⟨targets, hof, -⟩ := hmade.stubs
      have hmem := mem_map_of_mem (f := Synthesized.kind) hold
      rw [hof.kinds] at hmem
      obtain ⟨target, -, hkind⟩ := List.mem_map.mp hmem
      rw [isTextStub_kind hkind.symm, hslow]
      rfl
    · rw [hslow] at hfast
      cases hfast
  · rintro ⟨stub, hstub, htext⟩
    exact ne_nil_of_mem (mem_append_left _ (List.mem_filter.mpr ⟨hstub, htext⟩))

theorem importStubs_ne_nil :
    importStubs w st' ≠ [] ↔ NeedsImportStub w objs (stubTargets w objs visited) := by
  obtain ⟨targets, hstubs, htargets⟩ := hmade.stubs
  have hexists := hstubs.exists_iff (w := w) false
  simp only [htargets, Bool.not_false] at hexists
  have hlength : st.fAllSynthesizedStubs.length =
      (stubTargets w objs visited).dedup.length := by
    have hkinds := congrArg List.length hstubs.kinds
    rw [length_map, length_map] at hkinds
    rw [hkinds]
    apply List.Perm.length_eq
    rw [perm_ext_iff_of_nodup hstubs.nodup (nodup_dedup _)]
    intro target
    rw [htargets, mem_dedup]
  unfold NeedsImportStub
  rw [← hexists, ← hlength]
  constructor
  · intro h
    obtain ⟨stub, hstub⟩ := exists_mem_of_ne_nil _ h
    obtain ⟨hstub, htext⟩ := List.mem_filter.mp hstub
    rw [Bool.not_eq_true'] at htext
    rcases hsorted.stubs stub hstub with hold | ⟨hfast, hmany, -⟩
    · exact Or.inl ⟨stub, hold, htext⟩
    · exact Or.inr ⟨hfast, hmany⟩
  · have hmem : ∀ stub ∈ st'.fAllSynthesizedStubs, isTextStub w A stub = false →
        st'.fAllSynthesizedStubs.filter (fun stub => !isTextStub w A stub) ≠ [] := by
      intro stub hstub htext
      exact ne_nil_of_mem (List.mem_filter.mpr ⟨hstub, by rw [htext]; rfl⟩)
    rintro (⟨stub, hstub, htext⟩ | ⟨hfast, hmany⟩)
    · exact hmem stub (hsorted.kept stub hstub) htext
    · obtain ⟨number, hnumber⟩ := hsorted.dummy hfast hmany
      exact hmem _ hnumber (by rw [dummy_isTextStub, hfast]; rfl)

end Lists

end Made
end Toolwhip.Ld64.Stubs
