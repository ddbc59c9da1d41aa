import Toolwhip.Ld64.StubsWalk

/-! # The readers with weak and non-weak imports

`fWeakImportMap` says of every imported atom whether it is weak, and the two sets of readers are filled
along with it. -/

namespace Toolwhip.Ld64.Stubs
open Function Lib.ThrowingFold Reloc.Fixups List
set_option autoImplicit false

section Imports
variable {A : Architecture}

/-- What a set says at the end is what the map says. -/
structure ReadersRight (objs : Objects A) (st : Synthesis A) : Prop where
  nonWeak : ∀ reader, reader ∈ st.fDylibReadersWithNonWeakImports ↔
    ∃ atom, (objs.atom atom).getFile = reader ∧ st.fWeakImportMap atom = some false
  weak : ∀ reader, reader ∈ st.fDylibReadersWithWeakImports ↔
    ∃ atom, (objs.atom atom).getFile = reader ∧ st.fWeakImportMap atom = some true

/-- What a mismatch ends with; with `kWeakReferenceMismatchError` there is none. -/
def winner : WeakReferenceMismatchTreatment → Bool
  | .kWeakReferenceMismatchWeak => true
  | .kWeakReferenceMismatchNonWeak | .kWeakReferenceMismatchError => false

def importOf (objs : Objects A) (ref : Reference A AtomPtr) : Option (AtomPtr × Bool) :=
  if isBound ref && isImport objs ref then some (ref.getTarget, weakImport objs ref) else none

def importsSeen (w : StubWriter) (objs : Objects A) (fAllAtoms : List AtomPtr) :
    List (AtomPtr × Bool) :=
  if w.outputKind = .kObjectFile then []
  else (allReferences objs fAllAtoms).filterMap fun seen => importOf objs seen.2

section Step
variable (objs : Objects A) (sticky : Bool)

def Synthesis.readersWith (st : Synthesis A) (weak : Bool) : List ReaderPtr :=
  if weak then st.fDylibReadersWithWeakImports else st.fDylibReadersWithNonWeakImports

theorem mem_readersWith_setWeakness (st : Synthesis A) (target : AtomPtr) (value weak : Bool)
    (reader : ReaderPtr) : reader ∈ (st.setWeakness objs target value).readersWith weak ↔
      (value = weak ∧ (objs.atom target).getFile = reader) ∨ reader ∈ st.readersWith weak := by
  cases value <;> cases weak <;>
    simp [Synthesis.readersWith, Synthesis.setWeakness, mem_insert_iff, eq_comm]

theorem setWeakness_map (st : Synthesis A) (target : AtomPtr) (value : Bool) :
    (st.setWeakness objs target value).fWeakImportMap =
      update st.fWeakImportMap target (some value) := by
  cases value <;> rfl

/-- The state after some references to imported atoms. The value `sticky` of an atom stays. -/
structure Recorded (seen : List (AtomPtr × Bool)) (st : Synthesis A) : Prop where
  known : ∀ atom, st.fWeakImportMap atom = none ↔ seen.lookup atom = none
  stuck : ∀ atom, st.fWeakImportMap atom = some sticky ↔ (atom, sticky) ∈ seen
  stuckReaders : ∀ reader, reader ∈ st.readersWith sticky ↔
    ∃ atom, (objs.atom atom).getFile = reader ∧ (atom, sticky) ∈ seen
  otherReaders : ∀ reader, reader ∈ st.readersWith (!sticky) ↔
    ∃ atom, (objs.atom atom).getFile = reader ∧ seen.lookup atom = some (!sticky)

variable {objs sticky}

theorem lookup_concat (seen : List (AtomPtr × Bool)) (target atom : AtomPtr) (weak : Bool) :
    (seen ++ [(target, weak)]).lookup atom =
      (seen.lookup atom).or (if atom = target then some weak else none) := by
  rw [lookup_append]
  by_cases h : atom = target
  · rw [if_pos h, h, lookup_cons_self]
  rw [if_neg h, lookup_cons, beq_false_of_ne h]
  rfl

theorem mem_of_lookup {seen : List (AtomPtr × Bool)} {atom : AtomPtr} {weak : Bool}
    (h : seen.lookup atom = some weak) : (atom, weak) ∈ seen := by
  obtain ⟨before, after, rfl, -⟩ := List.lookup_eq_some_iff.mp h
  exact mem_append_cons_self

def joined (sticky : Bool) : Option Bool → Bool → Bool
  | none, weak => weak
  | some old, weak => if old = weak then old else sticky

theorem newWeakness_eq {w : StubWriter} {target : AtomPtr} {old : Option Bool} {weak value : Bool}
    (h : newWeakness w objs target old weak = .ok value) :
    value = joined (winner w.weakReferenceMismatchTreatment) old weak := by
  unfold newWeakness at h
  cases old with
  | none => exact (Except.ok.inj h).symm
  | some old =>
    unfold joined
    dsimp only at h ⊢
    by_cases hold : old = weak
    · rw [if_pos hold] at h ⊢
      exact (Except.ok.inj h).symm
    rw [if_neg hold] at h ⊢
    cases htreatment : w.weakReferenceMismatchTreatment <;> rw [htreatment] at h
    case kWeakReferenceMismatchError => cases h
    case kWeakReferenceMismatchWeak => exact (Except.ok.inj h).symm
    case kWeakReferenceMismatchNonWeak => exact (Except.ok.inj h).symm

variable {seen : List (AtomPtr × Bool)} {st : Synthesis A} {target : AtomPtr} {weak value : Bool}

theorem Recorded.other (hst : Recorded objs sticky seen st) (atom : AtomPtr) :
    st.fWeakImportMap atom = some (!sticky) ↔
      seen.lookup atom = some (!sticky) ∧ (atom, sticky) ∉ seen := by
  have hknown := hst.known atom
  rw [← hst.stuck atom]
  cases hmap : st.fWeakImportMap atom with
  | none =>
    rw [hmap] at hknown
    rw [hknown.mp rfl]
    simp
  | some old =>
    cases hlookup : seen.lookup atom with
    | none =>
      rw [hlookup, hmap] at hknown
      cases hknown.mpr rfl
    | some first =>
      have hmem := mem_of_lookup hlookup
      have hstuck := hst.stuck atom
      rw [hmap] at hstuck
      by_cases hfirst : first = sticky
      · rw [hfirst] at hmem ⊢
        rw [hstuck.mpr hmem]
        simp
      · rw [Bool.eq_not_of_ne hfirst]
        cases old <;> cases sticky <;> decide

section
variable (hst : Recorded objs sticky seen st)
    (hvalue : value = joined sticky (st.fWeakImportMap target) weak)
include hst hvalue

theorem Recorded.new_value : value = sticky ↔ (target, sticky) ∈ seen ++ [(target, weak)] := by
  have hstuck := hst.stuck target
  rw [mem_append, mem_singleton, Prod.mk.injEq, ← hstuck, hvalue]
  simp only [true_and]
  cases st.fWeakImportMap target with
  | none => simp [joined, eq_comm]
  | some old => cases old <;> cases weak <;> cases sticky <;> decide

theorem Recorded.new_other (hother : value = !sticky) :
    (seen ++ [(target, weak)]).lookup target = some (!sticky) := by
  have hknown := hst.known target
  have hold := hst.other target
  rw [lookup_concat, if_pos rfl]
  cases hmap : st.fWeakImportMap target with
  | none =>
    rw [hmap] at hvalue hknown
    rw [hknown.mp rfl, ← hother, hvalue]
    rfl
  | some old =>
    rw [hmap] at hvalue hold
    have hsame : old = !sticky := by
      rw [hother] at hvalue
      cases old <;> cases weak <;> cases sticky <;> first | rfl | exact absurd hvalue (by decide)
    rw [(hold.mp (congrArg some hsame)).1]
    rfl

theorem Recorded.record :
    Recorded objs sticky (seen ++ [(target, weak)]) (st.setWeakness objs target value) := by
  have hnew := hst.new_value hvalue
  constructor
  · intro atom
    rw [setWeakness_map, lookup_concat]
    by_cases hatom : atom = target
    · subst hatom
      simp
    · rw [update_of_ne hatom, if_neg hatom, Option.or_none]
      exact hst.known atom
  · intro atom
    rw [setWeakness_map]
    by_cases hatom : atom = target
    · subst hatom
      rw [update_self, Option.some.injEq]
      exact hnew
    · rw [update_of_ne hatom, hst.stuck atom, mem_append, mem_singleton, Prod.mk.injEq]
      simp only [hatom, false_and, or_false]
  · intro reader
    rw [mem_readersWith_setWeakness]
    constructor
    · rintro (⟨hstuck, hfile⟩ | hold)
      · exact ⟨target, hfile, hnew.mp hstuck⟩
      · obtain ⟨atom, hfile, hmem⟩ := (hst.stuckReaders reader).mp hold
        exact ⟨atom, hfile, mem_append_left _ hmem⟩
    · rintro ⟨atom, hfile, hmem⟩
      rcases List.mem_append.mp hmem with hold | hlast
      · exact Or.inr ((hst.stuckReaders reader).mpr ⟨atom, hfile, hold⟩)
      obtain ⟨rfl, -⟩ := Prod.mk.inj (List.mem_singleton.mp hlast)
      exact Or.inl ⟨hnew.mpr hmem, hfile⟩
  · intro reader
    rw [mem_readersWith_setWeakness]
    constructor
    · rintro (⟨hother, hfile⟩ | hold)
      · exact ⟨target, hfile, hst.new_other hvalue hother⟩
      · obtain ⟨atom, hfile, hlookup⟩ := (hst.otherReaders reader).mp hold
        exact ⟨atom, hfile, by rw [lookup_concat, hlookup, Option.some_or]⟩
    · rintro ⟨atom, hfile, hlookup⟩
      rw [lookup_concat] at hlookup
      cases hold : seen.lookup atom with
      | some first =>
        rw [hold, Option.some_or] at hlookup
        exact Or.inr ((hst.otherReaders reader).mpr ⟨atom, hfile, hold.trans hlookup⟩)
      | none =>
        rw [hold, Option.none_or] at hlookup
        by_cases hatom : atom = target
        · subst hatom
          rw [if_pos rfl] at hlookup
          rw [(hst.known atom).mpr hold] at hvalue
          exact Or.inl ⟨hvalue.trans (Option.some.inj hlookup), hfile⟩
        · rw [if_neg hatom] at hlookup
          cases hlookup

end

end Step

section Walk
variable {w : StubWriter} {objs : Objects A}
variable {seen : List (AtomPtr × Bool)} {st st' : Synthesis A} {fAllAtoms : List AtomPtr} {sticky : Bool}

def Synthesis.imports (st : Synthesis A) : (AtomPtr → Option Bool) × List ReaderPtr × List ReaderPtr :=
  (st.fWeakImportMap, st.fDylibReadersWithWeakImports, st.fDylibReadersWithNonWeakImports)

theorem make_imports (st : Synthesis A) (kind : SynthesizedKind) (name : String) :
    (st.make kind name).imports = st.imports :=
  make_frame st kind name fun _ _ _ _ _ _ => rfl

theorem retargeted_imports {atom : AtomPtr} {ref : Reference A AtomPtr}
    (h : Retargeted w objs st atom ref st') : st'.imports = st.imports := by
  cases h with
  | stub stub hneeds hmap => rfl
  | newStub parts hneeds hmap hparts =>
    have hparts := makeAll_frame make_imports
      (st.make (newStub objs st ref).kind (newStub objs st ref).getName) parts
    exact hparts.trans (make_imports _ _ _)
  | pointer nlp hneeds hmap => rfl
  | newPointer hneeds hmap =>
    exact make_imports st (newPointer objs st ref).kind (newPointer objs st ref).getName
  | kept hneeds => rfl

theorem Recorded.congr (hst : Recorded objs sticky seen st) (h : st'.imports = st.imports) :
    Recorded objs sticky seen st' := by
  have hmap := (Prod.mk.inj h).1
  have hreaders : ∀ weak, st'.readersWith weak = st.readersWith weak := by
    intro weak
    unfold Synthesis.readersWith
    rw [(Prod.mk.inj (Prod.mk.inj h).2).1, (Prod.mk.inj (Prod.mk.inj h).2).2]
  constructor
  · rw [hmap]
    exact hst.known
  · rw [hmap]
    exact hst.stuck
  · rw [hreaders]
    exact hst.stuckReaders
  · rw [hreaders]
    exact hst.otherReaders

theorem visit_recorded
    {visited : AtomPtr × Reference A AtomPtr} (hvisit : visit w objs st visited = .ok st')
    (hst : Recorded objs (winner w.weakReferenceMismatchTreatment) seen st) :
    Recorded objs (winner w.weakReferenceMismatchTreatment)
      (seen ++ (importOf objs visited.2).toList) st' := by
  unfold visit at hvisit
  unfold importOf
  cases hbound : isBound visited.2 with
  | false =>
    rw [hbound, if_neg Bool.false_ne_true] at hvisit
    obtain rfl := Except.ok.inj hvisit
    rw [Bool.false_and, if_neg Bool.false_ne_true, Option.toList_none, append_nil]
    exact hst.congr rfl
  | true =>
    rw [hbound, if_pos rfl] at hvisit
    obtain ⟨noted, hnoted, hretarget⟩ := bind_eq_ok.mp hvisit
    refine Recorded.congr ?_ (retargeted_imports (retarget_ok hretarget))
    unfold noteImport at hnoted
    rw [Bool.true_and]
    cases himport : isImport objs visited.2 with
    | false =>
      rw [himport, if_neg Bool.false_ne_true] at hnoted
      obtain rfl := Except.ok.inj hnoted
      rw [if_neg Bool.false_ne_true, Option.toList_none, append_nil]
      exact hst
    | true =>
      rw [himport, if_pos rfl] at hnoted
      obtain ⟨value, hvalue, hset⟩ := bind_eq_ok.mp hnoted
      obtain rfl := Except.ok.inj hset
      exact hst.record (newWeakness_eq hvalue)

theorem recorded_start (sticky : Bool) : Recorded objs sticky [] ({} : Synthesis A) := by
  constructor
  · intro atom
    exact Iff.rfl
  all_goals
    intro x
    cases sticky <;> simp [Synthesis.readersWith]

theorem walk_recorded {st : Synthesis A} (h : walk w objs fAllAtoms = .ok st) :
    Recorded objs (winner w.weakReferenceMismatchTreatment)
      ((allReferences objs fAllAtoms).filterMap fun visited => importOf objs visited.2) st := by
  refine foldlM_progress (P := fun visited st => Recorded objs
    (winner w.weakReferenceMismatchTreatment)
    (visited.filterMap fun visited => importOf objs visited.2) st) ?_ (recorded_start _) h
  intro pre visited post u v _ hu hv
  have hlast : [visited].filterMap (fun visited => importOf objs visited.2) =
      (importOf objs visited.2).toList := by
    rw [filterMap_cons]
    cases importOf objs visited.2 <;> rfl
  rw [filterMap_append, hlast]
  exact visit_recorded hv hu

theorem synthesizeStubs_recorded {image : Image A}
    (h : synthesizeStubs w objs fAllAtoms = .ok image) :
    Recorded objs (winner w.weakReferenceMismatchTreatment) (importsSeen w objs fAllAtoms)
      image.toSynthesis := by
  unfold synthesizeStubs at h
  unfold importsSeen
  split at h
  · rename_i hobject
    rw [if_pos hobject]
    obtain rfl := Except.ok.inj h
    exact recorded_start _
  rename_i hlinked
  rw [if_neg hlinked]
  obtain ⟨st, hwalk, h⟩ := bind_eq_ok.mp h
  obtain ⟨atoms, -, h⟩ := bind_eq_ok.mp h
  obtain ⟨atoms', -, h⟩ := bind_eq_ok.mp h
  obtain ⟨atoms'', -, h⟩ := bind_eq_ok.mp h
  obtain rfl := Except.ok.inj h
  apply (walk_recorded hwalk).congr
  unfold sortSynthesized
  split
  · rfl
  · cases A <;> rfl

/-- The set of the value that stays is always right. The other one is where every reader in it has
an atom that kept the other value. -/
theorem Recorded.readersRight_iff {st : Synthesis A}
    (hst : Recorded objs sticky seen st) : ReadersRight objs st ↔
      ∀ atom, seen.lookup atom = some (!sticky) → ∃ other,
        (objs.atom other).getFile = (objs.atom atom).getFile ∧
        seen.lookup other = some (!sticky) ∧ (other, sticky) ∉ seen := by
  have hstuck : ∀ reader, reader ∈ st.readersWith sticky ↔
      ∃ atom, (objs.atom atom).getFile = reader ∧ st.fWeakImportMap atom = some sticky := by
    intro reader
    simp only [hst.stuck]
    exact hst.stuckReaders reader
  have hsets : ReadersRight objs st ↔ ∀ reader, reader ∈ st.readersWith (!sticky) ↔
      ∃ atom, (objs.atom atom).getFile = reader ∧ st.fWeakImportMap atom = some (!sticky) := by
    cases sticky with
    | true => exact ⟨fun h => h.nonWeak, fun h => ⟨h, hstuck⟩⟩
    | false => exact ⟨fun h => h.weak, fun h => ⟨hstuck, h⟩⟩
  rw [hsets]
  simp only [hst.otherReaders, hst.other]
  constructor
  · intro h atom hfirst
    obtain ⟨other, hfile, hother⟩ := (h (objs.atom atom).getFile).mp ⟨atom, rfl, hfirst⟩
    exact ⟨other, hfile, hother⟩
  · intro h reader
    constructor
    · rintro ⟨atom, rfl, hfirst⟩
      exact h atom hfirst
    · rintro ⟨atom, hfile, hfirst, -⟩
      exact ⟨atom, hfile, hfirst⟩

end Walk
end Imports

section Right
variable {A : Architecture} (w : StubWriter) (objs : Objects A) (fAllAtoms : List AtomPtr)

/-- The two sets are right exactly if every reader with an atom that was first referred to with the
strength that loses has an atom that was never referred to with the other one. -/
theorem weak_readers_right_iff (image : Image A)
    (h : synthesizeStubs w objs fAllAtoms = .ok image) : ReadersRight objs image.toSynthesis ↔
      ∀ atom, (importsSeen w objs fAllAtoms).lookup atom =
          some (!winner w.weakReferenceMismatchTreatment) →
        ∃ other, (objs.atom other).getFile = (objs.atom atom).getFile ∧
          (importsSeen w objs fAllAtoms).lookup other =
            some (!winner w.weakReferenceMismatchTreatment) ∧
          (other, winner w.weakReferenceMismatchTreatment) ∉ importsSeen w objs fAllAtoms :=
  (synthesizeStubs_recorded h).readersRight_iff

end Right

/-- `-weak_reference_mismatches weak` -/
def weakWriter : StubWriter where
  weakReferenceMismatchTreatment := .kWeakReferenceMismatchWeak
  sort := nameSort
  sort_spec := nameSort_spec

/-- A table of pointers, at 0, to a symbol of a dylib, at 1. -/
def pointerTable (kinds : List Reloc.X86_64.ReferenceKinds) : Objects .x86_64 where
  atom
    | 0 =>
      { pointer := 0, getName := some "_table", getSection := 1, getSectionName := "__data",
        getSegmentName := "__DATA",
        getReferences := kinds.map fun kind => { getKind := kind, getTarget := 1 } }
    | atom =>
      { pointer := atom, getName := some "_symbol", getDefinitionKind := .kExternalDefinition,
        getFile := 1, getSection := 2, getSectionName := "._imports", getSegmentName := "__LINKEDIT" }

theorem weak_first_readers_right : ∃ image,
    synthesizeStubs weakWriter (pointerTable [.kPointerWeakImport, .kPointer]) [0] = .ok image ∧
      ReadersRight (pointerTable [.kPointerWeakImport, .kPointer]) image.toSynthesis := by
  refine ⟨_, rfl, (weak_readers_right_iff weakWriter _ [0] _ rfl).mpr ?_⟩
  intro atom hfirst
  have hseen : importsSeen weakWriter (pointerTable [.kPointerWeakImport, .kPointer]) [0] =
      [(1, true), (1, false)] := rfl
  rw [hseen] at hfirst
  by_cases hatom : atom = 1
  · rw [hatom] at hfirst
    exact absurd hfirst (by decide)
  · rw [lookup_cons, lookup_cons, beq_false_of_ne hatom] at hfirst
    cases hfirst

/-- The symbol ends up weak, and its reader in the set of those with non-weak imports. -/
theorem strong_first_readers_wrong : ∃ image,
    synthesizeStubs weakWriter (pointerTable [.kPointer, .kPointerWeakImport]) [0] = .ok image ∧
      image.fWeakImportMap 1 = some true ∧ image.fDylibReadersWithNonWeakImports = [1] ∧
      ¬ ReadersRight (pointerTable [.kPointer, .kPointerWeakImport]) image.toSynthesis := by
  refine ⟨_, rfl, rfl, rfl, ?_⟩
  intro hright
  obtain ⟨atom, -, hmap⟩ := (hright.nonWeak 1).mp (by decide)
  by_cases hatom : atom = 1
  · rw [hatom] at hmap
    cases hmap
  change update (update (fun _ => none) 1 (some false)) 1 (some true) atom = some false at hmap
  rw [update_of_ne hatom, update_of_ne hatom] at hmap
  cases hmap

end Toolwhip.Ld64.Stubs
