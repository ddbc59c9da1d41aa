import Mathlib.Data.List.Count
import Toolwhip.Ld64.StubsMade

/-! # Where the atoms that were made are put

Every scan for the end of a section is one over the atoms with the atom before each. -/

namespace Toolwhip.Ld64.Stubs
open Lib.FreshNumbers Lib.ThrowingFold Reloc.Fixups List
set_option autoImplicit false

section Scan
variable {A : Architecture} (objs : Objects A) (here : Option AtomRef → AtomRef → Bool)

def cursorAt (prevAtom : Option AtomRef) : Cursor := ⟨prevAtom.bind (sectionOf objs), prevAtom⟩

def beginsSection (prevAtom : Option AtomRef) (atom : AtomRef) : Bool :=
  sectionOf objs atom != prevAtom.bind (sectionOf objs)

def hasPlace : Option AtomRef → List AtomRef → Bool
  | _, [] => false
  | prevAtom, atom :: rest =>
    (beginsSection objs prevAtom atom && here prevAtom atom) || hasPlace (some atom) rest

def scanStop : Option AtomRef → List AtomRef → Option AtomRef
  | prevAtom, [] => prevAtom
  | prevAtom, atom :: rest =>
    if beginsSection objs prevAtom atom && here prevAtom atom then prevAtom
    else scanStop (some atom) rest

section
variable (block : List AtomRef) (prevAtom : Option AtomRef)

theorem insertBefore_cons (atom : AtomRef) (rest : List AtomRef) :
    insertBefore objs here block (cursorAt objs prevAtom) (atom :: rest) =
      if beginsSection objs prevAtom atom && here prevAtom atom then
        (some (block ++ atom :: rest), cursorAt objs prevAtom)
      else ((insertBefore objs here block (cursorAt objs (some atom)) rest).1.map (atom :: ·),
        (insertBefore objs here block (cursorAt objs (some atom)) rest).2) := by
  rw [insertBefore]
  unfold beginsSection cursorAt
  dsimp only [Option.bind_some]
  by_cases hsection : sectionOf objs atom = prevAtom.bind (sectionOf objs)
  · rw [if_neg (not_not.mpr hsection), hsection, bne_self_eq_false, Bool.false_and,
      if_neg Bool.false_ne_true]
  · rw [if_pos hsection, bne_iff_ne.mpr hsection, Bool.true_and]

theorem insertBefore_stop (atoms : List AtomRef) :
    (insertBefore objs here block (cursorAt objs prevAtom) atoms).2 =
      cursorAt objs (scanStop objs here prevAtom atoms) := by
  induction atoms generalizing prevAtom with
  | nil => rfl
  | cons atom rest ih =>
    rw [insertBefore_cons, scanStop]
    split
    · rfl
    · exact ih (some atom)

theorem insertBefore_list (atoms : List AtomRef) : (hasPlace objs here prevAtom atoms = false ∧
      (insertBefore objs here block (cursorAt objs prevAtom) atoms).1 = none) ∨
    (hasPlace objs here prevAtom atoms = true ∧ ∃ before after, atoms = before ++ after ∧
      (insertBefore objs here block (cursorAt objs prevAtom) atoms).1 =
        some (before ++ (block ++ after))) := by
  induction atoms generalizing prevAtom with
  | nil => exact Or.inl ⟨rfl, rfl⟩
  | cons atom rest ih =>
    rw [insertBefore_cons, hasPlace]
    cases hplace : beginsSection objs prevAtom atom && here prevAtom atom with
    | true => exact Or.inr ⟨rfl, [], atom :: rest, rfl, rfl⟩
    | false =>
      rw [if_neg Bool.false_ne_true, Bool.false_or]
      rcases ih (some atom) with ⟨hnone, hlist⟩ | ⟨hsome, before, after, hsplit, hlist⟩
      · refine Or.inl ⟨hnone, ?_⟩
        rw [hlist]
        rfl
      · refine Or.inr ⟨hsome, atom :: before, after, congrArg _ hsplit, ?_⟩
        rw [hlist]
        rfl

theorem insertBefore_count (atoms : List AtomRef) (x : AtomRef) :
    ((insertBefore objs here block (cursorAt objs prevAtom) atoms).1.getD atoms).count x =
      atoms.count x + if hasPlace objs here prevAtom atoms then block.count x else 0 := by
  rcases insertBefore_list objs here block prevAtom atoms with
    ⟨hnone, hlist⟩ | ⟨hsome, before, after, hsplit, hlist⟩
  · rw [hlist, hnone, if_neg Bool.false_ne_true]
    rfl
  rw [hlist, hsome, if_pos rfl, Option.getD_some, hsplit]
  simp only [count_append]
  omega

end

variable {objs here}

theorem addPointers_count {message : String} {pointers : List Synthesized}
    {atoms atoms' : List AtomRef}
    (h : addPointers objs here message pointers atoms = .ok atoms') (x : AtomRef) :
    atoms'.count x = atoms.count x + (pointers.map AtomRef.synthesized).count x := by
  unfold addPointers at h
  split at h
  · rename_i hempty
    obtain rfl := Except.ok.inj h
    rw [List.isEmpty_iff.mp hempty]
    rfl
  have hcount := insertBefore_count objs here
    (pointers.map .synthesized) none atoms x
  rcases insertBefore_list objs here (pointers.map .synthesized) none atoms with
    ⟨hnone, hlist⟩ | ⟨hsome, before, after, hsplit, hlist⟩
  · rw [show insertBefore objs here (pointers.map .synthesized) {} atoms =
      insertBefore objs here (pointers.map .synthesized) (cursorAt objs none) atoms from rfl,
      hlist] at h
    cases h
  rw [show insertBefore objs here (pointers.map .synthesized) {} atoms =
    insertBefore objs here (pointers.map .synthesized) (cursorAt objs none) atoms from rfl,
    hlist] at h
  obtain rfl := Except.ok.inj h
  rw [hlist, hsome, if_pos rfl] at hcount
  exact hcount

end Scan

section Given
variable {A : Architecture} (objs : Objects A)

def TextEnds (atom next : AtomPtr) : Prop :=
  (objs.atom atom).getSection ≠ (objs.atom next).getSection ∧
    (objs.atom atom).getSectionName = "__text"

instance (atom next : AtomPtr) : Decidable (TextEnds objs atom next) :=
  inferInstanceAs (Decidable (_ ∧ _))

/-- The end of an `__IMPORT` section, or the beginning of one in `__LINKEDIT`. -/
def ImportsEnd (atom next : AtomPtr) : Prop :=
  (objs.atom atom).getSection ≠ (objs.atom next).getSection ∧
    ((objs.atom atom).getSegmentName = "__IMPORT" ∨ (objs.atom next).getSegmentName = "__LINKEDIT")

def Neighbours (R : AtomPtr → AtomPtr → Prop) (atoms : List AtomPtr) : Prop :=
  ∃ before atom next after, atoms = before ++ atom :: next :: after ∧ R atom next

def HasTextPlace (fAllAtoms : List AtomPtr) : Prop := Neighbours (TextEnds objs) fAllAtoms

/-- The last atom of the first `__text` section that ends, or the last atom of all. -/
def textStop : List AtomPtr → Option AtomPtr
  | [] => none
  | [atom] => some atom
  | atom :: next :: rest => if TextEnds objs atom next then some atom else textStop (next :: rest)

/-- The first atom comes behind the one at which the scan for `__text` stopped. -/
def HasImportPlace (fAllAtoms : List AtomPtr) : Prop :=
  Neighbours (ImportsEnd objs) ((textStop objs fAllAtoms).toList ++ fAllAtoms)

variable {objs}

variable {R : AtomPtr → AtomPtr → Prop}

theorem neighbours_cons (atom next : AtomPtr) (rest : List AtomPtr) :
    Neighbours R (atom :: next :: rest) ↔ R atom next ∨ Neighbours R (next :: rest) := by
  constructor
  · rintro ⟨before, a, b, after, hsplit, hab⟩
    cases before with
    | nil =>
      obtain ⟨rfl, rfl, -⟩ := hsplit
      exact Or.inl hab
    | cons first before =>
      rw [cons_append, List.cons.injEq] at hsplit
      exact Or.inr ⟨before, a, b, after, hsplit.2, hab⟩
  · rintro (hab | ⟨before, a, b, after, hsplit, hab⟩)
    · exact ⟨[], atom, next, rest, rfl, hab⟩
    · exact ⟨atom :: before, a, b, after, congrArg _ hsplit, hab⟩

theorem not_neighbours_singleton (atom : AtomPtr) : ¬ Neighbours R [atom] := by
  rintro ⟨before, a, b, after, hsplit, -⟩
  have hlength := congrArg List.length hsplit
  rw [length_append] at hlength
  simp only [length_cons, length_nil] at hlength
  omega

theorem beginsSection_given (atom next : AtomPtr) :
    beginsSection objs (some (.given atom)) (.given next) = true ↔
      (objs.atom atom).getSection ≠ (objs.atom next).getSection := by
  unfold beginsSection
  rw [bne_iff_ne]
  exact not_congr ⟨fun h => (Option.some.inj h).symm, fun h => congrArg some h.symm⟩

theorem hasPlace_given {here : Option AtomRef → AtomRef → Bool}
    (hR : ∀ atom next, (beginsSection objs (some (.given atom)) (.given next) &&
      here (some (.given atom)) (.given next)) = true ↔ R atom next) (atom : AtomPtr)
    (rest : List AtomPtr) : hasPlace objs here (some (.given atom)) (rest.map .given) = true ↔
      Neighbours R (atom :: rest) := by
  induction rest generalizing atom with
  | nil =>
    constructor
    · intro h
      cases h
    · intro h
      exact absurd h (not_neighbours_singleton atom)
  | cons next rest ih =>
    rw [map_cons, hasPlace, Bool.or_eq_true, hR, ih, neighbours_cons]

theorem textEnds_iff (atom next : AtomPtr) :
    (beginsSection objs (some (.given atom)) (.given next) &&
      behindSection objs "__text" (some (.given atom)) (.given next)) = true ↔
        TextEnds objs atom next := by
  rw [Bool.and_eq_true, beginsSection_given]
  unfold behindSection TextEnds
  simp [sectionName]

theorem importsEnd_iff (w : StubWriter) (atom next : AtomPtr) :
    (beginsSection objs (some (.given atom)) (.given next) &&
      behindImports w objs (some (.given atom)) (.given next)) = true ↔
        ImportsEnd objs atom next := by
  rw [Bool.and_eq_true, beginsSection_given]
  unfold behindImports ImportsEnd
  simp [segmentName]

theorem scanStop_given (atom : AtomPtr) (rest : List AtomPtr) :
    scanStop objs (behindSection objs "__text") (some (.given atom)) (rest.map .given) =
      (textStop objs (atom :: rest)).map .given := by
  induction rest generalizing atom with
  | nil => rfl
  | cons next rest ih =>
    rw [map_cons, scanStop, textStop]
    by_cases hends : TextEnds objs atom next
    · rw [if_pos ((textEnds_iff atom next).mpr hends), if_pos hends]
      rfl
    · rw [if_neg fun h => hends ((textEnds_iff atom next).mp h), if_neg hends, ih]

theorem hasTextPlace_iff (fAllAtoms : List AtomPtr) :
    hasPlace objs (behindSection objs "__text") none (fAllAtoms.map .given) = true ↔
      HasTextPlace objs fAllAtoms := by
  cases fAllAtoms with
  | nil =>
    constructor
    · intro h
      cases h
    · rintro ⟨before, a, b, after, hsplit, -⟩
      exact absurd hsplit.symm (append_ne_nil_of_right_ne_nil _ (cons_ne_nil _ _))
  | cons atom rest =>
    rw [map_cons, hasPlace]
    unfold behindSection
    exact hasPlace_given textEnds_iff atom rest

variable (objs) in
theorem textStop_cons (atom : AtomPtr) (rest : List AtomPtr) :
    ∃ stop, textStop objs (atom :: rest) = some stop := by
  induction rest generalizing atom with
  | nil => exact ⟨atom, rfl⟩
  | cons next rest ih =>
    rw [textStop]
    split
    · exact ⟨atom, rfl⟩
    · exact ih next

theorem scanStop_start (fAllAtoms : List AtomPtr) :
    scanStop objs (behindSection objs "__text") none (fAllAtoms.map .given) =
      (textStop objs fAllAtoms).map .given := by
  cases fAllAtoms with
  | nil => rfl
  | cons atom rest =>
    rw [map_cons, scanStop]
    unfold behindSection
    exact scanStop_given atom rest

theorem hasImportPlace_iff (w : StubWriter) (fAllAtoms : List AtomPtr) :
    hasPlace objs (behindImports w objs) ((textStop objs fAllAtoms).map .given)
      (fAllAtoms.map .given) = true ↔ HasImportPlace objs fAllAtoms := by
  unfold HasImportPlace
  cases fAllAtoms with
  | nil =>
    constructor
    · intro h
      cases h
    · rintro ⟨before, a, b, after, hsplit, -⟩
      exact absurd hsplit.symm (append_ne_nil_of_right_ne_nil _ (cons_ne_nil _ _))
  | cons atom rest =>
    obtain ⟨stop, hstop⟩ := textStop_cons objs atom rest
    rw [hstop]
    exact hasPlace_given (importsEnd_iff w) stop (atom :: rest)

end Given

section Stubs
variable {A : Architecture} {w : StubWriter} {objs : Objects A}

def IsTextAtom (w : StubWriter) (objs : Objects A) (atom : AtomRef) : Prop :=
  sectionOf objs atom = none ∧ segmentName w objs atom = "__TEXT"

theorem not_import_text (atom : AtomRef) (h : IsTextAtom w objs atom) :
    (segmentName w objs atom == "__IMPORT") = false ∧
      (segmentName w objs atom == "__LINKEDIT") = false := by
  rw [h.2]
  decide

/-- Behind atoms in `__TEXT` there is a place exactly if the next one is in `__LINKEDIT`. -/
theorem hasPlace_behind_text {text : AtomRef} {block : List AtomRef} {next : AtomPtr}
    {rest : List AtomRef} (htext : IsTextAtom w objs text)
    (hblock : ∀ atom ∈ block, IsTextAtom w objs atom) :
    hasPlace objs (behindImports w objs) (some text) (block ++ .given next :: rest) =
      ((segmentName w objs (.given next) == "__LINKEDIT") ||
        hasPlace objs (behindImports w objs) (some (.given next)) rest) := by
  induction block generalizing text with
  | nil =>
    rw [nil_append, hasPlace]
    unfold behindImports beginsSection
    rw [Option.bind_some, htext.1, Option.any_some, (not_import_text text htext).1, Bool.false_or]
    rfl
  | cons first block ih =>
    rw [forall_mem_cons] at hblock
    have hsame : beginsSection objs (some text) first = false := by
      unfold beginsSection
      rw [Option.bind_some, htext.1, hblock.1.1]
      rfl
    rw [cons_append, hasPlace, hsame, Bool.false_and, Bool.false_or]
    exact ih hblock.1 hblock.2

theorem hasPlace_block {atom next : AtomPtr} {block rest : List AtomRef}
    (hblock : ∀ atom ∈ block, IsTextAtom w objs atom)
    (hbegins : beginsSection objs (some (.given atom)) (.given next) = true) :
    hasPlace objs (behindImports w objs) (some (.given atom)) (block ++ .given next :: rest) =
      hasPlace objs (behindImports w objs) (some (.given atom)) (.given next :: rest) := by
  cases block with
  | nil => rfl
  | cons text block =>
    rw [forall_mem_cons] at hblock
    have hfirst : beginsSection objs (some (.given atom)) text = true := by
      unfold beginsSection
      rw [hblock.1.1]
      rfl
    rw [cons_append, hasPlace, hasPlace_behind_text hblock.1 hblock.2, hasPlace, hfirst,
      hbegins, Bool.true_and, Bool.true_and]
    unfold behindImports
    rw [(not_import_text text hblock.1).2, Bool.or_false, Option.any_some, Bool.or_assoc]

theorem hasPlace_inserted {block : List AtomRef}
    (hblock : ∀ atom ∈ block, IsTextAtom w objs atom) (atom : AtomPtr) (rest : List AtomPtr) :
    hasPlace objs (behindImports w objs) (some (.given atom))
      ((insertBefore objs (behindSection objs "__text") block (cursorAt objs (some (.given atom)))
        (rest.map .given)).1.getD (rest.map .given)) =
      hasPlace objs (behindImports w objs) (some (.given atom)) (rest.map .given) := by
  induction rest generalizing atom with
  | nil => rfl
  | cons next rest ih =>
    rw [map_cons, insertBefore_cons]
    cases hplace : beginsSection objs (some (.given atom)) (.given next) &&
        behindSection objs "__text" (some (.given atom)) (.given next) with
    | true =>
      rw [Bool.and_eq_true] at hplace
      exact hasPlace_block hblock hplace.1
    | false =>
      rw [if_neg Bool.false_ne_true, hasPlace, ← ih next]
      cases (insertBefore objs (behindSection objs "__text") block
        (cursorAt objs (some (.given next))) (rest.map .given)).1 <;> rfl

theorem hasImportPlace_inserted {block : List AtomRef}
    (hblock : ∀ atom ∈ block, IsTextAtom w objs atom) (fAllAtoms : List AtomPtr) :
    hasPlace objs (behindImports w objs) ((textStop objs fAllAtoms).map .given)
      ((insertBefore objs (behindSection objs "__text") block (cursorAt objs none)
        (fAllAtoms.map .given)).1.getD (fAllAtoms.map .given)) = true ↔
      HasImportPlace objs fAllAtoms := by
  rw [← hasImportPlace_iff w]
  cases fAllAtoms with
  | nil => exact Iff.rfl
  | cons atom rest =>
    have hno : (beginsSection objs none (.given atom) &&
        behindSection objs "__text" none (.given atom)) = false := Bool.and_false _
    rw [map_cons, insertBefore_cons, hno, if_neg Bool.false_ne_true, hasPlace,
      ← hasPlace_inserted hblock atom rest]
    cases (insertBefore objs (behindSection objs "__text") block
      (cursorAt objs (some (.given atom))) (rest.map .given)).1 <;> rfl

section Added
variable {st : Synthesis A} (hhelpers : st.fAllSynthesizedStubHelpers ≠ [] →
    st.fAllSynthesizedStubs ≠ [])
  (hkinds : ∀ helper ∈ st.fAllSynthesizedStubHelpers, helper.kind = .stubHelper)
include hhelpers hkinds

open Classical in
theorem addStubs_count (fAllAtoms : List AtomPtr) (x : AtomRef) :
    (addStubs w objs st (fAllAtoms.map .given)).count x = (fAllAtoms.map AtomRef.given).count x +
      (if HasTextPlace objs fAllAtoms then ((textStubs w st).map AtomRef.synthesized).count x else 0) +
      (if HasImportPlace objs fAllAtoms then ((importStubs w st).map AtomRef.synthesized).count x
        else 0) := by
  have hblock : ∀ atom ∈ (textStubs w st).map AtomRef.synthesized, IsTextAtom w objs atom := by
    intro atom hatom
    obtain ⟨stub, hstub, rfl⟩ := List.mem_map.mp hatom
    refine ⟨rfl, ?_⟩
    rcases List.mem_append.mp hstub with hstub | hhelper
    · exact beq_iff_eq.mp (List.mem_filter.mp hstub).2
    unfold segmentName getSegment
    dsimp only
    rw [hkinds stub hhelper]
    rfl
  have htext := insertBefore_count objs (behindSection objs "__text")
    ((textStubs w st).map .synthesized) none (fAllAtoms.map .given) x
  have hplace := hasImportPlace_inserted hblock fAllAtoms
  have hstop := insertBefore_stop objs (behindSection objs "__text")
    ((textStubs w st).map .synthesized) none (fAllAtoms.map .given)
  rw [scanStop_start] at hstop
  unfold addStubs
  cases hempty : st.fAllSynthesizedStubs.isEmpty with
  | true =>
    have hnone := List.isEmpty_iff.mp hempty
    have hnoHelpers : st.fAllSynthesizedStubHelpers = [] := by
      by_contra hsome
      exact hhelpers hsome hnone
    unfold textStubs importStubs
    rw [hnone, hnoHelpers]
    simp
  | false =>
    rw [if_neg Bool.false_ne_true]
    rw [show insertBefore objs (behindSection objs "__text") ((textStubs w st).map .synthesized) {}
      (fAllAtoms.map .given) = insertBefore objs (behindSection objs "__text")
        ((textStubs w st).map .synthesized) (cursorAt objs none) (fAllAtoms.map .given) from rfl]
    simp only [← hasTextPlace_iff]
    rw [← htext]
    cases himports : (importStubs w st).isEmpty with
    | true =>
      rw [if_pos rfl, List.isEmpty_iff.mp himports]
      simp
    | false =>
      rw [if_neg Bool.false_ne_true, hstop, insertBefore_count]
      simp only [hplace]

end Added
end Stubs

section All
variable {A : Architecture} {w : StubWriter} {objs : Objects A}

/-- What was made is in the image once, and what is referred to is in it. -/
structure Placed (image : Image A) : Prop where
  once : ∀ atom ∈ allSynthesized image.toSynthesis,
    image.fAllAtoms.count (.synthesized atom) = 1
  referred : ∀ seen ∈ image.references, ∀ atom, seen.2.getTarget = .synthesized atom →
    AtomRef.synthesized atom ∈ image.fAllAtoms

theorem count_synthesized (atoms : List Synthesized) (atom : Synthesized) :
    (atoms.map AtomRef.synthesized).count (.synthesized atom) = atoms.count atom :=
  count_map_of_injective _ _ (fun _ _ h => AtomRef.synthesized.inj h) atom

theorem count_given (atoms : List AtomPtr) (atom : Synthesized) :
    (atoms.map AtomRef.given).count (.synthesized atom) = 0 := by
  rw [count_eq_zero]
  intro h
  obtain ⟨given, -, hgiven⟩ := List.mem_map.mp h
  cases hgiven

/-- The members behind the walk, and the atoms with everything put in. -/
structure LaidOut (w : StubWriter) (objs : Objects A) (fAllAtoms : List AtomPtr)
    (image : Image A) : Prop where
  made : ∃ st, Made w objs (allReferences objs fAllAtoms) st ∧
    SortedFrom w st image.toSynthesis
  count : ∀ x, image.fAllAtoms.count x =
    (addStubs w objs image.toSynthesis (fAllAtoms.map .given)).count x +
      (image.fAllSynthesizedLazyDylibPointers.map AtomRef.synthesized).count x +
      (image.fAllSynthesizedLazyPointers.map AtomRef.synthesized).count x +
      (image.fAllSynthesizedNonLazyPointers.map AtomRef.synthesized).count x

theorem synthesizeStubs_laidOut {fAllAtoms : List AtomPtr} {image : Image A}
    (hlinked : w.outputKind ≠ .kObjectFile) (h : synthesizeStubs w objs fAllAtoms = .ok image) :
    LaidOut w objs fAllAtoms image := by
  unfold synthesizeStubs at h
  rw [if_neg hlinked] at h
  obtain ⟨st, hwalk, h⟩ := bind_eq_ok.mp h
  obtain ⟨lazyDylibs, hlazyDylibs, h⟩ := bind_eq_ok.mp h
  obtain ⟨lazies, hlazies, h⟩ := bind_eq_ok.mp h
  obtain ⟨nonLazies, hnonLazies, h⟩ := bind_eq_ok.mp h
  obtain rfl := Except.ok.inj h
  have hmade := walk_made hwalk
  refine ⟨⟨st, hmade, sortSynthesized_sorted hmade.numbered⟩, ?_⟩
  intro x
  rw [addPointers_count hnonLazies, addPointers_count hlazies, addPointers_count hlazyDylibs]

theorem count_ite_place {place : Prop} [Decidable place] {stubs : List Synthesized}
    (hplace : stubs ≠ [] → place) (atom : Synthesized) :
    (if place then stubs.count atom else 0) = stubs.count atom := by
  by_cases hnone : stubs = []
  · rw [hnone, count_nil, ite_self]
  · rw [if_pos (hplace hnone)]

section Image
variable {fAllAtoms : List AtomPtr} {image : Image A} (h : LaidOut w objs fAllAtoms image)
include h

open Classical in
theorem LaidOut.count_eq (atom : Synthesized) : image.fAllAtoms.count (.synthesized atom) =
      (if HasTextPlace objs fAllAtoms then (textStubs w image.toSynthesis).count atom else 0) +
      (if HasImportPlace objs fAllAtoms then (importStubs w image.toSynthesis).count atom else 0) +
      image.fAllSynthesizedLazyDylibPointers.count atom +
      image.fAllSynthesizedLazyPointers.count atom +
      image.fAllSynthesizedNonLazyPointers.count atom := by
  obtain ⟨st, hmade, hsorted⟩ := h.made
  have hkinds : ∀ helper ∈ image.fAllSynthesizedStubHelpers, helper.kind = .stubHelper := by
    rw [hsorted.helpers]
    exact hmade.helperKinds
  rw [h.count, addStubs_count (fun hs => (stubs_ne_nil_of_helpers hmade hsorted hs).2) hkinds,
    count_given, Nat.zero_add]
  simp only [count_synthesized]

theorem LaidOut.vectors_count {atom : Synthesized}
    (hatom : atom ∈ allSynthesized image.toSynthesis) :
    (textStubs w image.toSynthesis).count atom + (importStubs w image.toSynthesis).count atom +
      image.fAllSynthesizedLazyDylibPointers.count atom +
      image.fAllSynthesizedLazyPointers.count atom +
      image.fAllSynthesizedNonLazyPointers.count atom = 1 := by
  obtain ⟨st, hmade, hsorted⟩ := h.made
  have hone := count_eq_one_of_mem (Numbered.nodup hsorted.numbered) hatom
  have hstubs := (filter_append_perm (isTextStub w A) image.fAllSynthesizedStubs).count_eq atom
  unfold allSynthesized at hone
  unfold textStubs importStubs
  simp only [count_append] at hone hstubs ⊢
  omega

open Classical in
theorem LaidOut.placed_iff : Placed image ↔
    (textStubs w image.toSynthesis ≠ [] → HasTextPlace objs fAllAtoms) ∧
      (importStubs w image.toSynthesis ≠ [] → HasImportPlace objs fAllAtoms) := by
  have hvectors : ∀ atom, atom ∈ textStubs w image.toSynthesis ∨
      atom ∈ importStubs w image.toSynthesis → atom ∈ allSynthesized image.toSynthesis := by
    intro atom hatom
    unfold allSynthesized
    simp only [mem_append]
    rcases hatom with htext | himport
    · rcases List.mem_append.mp htext with hstub | hhelper
      · exact Or.inl (Or.inl (Or.inl (Or.inl (List.mem_filter.mp hstub).1)))
      · exact Or.inl (Or.inl (Or.inl (Or.inr hhelper)))
    · exact Or.inl (Or.inl (Or.inl (Or.inl (List.mem_filter.mp himport).1)))
  have hsame : Placed image → ∀ atom ∈ allSynthesized image.toSynthesis,
      (if HasTextPlace objs fAllAtoms then (textStubs w image.toSynthesis).count atom else 0) +
        (if HasImportPlace objs fAllAtoms then (importStubs w image.toSynthesis).count atom else 0) =
      (textStubs w image.toSynthesis).count atom + (importStubs w image.toSynthesis).count atom := by
    intro hplaced atom hmem
    have hvector := h.vectors_count hmem
    have hcount := hplaced.once atom hmem
    rw [h.count_eq] at hcount
    omega
  constructor
  · intro hplaced
    constructor
    · intro hsome
      obtain ⟨atom, hatom⟩ := exists_mem_of_ne_nil _ hsome
      have hsum := hsame hplaced atom (hvectors atom (Or.inl hatom))
      have hpos := List.count_pos_iff.mpr hatom
      by_contra hno
      rw [if_neg hno] at hsum
      split at hsum <;> omega
    · intro hsome
      obtain ⟨atom, hatom⟩ := exists_mem_of_ne_nil _ hsome
      have hsum := hsame hplaced atom (hvectors atom (Or.inr hatom))
      have hpos := List.count_pos_iff.mpr hatom
      by_contra hno
      split at hsum <;> omega
  · rintro ⟨htext, himport⟩
    have honce : ∀ atom ∈ allSynthesized image.toSynthesis,
        image.fAllAtoms.count (.synthesized atom) = 1 := by
      intro atom hatom
      have hvector := h.vectors_count hatom
      rw [h.count_eq]
      rw [count_ite_place htext, count_ite_place himport]
      exact hvector
    refine ⟨honce, ?_⟩
    intro seen hseen atom hatom
    obtain ⟨st, hmade, hsorted⟩ := h.made
    rw [hsorted.references] at hseen
    have hmem : atom ∈ allSynthesized image.toSynthesis := by
      unfold allSynthesized
      simp only [mem_append]
      rcases hmade.referred seen hseen atom hatom with hstub | hnlp
      · exact Or.inl (Or.inl (Or.inl (Or.inl (hsorted.kept atom hstub))))
      rw [hsorted.nonLazyPointers]
      exact Or.inr hnlp
    have hcount := honce atom hmem
    exact List.count_pos_iff.mp (by omega)

end Image

def neededStubs (w : StubWriter) (objs : Objects A) (fAllAtoms : List AtomPtr) : List AtomPtr :=
  if w.outputKind = .kObjectFile then []
  else stubTargets w objs (allReferences objs fAllAtoms)

end All

section Lost
variable {A : Architecture} (w : StubWriter) (objs : Objects A) (fAllAtoms : List AtomPtr)

/-- Nothing that was made is lost exactly if there is a place for the stubs of both segments. -/
theorem synthesized_placed_iff (image : Image A)
    (h : synthesizeStubs w objs fAllAtoms = .ok image) : Placed image ↔
      (NeedsTextStub w objs (neededStubs w objs fAllAtoms) → HasTextPlace objs fAllAtoms) ∧
        (NeedsImportStub w objs (neededStubs w objs fAllAtoms) → HasImportPlace objs fAllAtoms) := by
  unfold neededStubs
  by_cases hobject : w.outputKind = .kObjectFile
  · unfold synthesizeStubs at h
    rw [if_pos hobject] at h ⊢
    obtain rfl := Except.ok.inj h
    constructor
    · intro _
      constructor
      · rintro ⟨target, htarget, -⟩
        cases htarget
      · rintro (⟨target, htarget, -⟩ | ⟨-, hmany⟩)
        · cases htarget
        · exact absurd hmany (by decide)
    · intro _
      constructor
      · intro atom hatom
        cases hatom
      · intro seen hseen
        cases hseen
  · have hlaid := synthesizeStubs_laidOut hobject h
    obtain ⟨st, hmade, hsorted⟩ := hlaid.made
    rw [if_neg hobject, hlaid.placed_iff, textStubs_ne_nil hmade hsorted,
      importStubs_ne_nil hmade hsorted]

end Lost

def helperWriter : StubWriter where
  fDyldHelper := some 1
  sort := nameSort
  sort_spec := nameSort_spec

/-- A function that calls one of a dylib, the `__dyld` section, and `__LINKEDIT`. -/
def callingImage (textSection : String) : Objects .x86_64 where
  atom
    | 0 =>
      { pointer := 0, getName := some "_caller", getSection := 1, getSectionName := textSection,
        getSegmentName := "__TEXT",
        getReferences := [{
          getKind := (Reloc.X86_64.ReferenceKinds.kBranchPCRel32 : Architecture.Kinds .x86_64)
          getTarget := 3 }] }
    | 1 =>
      { pointer := 1, getName := some "dyld_stub_binding_helper", getSection := 2,
        getSectionName := "__dyld", getSegmentName := "__DATA" }
    | atom =>
      { pointer := atom, getName := some "_callee", getDefinitionKind := .kExternalDefinition,
        getFile := 1, getSection := 3, getSectionName := "._imports", getSegmentName := "__LINKEDIT" }

theorem stubs_behind_text : ∃ image,
    synthesizeStubs helperWriter (callingImage "__text") [0, 1, 2] = .ok image ∧ Placed image := by
  refine ⟨_, rfl, (synthesized_placed_iff helperWriter (callingImage "__text") [0, 1, 2] _ rfl).mpr ?_⟩
  constructor
  · intro _
    exact ⟨[], 0, 1, [2], rfl, by decide, rfl⟩
  · intro _
    exact ⟨[0, 0], 1, 2, [], rfl, by decide, Or.inr rfl⟩

/-- With the code in `__StaticInit` the stub and its helper are not in the image that the call is
then in. -/
theorem stub_without_text_lost : ∃ image,
    synthesizeStubs helperWriter (callingImage "__StaticInit") [0, 1, 2] = .ok image ∧
      image.references.map (fun seen => seen.2.getTarget) =
        image.fAllSynthesizedStubs.map AtomRef.synthesized ∧
      (∀ stub ∈ image.fAllSynthesizedStubs, AtomRef.synthesized stub ∉ image.fAllAtoms) ∧
      ¬ Placed image := by
  refine ⟨_, rfl, rfl, by decide, ?_⟩
  intro hplaced
  have honce := hplaced.once
    ⟨0, .stub (some 3) false, "_callee$stub"⟩ (by decide)
  exact absurd honce (by decide)

end Toolwhip.Ld64.Stubs
