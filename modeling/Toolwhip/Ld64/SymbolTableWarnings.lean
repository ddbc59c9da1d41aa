import Toolwhip.Ld64.SymbolTable

/-! # The warnings of SymbolTable::add

What is printed when two definitions of one name meet, and which of it a sequence of
common definitions gets to see. -/

namespace Toolwhip.Ld64.SymbolTable
open List
set_option autoImplicit false

/-- The warnings of `add`, each with what is filled into its text. -/
inductive Warning where
  | tentativeIsLarger (displayName : String) (size : Nat) (path : String) (realSize : Nat)
      (realPath : String)
  | tentativeIsReplaced (displayName : String) (size : Nat) (path : String) (realSize : Nat)
      (realPath : String)
  | alignmentLost (displayName : String)
  | usingCommon (name path dylibPath : String)
  | replacingCommon (name path dylibPath : String)
  | replacingDylib (name dylibPath path : String)
  | differentVisibility (displayName : String) (scope : Scope) (path : String)
      (existingScope : Scope) (existingPath : String)
  deriving DecidableEq

def visibility (scope : Scope) : String :=
  if scope = .scopeLinkageUnit then "hidden" else "default"

def Warning.text : Warning → String
  | .tentativeIsLarger displayName size path realSize realPath =>
    "for symbol " ++ displayName ++ " tentative definition of size " ++ toString size ++ " from " ++
      path ++ " is is smaller than the real definition of size " ++ toString realSize ++ " from " ++
      realPath
  | .tentativeIsReplaced displayName size path realSize realPath =>
    "for symbol " ++ displayName ++ " tentative definition of size " ++ toString size ++ " from " ++
      path ++ " is being replaced by a real definition of size " ++ toString realSize ++ " from " ++
      realPath
  | .alignmentLost displayName => "alignment lost in merging tentative definition " ++ displayName
  | .usingCommon name path dylibPath =>
    "using common symbol " ++ name ++ " from " ++ path ++
      " and ignoring defintion from dylib " ++ dylibPath
  | .replacingCommon name path dylibPath =>
    "replacing common symbol " ++ name ++ " from " ++ path ++
      " with true definition from dylib " ++ dylibPath
  | .replacingDylib name dylibPath path =>
    "replacing defintion of " ++ name ++ " from dylib " ++ dylibPath ++
      " with common symbol from " ++ path
  | .differentVisibility displayName scope path existingScope existingPath =>
    displayName ++ " has different visibility (" ++ visibility scope ++ ") in " ++ path ++ " and (" ++
      visibility existingScope ++ ") in " ++ existingPath

section Warnings
variable (objs : Objects) (mode : CommonsMode) (warnCommons : Bool)
  (getDisplayName : AtomPtr → String) (scope : AtomPtr → Scope)

/-- A dylib's definition stands in the table when a common is added. -/
def dylibAndTent (existing new : AtomPtr) : List Warning :=
  match warnCommons, mode with
  | true, .kCommonsIgnoreDylibs =>
    [.usingCommon (objs.nameOf new) (objs.pathOf new) (objs.pathOf existing)]
  | true, .kCommonsOverriddenByDylibs =>
    [.replacingDylib (objs.nameOf new) (objs.pathOf existing) (objs.pathOf new)]
  | _, _ => []

def tentAndDylib (existing new : AtomPtr) : List Warning :=
  match warnCommons, mode with
  | true, .kCommonsIgnoreDylibs =>
    [.usingCommon (objs.nameOf existing) (objs.pathOf existing) (objs.pathOf new)]
  | true, .kCommonsOverriddenByDylibs =>
    [.replacingCommon (objs.nameOf existing) (objs.pathOf existing) (objs.pathOf new)]
  | _, _ => []

/-- The warnings of the switch over `AllDefinitionCombinations`. -/
def switchWarnings (existing new : AtomPtr) : List Warning :=
  match (objs.atom existing).getDefinitionKind, (objs.atom new).getDefinitionKind with
  | .kRegularDefinition, .kTentativeDefinition =>
    if (objs.atom existing).getSize < (objs.atom new).getSize then
      [.tentativeIsLarger (getDisplayName new) (objs.atom new).getSize (objs.pathOf new)
        (objs.atom existing).getSize (objs.pathOf existing)]
    else []
  | .kTentativeDefinition, .kRegularDefinition =>
    if (objs.atom new).getSize < (objs.atom existing).getSize then
      [.tentativeIsReplaced (getDisplayName new) (objs.atom existing).getSize
        (objs.pathOf existing) (objs.atom new).getSize (objs.pathOf new)]
    else []
  | .kTentativeDefinition, .kTentativeDefinition =>
    -- only the atom that is replaced is looked at
    if (objs.atom new).getSize < (objs.atom existing).getSize then []
    else if (objs.atom new).getAlignment.trailingZeros <
        (objs.atom existing).getAlignment.trailingZeros then
      [.alignmentLost (getDisplayName new)]
    else []
  | .kTentativeDefinition, .kExternalDefinition
  | .kTentativeDefinition, .kExternalWeakDefinition => tentAndDylib objs mode warnCommons existing new
  | .kExternalDefinition, .kTentativeDefinition
  | .kExternalWeakDefinition, .kTentativeDefinition => dylibAndTent objs mode warnCommons existing new
  | _, _ => []

def checkVisibilityMismatch (existing new : DefinitionKind) : Bool :=
  match existing, new with
  | .kRegularDefinition, .kTentativeDefinition => true
  | .kWeakDefinition, .kWeakDefinition => true
  | .kTentativeDefinition, .kRegularDefinition => true
  | .kTentativeDefinition, .kTentativeDefinition => true
  | _, _ => false

def visibilityWarnings (existing new : AtomPtr) : List Warning :=
  if checkVisibilityMismatch (kindOf objs existing) (kindOf objs new) ∧ scope new ≠ scope existing
  then [.differentVisibility (getDisplayName new) (scope new) (objs.pathOf new) (scope existing)
    (objs.pathOf existing)]
  else []

/-- All that is printed when `new` meets `existing`. -/
def mergeWarnings (existing new : AtomPtr) : List Warning :=
  switchWarnings objs mode warnCommons getDisplayName existing new ++
    visibilityWarnings objs getDisplayName scope existing new

/-- A call of `add` that met an atom of the same name. -/
structure Merge where
  existing : AtomPtr
  newAtom : AtomPtr
  useNew : Bool
  warnings : List Warning
  deriving DecidableEq

def Merge.survivor (m : Merge) : AtomPtr := if m.useNew then m.newAtom else m.existing
def Merge.discarded (m : Merge) : AtomPtr := if m.useNew then m.existing else m.newAtom

/-- `add`, with what it met and printed. -/
def addMerging (t : SymbolTable) (newAtom : AtomPtr) :
    Except LinkError (SymbolTable × Option Merge) :=
  (add objs mode (scope newAtom) t newAtom).map fun r =>
    (r.table, (t.find (objs.nameOf newAtom)).map fun existing =>
      { existing, newAtom, useNew := r.useNew,
        warnings := mergeWarnings objs mode warnCommons getDisplayName scope existing newAtom })

def addAllMerging : SymbolTable → List AtomPtr → Except LinkError (SymbolTable × List Merge)
  | t, [] => .ok (t, [])
  | t, a :: l => do
    let first ← addMerging objs mode warnCommons getDisplayName scope t a
    let rest ← addAllMerging first.1 l
    .ok (rest.1, first.2.toList ++ rest.2)

end Warnings

section Commons
variable (objs : Objects)

def trailingZerosOf (a : AtomPtr) : Nat := (objs.atom a).getAlignment.trailingZeros
def atomSize (a : AtomPtr) : Nat := (objs.atom a).getSize

def Merge.LosesAlignment (m : Merge) : Prop :=
  trailingZerosOf objs m.survivor < trailingZerosOf objs m.discarded

def SmallerButMoreAligned (existing new : AtomPtr) : Prop :=
  atomSize objs new < atomSize objs existing ∧ trailingZerosOf objs existing < trailingZerosOf objs new

def Merge.WarnsOfAlignment (getDisplayName : AtomPtr → String) (m : Merge) : Prop :=
  .alignmentLost (getDisplayName m.newAtom) ∈ m.warnings

/-- The tentative definitions of one name. -/
structure CommonsOf (name : String) (atoms : List AtomPtr) : Prop where
  named : ∀ a ∈ atoms, (objs.atom a).getName = some name
  tentative : ∀ a ∈ atoms, kindOf objs a = .kTentativeDefinition

variable {objs}

theorem CommonsOf.tail {name : String} {a : AtomPtr} {atoms : List AtomPtr}
    (h : CommonsOf objs name (a :: atoms)) : CommonsOf objs name atoms where
  named := fun b hb => h.named b (mem_cons_of_mem a hb)
  tentative := fun b hb => h.tentative b (mem_cons_of_mem a hb)

theorem CommonsOf.head_named {name : String} {a : AtomPtr} {atoms : List AtomPtr}
    (h : CommonsOf objs name (a :: atoms)) : objs.nameOf a = name :=
  Objects.nameOf_eq (h.named a mem_cons_self)

variable {existing new : AtomPtr}

theorem useNew_tentative (mode : CommonsMode) (he : kindOf objs existing = .kTentativeDefinition)
    (hn : kindOf objs new = .kTentativeDefinition) :
    useNew objs mode existing new = .ok (decide (¬ atomSize objs new < atomSize objs existing)) := by
  unfold kindOf at he hn
  unfold useNew atomSize
  rw [he, hn]

variable {mode : CommonsMode} {warnCommons : Bool} {getDisplayName : AtomPtr → String}
  {scope : AtomPtr → Scope}

theorem alignmentLost_mem_mergeWarnings (he : kindOf objs existing = .kTentativeDefinition)
    (hn : kindOf objs new = .kTentativeDefinition) (displayName : String) :
    .alignmentLost displayName ∈
        mergeWarnings objs mode warnCommons getDisplayName scope existing new ↔
      displayName = getDisplayName new ∧ ¬ atomSize objs new < atomSize objs existing ∧
        trailingZerosOf objs new < trailingZerosOf objs existing := by
  have hvis : .alignmentLost displayName ∉
      visibilityWarnings objs getDisplayName scope existing new := by
    unfold visibilityWarnings
    split <;> simp
  have hswitch : .alignmentLost displayName ∈
      switchWarnings objs mode warnCommons getDisplayName existing new ↔
        displayName = getDisplayName new ∧ ¬ atomSize objs new < atomSize objs existing ∧
          trailingZerosOf objs new < trailingZerosOf objs existing := by
    unfold kindOf at he hn
    unfold switchWarnings atomSize trailingZerosOf
    rw [he, hn]
    dsimp only
    split_ifs with hsize halign
    · simp [hsize]
    · simp [hsize, halign]
    · simp [halign]
  unfold mergeWarnings
  rw [mem_append, or_iff_left hvis, hswitch]

/-- What one merge of commons does, and when its loss of alignment is told. -/
structure CommonsMerge (objs : Objects) (getDisplayName : AtomPtr → String)
    (existing new : AtomPtr) (m : Merge) : Prop where
  existing : m.existing = existing
  newAtom : m.newAtom = new
  largest : atomSize objs m.existing ≤ atomSize objs m.survivor ∧
    atomSize objs m.newAtom ≤ atomSize objs m.survivor
  warned : (m.LosesAlignment objs → m.WarnsOfAlignment getDisplayName) ↔
    ¬ SmallerButMoreAligned objs m.existing m.newAtom

theorem commonsMerge_of_useNew {existing new : AtomPtr}
    (he : kindOf objs existing = .kTentativeDefinition)
    (hn : kindOf objs new = .kTentativeDefinition) : CommonsMerge objs getDisplayName existing new
      { existing, newAtom := new,
        useNew := decide (¬ atomSize objs new < atomSize objs existing),
        warnings := mergeWarnings objs mode warnCommons getDisplayName scope existing new } := by
  refine ⟨rfl, rfl, ?_, ?_⟩
  · unfold Merge.survivor
    by_cases hsize : atomSize objs new < atomSize objs existing
    · simp only [hsize, not_true_eq_false, decide_false, Bool.false_eq_true, if_false]
      omega
    · simp only [hsize, not_false_eq_true, decide_true, if_true]
      omega
  · unfold Merge.LosesAlignment Merge.WarnsOfAlignment Merge.survivor Merge.discarded
      SmallerButMoreAligned
    rw [alignmentLost_mem_mergeWarnings he hn]
    by_cases hsize : atomSize objs new < atomSize objs existing
    · simp [hsize]
    · simp [hsize]

theorem addMerging_tentative {t : SymbolTable} {existing new : AtomPtr}
    (ht : t.find (objs.nameOf new) = some existing)
    (he : kindOf objs existing = .kTentativeDefinition)
    (hn : kindOf objs new = .kTentativeDefinition) :
    ∃ t' m, addMerging objs mode warnCommons getDisplayName scope t new = .ok (t', some m) ∧
      t'.find (objs.nameOf new) = some m.survivor ∧
      CommonsMerge objs getDisplayName existing new m := by
  have hm := @commonsMerge_of_useNew objs mode warnCommons getDisplayName scope _ _ he hn
  unfold addMerging add
  simp only [find_noteExternal, ht, useNew_tentative mode he hn]
  by_cases hsize : atomSize objs new < atomSize objs existing
  · simp only [hsize, not_true_eq_false, decide_false] at hm ⊢
    refine ⟨_, _, rfl, ?_, hm⟩
    simpa [Merge.survivor] using ht
  · simp only [hsize, not_false_eq_true, decide_true] at hm ⊢
    refine ⟨_, _, rfl, ?_, hm⟩
    simp [Merge.survivor]

theorem kindOf_survivor {m : Merge} (hm : CommonsMerge objs getDisplayName existing new m)
    (he : kindOf objs existing = .kTentativeDefinition)
    (hn : kindOf objs new = .kTentativeDefinition) :
    kindOf objs m.survivor = .kTentativeDefinition := by
  unfold Merge.survivor
  rw [hm.existing, hm.newAtom]
  split
  · exact hn
  · exact he

theorem survivor_mem {m : Merge} (hm : CommonsMerge objs getDisplayName existing new m) :
    m.survivor = existing ∨ m.survivor = new := by
  unfold Merge.survivor
  rw [hm.existing, hm.newAtom]
  split
  · exact Or.inr rfl
  · exact Or.inl rfl

/-- What a run of commons leaves in the table, and which of its losses are told. -/
structure CommonsRun (objs : Objects) (getDisplayName : AtomPtr → String) (name : String)
    (atoms : List AtomPtr) (t' : SymbolTable) (merges : List Merge) : Prop where
  largest : ∃ a ∈ atoms, t'.find name = some a ∧ ∀ b ∈ atoms, atomSize objs b ≤ atomSize objs a
  warned : (∀ m ∈ merges, m.LosesAlignment objs → m.WarnsOfAlignment getDisplayName) ↔
    ∀ m ∈ merges, ¬ SmallerButMoreAligned objs m.existing m.newAtom

theorem addAllMerging_tentative {name : String} {atoms : List AtomPtr} {t : SymbolTable}
    {existing : AtomPtr} (hatoms : CommonsOf objs name atoms) (ht : t.find name = some existing)
    (he : kindOf objs existing = .kTentativeDefinition) : ∃ t' merges,
      addAllMerging objs mode warnCommons getDisplayName scope t atoms = .ok (t', merges) ∧
      CommonsRun objs getDisplayName name (existing :: atoms) t' merges := by
  induction atoms generalizing t existing with
  | nil =>
    refine ⟨t, [], rfl, ?_, ?_⟩
    · refine ⟨existing, mem_cons_self, ht, ?_⟩
      intro b hb
      rw [List.mem_singleton.mp hb]
    · simp
  | cons a l ih =>
    have hname := hatoms.head_named
    have ha := hatoms.tentative a mem_cons_self
    rw [← hname] at ht
    obtain ⟨t₁, m, hadd, hfind, hm⟩ :=
      @addMerging_tentative objs mode warnCommons getDisplayName scope _ _ _ ht he ha
    rw [hname] at hfind
    obtain ⟨t', merges, hrest, hrun⟩ := ih hatoms.tail hfind (kindOf_survivor hm he ha)
    refine ⟨t', m :: merges, ?_, ?_, ?_⟩
    · unfold addAllMerging
      rw [hadd]
      simp only [bind, Except.bind, hrest]
      rfl
    · obtain ⟨b, hb, hfindb, hmax⟩ := hrun.largest
      refine ⟨b, ?_, hfindb, ?_⟩
      · rcases List.mem_cons.mp hb with rfl | hb
        · rcases survivor_mem hm with h | h <;> simp [h]
        · exact mem_cons_of_mem _ (mem_cons_of_mem _ hb)
      · -- both atoms of the first merge are at most as large as its survivor
        have hlargest := hm.largest
        have hsurvivor := hmax m.survivor mem_cons_self
        rw [hm.existing, hm.newAtom] at hlargest
        intro c hc
        rcases List.mem_cons.mp hc with rfl | hc
        · exact Nat.le_trans hlargest.1 hsurvivor
        rcases List.mem_cons.mp hc with rfl | hc
        · exact Nat.le_trans hlargest.2 hsurvivor
        · exact hmax c (mem_cons_of_mem _ hc)
    · rw [forall_mem_cons, forall_mem_cons, hm.warned, hrun.warned]

/-- Commons of one name: the one with the greatest size is left, and every loss of alignment
is told if and only if no atom is added that is smaller and more aligned than the one in the
table. -/
theorem commons_warned {name : String} {atoms : List AtomPtr} {t : SymbolTable}
    (hatoms : CommonsOf objs name atoms) (hne : atoms ≠ []) (ht : t.find name = none) : ∃ t' merges,
      addAllMerging objs mode warnCommons getDisplayName scope t atoms = .ok (t', merges) ∧
      CommonsRun objs getDisplayName name atoms t' merges := by
  cases atoms with
  | nil => exact absurd rfl hne
  | cons a l =>
    have hname := hatoms.head_named
    have ha := hatoms.tentative a mem_cons_self
    have hadd : addMerging objs mode warnCommons getDisplayName scope t a =
        .ok ((t.noteExternal (scope a) (kindOf objs a)).set name a, none) := by
      unfold addMerging add
      simp only [find_noteExternal, hname, ht]
      rfl
    obtain ⟨t', merges, hrest, hrun⟩ := @addAllMerging_tentative objs mode warnCommons
      getDisplayName scope _ _ ((t.noteExternal (scope a) (kindOf objs a)).set name a) a
      hatoms.tail (find_set_self _ _ _) ha
    refine ⟨t', merges, ?_, hrun⟩
    unfold addAllMerging
    rw [hadd]
    simp only [bind, Except.bind, hrest]
    rfl

/-- Two commons for `_buffer`: the second one is smaller and aligned to more. -/
def alignedCommon : Objects where
  atom a := {
    getName := some "_buffer"
    getScope := .scopeGlobal
    getDefinitionKind := .kTentativeDefinition
    getSize := if a = 1 then 8 else 4
    getAlignment := if a = 1 then ⟨2, 0⟩ else ⟨4, 0⟩ }

theorem alignedCommon_commons (atoms : List AtomPtr) : CommonsOf alignedCommon "_buffer" atoms where
  named := fun _ _ => rfl
  tentative := fun _ _ => rfl

theorem commons_warned_aligned : ∃ t' merges,
    addAllMerging alignedCommon .kCommonsIgnoreDylibs false alignedCommon.nameOf
      (fun _ => .scopeGlobal) {} [2, 1] = .ok (t', merges) ∧
    CommonsRun alignedCommon alignedCommon.nameOf "_buffer" [2, 1] t' merges :=
  commons_warned (alignedCommon_commons _) (by simp) rfl

/-- The alignment of the atom that comes second is lost without a word. -/
theorem smaller_common_unwarned : ∃ t' merges,
    addAllMerging alignedCommon .kCommonsIgnoreDylibs false alignedCommon.nameOf
      (fun _ => .scopeGlobal) {} [1, 2] = .ok (t', merges) ∧
    ∃ m ∈ merges, m.LosesAlignment alignedCommon ∧
      ¬ m.WarnsOfAlignment alignedCommon.nameOf := by
  refine ⟨_, [⟨1, 2, false, []⟩], rfl, _, mem_cons_self, ?_, ?_⟩
  · change 2 < 4
    decide
  · exact not_mem_nil

end Commons
end Toolwhip.Ld64.SymbolTable
