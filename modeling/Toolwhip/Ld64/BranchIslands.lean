import Toolwhip.Ld64.RelocsPpc

/-! # addPPCBranchIslands: the islands

A `bl` that is too far from its target goes to an island, a branch of its own, in one of the regions
that are kept for them in the `__text` section. Addresses are numbers, as none of them is near
`2 ^ 63`. -/

namespace Toolwhip.Ld64.BranchIslands
open Function List
set_option autoImplicit false

def kBetweenRegions : Nat := 15 * 1024 * 1024

/-- A target as `TargetAndOffset`, with the offset in 32 bits. -/
structure TargetAndOffset where
  atom : AtomPtr
  offset : BitVec 32
  deriving DecidableEq

structure Reference where
  getKind : Reloc.Ppc.ReferenceKinds
  getFixUpOffset : Nat
  finalTargetAndOffset : TargetAndOffset
  deriving DecidableEq

structure Atom where
  getAddress : Nat
  getReferences : List Reference := []

/-- The segment of the load commands and its `__text` section, laid out. `Linker::tweakLayout` has
refused an image with more than 2 GB of content. -/
structure TextSegment where
  fBaseAddress : Nat
  fSize : Nat
  textBase : Nat
  base_le : fBaseAddress ≤ textBase
  size_lt : fSize < 2 ^ 32

/-- Where a branch goes: to a target of the program, or to the island of that number. -/
inductive Target where
  | atom (target : TargetAndOffset)
  | island (number : Nat)
  deriving DecidableEq

structure BranchIslandAtom where
  islandRegion : Nat
  fTarget : Target
  deriving DecidableEq

/-- The islands are numbered in the order in which they are made. -/
structure Islands where
  islands : List BranchIslandAtom := []
  regionsMap : Nat → TargetAndOffset → Option Nat := fun _ _ => none
  regionsIslands : Nat → List Nat := fun _ => []
  /-- The references that were seen, with the atoms they are in and where they go now. -/
  references : List ((AtomPtr × Reference) × Target) := []

def isBranch24Reference : Reloc.Ppc.ReferenceKinds → Bool
  | .kBranch24 | .kBranch24WeakImport => true
  | _ => false

section Chains
variable (seg : TextSegment) (atoms : AtomPtr → Atom)

def TextSegment.kIslandRegionsCount : Nat := seg.fSize / kBetweenRegions

/-- The island of the region for this target, a new one if there is none. -/
def findOrAddIsland (finalTargetAndOffset : TargetAndOffset) (nextTarget : Target) (i : Nat)
    (st : Islands) : Islands × Target :=
  match st.regionsMap i finalTargetAndOffset with
  | some number => (st, .island number)
  | none =>
    let number := st.islands.length
    ({ st with
        islands := st.islands ++ [⟨i, nextTarget⟩]
        regionsMap := update st.regionsMap i
          (update (st.regionsMap i) finalTargetAndOffset (some number))
        regionsIslands := update st.regionsIslands i (st.regionsIslands i ++ [number]) },
      .island number)

def visitRegion (finalTargetAndOffset : TargetAndOffset) (inRange : Nat → Bool)
    (st : Islands × Target) (i : Nat) : Islands × Target :=
  if inRange i then findOrAddIsland finalTargetAndOffset st.2 i st.1 else st

/-- `kBetweenRegions * (i+1)`, in 32 bits -/
def regionOffset (i : Nat) : Nat := kBetweenRegions * (i + 1) % 2 ^ 32

def inForwardRange (srcAddr dstAddr : Int) (i : Nat) : Bool :=
  let islandRegionAddr : Int := regionOffset i + seg.textBase
  srcAddr < islandRegionAddr && islandRegionAddr ≤ dstAddr

def inBackRange (srcAddr dstAddr : Int) (i : Nat) : Bool :=
  let islandRegionAddr : Int := regionOffset i
  dstAddr ≤ islandRegionAddr && islandRegionAddr < srcAddr

def forwardChain (srcAddr dstAddr : Int) (finalTargetAndOffset : TargetAndOffset) (st : Islands) :
    Islands × Target :=
  (List.range seg.kIslandRegionsCount).reverse.foldl
    (visitRegion finalTargetAndOffset (inForwardRange seg srcAddr dstAddr))
    (st, .atom finalTargetAndOffset)

def backChain (srcAddr dstAddr : Int) (finalTargetAndOffset : TargetAndOffset) (st : Islands) :
    Islands × Target :=
  (List.range seg.kIslandRegionsCount).foldl
    (visitRegion finalTargetAndOffset (inBackRange srcAddr dstAddr))
    (st, .atom finalTargetAndOffset)

def srcAddr (atom : AtomPtr) (ref : Reference) : Int :=
  (atoms atom).getAddress + ref.getFixUpOffset

def dstAddr (target : TargetAndOffset) : Int :=
  (atoms target.atom).getAddress + target.offset.toInt

def retarget (st : Islands) (atom : AtomPtr) (ref : Reference) : Islands × Target :=
  let srcAddr := srcAddr atoms atom ref
  let dstAddr := dstAddr atoms ref.finalTargetAndOffset
  let displacement := dstAddr - srcAddr
  let kFifteenMegLimit : Int := kBetweenRegions
  if displacement > kFifteenMegLimit then
    forwardChain seg srcAddr dstAddr ref.finalTargetAndOffset st
  else if displacement < -kFifteenMegLimit then
    backChain seg srcAddr dstAddr ref.finalTargetAndOffset st
  else (st, .atom ref.finalTargetAndOffset)

def visitReference (st : Islands) (seen : AtomPtr × Reference) : Islands :=
  let result := if isBranch24Reference seen.2.getKind then retarget seg atoms st seen.1 seen.2
    else (st, .atom seen.2.finalTargetAndOffset)
  { result.1 with references := result.1.references ++ [(seen, result.2)] }

def allReferences (fAllAtoms : List AtomPtr) : List (AtomPtr × Reference) :=
  fAllAtoms.flatMap fun atom => (atoms atom).getReferences.map fun ref => (atom, ref)

def createIslands (fAllAtoms : List AtomPtr) : Islands :=
  if seg.fSize > 16000000 then (allReferences atoms fAllAtoms).foldl (visitReference seg atoms) {}
  else { references := (allReferences atoms fAllAtoms).map fun seen =>
    (seen, .atom seen.2.finalTargetAndOffset) }

end Chains
/-! ## Islands that are shared

The islands for one target are linked alike whichever reference asked for them first: each goes to the
one in the next region toward the target. Both loops go through the regions from the target on; `reg`
tells which region is the `j`-th of them. -/

section Grows

/-- Islands and entries stay. -/
structure Grows (st st' : Islands) : Prop where
  islands : ∀ (number : Nat) island, st.islands[number]? = some island →
    st'.islands[number]? = some island
  entries : ∀ i target number, st.regionsMap i target = some number →
    st'.regionsMap i target = some number

theorem Grows.refl (st : Islands) : Grows st st := ⟨fun _ _ => id, fun _ _ _ => id⟩

theorem Grows.trans {st st' st'' : Islands} (h : Grows st st') (h' : Grows st' st'') :
    Grows st st'' :=
  ⟨fun number island hisland => h'.islands number island (h.islands number island hisland),
    fun i target number hentry => h'.entries i target number (h.entries i target number hentry)⟩

def toward (st : Islands) (target : TargetAndOffset) : Option Nat → Option Target
  | none => some (.atom target)
  | some i => (st.regionsMap i target).map .island

theorem Grows.toward {st st' : Islands} (h : Grows st st') {target : TargetAndOffset}
    {region : Option Nat} {next : Target} (hnext : toward st target region = some next) :
    toward st' target region = some next := by
  cases region with
  | none => exact hnext
  | some i =>
    obtain ⟨number, hentry, hnumber⟩ := Option.map_eq_some_iff.mp hnext
    exact Option.map_eq_some_iff.mpr ⟨number, h.entries i target number hentry, hnumber⟩

end Grows

section Links
variable (seg : TextSegment) (atoms : AtomPtr → Atom)
variable {next : Target} {j : Nat}

def NearForward (target : TargetAndOffset) (i : Nat) : Prop :=
  i < seg.kIslandRegionsCount ∧ (regionOffset i : Int) + seg.textBase ≤ dstAddr atoms target

def NearBack (target : TargetAndOffset) (i : Nat) : Prop :=
  i < seg.kIslandRegionsCount ∧ dstAddr atoms target ≤ regionOffset i

open Classical in
noncomputable def nextForward (target : TargetAndOffset) (i : Nat) : Option Nat :=
  if NearForward seg atoms target (i + 1) then some (i + 1) else none

open Classical in
noncomputable def nextBack (target : TargetAndOffset) (i : Nat) : Option Nat :=
  if 0 < i ∧ NearBack seg atoms target (i - 1) then some (i - 1) else none

/-- From region `i` on toward the target, whichever side it is on. -/
structure Linked (st : Islands) (target : TargetAndOffset) (i : Nat) (next : Target) : Prop where
  forward : NearForward seg atoms target i →
    toward st target (nextForward seg atoms target i) = some next
  back : NearBack seg atoms target i → toward st target (nextBack seg atoms target i) = some next

def Consistent (st : Islands) : Prop :=
  ∀ i target number, st.regionsMap i target = some number →
    ∃ next, st.islands[number]? = some ⟨i, next⟩ ∧ Linked seg atoms st target i next

variable {seg atoms}

variable {st : Islands} {target : TargetAndOffset} {i : Nat}

theorem Linked.grow {st' : Islands}
    (h : Linked seg atoms st target i next) (hgrows : Grows st st') :
    Linked seg atoms st' target i next :=
  ⟨fun hnear => hgrows.toward (h.forward hnear), fun hnear => hgrows.toward (h.back hnear)⟩

def addIsland (st : Islands) (target : TargetAndOffset) (i : Nat) (next : Target) : Islands :=
  { st with
    islands := st.islands ++ [⟨i, next⟩]
    regionsMap := update st.regionsMap i
      (update (st.regionsMap i) target (some st.islands.length))
    regionsIslands := update st.regionsIslands i (st.regionsIslands i ++ [st.islands.length]) }

theorem addIsland_entry (st : Islands) (target : TargetAndOffset) (i : Nat) (next : Target)
    (i' : Nat) (target' : TargetAndOffset) : (addIsland st target i next).regionsMap i' target' =
      if i' = i ∧ target' = target then some st.islands.length else st.regionsMap i' target' := by
  change update st.regionsMap i _ i' target' = _
  by_cases hi : i' = i
  · subst hi
    rw [update_self]
    by_cases htarget : target' = target
    · subst htarget
      rw [update_self, if_pos ⟨rfl, rfl⟩]
    · rw [update_of_ne htarget, if_neg fun h => htarget h.2]
  · rw [update_of_ne hi, if_neg fun h => hi h.1]

theorem addIsland_grows (next : Target)
    (hnone : st.regionsMap i target = none) : Grows st (addIsland st target i next) := by
  constructor
  · intro number island hisland
    obtain ⟨hlt, -⟩ := List.getElem?_eq_some_iff.mp hisland
    exact (getElem?_append_left hlt).trans hisland
  · intro i' target' number hentry
    rw [addIsland_entry, if_neg]
    · exact hentry
    · rintro ⟨rfl, rfl⟩
      rw [hnone] at hentry
      cases hentry

theorem addIsland_consistent (h : Consistent seg atoms st) (hnone : st.regionsMap i target = none)
    (hlinked : Linked seg atoms st target i next) :
    Consistent seg atoms (addIsland st target i next) := by
  have hgrows := addIsland_grows next hnone
  intro i' target' number hentry
  rw [addIsland_entry] at hentry
  split at hentry
  · rename_i hsame
    obtain ⟨rfl, rfl⟩ := hsame
    obtain rfl := Option.some.inj hentry
    exact ⟨next, getElem?_concat_length, hlinked.grow hgrows⟩
  · obtain ⟨next', hisland, hlinked'⟩ := h i' target' number hentry
    exact ⟨next', hgrows.islands _ _ hisland, hlinked'.grow hgrows⟩

variable (seg atoms) in
/-- What a loop knows of the state that it started from and of the one it is in. -/
structure Went (st : Islands) (target : TargetAndOffset) (region : Option Nat)
    (st' : Islands × Target) : Prop where
  consistent : Consistent seg atoms st'.1
  grows : Grows st st'.1
  references : st'.1.references = st.references
  next : toward st'.1 target region = some st'.2

theorem Went.find {st : Islands} {target : TargetAndOffset} {region : Option Nat}
    {st' : Islands × Target} (h : Went seg atoms st target region st') {i : Nat}
    (hlinked : Linked seg atoms st'.1 target i st'.2) : Went seg atoms st target (some i)
      (findOrAddIsland target st'.2 i st'.1) := by
  unfold findOrAddIsland
  cases hentry : st'.1.regionsMap i target with
  | some number =>
    refine ⟨h.consistent, h.grows, h.references, ?_⟩
    change (st'.1.regionsMap i target).map _ = _
    rw [hentry]
    rfl
  | none =>
    refine ⟨addIsland_consistent h.consistent hentry hlinked,
      h.grows.trans (addIsland_grows _ hentry), h.references, ?_⟩
    change ((addIsland st'.1 target i st'.2).regionsMap i target).map _ = _
    rw [addIsland_entry, if_pos ⟨rfl, rfl⟩]
    rfl

def lastBefore (inRange : Nat → Prop) [DecidablePred inRange] : Nat → Option Nat
  | 0 => none
  | j + 1 => if inRange j then some j else lastBefore inRange j

section LastBefore
variable {inRange : Nat → Prop} [DecidablePred inRange] {j k : Nat}

theorem lastBefore_some (h : lastBefore inRange j = some k) :
    k < j ∧ inRange k ∧ ∀ i, k < i → i < j → ¬ inRange i := by
  induction j with
  | zero => cases h
  | succ j ih =>
    rw [lastBefore] at h
    split at h
    · rename_i hj
      obtain rfl := Option.some.inj h
      refine ⟨Nat.lt_succ_self j, hj, ?_⟩
      omega
    rename_i hj
    obtain ⟨hlt, hk, hbetween⟩ := ih h
    refine ⟨by omega, hk, ?_⟩
    intro i hki hij
    by_cases hlast : i = j
    · rw [hlast]
      exact hj
    · exact hbetween i hki (by omega)

theorem lastBefore_none (h : lastBefore inRange j = none) : ∀ i < j, ¬ inRange i := by
  induction j with
  | zero =>
    omega
  | succ j ih =>
    rw [lastBefore] at h
    split at h
    · cases h
    rename_i hj
    intro i hi
    by_cases hlast : i = j
    · rw [hlast]
      exact hj
    · exact ih h i (by omega)

theorem lastBefore_eq (near before : Nat → Prop) [DecidablePred near] {count : Nat}
    (hrange : ∀ j, inRange j ↔ near j ∧ before j)
    (hnear : ∀ j, j + 1 < count → near j → near (j + 1))
    (hbefore : ∀ j, j + 1 < count → before (j + 1) → before j) (hcount : j < count)
    (hj : before j) :
    lastBefore inRange j = if 0 < j ∧ near (j - 1) then some (j - 1) else none := by
  cases j with
  | zero => rfl
  | succ j =>
    rw [lastBefore]
    by_cases hlast : near j
    · rw [if_pos ((hrange j).mpr ⟨hlast, hbefore j hcount hj⟩), if_pos ⟨Nat.succ_pos j, hlast⟩]
      rfl
    rw [if_neg fun h => hlast ((hrange j).mp h).1, if_neg fun h => hlast h.2]
    cases hnone : lastBefore inRange j with
    | none => rfl
    | some k =>
      obtain ⟨hlt, hk, -⟩ := lastBefore_some hnone
      have hup : ∀ i, k ≤ i → i ≤ j → near i := by
        intro i hki
        induction i, hki using Nat.le_induction with
        | base =>
          intro _
          exact ((hrange k).mp hk).1
        | succ i _ ih =>
          intro hij
          exact hnear i (by omega) (ih (by omega))
      exact absurd (hup j (by omega) (Nat.le_refl j)) hlast

end LastBefore

variable {count : Nat}

theorem went_loop {inRange : Nat → Bool} {reg : Nat → Nat}
    (hlinked : ∀ j < count, inRange (reg j) = true → ∀ st next,
      toward st target ((lastBefore (fun j => inRange (reg j) = true) j).map reg) = some next →
        Linked seg atoms st target (reg j) next)
    (hst : Consistent seg atoms st) {n : Nat} (hn : n ≤ count) :
    Went seg atoms st target ((lastBefore (fun j => inRange (reg j) = true) n).map reg)
      ((List.range n).foldl (fun s j => visitRegion target inRange s (reg j)) (st, .atom target)) := by
  induction n with
  | zero => exact ⟨hst, Grows.refl st, rfl, rfl⟩
  | succ n ih =>
    have hbefore := ih (by omega)
    rw [range_succ, foldl_append, foldl_cons, foldl_nil, lastBefore]
    generalize (List.range n).foldl (fun s j => visitRegion target inRange s (reg j))
      (st, .atom target) = st' at hbefore ⊢
    unfold visitRegion
    split
    · rename_i hrange
      exact hbefore.find (hlinked n (by omega) hrange st'.1 st'.2 hbefore.next)
    · exact hbefore

/-! ### The regions -/

theorem regionOffset_eq (hi : i < seg.kIslandRegionsCount) :
    regionOffset i = kBetweenRegions * (i + 1) := by
  apply Nat.mod_eq_of_lt
  have hle : kBetweenRegions * (i + 1) ≤ seg.fSize := by
    refine Nat.le_trans (Nat.mul_le_mul_left _ hi) ?_
    exact Nat.mul_div_le seg.fSize kBetweenRegions
  exact Nat.lt_of_le_of_lt hle seg.size_lt

theorem regionOffset_lt (hij : i < j) (hj : j < seg.kIslandRegionsCount) :
    regionOffset i < regionOffset j := by
  rw [regionOffset_eq (Nat.lt_trans hij hj), regionOffset_eq hj]
  unfold kBetweenRegions
  omega

theorem next_none
    (hforward : NearForward seg atoms target i) (hback : NearBack seg atoms target i) :
    nextForward seg atoms target i = none ∧ nextBack seg atoms target i = none := by
  obtain ⟨hi, hahead⟩ := hforward
  obtain ⟨-, hbehind⟩ := hback
  constructor
  · apply if_neg
    rintro ⟨hnext, hnear⟩
    have := regionOffset_lt (Nat.lt_add_one i) hnext
    omega
  · apply if_neg
    rintro ⟨hpos, hprev, hnear⟩
    have := regionOffset_lt (show i - 1 < i by omega) hi
    omega

theorem linked_of_forward (hnear : NearForward seg atoms target i)
    (hnext : toward st target (nextForward seg atoms target i) = some next) :
    Linked seg atoms st target i next := by
  refine ⟨fun _ => hnext, ?_⟩
  intro hback
  obtain ⟨hforward, hback⟩ := next_none hnear hback
  rw [hback]
  rw [hforward] at hnext
  exact hnext

theorem linked_of_back (hnear : NearBack seg atoms target i)
    (hnext : toward st target (nextBack seg atoms target i) = some next) :
    Linked seg atoms st target i next := by
  refine ⟨?_, fun _ => hnext⟩
  intro hforward
  obtain ⟨hforward, hback⟩ := next_none hforward hnear
  rw [hforward]
  rw [hback] at hnext
  exact hnext

def fromEnd (count j : Nat) : Nat := count - 1 - j

theorem fromEnd_lt (hj : j < count) : fromEnd count j < count := by
  unfold fromEnd
  omega

theorem fromEnd_fromEnd (hj : j < count) : fromEnd count (fromEnd count j) = j := by
  unfold fromEnd
  omega

theorem inForwardRange_iff (srcAddr dstAddr : Int) (i : Nat) :
    inForwardRange seg srcAddr dstAddr i = true ↔
      (regionOffset i : Int) + seg.textBase ≤ dstAddr ∧
        srcAddr < (regionOffset i : Int) + seg.textBase := by
  unfold inForwardRange
  rw [Bool.and_eq_true, decide_eq_true_eq, decide_eq_true_eq]
  exact And.comm

theorem inBackRange_iff (srcAddr dstAddr : Int) (i : Nat) : inBackRange srcAddr dstAddr i = true ↔
      dstAddr ≤ (regionOffset i : Int) ∧ (regionOffset i : Int) < srcAddr := by
  unfold inBackRange
  rw [Bool.and_eq_true, decide_eq_true_eq, decide_eq_true_eq]

theorem forward_linked (srcAddr : Int) (target : TargetAndOffset)
    (hj : j < seg.kIslandRegionsCount) (hrange : inForwardRange seg srcAddr (dstAddr atoms target)
      (fromEnd seg.kIslandRegionsCount j) = true) (st : Islands) (next : Target)
    (hnext : toward st target ((lastBefore (fun j => inForwardRange seg srcAddr
      (dstAddr atoms target) (fromEnd seg.kIslandRegionsCount j) = true) j).map
        (fromEnd seg.kIslandRegionsCount)) = some next) :
    Linked seg atoms st target (fromEnd seg.kIslandRegionsCount j) next := by
  obtain ⟨hnear, hbefore⟩ := (inForwardRange_iff _ _ _).mp hrange
  have hmono : ∀ j, j + 1 < seg.kIslandRegionsCount →
      regionOffset (fromEnd seg.kIslandRegionsCount (j + 1)) <
        regionOffset (fromEnd seg.kIslandRegionsCount j) := by
    intro j hj
    refine regionOffset_lt ?_ (fromEnd_lt (Nat.lt_of_succ_lt hj))
    unfold fromEnd
    omega
  apply linked_of_forward ⟨fromEnd_lt hj, hnear⟩
  rw [lastBefore_eq
    (fun j => (regionOffset (fromEnd seg.kIslandRegionsCount j) : Int) + seg.textBase ≤
      dstAddr atoms target)
    (fun j => srcAddr < (regionOffset (fromEnd seg.kIslandRegionsCount j) : Int) + seg.textBase)
    (fun j => inForwardRange_iff _ _ _) ?_ ?_ hj hbefore] at hnext
  · rw [← hnext]
    unfold nextForward NearForward
    by_cases hfirst : j = 0
    · rw [if_neg, if_neg]
      · rfl
      · omega
      · unfold fromEnd
        omega
    have hprev : fromEnd seg.kIslandRegionsCount j + 1 =
        fromEnd seg.kIslandRegionsCount (j - 1) := by
      unfold fromEnd
      omega
    rw [hprev]
    have hlt : fromEnd seg.kIslandRegionsCount (j - 1) < seg.kIslandRegionsCount :=
      fromEnd_lt (by omega)
    simp only [hlt, true_and, Nat.pos_of_ne_zero hfirst]
    split <;> rfl
  · intro i hi h
    have := hmono i hi
    omega
  · intro i hi h
    have := hmono i hi
    omega

theorem back_linked (srcAddr : Int) (target : TargetAndOffset) (hj : j < seg.kIslandRegionsCount)
    (hrange : inBackRange srcAddr (dstAddr atoms target) j = true) (st : Islands) (next : Target)
    (hnext : toward st target ((lastBefore (fun j => inBackRange srcAddr
      (dstAddr atoms target) j = true) j).map id) = some next) :
    Linked seg atoms st target j next := by
  obtain ⟨hnear, hbefore⟩ := (inBackRange_iff _ _ _).mp hrange
  apply linked_of_back ⟨hj, hnear⟩
  rw [lastBefore_eq (fun j => dstAddr atoms target ≤ (regionOffset j : Int))
    (fun j => (regionOffset j : Int) < srcAddr) (fun j => inBackRange_iff _ _ _) ?_ ?_ hj
    hbefore] at hnext
  · rw [← hnext, Option.map_id]
    unfold nextBack NearBack
    have hlt : j - 1 < seg.kIslandRegionsCount := by omega
    simp only [hlt, true_and]
    split <;> rfl
  · intro i hi h
    have := regionOffset_lt (Nat.lt_add_one i) hi
    omega
  · intro i hi h
    have := regionOffset_lt (Nat.lt_add_one i) hi
    omega

end Links
end Toolwhip.Ld64.BranchIslands
