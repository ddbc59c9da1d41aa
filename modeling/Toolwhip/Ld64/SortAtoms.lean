import Toolwhip.Ld64.FollowOn

/-! # Linker::sortAtoms

The override ordinals an order file assigns, and the comparator of the final
sort. `findAtom` is a parameter: the order file's entries enter only through
the atoms it finds for them. -/

namespace Toolwhip.Ld64
open Function
set_option autoImplicit false

structure OrderedSymbol where
  symbolName : String
  objectFileName : Option String := none
  deriving DecidableEq

/-- `theOrdinalOverrideMap` and the counter `index`, a `uint32_t`. -/
structure OverrideState where
  theOrdinalOverrideMap : AtomPtr → Option Nat := fun _ => none
  index : Nat := 0

def OverrideState.bump (st : OverrideState) : OverrideState :=
  { st with index := (st.index + 1) % 2 ^ 32 }

def OverrideState.assign (st : OverrideState) (atom : AtomPtr) : OverrideState :=
  { st with theOrdinalOverrideMap := update st.theOrdinalOverrideMap atom (some st.index) }

/-- The loop over a cluster: members that have no override get the next ones. -/
def layoutCluster (nexts : AtomPtr → Option AtomPtr) :
    Nat → Option AtomPtr → OverrideState → Option OverrideState
  | 0, _, _ => none
  | _ + 1, none, st => some st
  | fuel + 1, some nextAtom, st =>
    layoutCluster nexts fuel (nexts nextAtom)
      (match st.theOrdinalOverrideMap nextAtom with
        | none => (st.assign nextAtom).bump
        | some _ => st)

/-- One entry of the order file, for which `findAtom` returned `found`. -/
def processOrderedSymbol (c : Clusters) (fuel : Nat) (st : OverrideState)
    (found : Option AtomPtr) : Option OverrideState :=
  match found with
  | none => some st.bump
  | some atom =>
    match c.followOnStarts atom with
    | some start => (layoutCluster c.followOnNexts fuel (some start) st).map OverrideState.bump
    | none => some (st.assign atom).bump

/-- `ordinalOverrideMap`, which stays `NULL` without an order file. -/
def ordinalOverrideMap (c : Clusters) (fuel : Nat) (findAtom : OrderedSymbol → Option AtomPtr)
    (orderedSymbols : List OrderedSymbol) : Option (Option (AtomPtr → Option Nat)) :=
  if orderedSymbols = [] then some none
  else
    (orderedSymbols.foldlM (fun st symbol => processOrderedSymbol c fuel st (findAtom symbol))
      {}).map fun st => some st.theOrdinalOverrideMap

def isTentative (objs : Objects) (a : AtomPtr) : Bool :=
  (objs.atom a).getDefinitionKind = .kTentativeDefinition

/-- `AtomSorter::operator()`. -/
def atomSorter (objs : Objects) (sectionIndex : AtomPtr → Nat)
    (fOverriddenOrdinalMap : Option (AtomPtr → Option Nat)) (left right : AtomPtr) : Bool :=
  if left = right then false
  else if sectionIndex left ≠ sectionIndex right then sectionIndex left < sectionIndex right
  else
    match fOverriddenOrdinalMap.bind (· left), fOverriddenOrdinalMap.bind (· right) with
    | some leftPos, some rightPos => leftPos < rightPos
    | some _, none => true
    | none, some _ => false
    | none, none =>
      if isTentative objs left ≠ isTentative objs right then isTentative objs right
      else (objs.atom left).getOrdinal < (objs.atom right).getOrdinal

end Toolwhip.Ld64
