import Toolwhip.Ld64.BranchIslands

/-! # How far the hops are

A `bl` goes to an island, that one to the next, and the last one to the target. Each hop is measured
between the addresses before the islands are inserted, with an island at the address of its region. -/

namespace Toolwhip.Ld64.BranchIslands
open List
set_option autoImplicit false

section Reach
variable (seg : TextSegment) (atoms : AtomPtr → Atom)
variable {islands : List BranchIslandAtom} {src : Int}

/-! ## Hops -/

def kSixteenMeg : Int := 16 * 1024 * 1024

def InReach (srcAddr dstAddr : Int) : Prop :=
  dstAddr - srcAddr ≤ kSixteenMeg ∧ srcAddr - dstAddr ≤ kSixteenMeg

/-- `islandRegionAddr`, as it is where the islands are inserted -/
def islandRegionAddr (i : Nat) : Int := kBetweenRegions * (i + 1) + seg.textBase

/-- A branch there arrives at its target, each hop being within reach. -/
inductive HopsTo (islands : List BranchIslandAtom) (final : TargetAndOffset) :
    Int → Target → Prop where
  | target {src : Int} (hreach : InReach src (dstAddr atoms final)) :
      HopsTo islands final src (.atom final)
  | island {src : Int} {number i : Nat} {next : Target}
      (hisland : islands[number]? = some ⟨i, next⟩) (hreach : InReach src (islandRegionAddr seg i))
      (hnext : HopsTo islands final (islandRegionAddr seg i) next) :
      HopsTo islands final src (.island number)

def InTextSegment (addr : Int) : Prop :=
  seg.fBaseAddress ≤ addr ∧ addr < seg.fBaseAddress + seg.fSize

/-- A `bl` within the segment of which the target is more than 15 MB away. -/
structure FarBranch (atom : AtomPtr) (ref : Reference) : Prop where
  kind : isBranch24Reference ref.getKind = true
  src : InTextSegment seg (srcAddr atoms atom ref)
  dst : InTextSegment seg (dstAddr atoms ref.finalTargetAndOffset)
  far : kBetweenRegions < dstAddr atoms ref.finalTargetAndOffset - srcAddr atoms atom ref ∨
    kBetweenRegions < srcAddr atoms atom ref - dstAddr atoms ref.finalTargetAndOffset

def AllReach (st : Islands) : Prop :=
  ∀ atom ref target, ((atom, ref), target) ∈ st.references → FarBranch seg atoms atom ref →
    HopsTo seg atoms st.islands ref.finalTargetAndOffset (srcAddr atoms atom ref) target

variable {seg atoms} {final : TargetAndOffset}

theorem hopsTo_atom :
    HopsTo seg atoms islands final src (.atom final) ↔ InReach src (dstAddr atoms final) := by
  constructor
  · intro h
    cases h with
    | target hreach => exact hreach
  · exact .target

variable {i : Nat}

theorem hopsTo_island {number : Nat} {next : Target} (hisland : islands[number]? = some ⟨i, next⟩) :
    HopsTo seg atoms islands final src (.island number) ↔
      InReach src (islandRegionAddr seg i) ∧
        HopsTo seg atoms islands final (islandRegionAddr seg i) next := by
  constructor
  · intro h
    cases h with
    | island hisland' hreach hnext =>
      rw [hisland] at hisland'
      cases hisland'
      exact ⟨hreach, hnext⟩
  · intro h
    exact .island hisland h.1 h.2

variable {st : Islands} {target : Target}

theorem Consistent.hops (h : Consistent seg atoms st)
    (htarget : toward st final (some i) = some target) :
    ∃ next, Linked seg atoms st final i next ∧ ∀ src,
      (HopsTo seg atoms st.islands final src target ↔
        InReach src (islandRegionAddr seg i) ∧
          HopsTo seg atoms st.islands final (islandRegionAddr seg i) next) := by
  obtain ⟨number, hentry, rfl⟩ := Option.map_eq_some_iff.mp htarget
  obtain ⟨next, hisland, hlinked⟩ := h i final number hentry
  exact ⟨next, hlinked, fun src => hopsTo_island hisland⟩

theorem islandRegionAddr_succ (i : Nat) :
    islandRegionAddr seg (i + 1) = islandRegionAddr seg i + kBetweenRegions := by
  unfold islandRegionAddr
  rw [Int.natCast_succ, Int.mul_add _ (i + 1 : Int) 1]
  omega

theorem inReach_next (i : Nat) : InReach (islandRegionAddr seg i) (islandRegionAddr seg (i + 1)) ∧
      InReach (islandRegionAddr seg (i + 1)) (islandRegionAddr seg i) := by
  rw [islandRegionAddr_succ]
  unfold InReach kSixteenMeg kBetweenRegions
  omega

theorem lt_islandRegionAddr {addr : Int} (h : InTextSegment seg addr)
    (hi : seg.kIslandRegionsCount ≤ i) : addr < islandRegionAddr seg i := by
  have hbase := seg.base_le
  have hend := h.2
  unfold TextSegment.kIslandRegionsCount at hi
  unfold islandRegionAddr
  unfold kBetweenRegions at hi ⊢
  omega

theorem regionOffset_addr (hi : i < seg.kIslandRegionsCount) :
    (regionOffset i : Int) + seg.textBase = islandRegionAddr seg i := by
  rw [regionOffset_eq hi, Int.natCast_mul, Int.natCast_succ]
  rfl

theorem forward_hops (h : Consistent seg atoms st)
    (hdst : InTextSegment seg (dstAddr atoms final)) (n : Nat) :
    ∀ {i : Nat}, seg.kIslandRegionsCount - i ≤ n → NearForward seg atoms final i →
      ∀ {target : Target}, toward st final (some i) = some target → ∀ src,
        (HopsTo seg atoms st.islands final src target ↔ InReach src (islandRegionAddr seg i)) := by
  induction n with
  | zero =>
    intro i hn hnear
    have := hnear.1
    omega
  | succ n ih =>
    intro i hn hnear target htarget src
    obtain ⟨next, hlinked, hhops⟩ := h.hops htarget
    have hnext := hlinked.forward hnear
    suffices harrives : HopsTo seg atoms st.islands final (islandRegionAddr seg i) next by
      rw [hhops src]
      exact and_iff_left harrives
    unfold nextForward at hnext
    split at hnext
    · rename_i hnear'
      exact (ih (by have := hnear.1; omega) hnear' hnext _).mpr (inReach_next i).1
    rename_i hlast
    obtain rfl := Option.some.inj hnext
    apply hopsTo_atom.mpr
    have hle := hnear.2
    rw [regionOffset_addr hnear.1] at hle
    have hlt : dstAddr atoms final < islandRegionAddr seg (i + 1) := by
      by_cases hcount : i + 1 < seg.kIslandRegionsCount
      · by_contra hge
        apply hlast
        refine ⟨hcount, ?_⟩
        rw [regionOffset_addr hcount]
        omega
      · exact lt_islandRegionAddr hdst (by omega)
    rw [islandRegionAddr_succ] at hlt
    unfold InReach kSixteenMeg
    unfold kBetweenRegions at hlt
    omega

def regionBehind (dstAddr : Int) : Int :=
  kBetweenRegions * max 1 ((dstAddr + kBetweenRegions - 1) / kBetweenRegions)

theorem regionBehind_eq {dstAddr : Int} (hle : dstAddr ≤ kBetweenRegions * (i + 1))
    (hprev : 0 < i → kBetweenRegions * i < dstAddr) :
    regionBehind dstAddr = kBetweenRegions * (i + 1) := by
  unfold regionBehind
  unfold kBetweenRegions at hle hprev ⊢
  omega

theorem le_regionBehind (dstAddr : Int) : dstAddr ≤ regionBehind dstAddr := by
  unfold regionBehind kBetweenRegions
  omega

theorem NearBack.dst_le (h : NearBack seg atoms final i) :
    dstAddr atoms final ≤ kBetweenRegions * (i + 1) := by
  have hle := h.2
  rw [regionOffset_eq h.1, Int.natCast_mul, Int.natCast_succ] at hle
  exact hle

theorem last_hop (hnear : NearBack seg atoms final i)
    (hprev : 0 < i → kBetweenRegions * i < dstAddr atoms final) :
    InReach (islandRegionAddr seg i) (dstAddr atoms final) ↔
      regionBehind (dstAddr atoms final) + seg.textBase - dstAddr atoms final ≤ kSixteenMeg := by
  have hle := hnear.dst_le
  rw [regionBehind_eq hle hprev]
  unfold InReach islandRegionAddr kSixteenMeg
  constructor
  · intro h
    exact h.2
  · intro h
    omega

theorem back_hops (h : Consistent seg atoms st) (hnear : NearBack seg atoms final i)
    (htarget : toward st final (some i) = some target) (src : Int) :
    HopsTo seg atoms st.islands final src target ↔ InReach src (islandRegionAddr seg i) ∧
      regionBehind (dstAddr atoms final) + seg.textBase - dstAddr atoms final ≤ kSixteenMeg := by
  induction i generalizing target src with
  | zero =>
    obtain ⟨next, hlinked, hhops⟩ := h.hops htarget
    have hnext := hlinked.back hnear
    obtain rfl := Option.some.inj hnext
    rw [hhops src, hopsTo_atom, last_hop hnear fun h => absurd h (Nat.lt_irrefl 0)]
  | succ i ih =>
    obtain ⟨next, hlinked, hhops⟩ := h.hops htarget
    have hnext := hlinked.back hnear
    rw [hhops src]
    apply and_congr_right
    intro _
    unfold nextBack at hnext
    split at hnext
    · rename_i hprev
      rw [ih hprev.2 hnext]
      exact and_iff_right (inReach_next i).2
    rename_i hlast
    obtain rfl := Option.some.inj hnext
    rw [hopsTo_atom, last_hop hnear]
    have hi : i < seg.kIslandRegionsCount := Nat.lt_of_succ_lt hnear.1
    by_contra hge
    apply hlast
    refine ⟨Nat.succ_pos i, hi, ?_⟩
    change dstAddr atoms final ≤ regionOffset i
    rw [regionOffset_eq hi, Int.natCast_mul, Int.natCast_succ]
    rw [Int.natCast_succ] at hge
    omega

/-! ## Every reference -/

variable (seg) in
def firstForward (srcAddr dstAddr : Int) : Option Nat :=
  (lastBefore (fun j => inForwardRange seg srcAddr dstAddr (fromEnd seg.kIslandRegionsCount j) = true)
    seg.kIslandRegionsCount).map (fromEnd seg.kIslandRegionsCount)

variable (seg) in
def firstBack (srcAddr dstAddr : Int) : Option Nat :=
  (lastBefore (fun j => inBackRange srcAddr dstAddr j = true) seg.kIslandRegionsCount).map id

variable (seg atoms) in
/-- The region of the island that a reference goes to. -/
def firstRegion (seen : AtomPtr × Reference) : Option Nat :=
  let srcAddr := srcAddr atoms seen.1 seen.2
  let dstAddr := dstAddr atoms seen.2.finalTargetAndOffset
  if ¬ isBranch24Reference seen.2.getKind then none
  else if dstAddr - srcAddr > kBetweenRegions then firstForward seg srcAddr dstAddr
  else if dstAddr - srcAddr < -kBetweenRegions then firstBack seg srcAddr dstAddr
  else none

theorem forwardChain_went (srcAddr : Int) (h : Consistent seg atoms st) :
    Went seg atoms st final (firstForward seg srcAddr (dstAddr atoms final))
      (forwardChain seg srcAddr (dstAddr atoms final) final st) := by
  unfold forwardChain
  rw [range_eq_range', reverse_range', foldl_map]
  simp only [Nat.zero_add]
  apply went_loop _ h (Nat.le_refl seg.kIslandRegionsCount)
  intro j hj hrange st next hnext
  exact forward_linked srcAddr final hj hrange st next hnext

theorem backChain_went (srcAddr : Int) (h : Consistent seg atoms st) :
    Went seg atoms st final (firstBack seg srcAddr (dstAddr atoms final))
      (backChain seg srcAddr (dstAddr atoms final) final st) := by
  apply went_loop _ h (Nat.le_refl seg.kIslandRegionsCount)
  intro j hj hrange st next hnext
  exact back_linked srcAddr final hj hrange st next hnext

theorem visit_went (h : Consistent seg atoms st) (seen : AtomPtr × Reference) :
    Went seg atoms st seen.2.finalTargetAndOffset (firstRegion seg atoms seen)
      (if isBranch24Reference seen.2.getKind then retarget seg atoms st seen.1 seen.2
        else (st, .atom seen.2.finalTargetAndOffset)) := by
  have hstay : Went seg atoms st seen.2.finalTargetAndOffset none
      (st, .atom seen.2.finalTargetAndOffset) := ⟨h, Grows.refl st, rfl, rfl⟩
  unfold firstRegion retarget
  by_cases hkind : isBranch24Reference seen.2.getKind = true
  · rw [if_pos hkind, if_neg (not_not_intro hkind)]
    dsimp only
    split
    · exact forwardChain_went _ h
    split
    · exact backChain_went _ h
    · exact hstay
  · rw [if_neg hkind, if_pos hkind]
    exact hstay

variable (seg atoms) in
/-- Every reference that was seen goes to the first of its islands. -/
structure Recorded (st : Islands) : Prop where
  consistent : Consistent seg atoms st
  goes : ∀ seen target, (seen, target) ∈ st.references →
    toward st seen.2.finalTargetAndOffset (firstRegion seg atoms seen) = some target

theorem recorded_start : Recorded seg atoms {} := by
  constructor
  · intro i target number hentry
    cases hentry
  · intro seen target hmem
    cases hmem

theorem Recorded.visit {st : Islands} (h : Recorded seg atoms st) (seen : AtomPtr × Reference) :
    Recorded seg atoms (visitReference seg atoms st seen) := by
  have hwent := visit_went h.consistent seen
  constructor
  · intro i target number hentry
    obtain ⟨next, hisland, hlinked⟩ := hwent.consistent i target number hentry
    exact ⟨next, hisland, hlinked.forward, hlinked.back⟩
  · intro seen' target hmem
    rcases List.mem_append.mp hmem with hold | hnew
    · rw [hwent.references] at hold
      exact hwent.grows.toward (h.goes seen' target hold)
    · obtain ⟨rfl, rfl⟩ := Prod.mk.inj (List.mem_singleton.mp hnew)
      exact hwent.next

theorem visitReference_references (h : Recorded seg atoms st) (seen : AtomPtr × Reference) :
    (visitReference seg atoms st seen).references.map Prod.fst =
      st.references.map Prod.fst ++ [seen] := by
  have hwent := visit_went h.consistent seen
  unfold visitReference
  dsimp only
  rw [hwent.references, map_append]
  rfl

theorem Recorded.visits (seens : List (AtomPtr × Reference)) (h : Recorded seg atoms st) :
    Recorded seg atoms (seens.foldl (visitReference seg atoms) st) ∧
      (seens.foldl (visitReference seg atoms) st).references.map Prod.fst =
        st.references.map Prod.fst ++ seens := by
  induction seens generalizing st with
  | nil => exact ⟨h, (append_nil _).symm⟩
  | cons seen seens ih =>
    obtain ⟨hrecorded, hreferences⟩ := ih (h.visit seen)
    refine ⟨hrecorded, ?_⟩
    rw [foldl_cons, hreferences, visitReference_references h, append_assoc]
    rfl

/-! ## Which branches arrive -/

variable (seg) in
def ForwardInReach (srcAddr dstAddr : Int) : Prop :=
  seg.textBase ≤ srcAddr ∨ min dstAddr (kBetweenRegions + seg.textBase) - srcAddr ≤ kSixteenMeg

variable (seg) in
/-- The base address takes the region behind no farther than that from the target, or the target is
too far ahead for there to be one and within reach itself. -/
def BackInReach (srcAddr dstAddr : Int) : Prop :=
  if dstAddr ≤ kBetweenRegions * seg.kIslandRegionsCount then
    regionBehind dstAddr + seg.textBase - dstAddr ≤ kSixteenMeg
  else srcAddr - dstAddr ≤ kSixteenMeg

theorem inForwardRange_addr (srcAddr dstAddr : Int) (hi : i < seg.kIslandRegionsCount) :
    inForwardRange seg srcAddr dstAddr i = true ↔
      islandRegionAddr seg i ≤ dstAddr ∧ srcAddr < islandRegionAddr seg i := by
  rw [inForwardRange_iff, regionOffset_addr hi]

theorem inBackRange_addr (srcAddr dstAddr : Int) (hi : i < seg.kIslandRegionsCount) :
    inBackRange srcAddr dstAddr i = true ↔
      dstAddr ≤ kBetweenRegions * (i + 1) ∧ kBetweenRegions * (i + 1) < srcAddr := by
  rw [inBackRange_iff, regionOffset_eq hi, Int.natCast_mul, Int.natCast_succ]

theorem exists_inForwardRange {srcAddr dstAddr : Int} (hbase : seg.textBase ≤ srcAddr)
    (hdst : InTextSegment seg dstAddr) (hfar : kBetweenRegions < dstAddr - srcAddr) :
    ∃ i < seg.kIslandRegionsCount, inForwardRange seg srcAddr dstAddr i = true := by
  obtain ⟨i, hi⟩ : ∃ i : Nat, (i : Int) = (srcAddr - seg.textBase) / kBetweenRegions := by
    refine ⟨_, Int.toNat_of_nonneg (Int.ediv_nonneg ?_ (Int.natCast_nonneg _))⟩
    omega
  have hcrossed : islandRegionAddr seg i ≤ dstAddr ∧ srcAddr < islandRegionAddr seg i := by
    unfold islandRegionAddr
    unfold kBetweenRegions at hfar hi ⊢
    omega
  have hlt : i < seg.kIslandRegionsCount := by
    by_contra hge
    have := lt_islandRegionAddr hdst (Nat.le_of_not_lt hge)
    omega
  exact ⟨i, hlt, (inForwardRange_addr srcAddr dstAddr hlt).mpr hcrossed⟩

theorem exists_inBackRange {srcAddr dstAddr : Int} (hcount : 0 < seg.kIslandRegionsCount)
    (hdst : InTextSegment seg dstAddr) (hfar : kBetweenRegions < srcAddr - dstAddr)
    (hle : dstAddr ≤ kBetweenRegions * seg.kIslandRegionsCount) :
    ∃ i < seg.kIslandRegionsCount, inBackRange srcAddr dstAddr i = true := by
  obtain ⟨i, hi⟩ : ∃ i : Nat,
      (i : Int) = max 1 ((dstAddr + kBetweenRegions - 1) / kBetweenRegions) - 1 := by
    refine ⟨_, Int.toNat_of_nonneg ?_⟩
    omega
  have hpos : 0 ≤ dstAddr := Int.le_trans (Int.natCast_nonneg _) hdst.1
  have hlt : i < seg.kIslandRegionsCount := by
    unfold kBetweenRegions at hi hle
    omega
  refine ⟨i, hlt, (inBackRange_addr srcAddr dstAddr hlt).mpr ?_⟩
  unfold kBetweenRegions at hi hfar ⊢
  omega

theorem firstForward_none {srcAddr dstAddr : Int} (h : firstForward seg srcAddr dstAddr = none)
    (hi : i < seg.kIslandRegionsCount) :
    inForwardRange seg srcAddr dstAddr i = false := by
  have hout := lastBefore_none (Option.map_eq_none_iff.mp h) _ (fromEnd_lt hi)
  rw [fromEnd_fromEnd hi] at hout
  exact Bool.eq_false_iff.mpr hout

theorem firstForward_some {srcAddr dstAddr : Int} (h : firstForward seg srcAddr dstAddr = some i) :
    i < seg.kIslandRegionsCount ∧ inForwardRange seg srcAddr dstAddr i = true ∧
      ∀ i' < i, inForwardRange seg srcAddr dstAddr i' = false := by
  obtain ⟨j, hlast, rfl⟩ := Option.map_eq_some_iff.mp h
  obtain ⟨hj, hrange, habove⟩ := lastBefore_some hlast
  have hlt := fromEnd_lt hj
  refine ⟨hlt, hrange, ?_⟩
  intro i' hi'
  have hi := Nat.lt_trans hi' hlt
  have hout := habove (fromEnd seg.kIslandRegionsCount i') ?_ (fromEnd_lt hi)
  · rw [fromEnd_fromEnd hi] at hout
    exact Bool.eq_false_iff.mpr hout
  · unfold fromEnd at hi' ⊢
    omega

theorem forward_iff (h : Consistent seg atoms st)
    (hcount : 0 < seg.kIslandRegionsCount) {srcAddr : Int}
    (hdst : InTextSegment seg (dstAddr atoms final))
    (hfar : kBetweenRegions < dstAddr atoms final - srcAddr)
    (htarget : toward st final (firstForward seg srcAddr (dstAddr atoms final)) = some target) :
    HopsTo seg atoms st.islands final srcAddr target ↔
      ForwardInReach seg srcAddr (dstAddr atoms final) := by
  have hzero : islandRegionAddr seg 0 = kBetweenRegions + seg.textBase := by
    unfold islandRegionAddr
    omega
  cases hfirst : firstForward seg srcAddr (dstAddr atoms final) with
  | none =>
    rw [hfirst] at htarget
    obtain rfl := Option.some.inj htarget
    have hbefore : srcAddr < seg.textBase := by
      by_contra hge
      obtain ⟨i, hi, hrange⟩ := exists_inForwardRange (Int.not_lt.mp hge) hdst hfar
      rw [firstForward_none hfirst hi] at hrange
      cases hrange
    have hout := Bool.eq_false_iff.mp (firstForward_none hfirst hcount)
    rw [ne_eq, inForwardRange_addr _ _ hcount, hzero] at hout
    rw [hopsTo_atom]
    unfold ForwardInReach InReach kSixteenMeg
    omega
  | some i =>
    rw [hfirst] at htarget
    obtain ⟨hi, hrange, hbelow⟩ := firstForward_some hfirst
    rw [forward_hops h hdst _ (Nat.le_refl _) ⟨hi, ((inForwardRange_iff _ _ _).mp hrange).1⟩ htarget]
    obtain ⟨hle, hlt⟩ := (inForwardRange_addr _ _ hi).mp hrange
    unfold ForwardInReach InReach
    cases i with
    | zero =>
      rw [hzero] at hle hlt ⊢
      unfold kSixteenMeg
      unfold kBetweenRegions at hfar hle hlt ⊢
      omega
    | succ i =>
      have hout := Bool.eq_false_iff.mp (hbelow i (Nat.lt_add_one i))
      rw [ne_eq, inForwardRange_addr _ _ (Nat.lt_of_succ_lt hi)] at hout
      have hbase : (seg.textBase : Int) ≤ islandRegionAddr seg i := by
        unfold islandRegionAddr kBetweenRegions
        omega
      rw [islandRegionAddr_succ] at hle hlt ⊢
      unfold kSixteenMeg
      unfold kBetweenRegions at hfar hle hlt ⊢
      omega

theorem back_iff (h : Consistent seg atoms st)
    (hcount : 0 < seg.kIslandRegionsCount) {srcAddr : Int} (hsrc : InTextSegment seg srcAddr)
    (hdst : InTextSegment seg (dstAddr atoms final))
    (hfar : kBetweenRegions < srcAddr - dstAddr atoms final)
    (htarget : toward st final (firstBack seg srcAddr (dstAddr atoms final)) = some target) :
    HopsTo seg atoms st.islands final srcAddr target ↔
      BackInReach seg srcAddr (dstAddr atoms final) := by
  unfold firstBack at htarget
  cases hfirst : lastBefore (fun j => inBackRange srcAddr (dstAddr atoms final) j = true)
      seg.kIslandRegionsCount with
  | none =>
    rw [hfirst] at htarget
    obtain rfl := Option.some.inj htarget
    unfold BackInReach
    split
    · rename_i hle
      obtain ⟨i, hi, hrange⟩ := exists_inBackRange hcount hdst hfar hle
      exact absurd hrange (lastBefore_none hfirst i hi)
    · rw [hopsTo_atom]
      unfold InReach kSixteenMeg
      omega
  | some i =>
    rw [hfirst] at htarget
    obtain ⟨hi, hrange, habove⟩ := lastBefore_some hfirst
    rw [back_hops h ⟨hi, ((inBackRange_iff _ _ _).mp hrange).1⟩ htarget]
    obtain ⟨hle, hlt⟩ := (inBackRange_addr _ _ hi).mp hrange
    have hnext : srcAddr ≤ islandRegionAddr seg (i + 1) := by
      by_cases hlast : i + 1 < seg.kIslandRegionsCount
      · have hout := habove (i + 1) (Nat.lt_add_one i) hlast
        rw [inBackRange_addr _ _ hlast] at hout
        unfold islandRegionAddr
        unfold kBetweenRegions at hle hlt hout ⊢
        omega
      · exact Int.le_of_lt (lt_islandRegionAddr hsrc (Nat.le_of_not_lt hlast))
    have hregions : dstAddr atoms final ≤ kBetweenRegions * seg.kIslandRegionsCount := by
      unfold kBetweenRegions at hle ⊢
      omega
    unfold BackInReach
    rw [if_pos hregions]
    constructor
    · intro hhops
      exact hhops.2
    · intro hbehind
      have hge := le_regionBehind (dstAddr atoms final)
      unfold InReach
      unfold islandRegionAddr at hnext ⊢
      unfold kSixteenMeg at hbehind ⊢
      unfold kBetweenRegions at hle hlt hnext ⊢
      omega

variable (seg) in
def BranchInReach (srcAddr dstAddr : Int) : Prop :=
  (srcAddr < dstAddr → ForwardInReach seg srcAddr dstAddr) ∧
    (dstAddr < srcAddr → BackInReach seg srcAddr dstAddr)

theorem FarBranch.hops_iff (h : Recorded seg atoms st)
    (hcount : 0 < seg.kIslandRegionsCount) {atom : AtomPtr} {ref : Reference}
    (hfar : FarBranch seg atoms atom ref) (hmem : ((atom, ref), target) ∈ st.references) :
    HopsTo seg atoms st.islands ref.finalTargetAndOffset (srcAddr atoms atom ref) target ↔
      BranchInReach seg (srcAddr atoms atom ref) (dstAddr atoms ref.finalTargetAndOffset) := by
  have hgoes := h.goes (atom, ref) target hmem
  unfold firstRegion at hgoes
  rw [if_neg (not_not_intro hfar.kind)] at hgoes
  dsimp only at hgoes
  rcases hfar.far with hforward | hback
  · rw [if_pos hforward] at hgoes
    rw [forward_iff h.consistent hcount hfar.dst hforward hgoes]
    constructor
    · intro hreach
      refine ⟨fun _ => hreach, ?_⟩
      omega
    · intro hreach
      apply hreach.1
      omega
  · rw [if_neg (by omega), if_pos (by omega)] at hgoes
    rw [back_iff h.consistent hcount hfar.src hfar.dst hback hgoes]
    constructor
    · intro hreach
      refine ⟨?_, fun _ => hreach⟩
      omega
    · intro hreach
      apply hreach.2
      omega

theorem smallSegment_reach (hsmall : ¬ seg.fSize > 16000000) (fAllAtoms : List AtomPtr) :
    AllReach seg atoms (createIslands seg atoms fAllAtoms) := by
  intro atom ref target hmem hfar
  unfold createIslands at hmem ⊢
  rw [if_neg hsmall] at hmem ⊢
  obtain ⟨seen, -, hseen⟩ := List.mem_map.mp hmem
  obtain ⟨rfl, rfl⟩ := Prod.mk.inj hseen
  apply hopsTo_atom.mpr
  obtain ⟨-, hsrc, hdst, -⟩ := hfar
  unfold InTextSegment at hsrc hdst
  unfold InReach kSixteenMeg
  omega

theorem createIslands_allReach_iff (seg : TextSegment) (atoms : AtomPtr → Atom)
    (fAllAtoms : List AtomPtr) : AllReach seg atoms (createIslands seg atoms fAllAtoms) ↔
      seg.fSize ≤ 16000000 ∨ ∀ seen ∈ allReferences atoms fAllAtoms,
        FarBranch seg atoms seen.1 seen.2 →
          BranchInReach seg (srcAddr atoms seen.1 seen.2)
            (dstAddr atoms seen.2.finalTargetAndOffset) := by
  by_cases hsmall : seg.fSize > 16000000
  · have hcount : 0 < seg.kIslandRegionsCount := by
      unfold TextSegment.kIslandRegionsCount kBetweenRegions
      omega
    obtain ⟨hrecorded, hall⟩ :=
      (@recorded_start seg atoms).visits (allReferences atoms fAllAtoms)
    unfold createIslands AllReach
    rw [if_pos hsmall]
    constructor
    · intro h
      right
      intro seen hseen hfar
      obtain ⟨⟨_, target⟩, hmem, rfl⟩ : ∃ record ∈ _, Prod.fst record = seen := by
        apply List.mem_map.mp
        rw [hall]
        exact hseen
      exact (hfar.hops_iff hrecorded hcount hmem).mp (h _ _ _ hmem hfar)
    · intro h atom ref target hmem hfar
      rcases h with hle | h
      · omega
      apply (hfar.hops_iff hrecorded hcount hmem).mpr
      apply h (atom, ref) _ hfar
      have hseen := mem_map_of_mem (f := Prod.fst) hmem
      rw [hall] at hseen
      exact hseen
  · constructor
    · intro _
      exact .inl (Nat.le_of_not_lt hsmall)
    · intro _
      exact smallSegment_reach hsmall fAllAtoms

end Reach

theorem highText_base_le : 0x10000000 ≤ 0x10001000 := by decide

theorem highText_size_lt : 0x2000000 < 2 ^ 32 := by decide

def highText : TextSegment :=
  ⟨0x10000000, 0x2000000, 0x10001000, highText_base_le, highText_size_lt⟩

def branchBack : Reference := ⟨.kBranch24, 0, ⟨0, 0⟩⟩

def farApart : AtomPtr → Atom
  | 0 => ⟨0x10001000, []⟩
  | _ => ⟨0x10001000 + 20 * 1024 * 1024, [branchBack]⟩

theorem farApart_references :
    (createIslands highText farApart [0, 1]).references = [((1, branchBack), .atom ⟨0, 0⟩)] := by
  decide

/-- No region is taken to be between them, and the branch is left as it is. -/
theorem highText_not_allReach : ¬ ∀ (seg : TextSegment) (atoms : AtomPtr → Atom)
    (fAllAtoms : List AtomPtr), AllReach seg atoms (createIslands seg atoms fAllAtoms) := by
  intro h
  have hfar : FarBranch highText farApart 1 branchBack :=
    ⟨rfl, by unfold InTextSegment; decide, by unfold InTextSegment; decide, by decide⟩
  have hhops := h highText farApart [0, 1] 1 branchBack (.atom ⟨0, 0⟩)
    (by rw [farApart_references]; exact mem_singleton_self _) hfar
  have hreach := (hopsTo_atom.mp hhops).2
  revert hreach
  decide

end Toolwhip.Ld64.BranchIslands
