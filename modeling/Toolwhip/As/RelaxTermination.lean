import Mathlib.Algebra.Group.Action.Defs
import Mathlib.Algebra.GroupWithZero.Nat
import Mathlib.Algebra.Order.BigOperators.Group.List
import Toolwhip.As.Relax

/-! # Relaxation ends

A branch only grows, and the lengths of a relax table are bytes. In a pass in which no branch grows, one
more of the other frags settles, from the first one on: an `.org` looks back, and a padding at its own
address. -/

namespace Toolwhip.As.Relax
open Lib.SettlingPasses List
set_option autoImplicit false

variable {w : Nat} {table : RelaxTable w} {frags frags' : List (Frag w)} {f : Frag w} {i k n : Nat}

/-- What `relax_section` asserts of a frag: an `.org` is not the last one and has its target before it. -/
structure FragOk (n i : Nat) (f : Frag w) : Prop where
  symbol : ∀ s j, f.fr_symbol = some s → s.sy_frag = .chain j → j < n
  org_next : f.fr_type = .rs_org → i + 1 < n
  org_target : f.fr_type = .rs_org → ∀ s j, f.fr_symbol = some s → s.sy_frag = .chain j → j ≤ i

def ChainOk (frags : List (Frag w)) : Prop :=
  ∀ i f, frags[i]? = some f → FragOk frags.length i f

/-- Of a frag of the chain, at any address, the machine leaves a form of its table, or one that is
done. -/
def Estimates (table : RelaxTable w) (md_estimate_size_before_relax : Estimate w)
    (frags : List (Frag w)) :
    Prop :=
  ∀ i f, frags[i]? = some f → f.fr_type = .rs_machine_dependent →
    ∀ frags' address, frags'[i]? = some { f with fr_address := address } →
      let estimated := (md_estimate_size_before_relax frags' i).1
      estimated.fr_symbol = f.fr_symbol ∧ (estimated.fr_type = .rs_fill ∨
        estimated.fr_type = .rs_machine_dependent ∧ estimated.fr_subtype.toNat < table.entries.length)

def Stated (table : RelaxTable w) (f : Frag w) : Prop :=
  f.fr_type = .rs_machine_dependent → f.fr_subtype.toNat < table.entries.length

/-- All that a pass relies on. -/
structure Ready (table : RelaxTable w) (n : Nat) (frags : List (Frag w)) : Prop where
  length : frags.length = n
  frag : ∀ i f, frags[i]? = some f → FragOk n i f ∧ Stated table f

def weight (table : RelaxTable w) (f : Frag w) : Nat :=
  if f.fr_type = .rs_machine_dependent then
    (entry table f.fr_subtype).elim 0 fun t => t.rlx_length.toNat
  else 0

def total (table : RelaxTable w) (frags : List (Frag w)) : Nat := (frags.map (weight table)).sum

theorem entry_of_lt {state : BitVec w} (h : state.toNat < table.entries.length) :
    ∃ t, entry table state = some t ∧ t ∈ table.entries :=
  ⟨_, getElem?_eq_getElem h, getElem_mem h⟩

theorem growTo_spec (fits : RelaxType w → Bool) {fuel : Nat} {state : BitVec w} {t : RelaxType w}
    (hstate : state.toNat < table.entries.length) (ht : entry table state = some t)
    (hfuel : 256 ≤ t.rlx_length.toNat + fuel) :
    ∃ state' t', growTo table fits fuel state = some state' ∧ state'.toNat < table.entries.length ∧
      entry table state' = some t' ∧ (state' = state ∨ t.rlx_length < t'.rlx_length) := by
  induction fuel generalizing state t with
  | zero =>
    have hlt := t.rlx_length.toNat_lt
    omega
  | succ fuel ih =>
    have hmem : t ∈ table.entries := mem_of_getElem? ht
    rw [growTo, ht]
    by_cases hstop : t.rlx_more = 0 ∨ fits t = true
    · exact ⟨state, t, if_pos hstop, hstate, ht, Or.inl rfl⟩
    simp only [if_neg hstop]
    obtain ⟨more, hmore, -⟩ := entry_of_lt (table.inside t hmem)
    have hlonger := table.longer t hmem (fun h => hstop (Or.inl h)) more hmore
    have hlonger' := UInt8.lt_iff_toNat_lt.mp hlonger
    obtain ⟨state', t', hgrow, hinside, ht', hcases⟩ := ih (table.inside t hmem) hmore (by omega)
    refine ⟨state', t', hgrow, hinside, ht', Or.inr ?_⟩
    rcases hcases with rfl | hlt
    · rw [hmore] at ht'
      cases ht'
      exact hlonger
    · exact UInt8.lt_trans hlonger hlt

theorem addressOf_isSome {place : Place w} (h : ∀ j, place = .chain j → j < frags.length) :
    ∃ address, addressOf frags place = some address := by
  cases place with
  | chain j => exact ⟨_, by rw [addressOf, getElem?_eq_getElem (h j rfl)]; rfl⟩
  | elsewhere address => exact ⟨address, rfl⟩

theorem targetOf_isSome (h : FragOk frags.length i f) : ∃ target, targetOf frags f = some target := by
  unfold targetOf
  split
  · exact ⟨_, rfl⟩
  rename_i s hs
  obtain ⟨address, haddress⟩ := addressOf_isSome fun j hj => h.symbol s j hs hj
  exact ⟨_, by rw [haddress]; rfl⟩

def Frag.moved (f : Frag w) (stretch : BitVec w) : Frag w :=
  { f with fr_address := f.fr_address + stretch }

def Frag.inState (f : Frag w) (subtype : BitVec w) : Frag w := { f with fr_subtype := subtype }

@[simp] theorem Frag.moved_zero (f : Frag w) : f.moved 0 = f := by simp [Frag.moved]

@[simp] theorem weight_moved (f : Frag w) (stretch : BitVec w) :
    weight table (f.moved stretch) = weight table f := rfl

/-- A frag that grows is not a branch, or comes to a longer form. -/
structure Grown (table : RelaxTable w) (f : Frag w) (growth subtype : BitVec w) : Prop where
  stated : Stated table (f.inState subtype)
  weight_le : weight table f ≤ weight table (f.inState subtype)
  same : weight table f = weight table (f.inState subtype) → subtype = f.fr_subtype
  still : weight table f = weight table (f.inState subtype) →
    f.fr_type = .rs_machine_dependent → growth = 0

theorem grown_rest (h : f.fr_type ≠ .rs_machine_dependent) (growth : BitVec w) :
    Grown table f growth f.fr_subtype :=
  ⟨fun hm => absurd hm h, Nat.le_refl _, fun _ => rfl, fun _ hm => absurd hm h⟩

theorem machineGrowth_spec {was_address stretch : BitVec w} (hok : FragOk frags.length i f)
    (hstated : Stated table f) (htype : f.fr_type = .rs_machine_dependent) :
    ∃ growth subtype, machineGrowth table frags i was_address f stretch = some (growth, subtype) ∧
      Grown table f growth subtype := by
  obtain ⟨target, htarget⟩ := targetOf_isSome hok
  obtain ⟨t, ht, -⟩ := entry_of_lt (hstated htype)
  rw [machineGrowth, htarget, ht]
  dsimp only
  generalize target + stretchOf frags i was_address f stretch - f.fr_address - f.fr_fix = aim
  obtain ⟨state', t', hgrow, hinside, ht', hcases⟩ :=
    growTo_spec (fun t => if aim.slt 0 then t.rlx_backward.sle aim else aim.sle t.rlx_forward)
      (hstated htype) ht (Nat.le_add_left 256 _)
  rw [hgrow]
  dsimp only
  rw [ht', Option.map_some]
  refine ⟨_, _, rfl, ?_⟩
  have hweight : weight table f = t.rlx_length.toNat := by simp [weight, htype, ht]
  split
  · rename_i hgrowth
    -- the length has changed, so that the loop has moved
    have hlt : t.rlx_length.toNat < t'.rlx_length.toNat := by
      rcases hcases with rfl | hlt
      · rw [ht] at ht'
        cases ht'
        exact absurd (BitVec.sub_self _) hgrowth
      · exact UInt8.lt_iff_toNat_lt.mp hlt
    have hweight' : weight table (f.inState state') = t'.rlx_length.toNat := by
      simp [weight, Frag.inState, htype, ht']
    refine ⟨fun _ => hinside, by omega, fun h => ?_, fun h => ?_⟩ <;> omega
  · rename_i hgrowth
    exact ⟨hstated, Nat.le_refl _, fun _ => rfl, fun _ _ => not_not.mp hgrowth⟩

theorem growthOf_spec (was_address stretch : BitVec w) (hok : FragOk frags.length i f)
    (hstated : Stated table f) :
    ∃ growth subtype, growthOf table frags i was_address f stretch = some (growth, subtype) ∧
      Grown table f growth subtype := by
  rw [growthOf]
  cases htype : f.fr_type with
  | rs_fill => exact ⟨_, _, rfl, grown_rest (by simp [htype]) _⟩
  | rs_align => exact ⟨_, _, rfl, grown_rest (by simp [htype]) _⟩
  | rs_org =>
    obtain ⟨target, htarget⟩ := targetOf_isSome hok
    have hnext := getElem?_eq_getElem (hok.org_next htype)
    exact ⟨_, _, by rw [orgGrowth, htarget, hnext]; rfl, grown_rest (by simp [htype]) _⟩
  | rs_machine_dependent => exact machineGrowth_spec hok hstated htype

/-! ## One frag of a pass -/

variable {p p' : Pass w}

/-- What `relaxFrag` does with the `i`-th frag. -/
structure Relaxed (table : RelaxTable w) (i : Nat) (p p' : Pass w) (f : Frag w)
    (growth subtype : BitVec w) :
    Prop where
  found : p.frags[i]? = some f
  growth_eq : growthOf table (p.frags.set i (f.moved p.stretch)) i f.fr_address
    (f.moved p.stretch) p.stretch =
    some (growth, subtype)
  grown : Grown table (f.moved p.stretch) growth subtype
  result : p' = ⟨p.frags.set i ((f.moved p.stretch).inState subtype), p.stretch + growth,
    p.stretched || growth != 0⟩

theorem relaxFrag_relaxed (h : Ready table n p.frags) (hi : i < n) :
    ∃ p' f growth subtype, relaxFrag table i p = some p' ∧ Relaxed table i p p' f growth subtype := by
  have hlt : i < p.frags.length := by rwa [h.length]
  have hfound := getElem?_eq_getElem hlt
  obtain ⟨hok, hstated⟩ := h.frag i _ hfound
  have hmoved : FragOk (p.frags.set i (p.frags[i].moved p.stretch)).length i
    (p.frags[i].moved p.stretch) := by
    rw [length_set, h.length]
    exact ⟨hok.symbol, hok.org_next, hok.org_target⟩
  obtain ⟨growth, subtype, hgrowth, hgrown⟩ :=
    growthOf_spec p.frags[i].fr_address p.stretch hmoved hstated
  refine ⟨_, p.frags[i], growth, subtype, ?_, ⟨hfound, hgrowth, hgrown, rfl⟩⟩
  rw [relaxFrag, hfound]
  exact congrArg (Option.map _) hgrowth

theorem sum_set_weight {f' : Frag w} (h : frags[i]? = some f) :
    total table (frags.set i f') + weight table f = total table frags + weight table f' := by
  induction frags generalizing i with
  | nil => simp at h
  | cons g rest ih =>
    cases i with
    | zero =>
      simp only [getElem?_cons_zero, Option.some.injEq] at h
      subst h
      simp only [total, set_cons_zero, map_cons, sum_cons]
      omega
    | succ i =>
      have hrest := ih (getElem?_cons_succ ▸ h)
      simp only [total, set_cons_succ, map_cons, sum_cons] at hrest ⊢
      omega

section Step
variable {growth subtype : BitVec w} (h : Relaxed table i p p' f growth subtype)
include h

theorem Relaxed.ready (hp : Ready table n p.frags) : Ready table n p'.frags := by
  obtain ⟨hok, -⟩ := hp.frag i f h.found
  rw [h.result]
  refine ⟨by rw [length_set, hp.length], ?_⟩
  intro j g hg
  rw [getElem?_set] at hg
  split at hg
  · rename_i heq
    split at hg
    · cases hg
      rw [← heq]
      exact ⟨⟨hok.symbol, hok.org_next, hok.org_target⟩, h.grown.stated⟩
    · cases hg
  · exact hp.frag j g hg

theorem Relaxed.total_eq : total table p'.frags + weight table (f.moved p.stretch) =
    total table p.frags + weight table ((f.moved p.stretch).inState subtype) := by
  rw [h.result, weight_moved]
  exact sum_set_weight h.found

theorem Relaxed.total_le : total table p.frags ≤ total table p'.frags := by
  have heq := h.total_eq
  have hle := h.grown.weight_le
  omega

theorem Relaxed.other {j : Nat} (hj : j ≠ i) : p'.frags[j]? = p.frags[j]? := by
  rw [h.result]
  exact getElem?_set_ne (Ne.symm hj)

theorem Relaxed.moved_of_total (hsame : total table p.frags = total table p'.frags) :
    p' = ⟨p.frags.set i (f.moved p.stretch), p.stretch + growth, p.stretched || growth != 0⟩ ∧
      (f.fr_type = .rs_machine_dependent → growth = 0) := by
  have heq := h.total_eq
  have hweight : weight table (f.moved p.stretch) =
      weight table ((f.moved p.stretch).inState subtype) := by omega
  refine ⟨?_, h.grown.still hweight⟩
  rw [h.result, h.grown.same hweight]
  rfl

end Step

/-! ## A whole pass -/

theorem passTo_ready (h : Ready table n frags) (hk : k ≤ n) :
    ∃ p, passTo table frags k = some p ∧ Ready table n p.frags := by
  induction k with
  | zero => exact ⟨_, rfl, h⟩
  | succ k ih =>
    obtain ⟨p, hp, hready⟩ := ih (by omega)
    obtain ⟨p', f, growth, subtype, hstep, hrelaxed⟩ := relaxFrag_relaxed hready (show k < n by omega)
    exact ⟨p', by rw [passTo, hp]; exact hstep, hrelaxed.ready hready⟩

theorem passTo_relaxed (h : Ready table n frags) (hk : k < n) (hp : passTo table frags k = some p)
    (hp' : passTo table frags (k + 1) = some p') :
    ∃ f growth subtype, Relaxed table k p p' f growth subtype := by
  obtain ⟨q, hq, hready⟩ := passTo_ready h (Nat.le_of_lt hk)
  rw [hp] at hq
  cases hq
  obtain ⟨q', f, growth, subtype, hstep, hrelaxed⟩ := relaxFrag_relaxed hready hk
  rw [passTo, hp, Option.bind_some, hstep] at hp'
  cases hp'
  exact ⟨f, growth, subtype, hrelaxed⟩

/-- From the `k`-th frag on a pass keeps what is before it, and no branch becomes shorter. -/
theorem passTo_later (h : Ready table n frags) {m : Nat} (hkm : k ≤ m) (hm : m ≤ n)
    (hp : passTo table frags k = some p) (hp' : passTo table frags m = some p') :
    total table p.frags ≤ total table p'.frags ∧ ∀ j, j < k → p'.frags[j]? = p.frags[j]? := by
  induction hkm generalizing p' with
  | refl =>
    rw [hp] at hp'
    cases hp'
    exact ⟨Nat.le_refl _, fun _ _ => rfl⟩
  | @step m hkm ih =>
    obtain ⟨q, hq, -⟩ := passTo_ready h (show m ≤ n by omega)
    obtain ⟨hle, hsame⟩ := ih (by omega) hq
    obtain ⟨f, growth, subtype, hrelaxed⟩ := passTo_relaxed h (by omega) hq hp'
    refine ⟨Nat.le_trans hle hrelaxed.total_le, fun j hj => ?_⟩
    have hkm' : k ≤ m := hkm
    rw [hrelaxed.other (by omega), hsame j hj]

/-- The frags before the `k`-th that are no branches would not grow now. -/
def Settled (table : RelaxTable w) (k : Nat) (frags : List (Frag w)) : Prop :=
  ∀ i f, i < k → frags[i]? = some f → f.fr_type ≠ .rs_machine_dependent →
    growthOf table frags i f.fr_address f 0 = some (0, f.fr_subtype)

theorem passTo_settled (h : Ready table n frags) (hk : k ≤ n) (hsettled : Settled table k frags)
    (hpass : passTo table frags n = some p') (hsame : total table frags = total table p'.frags) :
    passTo table frags k = some ⟨frags, 0, false⟩ := by
  induction k with
  | zero => rfl
  | succ k ih =>
    have hbefore := ih (by omega) fun i f hi => hsettled i f (by omega)
    obtain ⟨q, hq, -⟩ := passTo_ready h hk
    obtain ⟨f, growth, subtype, hrelaxed⟩ := passTo_relaxed h hk hbefore hq
    have hle := (passTo_later h hk (Nat.le_refl n) hq hpass).1
    have hstep := hrelaxed.total_le
    obtain ⟨hmoved, hbranch⟩ := hrelaxed.moved_of_total (by dsimp only at hstep ⊢; omega)
    have hfound : frags[k]? = some f := hrelaxed.found
    have hsetf : frags.set k f = frags := by
      obtain ⟨hlt, rfl⟩ := List.getElem?_eq_some_iff.mp hfound
      exact set_getElem_self hlt
    have hgrowth : growth = 0 := by
      by_cases hmachine : f.fr_type = .rs_machine_dependent
      · exact hbranch hmachine
      have hnow := hrelaxed.growth_eq
      rw [Frag.moved_zero, hsetf, hsettled k f (Nat.lt_succ_self k) hfound hmachine] at hnow
      cases hnow
      rfl
    rw [hq, hmoved, hgrowth, Frag.moved_zero, hsetf]
    simp

theorem addressOf_congr (hsame : ∀ j, j ≤ i → frags'[j]? = frags[j]?) {place : Place w}
    (h : ∀ j, place = .chain j → j ≤ i) : addressOf frags' place = addressOf frags place := by
  cases place with
  | chain j => rw [addressOf, hsame j (h j rfl), addressOf]
  | elsewhere address => rfl

theorem targetOf_congr (hok : FragOk n i f) (htype : f.fr_type = .rs_org)
    (hsame : ∀ j, j ≤ i → frags'[j]? = frags[j]?) : targetOf frags' f = targetOf frags f := by
  unfold targetOf
  split
  · rfl
  rename_i s hs
  rw [addressOf_congr hsame fun j hj => hok.org_target htype s j hs hj]

theorem forwards_again (target after : BitVec w) :
    forwards target (after + forwards target after) = 0 := by
  unfold forwards
  by_cases h : (0 : BitVec w).slt (target - after) = true
  · rw [if_pos h, BitVec.add_comm, BitVec.sub_add_cancel, BitVec.sub_self]
    simp
  · rw [if_neg h, show after + 0 = after by simp, if_neg h]

theorem orgGrowth_eq_some {stretch growth : BitVec w} (h : orgGrowth frags i f stretch = some growth) :
    ∃ target next, targetOf frags f = some target ∧ frags[i + 1]? = some next ∧
      growth = forwards target next.fr_address - stretch := by
  obtain ⟨target, htarget, hnext⟩ := Option.bind_eq_some_iff.mp h
  obtain ⟨next, hnext, heq⟩ := Option.map_eq_some_iff.mp hnext
  exact ⟨target, next, htarget, hnext, heq.symm⟩

/-- After a pass in which no branch grows, the first frag that was not settled is. -/
theorem settled_succ (h : Ready table n frags) (hk : k < n) (hsettled : Settled table k frags)
    (hpass : passTo table frags n = some p') (hsame : total table frags = total table p'.frags) :
    Settled table (k + 1) p'.frags := by
  have hbefore := passTo_settled h (Nat.le_of_lt hk) hsettled hpass hsame
  obtain ⟨q, hq, -⟩ := passTo_ready h (show k + 1 ≤ n from hk)
  obtain ⟨f, growth, subtype, hrelaxed⟩ := passTo_relaxed h hk hbefore hq
  obtain ⟨hle, hkept⟩ := passTo_later h (show k + 1 ≤ n from hk) (Nat.le_refl n) hq hpass
  have hstep := hrelaxed.total_le
  have hmoved := (hrelaxed.moved_of_total (by dsimp only at hstep ⊢; omega)).1
  have hfound : frags[k]? = some f := hrelaxed.found
  have hsetf : frags.set k f = frags := by
    obtain ⟨hlt, rfl⟩ := List.getElem?_eq_some_iff.mp hfound
    exact set_getElem_self hlt
  have hgrowth := hrelaxed.growth_eq
  rw [Frag.moved_zero, hsetf] at hmoved hgrowth
  have hthere : ∀ j, j ≤ k → p'.frags[j]? = frags[j]? := by
    intro j hj
    rw [hkept j (by omega), hmoved]
  intro i f' hi hf' htype
  have hf : frags[i]? = some f' := by rw [← hthere i (by omega), hf']
  have hok := (h.frag i f' hf).1
  cases htype' : f'.fr_type with
  | rs_fill => rw [growthOf, htype']
  | rs_align => simp [growthOf, htype']
  | rs_machine_dependent => exact absurd htype' htype
  | rs_org =>
    have htarget := targetOf_congr hok htype' fun j hj => hthere j (by omega)
    suffices hzero : orgGrowth p'.frags i f' 0 = some 0 by
      rw [growthOf, htype']
      simp only [hzero, Option.map_some]
    rcases Nat.lt_or_eq_of_le (Nat.le_of_lt_succ hi) with hlt | rfl
    · have hold := hsettled i f' hlt hf htype
      simp only [growthOf, htype', Option.map_eq_some_iff, Prod.mk.injEq, and_true,
        exists_eq_right] at hold
      rw [← hold, orgGrowth, orgGrowth, htarget, hthere (i + 1) hlt]
    -- the frag behind it has moved by just its growth
    rw [hfound] at hf
    cases hf
    simp only [growthOf, htype', Option.map_eq_some_iff, Prod.mk.injEq] at hgrowth
    obtain ⟨_, hgrowth, rfl, -⟩ := hgrowth
    obtain ⟨target, next, hold, hnext, rfl⟩ := orgGrowth_eq_some hgrowth
    have hlt := hok.org_next htype'
    obtain ⟨r, hr, -⟩ := passTo_ready h (show i + 1 + 1 ≤ n from hlt)
    obtain ⟨next', growth', subtype', hrelaxed'⟩ := passTo_relaxed h hlt hq hr
    have hlater := (passTo_later h (show i + 1 + 1 ≤ n from hlt) (Nat.le_refl n) hr hpass).2
      (i + 1) (by omega)
    have hnext' := hrelaxed'.found
    rw [hmoved] at hnext'
    rw [hnext] at hnext'
    cases hnext'
    have hinside : i + 1 < q.frags.length := by
      rw [hmoved]
      exact (List.getElem?_eq_some_iff.mp hnext).1
    rw [hrelaxed'.result] at hlater
    rw [getElem?_set_self hinside] at hlater
    rw [orgGrowth, htarget, hold, hlater, hmoved]
    simp [Frag.inState, Frag.moved, forwards_again]

theorem pass_settles (table : RelaxTable w) (n : Nat) :
    Settling (pass table) (Ready table n) (total table) (Settled table) (255 * n) n where
  bounded frags h := by
    have hweight : ∀ x ∈ frags.map (weight table), x ≤ 255 := by
      intro x hx
      obtain ⟨f, -, rfl⟩ := List.mem_map.mp hx
      unfold weight
      split
      · cases entry table f.fr_subtype with
        | none => exact Nat.zero_le _
        | some t => exact Nat.le_of_lt_succ t.rlx_length.toNat_lt
      · exact Nat.zero_le _
    have hsum := List.sum_le_card_nsmul _ _ hweight
    rw [length_map, h.length, smul_eq_mul] at hsum
    rw [total, Nat.mul_comm]
    exact hsum
  start _ _ i _ hi := absurd hi (Nat.not_lt_zero i)
  round k frags h hsettled hk := by
    obtain ⟨p', hp', hready⟩ := passTo_ready h (Nat.le_refl n)
    refine ⟨p'.frags, p'.stretched, by rw [pass, h.length, hp']; rfl, hready, ?_⟩
    intro hstretched
    have hle := (passTo_later h (Nat.zero_le n) (Nat.le_refl n) rfl hp').1
    rcases Nat.lt_or_eq_of_le hle with hlt | hsame
    · exact Or.inl hlt
    right
    rcases Nat.lt_or_eq_of_le hk with hlt | rfl
    · exact ⟨hsame, hlt, settled_succ h hlt hsettled hp' hsame⟩
    -- all frags are settled, so that the pass changes nothing
    rw [passTo_settled h hk hsettled hp' hsame] at hp'
    cases hp'
    cases hstretched

/-! ## The first guess -/

section Guess
variable {md_estimate_size_before_relax : Estimate w} {g : Guess w}

/-- The frags before the `k`-th have got a form of the table. -/
structure Guessed (table : RelaxTable w) (frags : List (Frag w)) (k : Nat) (frags' : List (Frag w)) :
    Prop where
  length : frags'.length = frags.length
  ok : ∀ i f, frags'[i]? = some f → FragOk frags.length i f
  stated : ∀ i f, i < k → frags'[i]? = some f → Stated table f
  ahead : ∀ i, k ≤ i → frags'[i]? = frags[i]?

theorem Guessed.set (h : Guessed table frags k frags') (hok : FragOk frags.length k f)
    (hstated : Stated table f) : Guessed table frags (k + 1) (frags'.set k f) where
  length := by rw [length_set, h.length]
  ok i f' hf' := by
    rw [getElem?_set] at hf'
    split at hf'
    · rename_i heq
      split at hf'
      · cases hf'
        exact heq ▸ hok
      · cases hf'
    · exact h.ok i f' hf'
  stated i f' hi hf' := by
    rw [getElem?_set] at hf'
    split at hf'
    · split at hf'
      · cases hf'
        exact hstated
      · cases hf'
    · exact h.stated i f' (by omega) hf'
  ahead i hi := by
    rw [getElem?_set_ne (by omega)]
    exact h.ahead i (by omega)

theorem guessFrag_guessed (hestimates : Estimates table md_estimate_size_before_relax frags)
    (h : Guessed table frags k g.frags) (hk : k < frags.length) :
    ∃ g', guessFrag md_estimate_size_before_relax k g = some g' ∧
      Guessed table frags (k + 1) g'.frags := by
  have hlt : k < g.frags.length := by rwa [h.length]
  have hfound := getElem?_eq_getElem hlt
  obtain ⟨hsymbol, hnext, htarget⟩ := h.ok k _ hfound
  have hok : FragOk frags.length k { g.frags[k] with fr_address := g.address } :=
    ⟨hsymbol, hnext, htarget⟩
  have hset := fun hstated => h.set hok hstated
  rw [guessFrag, hfound]
  dsimp only
  split
  · rename_i htype
    exact ⟨_, rfl, hset fun hm => by simp [htype] at hm⟩
  · rename_i htype
    have hrest := hset fun hm => by simp [htype] at hm
    split
    · split
      · exact ⟨_, rfl, hrest⟩
      · exact ⟨_, rfl, hrest⟩
    · exact ⟨_, rfl, hrest⟩
  · rename_i htype
    exact ⟨_, rfl, hset fun hm => by simp [htype] at hm⟩
  · rename_i htype
    refine ⟨_, rfl, ?_⟩
    have hthere : (g.frags.set k { g.frags[k] with fr_address := g.address })[k]? =
        some { g.frags[k] with fr_address := g.address } := getElem?_set_self hlt
    have hold : frags[k]? = some g.frags[k] := by rw [← h.ahead k (Nat.le_refl k), hfound]
    obtain ⟨hsame, hform⟩ := hestimates k _ hold htype _ _ hthere
    simp only [List.set_set]
    have hsymbol' := fun s j hs => hsymbol s j (hsame.symm.trans hs)
    rcases hform with hfill | ⟨hmachine, hinside⟩
    · exact h.set ⟨hsymbol', fun ho => by simp [hfill] at ho, fun ho => by simp [hfill] at ho⟩
        fun hm => by simp [hfill] at hm
    · exact h.set ⟨hsymbol', fun ho => by simp [hmachine] at ho, fun ho => by simp [hmachine] at ho⟩
        fun _ => hinside

theorem guessTo_guessed (align : BitVec 32)
    (hestimates : Estimates table md_estimate_size_before_relax frags)
    (h : ChainOk frags) (hk : k ≤ frags.length) :
    ∃ g, guessTo md_estimate_size_before_relax frags align k = some g ∧
      Guessed table frags k g.frags := by
  induction k with
  | zero => exact ⟨_, rfl, rfl, h, fun i f hi => absurd hi (Nat.not_lt_zero i), fun _ _ => rfl⟩
  | succ k ih =>
    obtain ⟨g, hg, hguessed⟩ := ih (by omega)
    rw [guessTo, hg]
    exact guessFrag_guessed hestimates hguessed hk

/-- `relax_section` returns: every pass is defined, and there are at most `(255 * n + 1) * (n + 1)`. -/
theorem relax_section_returns (table : RelaxTable w) (md_estimate_size_before_relax : Estimate w)
    (frags : List (Frag w)) (align : BitVec 32)
    (hestimates : Estimates table md_estimate_size_before_relax frags) (h : ChainOk frags) :
    ∃ result, relax_section table md_estimate_size_before_relax
      ((255 * frags.length + 1) * (frags.length + 1)) frags align = some result := by
  obtain ⟨g, hg, hguessed⟩ := guessTo_guessed align hestimates h (Nat.le_refl frags.length)
  have hready : Ready table frags.length g.frags := by
    refine ⟨hguessed.length, fun i f hf => ⟨hguessed.ok i f hf, ?_⟩⟩
    have hlt := (List.getElem?_eq_some_iff.mp hf).1
    rw [hguessed.length] at hlt
    exact hguessed.stated i f hlt hf
  obtain ⟨result, hloop, -⟩ := (pass_settles table frags.length).loop_returns hready
  exact ⟨_, by rw [relax_section, hg, Option.bind_some, hloop]; rfl⟩

end Guess

/-! ## Where the loop ends -/

/-- A branch reaches its target or has no longer form; what follows an `.org` is not before its target. -/
def Reaches (table : RelaxTable w) (frags : List (Frag w)) (i : Nat) (f : Frag w) : Prop :=
  match f.fr_type with
  | .rs_machine_dependent =>
    ∃ target t, targetOf frags f = some target ∧ entry table f.fr_subtype = some t ∧
      let aim := target - f.fr_address - f.fr_fix
      t.rlx_more = 0 ∨ if aim.slt 0 then t.rlx_backward.sle aim else aim.sle t.rlx_forward
  | .rs_org =>
    ∃ target next, targetOf frags f = some target ∧ frags[i + 1]? = some next ∧
      ¬ (0 : BitVec w).slt (target - next.fr_address) = true
  | .rs_fill | .rs_align => True

theorem growTo_stops {fits : RelaxType w → Bool} {fuel : Nat} {state state' : BitVec w}
    (h : growTo table fits fuel state = some state') :
    ∃ t, entry table state' = some t ∧ (t.rlx_more = 0 ∨ fits t = true) := by
  induction fuel generalizing state with
  | zero => cases h
  | succ fuel ih =>
    rw [growTo] at h
    split at h
    · cases h
    rename_i t ht
    split at h
    · rename_i hstop
      cases h
      exact ⟨t, ht, hstop⟩
    · exact ih h

theorem stretchOf_zero (was_address : BitVec w) : stretchOf frags i was_address f 0 = 0 := by
  unfold stretchOf
  split
  · rfl
  split
  · rfl
  exact ite_self 0

theorem growthOf_zero {was_address subtype : BitVec w}
    (h : growthOf table frags i was_address f 0 = some (0, subtype)) : subtype = f.fr_subtype := by
  unfold growthOf machineGrowth at h
  grind [Option.map_eq_some_iff]

theorem machineGrowth_zero (hw : 8 ≤ w) {was_address subtype : BitVec w}
    (htype : f.fr_type = .rs_machine_dependent)
    (h : machineGrowth table frags i was_address f 0 = some (0, subtype)) : Reaches table frags i f := by
  unfold machineGrowth at h
  split at h
  swap
  · cases h
  rename_i target t htarget ht
  rw [stretchOf_zero, show target + 0 = target by simp] at h
  dsimp only at h
  split at h
  · cases h
  rename_i state hgrow
  obtain ⟨t', ht', hstop⟩ := growTo_stops hgrow
  obtain ⟨state', t'', hgrow', -, ht'', hcases⟩ :=
    growTo_spec _ (List.getElem?_eq_some_iff.mp ht).1 ht (Nat.le_add_left 256 _)
  rw [hgrow'] at hgrow
  cases hgrow
  rw [ht''] at ht'
  cases ht'
  rw [ht''] at h
  have hgrowth := BitVec.sub_eq_iff_eq_add.mp (Prod.mk.inj (Option.some.inj h)).1
  have hsame : state = f.fr_subtype := by
    refine hcases.resolve_right fun hlt => ?_
    have hwide : 2 ^ 8 ≤ 2 ^ w := Nat.pow_le_pow_right (by decide) hw
    have hshort := t.rlx_length.toNat_lt
    have hlong := t'.rlx_length.toNat_lt
    have hlen : t'.rlx_length.toNat % 2 ^ w = t.rlx_length.toNat % 2 ^ w := by
      simpa using congrArg BitVec.toNat hgrowth
    rw [Nat.mod_eq_of_lt (by omega), Nat.mod_eq_of_lt (by omega)] at hlen
    exact absurd hlen (Nat.ne_of_gt (UInt8.lt_iff_toNat_lt.mp hlt))
  rw [hsame] at ht''
  rw [Reaches, htype]
  exact ⟨target, t', htarget, ht'', hstop⟩

theorem orgGrowth_zero (htype : f.fr_type = .rs_org) (h : orgGrowth frags i f 0 = some 0) :
    Reaches table frags i f := by
  obtain ⟨target, next, htarget, hnext, hzero⟩ := orgGrowth_eq_some h
  have hforwards : forwards target next.fr_address = 0 := by simpa using hzero.symm
  rw [Reaches, htype]
  refine ⟨target, next, htarget, hnext, fun hlt => ?_⟩
  rw [forwards, if_pos hlt] at hforwards
  simp [hforwards, BitVec.slt] at hlt

theorem passTo_still (h : passTo table frags k = some p) (hstill : p.stretched = false) :
    p = ⟨frags, 0, false⟩ ∧ ∀ i f, i < k → frags[i]? = some f →
      growthOf table frags i f.fr_address f 0 = some (0, f.fr_subtype) := by
  induction k generalizing p with
  | zero =>
    cases h
    exact ⟨rfl, fun i f hi => absurd hi (Nat.not_lt_zero i)⟩
  | succ k ih =>
    obtain ⟨q, hq, hstep⟩ := Option.bind_eq_some_iff.mp h
    rw [relaxFrag] at hstep
    split at hstep
    · cases hstep
    rename_i f hf
    obtain ⟨⟨growth, subtype⟩, hgrowth, rfl⟩ := Option.map_eq_some_iff.mp hstep
    obtain ⟨hbefore, hzero⟩ := Bool.or_eq_false_iff.mp hstill
    obtain ⟨rfl, hsettled⟩ := ih hq hbefore
    have hzero : growth = 0 := by simpa using hzero
    have hmoved : ({ f with fr_address := f.fr_address + 0 } : Frag w) = f := f.moved_zero
    have hsetf : frags.set k f = frags := by
      obtain ⟨hlt, rfl⟩ := List.getElem?_eq_some_iff.mp hf
      exact set_getElem_self hlt
    dsimp only at hf hgrowth
    rw [hmoved, hsetf, hzero] at hgrowth
    have hsubtype := growthOf_zero hgrowth
    subst hzero hsubtype
    refine ⟨by simp [hsetf], fun i g hi hg => ?_⟩
    rcases Nat.lt_or_eq_of_le (Nat.le_of_lt_succ hi) with hlt | rfl
    · exact hsettled i g hlt hg
    rw [hf] at hg
    cases hg
    exact hgrowth

/-- What `relax_section` leaves is a fixed point of a pass, in which every frag reaches its target. -/
theorem relax_section_settled {md_estimate_size_before_relax : Estimate w} {passes : Nat}
    {align align' : BitVec 32} (hw : 8 ≤ w)
    (h : relax_section table md_estimate_size_before_relax passes frags align = some (frags', align')) :
    pass table frags' = some (frags', false) ∧
      ∀ i f, frags'[i]? = some f → Reaches table frags' i f := by
  obtain ⟨g, -, hloop⟩ := Option.bind_eq_some_iff.mp h
  obtain ⟨result, hlast, heq⟩ := Option.map_eq_some_iff.mp hloop
  cases heq
  obtain ⟨before, hpass⟩ := loop_last hlast
  obtain ⟨p, hp, heq⟩ := Option.map_eq_some_iff.mp hpass
  obtain ⟨hfrags, hstretched⟩ := Prod.mk.inj heq
  obtain ⟨rfl, hsettled⟩ := passTo_still hp hstretched
  cases hfrags
  refine ⟨hpass, fun i f hi => ?_⟩
  have hgrowth := hsettled i f (List.getElem?_eq_some_iff.mp hi).1 hi
  rw [growthOf] at hgrowth
  cases htype : f.fr_type with
  | rs_fill | rs_align => rw [Reaches, htype]; trivial
  | rs_org =>
    rw [htype] at hgrowth
    exact orgGrowth_zero htype (by simpa using hgrowth)
  | rs_machine_dependent =>
    rw [htype] at hgrowth
    exact machineGrowth_zero hw htype hgrowth

/-- The relax table of i386.c -/
def i386_relax_table : RelaxTable 64 where
  entries :=
    [⟨128, -127, 1, 2⟩, ⟨128, -127, 1, 3⟩, ⟨0, 0, 4, 0⟩, ⟨0, 0, 2, 0⟩,
     ⟨128, -127, 1, 6⟩, ⟨128, -127, 1, 7⟩, ⟨0, 0, 5, 0⟩, ⟨0, 0, 3, 0⟩,
     ⟨128, -127, 1, 10⟩, ⟨128, -127, 1, 11⟩, ⟨0, 0, 5, 0⟩, ⟨0, 0, 4, 0⟩]
  inside := by decide
  longer := by simp +decide

/-- A jump over an `.align` and an `.org`, to the last frag -/
def jumpOver : List (Frag 64) :=
  [⟨0, 1, 0, some ⟨0, .chain 3⟩, 0, .rs_machine_dependent, 0⟩, ⟨0, 120, 1, none, 4, .rs_align, 0⟩,
   ⟨0, 2, 1, some ⟨10, .chain 0⟩, 200, .rs_org, 0⟩, ⟨0, 5, 0, none, 0, .rs_fill, 0⟩]

/-- The first guess of i386.c for a target in the same section: one byte -/
def byteGuess : Estimate 64 := fun frags i => (frags.getD i ⟨0, 0, 0, none, 0, .rs_fill, 0⟩, 1)

theorem jumpOver_returns : ∃ result, relax_section i386_relax_table byteGuess
    ((255 * jumpOver.length + 1) * (jumpOver.length + 1)) jumpOver 0 = some result := by
  apply relax_section_returns
  · intro i f hf htype frags' address hf'
    rw [byteGuess, getD_eq_getElem?_getD, hf']
    refine ⟨rfl, Or.inr ⟨htype, ?_⟩⟩
    match i, hf with
    | 0, rfl => exact show 0 < 12 by decide
    | 1, rfl => cases htype
    | 2, rfl => cases htype
    | 3, rfl => cases htype
  · intro i f hf
    match i, hf with
    | 0, rfl => exact ⟨by rintro _ _ ⟨⟩ ⟨⟩; decide, nofun, nofun⟩
    | 1, rfl => exact ⟨nofun, nofun, nofun⟩
    | 2, rfl => exact ⟨by rintro _ _ ⟨⟩ ⟨⟩; decide, fun _ => by decide, by rintro - _ _ ⟨⟩ ⟨⟩; decide⟩
    | 3, rfl => exact ⟨nofun, nofun, nofun⟩

theorem jumpOver_settled : ∃ frags' align',
    relax_section i386_relax_table byteGuess 9 jumpOver 0 = some (frags', align') ∧
      pass i386_relax_table frags' = some (frags', false) ∧
      ∀ i f, frags'[i]? = some f → Reaches i386_relax_table frags' i f := by
  have h : (relax_section i386_relax_table byteGuess 9 jumpOver 0).isSome = true := by decide +kernel
  obtain ⟨⟨frags', align'⟩, hsome⟩ := Option.isSome_iff_exists.mp h
  exact ⟨frags', align', hsome, relax_section_settled (by decide) hsome⟩

end Toolwhip.As.Relax
