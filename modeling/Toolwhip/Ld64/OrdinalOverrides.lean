import Toolwhip.Ld64.SortAtoms
import Toolwhip.Lib.SortContract

/-! # What the override ordinals say

After any number of entries of the order file, an atom outside the clusters has
the ordinal of its last entry and the members of a cluster have consecutive
ordinals that nothing else lies between. -/

namespace Toolwhip.Ld64
open Function Lib.SuccessorChains Lib.Occurrences List
set_option autoImplicit false
variable {entries : List (Option AtomPtr)} {c : Clusters}

def Ordered (c : Clusters) (entries : List (Option AtomPtr)) (a : AtomPtr) : Prop :=
  ∃ b, some b ∈ entries ∧
    (b = a ∨ ((c.followOnStarts b).isSome ∧ c.followOnStarts b = c.followOnStarts a))

def Plain (c : Clusters) (entries : List (Option AtomPtr)) (a : AtomPtr) : Prop :=
  some a ∈ entries ∧ c.followOnStarts a = none

variable {a : AtomPtr}

theorem Ordered.mem_of_plain
    (h : Ordered c entries a) (ha : c.followOnStarts a = none) : some a ∈ entries := by
  obtain ⟨b, hb, rfl | ⟨hsome, hstart⟩⟩ := h
  · exact hb
  rw [hstart, ha] at hsome
  cases hsome

theorem Plain.ordered (h : Plain c entries a) : Ordered c entries a :=
  ⟨a, h.1, Or.inl rfl⟩

theorem ordered_concat {found : Option AtomPtr} : Ordered c (entries ++ [found]) a ↔ Ordered c entries a ∨
      Ordered c [found] a := by
  unfold Ordered
  simp only [mem_append, or_and_right, exists_or]

section Loop

variable {nexts : AtomPtr → Option AtomPtr}
variable {l : List AtomPtr}

theorem layoutCluster_terminates (hl : Linked nexts none l) {fuel : Nat}
    (hf : l.length < fuel) (st : OverrideState) :
    ∃ st', layoutCluster nexts fuel l.head? st = some st' := by
  induction l generalizing fuel st with
  | nil =>
    obtain ⟨fuel, rfl⟩ : ∃ k, fuel = k + 1 := ⟨fuel - 1, by omega⟩
    exact ⟨st, rfl⟩
  | cons x l ih =>
    obtain ⟨fuel, rfl⟩ : ∃ k, fuel = k + 1 := ⟨fuel - 1, by omega⟩
    rw [linked_cons, Option.or_none] at hl
    simp only [head?_cons, layoutCluster, hl.1]
    exact ih hl.2 (by simpa using hf) _

theorem layoutCluster_done (hl : Linked nexts none l) {fuel : Nat}
    (hf : l.length < fuel) {st : OverrideState}
    (hdone : ∀ a ∈ l, (st.theOrdinalOverrideMap a).isSome) :
    layoutCluster nexts fuel l.head? st = some st := by
  induction l generalizing fuel with
  | nil =>
    obtain ⟨fuel, rfl⟩ : ∃ k, fuel = k + 1 := ⟨fuel - 1, by omega⟩
    rfl
  | cons x l ih =>
    obtain ⟨fuel, rfl⟩ : ∃ k, fuel = k + 1 := ⟨fuel - 1, by omega⟩
    rw [linked_cons, Option.or_none] at hl
    obtain ⟨n, hn⟩ := Option.isSome_iff_exists.mp (hdone x mem_cons_self)
    simp only [head?_cons, layoutCluster, hl.1, hn]
    exact ih hl.2 (by simpa using hf) fun a ha => hdone a (mem_cons_of_mem x ha)

theorem layoutCluster_fresh (hl : Linked nexts none l) (hnd : l.Nodup)
    {fuel : Nat} (hf : l.length < fuel) {st : OverrideState}
    (hnone : ∀ a ∈ l, st.theOrdinalOverrideMap a = none) (hsmall : st.index + l.length < 2 ^ 32) :
    ∃ st', layoutCluster nexts fuel l.head? st = some st' ∧ st'.index = st.index + l.length ∧
      ∀ a, st'.theOrdinalOverrideMap a =
        if a ∈ l then some (st.index + l.idxOf a) else st.theOrdinalOverrideMap a := by
  induction l generalizing fuel st with
  | nil =>
    obtain ⟨fuel, rfl⟩ : ∃ k, fuel = k + 1 := ⟨fuel - 1, by omega⟩
    exact ⟨st, rfl, rfl, fun a => by simp⟩
  | cons x l ih =>
    obtain ⟨fuel, rfl⟩ : ∃ k, fuel = k + 1 := ⟨fuel - 1, by omega⟩
    rw [linked_cons, Option.or_none] at hl
    rw [nodup_cons] at hnd
    rw [length_cons] at hsmall
    have hindex : (st.assign x).bump.index = st.index + 1 := by
      simp only [OverrideState.bump, OverrideState.assign]
      exact Nat.mod_eq_of_lt (by omega)
    have hmap : (st.assign x).bump.theOrdinalOverrideMap =
        update st.theOrdinalOverrideMap x (some st.index) := rfl
    have hnone' : ∀ a ∈ l, (st.assign x).bump.theOrdinalOverrideMap a = none := by
      intro a ha
      rw [hmap, update_of_ne (ne_of_mem_of_not_mem ha hnd.1)]
      exact hnone a (mem_cons_of_mem x ha)
    obtain ⟨st', hst', hidx, hspec⟩ := @ih hl.2 hnd.2 fuel (by simpa using hf)
      (st.assign x).bump hnone' (by omega)
    refine ⟨st', ?_, ?_, ?_⟩
    · simp only [head?_cons, layoutCluster, hl.1, hnone x mem_cons_self]
      exact hst'
    · rw [hidx, hindex, length_cons]
      omega
    · intro a
      rw [hspec a, hindex, hmap]
      by_cases hax : a = x
      · subst a
        simp [hnd.1]
      by_cases hal : a ∈ l
      · rw [if_pos hal, if_pos (mem_cons_of_mem x hal),
          idxOf_cons_ne _ (Ne.symm hax)]
        congr 1
        omega
      · rw [if_neg hal, if_neg (by simp [hax, hal]), update_of_ne hax]

end Loop

/-- What the map says after the entries `entries`. -/
structure OverridesInv (c : Clusters) (chains : List (List AtomPtr))
    (entries : List (Option AtomPtr)) (st : OverrideState) : Prop where
  index_le : st.index ≤ entries.length +
    chains.flatten.countP fun a => (st.theOrdinalOverrideMap a).isSome
  lt_index : ∀ a x, st.theOrdinalOverrideMap a = some x → x < st.index
  mapped : ∀ a, (st.theOrdinalOverrideMap a).isSome ↔ Ordered c entries a
  plain_lt : ∀ a b x y, c.followOnStarts a = none → c.followOnStarts b = none →
    st.theOrdinalOverrideMap a = some x → st.theOrdinalOverrideMap b = some y →
      (x < y ↔ lastIdxOf (some a) entries < lastIdxOf (some b) entries)
  cluster : ∀ l ∈ chains, (∃ a ∈ l, Ordered c entries a) → ∃ base,
    (∀ a ∈ l, st.theOrdinalOverrideMap a = some (base + l.idxOf a)) ∧
      ∀ a, a ∉ l → ∀ x, st.theOrdinalOverrideMap a = some x → x < base ∨ base + l.length ≤ x

section Step

variable {c : Clusters} {chains : List (List AtomPtr)} {entries : List (Option AtomPtr)}
  {st : OverrideState}

theorem overridesInv_nil : OverridesInv c chains [] {} where
  index_le := Nat.zero_le _
  lt_index := by
    intro a x h
    cases h
  mapped := by simp [Ordered]
  plain_lt := by
    intro a b x y _ _ h
    cases h
  cluster := by
    rintro l - ⟨a, -, b, hb, -⟩
    cases hb

theorem bump_index {st : OverrideState} (h : st.index + 1 < 2 ^ 32) :
    st.bump.index = st.index + 1 :=
  Nat.mod_eq_of_lt h

theorem OverridesInv.index_add_lt (h : OverridesInv c chains entries st)
    (hfew : entries.length + 1 + chains.flatten.length < 2 ^ 32) : st.index + 1 < 2 ^ 32 := by
  have := h.index_le
  have := countP_le_length (p := fun a => (st.theOrdinalOverrideMap a).isSome)
    (l := chains.flatten)
  omega

variable {l : List AtomPtr}

theorem OverridesInv.block_le (hc : Represents chains c.followOnStarts c.followOnNexts)
    (h : OverridesInv c chains entries st) (hl : l ∈ chains) {base : Nat}
    (hin : ∀ a ∈ l, st.theOrdinalOverrideMap a = some (base + l.idxOf a)) :
    base + l.length ≤ st.index := by
  have hlen := hc.two_le l hl
  have hlt : l.length - 1 < l.length := by omega
  have hidx := (hc.nodup_of_mem hl).idxOf_getElem (l.length - 1) hlt
  have := h.lt_index _ _ (hin _ (getElem_mem hlt))
  omega

theorem OverridesInv.bump (h : OverridesInv c chains entries st)
    (hfew : entries.length + 1 + chains.flatten.length < 2 ^ 32) {found : Option AtomPtr}
    (hsame : ∀ a, Ordered c [found] a → Ordered c entries a)
    (hplain : ∀ a, found = some a → c.followOnStarts a ≠ none) :
    OverridesInv c chains (entries ++ [found]) st.bump := by
  have hindex := bump_index (h.index_add_lt hfew)
  have hord : ∀ a, Ordered c (entries ++ [found]) a ↔ Ordered c entries a := fun a =>
    ordered_concat.trans ⟨fun ha => ha.elim id (hsame a), Or.inl⟩
  constructor
  · rw [hindex, length_append]
    have := h.index_le
    simp only [OverrideState.bump, length_cons, length_nil]
    omega
  · intro a x hx
    have := h.lt_index a x hx
    omega
  · intro a
    rw [hord]
    exact h.mapped a
  · intro a b x y ha hb hx hy
    rw [lastIdxOf_concat_ne fun hE => hplain a hE ha, lastIdxOf_concat_ne fun hE => hplain b hE hb]
    exact h.plain_lt a b x y ha hb hx hy
  · rintro l hl ⟨a, hal, ha⟩
    exact h.cluster l hl ⟨a, hal, (hord a).mp ha⟩

variable {atom : AtomPtr}

theorem OverridesInv.assign (hc : Represents chains c.followOnStarts c.followOnNexts)
    (h : OverridesInv c chains entries st)
    (hfew : entries.length + 1 + chains.flatten.length < 2 ^ 32)
    (hplain : c.followOnStarts atom = none) :
    OverridesInv c chains (entries ++ [some atom]) (st.assign atom).bump := by
  have hindex : (st.assign atom).bump.index = st.index + 1 :=
    @bump_index (st.assign atom) (h.index_add_lt hfew)
  have hout := hc.not_mem_of_start_none hplain
  have hself : (st.assign atom).bump.theOrdinalOverrideMap atom = some st.index :=
    update_self _ _ _
  have hother : ∀ a, a ≠ atom →
      (st.assign atom).bump.theOrdinalOverrideMap a = st.theOrdinalOverrideMap a :=
    fun a ha => update_of_ne ha _ _
  have hsingle : ∀ a, Ordered c [some atom] a ↔ a = atom := by
    intro a
    constructor
    · rintro ⟨b, hb, hba⟩
      obtain rfl : b = atom := by simpa using hb
      rcases hba with rfl | ⟨hsome, -⟩
      · rfl
      rw [hplain] at hsome
      cases hsome
    · rintro rfl
      exact ⟨a, List.mem_singleton.mpr rfl, Or.inl rfl⟩
  constructor
  · rw [hindex, length_append]
    have hcount : chains.flatten.countP
        (fun a => ((st.assign atom).bump.theOrdinalOverrideMap a).isSome) =
        chains.flatten.countP fun a => (st.theOrdinalOverrideMap a).isSome := by
      refine countP_congr ?_
      intro a ha
      rw [hother a (ne_of_mem_of_not_mem ha hout)]
    have := h.index_le
    simp only [length_cons, length_nil]
    omega
  · intro a x hx
    rw [hindex]
    by_cases ha : a = atom
    · rw [ha, hself] at hx
      cases hx
      exact Nat.lt_succ_self _
    · rw [hother a ha] at hx
      have := h.lt_index a x hx
      omega
  · intro a
    rw [ordered_concat, hsingle]
    by_cases ha : a = atom
    · rw [ha, hself]
      simp
    · rw [hother a ha, h.mapped a]
      simp [ha]
  · intro a b x y ha hb hx hy
    have hlast : ∀ d z, d ≠ atom → c.followOnStarts d = none →
        (st.assign atom).bump.theOrdinalOverrideMap d = some z → z < st.index ∧
          lastIdxOf (some d) (entries ++ [some atom]) = lastIdxOf (some d) entries ∧
          lastIdxOf (some d) entries < entries.length := by
      intro d z hd hdp hz
      rw [hother d hd] at hz
      refine ⟨h.lt_index d z hz, lastIdxOf_concat_ne (by simpa using Ne.symm hd), ?_⟩
      have hmem : Ordered c entries d := (h.mapped d).mp (by rw [hz]; rfl)
      exact lastIdxOf_lt (hmem.mem_of_plain hdp)
    by_cases hae : a = atom <;> by_cases hbe : b = atom
    · rw [hae, hself] at hx
      rw [hbe, hself] at hy
      cases hx
      cases hy
      rw [hae, hbe]
      simp
    · have hb' := hlast b y hbe hb hy
      rw [hae, hself] at hx
      cases hx
      rw [hae, lastIdxOf_concat_self, hb'.2.1]
      omega
    · have ha' := hlast a x hae ha hx
      rw [hbe, hself] at hy
      cases hy
      rw [hbe, lastIdxOf_concat_self, ha'.2.1]
      omega
    · rw [(hlast a x hae ha hx).2.1, (hlast b y hbe hb hy).2.1]
      rw [hother a hae] at hx
      rw [hother b hbe] at hy
      exact h.plain_lt a b x y ha hb hx hy
  · rintro l hl ⟨a, hal, ha⟩
    have hne : ∀ d ∈ l, d ≠ atom := by
      rintro d hd rfl
      exact hout (List.mem_flatten.mpr ⟨l, hl, hd⟩)
    rw [ordered_concat, hsingle] at ha
    obtain ⟨base, hin, hoff⟩ := h.cluster l hl ⟨a, hal, ha.resolve_right (hne a hal)⟩
    refine ⟨base, ?_, ?_⟩
    · intro d hd
      rw [hother d (hne d hd)]
      exact hin d hd
    · intro d hd x hx
      by_cases hda : d = atom
      · rw [hda, hself] at hx
        cases hx
        exact Or.inr (h.block_le hc hl hin)
      · rw [hother d hda] at hx
        exact hoff d hd x hx

theorem OverridesInv.index_add_block_le (h : OverridesInv c chains entries st) (hl : l ∈ chains)
    (hnone : ∀ a ∈ l, st.theOrdinalOverrideMap a = none) :
    st.index + l.length ≤ entries.length + chains.flatten.length := by
  have hperm := (perm_cons_erase hl).flatten
  have hidx := h.index_le
  have hold : l.countP (fun a => (st.theOrdinalOverrideMap a).isSome) = 0 := by
    rw [countP_eq_zero]
    intro a ha
    simp [hnone a ha]
  rw [hperm.countP_eq, flatten_cons, countP_append, hold] at hidx
  have hrest := countP_le_length (p := fun a => (st.theOrdinalOverrideMap a).isSome)
    (l := (chains.erase l).flatten)
  rw [hperm.length_eq, flatten_cons, length_append]
  omega

theorem ordered_singleton (hc : Represents chains c.followOnStarts c.followOnNexts)
    (hl : l ∈ chains) (hal : atom ∈ l) (a : AtomPtr) :
    Ordered c [some atom] a ↔ a ∈ l := by
  have hstart := hc.start_eq l hl atom hal
  obtain ⟨start, hs⟩ : ∃ start, l.head? = some start :=
    ⟨l.head (ne_nil_of_mem hal), head?_eq_some_head _⟩
  constructor
  · rintro ⟨b, hb, hba⟩
    obtain rfl : b = atom := by simpa using hb
    rcases hba with rfl | ⟨-, hEq⟩
    · exact hal
    obtain ⟨m, hm, ham, hmhead⟩ := hc.mem_of_start (hEq.symm.trans (hstart.trans hs))
    obtain rfl := hc.eq_of_mem hl hm (mem_of_mem_head? hs) (mem_of_mem_head? hmhead)
    exact ham
  · intro ha
    refine ⟨atom, List.mem_singleton.mpr rfl, Or.inr ⟨?_, ?_⟩⟩
    · rw [hstart, hs]
      rfl
    · rw [hstart, hc.start_eq l hl a ha]

theorem OverridesInv.layout (hc : Represents chains c.followOnStarts c.followOnNexts)
    (h : OverridesInv c chains entries st)
    (hfew : entries.length + 1 + chains.flatten.length < 2 ^ 32) (hl : l ∈ chains) (hal : atom ∈ l)
    (hnone : ∀ a ∈ l, st.theOrdinalOverrideMap a = none) {st' : OverrideState}
    (hindex : st'.index = st.index + l.length) (hmap : ∀ a, st'.theOrdinalOverrideMap a =
      if a ∈ l then some (st.index + l.idxOf a) else st.theOrdinalOverrideMap a) :
    OverridesInv c chains (entries ++ [some atom]) st'.bump := by
  have hin : ∀ a ∈ l, st'.theOrdinalOverrideMap a = some (st.index + l.idxOf a) := by
    intro a ha
    rw [hmap, if_pos ha]
  have hout : ∀ a, a ∉ l → st'.theOrdinalOverrideMap a = st.theOrdinalOverrideMap a := by
    intro a ha
    rw [hmap, if_neg ha]
  have hle : st'.index ≤ entries.length +
      chains.flatten.countP fun a => (st'.theOrdinalOverrideMap a).isSome := by
    have hperm := (perm_cons_erase hl).flatten
    have hsplit : ∀ p : AtomPtr → Bool,
        chains.flatten.countP p = l.countP p + (chains.erase l).flatten.countP p := by
      intro p
      rw [hperm.countP_eq, flatten_cons, countP_append]
    have hnd := hc.nodup
    rw [hperm.nodup_iff, flatten_cons, nodup_append] at hnd
    have hrest : (chains.erase l).flatten.countP (fun a => (st'.theOrdinalOverrideMap a).isSome) =
        (chains.erase l).flatten.countP fun a => (st.theOrdinalOverrideMap a).isSome := by
      refine countP_congr ?_
      intro a ha
      rw [hout a fun hal => hnd.2.2 a hal a ha rfl]
    have hold : l.countP (fun a => (st.theOrdinalOverrideMap a).isSome) = 0 := by
      rw [countP_eq_zero]
      intro a ha
      simp [hnone a ha]
    have hnew : l.countP (fun a => (st'.theOrdinalOverrideMap a).isSome) = l.length := by
      rw [countP_eq_length]
      intro a ha
      simp [hin a ha]
    have hidx := h.index_le
    rw [hsplit] at hidx ⊢
    omega
  have hbound : st'.index + 1 < 2 ^ 32 := by
    have := countP_le_length (p := fun a => (st'.theOrdinalOverrideMap a).isSome)
      (l := chains.flatten)
    omega
  have hplain : ∀ d, c.followOnStarts d = none → d ∉ l := fun d hd => hc.not_mem_of_mem hl hd
  constructor
  · rw [bump_index hbound, length_append]
    simp only [OverrideState.bump, length_cons, length_nil]
    omega
  · intro a x hx
    rw [bump_index hbound]
    have hx' : st'.theOrdinalOverrideMap a = some x := hx
    by_cases ha : a ∈ l
    · rw [hin a ha] at hx'
      have := idxOf_lt_length_of_mem ha
      cases hx'
      omega
    · rw [hout a ha] at hx'
      have := h.lt_index a x hx'
      omega
  · intro a
    change (st'.theOrdinalOverrideMap a).isSome ↔ _
    rw [ordered_concat, ordered_singleton hc hl hal]
    by_cases ha : a ∈ l
    · rw [hin a ha]
      simp [ha]
    · rw [hout a ha, h.mapped a]
      simp [ha]
  · intro a b x y ha hb hx hy
    have hx' : st'.theOrdinalOverrideMap a = some x := hx
    have hy' : st'.theOrdinalOverrideMap b = some y := hy
    rw [hout a (hplain a ha)] at hx'
    rw [hout b (hplain b hb)] at hy'
    have hne : ∀ d, c.followOnStarts d = none → some atom ≠ some d := by
      rintro d hd hE
      cases hE
      exact hplain atom hd hal
    rw [lastIdxOf_concat_ne (hne a ha), lastIdxOf_concat_ne (hne b hb)]
    exact h.plain_lt a b x y ha hb hx' hy'
  · rintro m hm ⟨a, ham, ha⟩
    by_cases hml : m = l
    · subst hml
      refine ⟨st.index, hin, ?_⟩
      intro d hd x hx
      have hx' : st'.theOrdinalOverrideMap d = some x := hx
      rw [hout d hd] at hx'
      exact Or.inl (h.lt_index d x hx')
    · have hdisj : ∀ d ∈ m, d ∉ l := fun d hd hdl => hml (hc.eq_of_mem hm hl hd hdl)
      rw [ordered_concat, ordered_singleton hc hl hal] at ha
      obtain ⟨base, hbin, hboff⟩ := h.cluster m hm ⟨a, ham, ha.resolve_right (hdisj a ham)⟩
      refine ⟨base, ?_, ?_⟩
      · intro d hd
        exact (hout d (hdisj d hd)).trans (hbin d hd)
      · intro d hd x hx
        have hx' : st'.theOrdinalOverrideMap d = some x := hx
        by_cases hdl : d ∈ l
        · rw [hin d hdl] at hx'
          have := h.block_le hc hm hbin
          cases hx'
          omega
        · rw [hout d hdl] at hx'
          exact hboff d hd x hx'

/-- One entry: with enough fuel it returns, and the invariant is kept as long as
the counter does not wrap. -/
theorem processOrderedSymbol_inv (hc : Represents chains c.followOnStarts c.followOnNexts)
    (found : Option AtomPtr) {fuel : Nat} (hf : chains.flatten.length < fuel) :
    ∃ st', processOrderedSymbol c fuel st found = some st' ∧
      (OverridesInv c chains entries st →
        entries.length + 1 + chains.flatten.length < 2 ^ 32 →
          OverridesInv c chains (entries ++ [found]) st') := by
  cases found with
  | none =>
    refine ⟨st.bump, rfl, fun h hfew => h.bump hfew ?_ ?_⟩
    · rintro a ⟨b, hb, -⟩
      cases List.mem_singleton.mp hb
    · rintro a ha
      cases ha
  | some atom =>
    unfold processOrderedSymbol
    cases hstart : c.followOnStarts atom with
    | none =>
      simp only [hstart]
      exact ⟨_, rfl, fun h hfew => h.assign hc hfew hstart⟩
    | some start =>
      obtain ⟨l, hl, hal, hhead⟩ := hc.mem_of_start hstart
      have hlen : l.length < fuel := by
        have := (sublist_flatten_of_mem hl).length_le
        omega
      obtain ⟨st', hst'⟩ := layoutCluster_terminates (hc.linked l hl) hlen st
      simp only [hstart]
      rw [← hhead, hst', Option.map_some]
      refine ⟨_, rfl, fun h hfew => ?_⟩
      by_cases hord : Ordered c entries atom
      · obtain ⟨base, hin, -⟩ := h.cluster l hl ⟨atom, hal, hord⟩
        have hdone := @layoutCluster_done _ _ (hc.linked l hl) _ hlen st fun a ha => by
          rw [hin a ha]
          rfl
        obtain rfl : st = st' := Option.some.inj (hdone.symm.trans hst')
        refine h.bump hfew ?_ ?_
        · intro a ha
          rw [ordered_singleton hc hl hal] at ha
          exact (h.mapped a).mp (by rw [hin a ha]; rfl)
        · intro a ha
          cases ha
          rw [hstart]
          exact Option.some_ne_none _
      · have hnone : ∀ a ∈ l, st.theOrdinalOverrideMap a = none := by
          intro a ha
          rw [Option.eq_none_iff_forall_ne_some]
          intro x hx
          obtain ⟨base, hin, -⟩ := h.cluster l hl ⟨a, ha, (h.mapped a).mp (by rw [hx]; rfl)⟩
          exact hord ((h.mapped atom).mp (by rw [hin atom hal]; rfl))
        have hsmall := h.index_add_block_le hl hnone
        obtain ⟨st'', hst'', hidx, hmap⟩ := layoutCluster_fresh (hc.linked l hl)
          (hc.nodup_of_mem hl) hlen hnone (by omega)
        obtain rfl : st'' = st' := Option.some.inj (hst''.symm.trans hst')
        exact h.layout hc hfew hl hal hnone hidx hmap

end Step

end Toolwhip.Ld64
