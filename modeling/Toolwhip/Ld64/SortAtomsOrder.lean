import Mathlib.Data.Prod.Lex
import Mathlib.Order.WithBot
import Toolwhip.Ld64.OrdinalOverrides

/-! # The order of the sorted atoms

The comparator of the final sort compares keys, so the sort's contract and the
meaning of the override ordinals give the constraints that are stated for
`sortAtoms`, all but one of which hold for every order file. -/

namespace Toolwhip.Ld64
open Lib.SuccessorChains Lib.Occurrences Lib.SortContract List
set_option autoImplicit false

/-- The constraints on the sorted list, for the atoms `entries` that the order
file's lines were matched with. -/
structure OrderConstraints (objs : Objects) (sectionIndex : AtomPtr → Nat) (c : Clusters)
    (chains : List (List AtomPtr)) (entries : List (Option AtomPtr)) (fAllAtoms : List AtomPtr)
    (sorted : List AtomPtr) : Prop where
  sections : sorted.Pairwise fun a b => sectionIndex a ≤ sectionIndex b
  orderedFirst : sorted.Pairwise fun a b =>
    sectionIndex a = sectionIndex b → Ordered c entries b → Ordered c entries a
  firstEntry : sorted.Pairwise fun a b =>
    sectionIndex a = sectionIndex b → Plain c entries a → Plain c entries b →
      entries.idxOf (some a) ≤ entries.idxOf (some b)
  clusters : ∀ l ∈ chains, (∃ a ∈ l, some a ∈ entries) →
    l.filter (· ∈ fAllAtoms) <:+: sorted
  unordered : sorted.Pairwise fun a b =>
    sectionIndex a = sectionIndex b → ¬ Ordered c entries a → ¬ Ordered c entries b →
      (isTentative objs a = false ∧ isTentative objs b = true) ∨
        (isTentative objs a = isTentative objs b ∧
          (objs.atom a).getOrdinal < (objs.atom b).getOrdinal)

/-- Repeated entries keep the order of the atoms' first entries. -/
def RepeatsAgree (sectionIndex : AtomPtr → Nat) (c : Clusters)
    (entries : List (Option AtomPtr)) (fAllAtoms : List AtomPtr) : Prop :=
  ∀ a ∈ fAllAtoms, ∀ b ∈ fAllAtoms, sectionIndex a = sectionIndex b →
    Plain c entries a → Plain c entries b →
      entries.idxOf (some a) < entries.idxOf (some b) →
        lastIdxOf (some a) entries < lastIdxOf (some b) entries

section Comparator

variable {objs : Objects} {sectionIndex : AtomPtr → Nat}
  {overrides : Option (AtomPtr → Option Nat)}

def overrideOf (overrides : Option (AtomPtr → Option Nat)) (a : AtomPtr) : Option Nat :=
  overrides.bind (· a)

/-- What the comparator looks at, in the order it does. -/
def sortKey (objs : Objects) (sectionIndex : AtomPtr → Nat)
    (overrides : Option (AtomPtr → Option Nat)) (a : AtomPtr) :
    Nat ×ₗ (WithTop Nat) ×ₗ Bool ×ₗ Nat :=
  match overrideOf overrides a with
  | some n => toLex (sectionIndex a, toLex (WithTop.some n, toLex (false, 0)))
  | none => toLex (sectionIndex a, toLex (⊤, toLex (isTentative objs a, (objs.atom a).getOrdinal)))

theorem atomSorter_comparesKey :
    ComparesKey (atomSorter objs sectionIndex overrides) (sortKey objs sectionIndex overrides) := by
  intro a b
  unfold atomSorter sortKey
  by_cases hab : a = b
  · subst b
    simp
  rw [if_neg hab]
  have hfold : ∀ x, overrides.bind (· x) = overrideOf overrides x := fun _ => rfl
  rw [hfold, hfold]
  by_cases hsec : sectionIndex a = sectionIndex b
  · cases ha : overrideOf overrides a <;> cases hb : overrideOf overrides b <;>
      simp [hsec, Prod.Lex.toLex_lt_toLex]
    cases isTentative objs a <;> cases isTentative objs b <;> simp
  · cases ha : overrideOf overrides a <;> cases hb : overrideOf overrides b <;>
      simp [hsec, Prod.Lex.toLex_lt_toLex]

variable {a b : AtomPtr}

theorem sectionIndex_le_of_key_lt
    (h : sortKey objs sectionIndex overrides a < sortKey objs sectionIndex overrides b) :
    sectionIndex a ≤ sectionIndex b := by
  unfold sortKey at h
  cases ha : overrideOf overrides a <;> cases hb : overrideOf overrides b <;>
    simp only [ha, hb, Prod.Lex.toLex_lt_toLex] at h <;> omega

theorem override_le_of_key_lt {y : Nat} (hsec : sectionIndex a = sectionIndex b)
    (h : sortKey objs sectionIndex overrides a < sortKey objs sectionIndex overrides b)
    (hb : overrideOf overrides b = some y) : ∃ x, overrideOf overrides a = some x ∧ x < y := by
  unfold sortKey at h
  cases ha : overrideOf overrides a with
  | none => simp [ha, hb, Prod.Lex.toLex_lt_toLex, hsec] at h
  | some x =>
    refine ⟨x, rfl, ?_⟩
    simpa [ha, hb, Prod.Lex.toLex_lt_toLex, hsec] using h

theorem default_lt_of_key_lt (hsec : sectionIndex a = sectionIndex b)
    (h : sortKey objs sectionIndex overrides a < sortKey objs sectionIndex overrides b)
    (ha : overrideOf overrides a = none) (hb : overrideOf overrides b = none) :
    (isTentative objs a = false ∧ isTentative objs b = true) ∨
      (isTentative objs a = isTentative objs b ∧
        (objs.atom a).getOrdinal < (objs.atom b).getOrdinal) := by
  unfold sortKey at h
  simp only [ha, hb, Prod.Lex.toLex_lt_toLex, hsec, lt_irrefl, true_and, false_or] at h
  simpa [Bool.lt_iff] using h

theorem key_lt_of_override_lt {x y : Nat} (hsec : sectionIndex a = sectionIndex b)
    (ha : overrideOf overrides a = some x) (hb : overrideOf overrides b = some y) (hxy : x < y) :
    sortKey objs sectionIndex overrides a < sortKey objs sectionIndex overrides b := by
  unfold sortKey
  simp [ha, hb, Prod.Lex.toLex_lt_toLex, hsec, hxy]

theorem eq_of_key_eq
    (h : sortKey objs sectionIndex overrides a = sortKey objs sectionIndex overrides b) :
    sectionIndex a = sectionIndex b ∧
      ((∃ x, overrideOf overrides a = some x ∧ overrideOf overrides b = some x) ∨
        (objs.atom a).getOrdinal = (objs.atom b).getOrdinal) := by
  unfold sortKey at h
  cases ha : overrideOf overrides a <;> cases hb : overrideOf overrides b <;>
    simp [ha, hb] at h <;> grind

end Comparator

section Run

variable {c : Clusters} {chains : List (List AtomPtr)} {findAtom : OrderedSymbol → Option AtomPtr}

theorem processOrderedSymbols_inv (hc : Represents chains c.followOnStarts c.followOnNexts)
    {fuel : Nat} (hf : chains.flatten.length < fuel) (symbols : List OrderedSymbol)
    (entries : List (Option AtomPtr)) (st : OverrideState) :
    ∃ st', symbols.foldlM (fun st symbol => processOrderedSymbol c fuel st (findAtom symbol)) st =
      some st' ∧ (OverridesInv c chains entries st →
        entries.length + symbols.length + chains.flatten.length < 2 ^ 32 →
          OverridesInv c chains (entries ++ symbols.map findAtom) st') := by
  induction symbols generalizing entries st with
  | nil => exact ⟨st, rfl, fun h _ => by simpa using h⟩
  | cons symbol symbols ih =>
    obtain ⟨u, hu, hstep⟩ := @processOrderedSymbol_inv _ _ entries st hc
      (findAtom symbol) _ hf
    obtain ⟨st', hst', hrun⟩ := ih (entries ++ [findAtom symbol]) u
    refine ⟨st', ?_, ?_⟩
    · rw [foldlM_cons, hu]
      exact hst'
    · intro h hfew
      rw [length_cons] at hfew
      have hlen : (entries ++ [findAtom symbol]).length + symbols.length +
          chains.flatten.length < 2 ^ 32 := by
        rw [length_append, length_singleton]
        omega
      simpa using hrun (hstep h (by omega)) hlen

theorem ordinalOverrideMap_inv (hc : Represents chains c.followOnStarts c.followOnNexts)
    {fuel : Nat} (hf : chains.flatten.length < fuel) (orderedSymbols : List OrderedSymbol) :
    ∃ overrides, ordinalOverrideMap c fuel findAtom orderedSymbols = some overrides ∧
      (orderedSymbols.length + chains.flatten.length < 2 ^ 32 → ∃ st,
        (∀ a, overrideOf overrides a = st.theOrdinalOverrideMap a) ∧
          OverridesInv c chains (orderedSymbols.map findAtom) st) := by
  unfold ordinalOverrideMap
  by_cases hnil : orderedSymbols = []
  · subst hnil
    exact ⟨none, rfl, fun _ => ⟨{}, fun _ => rfl, overridesInv_nil⟩⟩
  obtain ⟨st, hst, hinv⟩ :=
    @processOrderedSymbols_inv _ _ findAtom hc _ hf orderedSymbols [] {}
  rw [if_neg hnil, hst]
  refine ⟨some st.theOrdinalOverrideMap, rfl, fun hfew => ⟨st, fun _ => rfl, ?_⟩⟩
  exact hinv overridesInv_nil (by simpa using hfew)

variable {entries : List (Option AtomPtr)} {st : OverrideState}

theorem OverridesInv.injective (hc : Represents chains c.followOnStarts c.followOnNexts)
    (h : OverridesInv c chains entries st) {a b : AtomPtr} {x : Nat}
    (ha : st.theOrdinalOverrideMap a = some x) (hb : st.theOrdinalOverrideMap b = some x) :
    a = b := by
  have hord : ∀ d, st.theOrdinalOverrideMap d = some x → Ordered c entries d := fun d hd =>
    (h.mapped d).mp (by rw [hd]; rfl)
  have hcluster : ∀ d e, st.theOrdinalOverrideMap d = some x →
      st.theOrdinalOverrideMap e = some x → (c.followOnStarts d).isSome → d = e := by
    intro d e hd he hsome
    obtain ⟨s, hs⟩ := Option.isSome_iff_exists.mp hsome
    obtain ⟨l, hl, hdl, -⟩ := hc.mem_of_start hs
    obtain ⟨base, hin, hoff⟩ := h.cluster l hl ⟨d, hdl, hord d hd⟩
    have hx := Option.some.inj ((hin d hdl).symm.trans hd)
    have hlt := idxOf_lt_length_of_mem hdl
    by_cases hel : e ∈ l
    · have hy := Option.some.inj ((hin e hel).symm.trans he)
      exact (idxOf_inj hdl).mp (by omega)
    · have := hoff e hel x he
      omega
  cases hsa : c.followOnStarts a with
  | some s => exact hcluster a b ha hb (by rw [hsa]; rfl)
  | none =>
    cases hsb : c.followOnStarts b with
    | some s => exact (hcluster b a hb ha (by rw [hsb]; rfl)).symm
    | none =>
      have h1 := h.plain_lt a b x x hsa hsb ha hb
      have h2 := h.plain_lt b a x x hsb hsa hb ha
      have hma := (hord a ha).mem_of_plain hsa
      have hmb := (hord b hb).mem_of_plain hsb
      exact Option.some.inj (lastIdxOf_inj hma hmb (by omega))

end Run

section Constraints

variable {objs : Objects} {sectionIndex : AtomPtr → Nat} {c : Clusters}
  {chains : List (List AtomPtr)} {entries : List (Option AtomPtr)} {fAllAtoms sorted : List AtomPtr}
  {overrides : Option (AtomPtr → Option Nat)} {st : OverrideState}
  (hc : Represents chains c.followOnStarts c.followOnNexts)
  (hov : ∀ a, overrideOf overrides a = st.theOrdinalOverrideMap a)
  (inv : OverridesInv c chains entries st)
  (hkey : sorted.Pairwise fun a b =>
    sortKey objs sectionIndex overrides a < sortKey objs sectionIndex overrides b)

include hov inv

theorem overrideOf_isSome_iff (a : AtomPtr) :
    (∃ x, overrideOf overrides a = some x) ↔ Ordered c entries a := by
  rw [← inv.mapped a, Option.isSome_iff_exists, hov a]

theorem overrideOf_eq_none {a : AtomPtr} (ha : ¬ Ordered c entries a) :
    overrideOf overrides a = none := by
  rw [Option.eq_none_iff_forall_ne_some]
  intro x hx
  exact ha ((overrideOf_isSome_iff hov inv a).mp ⟨x, hx⟩)

theorem lastEntry_lt_of_key_lt {a b : AtomPtr} (hsec : sectionIndex a = sectionIndex b)
    (ha : Plain c entries a) (hb : Plain c entries b)
    (h : sortKey objs sectionIndex overrides a < sortKey objs sectionIndex overrides b) :
    lastIdxOf (some a) entries < lastIdxOf (some b) entries := by
  obtain ⟨y, hy⟩ := (overrideOf_isSome_iff hov inv b).mpr hb.ordered
  obtain ⟨x, hx, hxy⟩ := override_le_of_key_lt hsec h hy
  rw [hov] at hx hy
  exact (inv.plain_lt a b x y ha.2 hb.2 hx hy).mp hxy

include hkey

theorem orderedFirst_of_sorted : sorted.Pairwise fun a b =>
    sectionIndex a = sectionIndex b → Ordered c entries b → Ordered c entries a := by
  refine hkey.imp ?_
  intro a b hab hsec hb
  obtain ⟨y, hy⟩ := (overrideOf_isSome_iff hov inv b).mpr hb
  obtain ⟨x, hx, -⟩ := override_le_of_key_lt hsec hab hy
  exact (overrideOf_isSome_iff hov inv a).mp ⟨x, hx⟩

theorem unordered_of_sorted : sorted.Pairwise fun a b =>
    sectionIndex a = sectionIndex b → ¬ Ordered c entries a → ¬ Ordered c entries b →
      (isTentative objs a = false ∧ isTentative objs b = true) ∨
        (isTentative objs a = isTentative objs b ∧
          (objs.atom a).getOrdinal < (objs.atom b).getOrdinal) := by
  refine hkey.imp ?_
  intro a b hab hsec ha hb
  exact default_lt_of_key_lt hsec hab (overrideOf_eq_none hov inv ha)
    (overrideOf_eq_none hov inv hb)

theorem firstEntry_iff (hmem : ∀ a, a ∈ sorted ↔ a ∈ fAllAtoms)
    (hinj : ∀ a ∈ fAllAtoms, ∀ b ∈ fAllAtoms,
      sortKey objs sectionIndex overrides a = sortKey objs sectionIndex overrides b → a = b) :
    (sorted.Pairwise fun a b => sectionIndex a = sectionIndex b → Plain c entries a →
      Plain c entries b → entries.idxOf (some a) ≤ entries.idxOf (some b)) ↔
      RepeatsAgree sectionIndex c entries fAllAtoms := by
  constructor
  · intro hfirst a ha b hb hsec hpa hpb hlt
    rcases lt_trichotomy (sortKey objs sectionIndex overrides a)
      (sortKey objs sectionIndex overrides b) with h | h | h
    · exact lastEntry_lt_of_key_lt hov inv hsec hpa hpb h
    · obtain rfl := hinj a ha b hb h
      exact absurd hlt (Nat.lt_irrefl _)
    have hle := rel_of_key_lt hkey hfirst ((hmem b).mpr hb) ((hmem a).mpr ha) h
      hsec.symm hpb hpa
    omega
  · intro hagree
    refine hkey.imp_of_mem ?_
    intro a b ha hb hab hsec hpa hpb
    by_contra hlt
    have hlast := lastEntry_lt_of_key_lt hov inv hsec hpa hpb hab
    have := hagree b ((hmem b).mp hb) a ((hmem a).mp ha) hsec.symm hpb hpa (by omega)
    omega

include hc

theorem clusters_of_sorted (hmem : ∀ a, a ∈ sorted ↔ a ∈ fAllAtoms)
    (hsec : ∀ l ∈ chains, ∀ a ∈ l, ∀ b ∈ l, sectionIndex a = sectionIndex b)
    {l : List AtomPtr} (hl : l ∈ chains) (hmatch : ∃ a ∈ l, some a ∈ entries) :
    l.filter (· ∈ fAllAtoms) <:+: sorted := by
  obtain ⟨a, hal, ha⟩ := hmatch
  obtain ⟨base, hin, hoff⟩ := inv.cluster l hl ⟨a, hal, a, ha, Or.inl rfl⟩
  have hstrict : l.Pairwise fun a b =>
      sortKey objs sectionIndex overrides a < sortKey objs sectionIndex overrides b := by
    have hidx : l.Pairwise fun a b => l.idxOf a < l.idxOf b := by
      rw [pairwise_iff_getElem]
      intro i j hi hj hij
      rw [(hc.nodup_of_mem hl).idxOf_getElem, (hc.nodup_of_mem hl).idxOf_getElem]
      exact hij
    refine hidx.imp_of_mem ?_
    intro a b hal hbl hab
    refine key_lt_of_override_lt (hsec l hl a hal b hbl) ((hov a).trans (hin a hal))
      ((hov b).trans (hin b hbl)) (by omega)
  have heq : l.filter (· ∈ fAllAtoms) = sorted.filter (· ∈ l) := by
    refine eq_of_strict (hstrict.filter _) (hkey.filter _) ?_
    intro d
    simp only [mem_filter, decide_eq_true_eq, hmem]
    exact and_comm
  rw [heq]
  refine filter_infix_of_convex ?_
  intro l₁ a l₂ b l₃ d l₄ hsplit ha hd
  rw [decide_eq_true_eq] at ha hd ⊢
  rw [hsplit] at hkey
  simp only [append_assoc, cons_append, pairwise_append, pairwise_cons,
    mem_append, mem_cons] at hkey
  have hab := hkey.2.1.1 b (Or.inr (Or.inl rfl))
  have hbd := hkey.2.1.2.2.1.1 d (Or.inr (Or.inl rfl))
  have h1 := sectionIndex_le_of_key_lt hab
  have h2 := sectionIndex_le_of_key_lt hbd
  have h3 := hsec l hl a ha d hd
  obtain ⟨y, hy, hyd⟩ := override_le_of_key_lt (by omega) hbd ((hov d).trans (hin d hd))
  obtain ⟨x, hx, hxy⟩ := override_le_of_key_lt (by omega) hab hy
  have hxa := Option.some.inj (hx.symm.trans ((hov a).trans (hin a ha)))
  have := idxOf_lt_length_of_mem hd
  by_contra hbl
  have := hoff b hbl y ((hov b).symm.trans hy)
  omega

end Constraints

/-- Sections, clusters and unordered atoms come out as stated for every order
file; two plain atoms do exactly when their repeated entries agree. -/
theorem sortAtoms_iff (objs : Objects) (sectionIndex : AtomPtr → Nat) {c : Clusters}
    {chains : List (List AtomPtr)} (hc : Represents chains c.followOnStarts c.followOnNexts)
    (hsec : ∀ l ∈ chains, ∀ a ∈ l, ∀ b ∈ l, sectionIndex a = sectionIndex b)
    {fAllAtoms : List AtomPtr} (hnd : fAllAtoms.Nodup)
    (hordinal : ∀ a ∈ fAllAtoms, ∀ b ∈ fAllAtoms, sectionIndex a = sectionIndex b →
      (objs.atom a).getOrdinal = (objs.atom b).getOrdinal → a = b)
    (findAtom : OrderedSymbol → Option AtomPtr) (orderedSymbols : List OrderedSymbol)
    {fuel : Nat} (hfuel : chains.flatten.length < fuel) :
    ∃ overrides, ordinalOverrideMap c fuel findAtom orderedSymbols = some overrides ∧
      (∃ sorted, Sorted (atomSorter objs sectionIndex overrides) fAllAtoms sorted) ∧
      ∀ sorted, Sorted (atomSorter objs sectionIndex overrides) fAllAtoms sorted →
        orderedSymbols.length + chains.flatten.length < 2 ^ 32 →
          (OrderConstraints objs sectionIndex c chains (orderedSymbols.map findAtom) fAllAtoms
              sorted ↔
            RepeatsAgree sectionIndex c (orderedSymbols.map findAtom) fAllAtoms) := by
  obtain ⟨overrides, hrun, hinv⟩ :=
    @ordinalOverrideMap_inv _ _ findAtom hc _ hfuel orderedSymbols
  refine ⟨overrides, hrun, exists_sorted atomSorter_comparesKey _, ?_⟩
  intro sorted hsorted hfew
  obtain ⟨st, hov, inv⟩ := hinv hfew
  have hinj : ∀ a ∈ fAllAtoms, ∀ b ∈ fAllAtoms,
      sortKey objs sectionIndex overrides a = sortKey objs sectionIndex overrides b → a = b := by
    intro a ha b hb hkey
    obtain ⟨hs, ⟨x, hx, hy⟩ | hord⟩ := eq_of_key_eq hkey
    · rw [hov] at hx hy
      exact inv.injective hc hx hy
    · exact hordinal a ha b hb hs hord
  have hkey := hsorted.pairwise_lt atomSorter_comparesKey hnd hinj
  have hmem : ∀ a, a ∈ sorted ↔ a ∈ fAllAtoms := fun a => hsorted.perm.mem_iff
  have hiff := firstEntry_iff hov inv hkey hmem hinj
  constructor
  · intro h
    exact hiff.mp h.firstEntry
  · intro hagree
    exact
      { sections := hkey.imp fun {a b} hab => sectionIndex_le_of_key_lt hab
        orderedFirst := orderedFirst_of_sorted hov inv hkey
        firstEntry := hiff.mpr hagree
        clusters := fun l hl hmatch => clusters_of_sorted hc hov inv hkey hmem hsec hl hmatch
        unordered := unordered_of_sorted hov inv hkey }

def twoFunctions : Objects where
  atom a :=
    { getName := if a = 1 then "_a" else "_b", getScope := .scopeGlobal
      getDefinitionKind := .kRegularDefinition, getOrdinal := a }

def findFunction (symbol : OrderedSymbol) : Option AtomPtr :=
  if symbol.symbolName = "_a" then some 1 else if symbol.symbolName = "_b" then some 2 else none

theorem sortAtoms_each_once :
    ∃ overrides, ordinalOverrideMap {} 1 findFunction [⟨"_b", none⟩, ⟨"_a", none⟩] =
        some overrides ∧
      ∃ sorted, Sorted (atomSorter twoFunctions (fun _ => 0) overrides) [1, 2] sorted ∧
        OrderConstraints twoFunctions (fun _ => 0) {} [] [some 2, some 1] [1, 2] sorted := by
  obtain ⟨overrides, hrun, ⟨sorted, hsorted⟩, hiff⟩ := @sortAtoms_iff twoFunctions (fun _ => 0)
    {} [] Represents.nil (by simp) [1, 2] (by decide) (fun a _ b _ _ h => h)
    findFunction [⟨"_b", none⟩, ⟨"_a", none⟩] 1 (by decide)
  refine ⟨overrides, hrun, sorted, hsorted, (hiff sorted hsorted (by decide)).mpr ?_⟩
  intro a ha b hb _ _ _
  rcases List.mem_pair.mp ha with rfl | rfl <;> rcases List.mem_pair.mp hb with rfl | rfl <;>
    decide

/-- The order file `_a _b _a`: the first entry of `_a` is the earlier one, and
`_b` comes first all the same. -/
theorem sortAtoms_repeated_entry : ∃ overrides, ordinalOverrideMap {} 1 findFunction
        [⟨"_a", none⟩, ⟨"_b", none⟩, ⟨"_a", none⟩] = some overrides ∧
      (∃ sorted, Sorted (atomSorter twoFunctions (fun _ => 0) overrides) [1, 2] sorted) ∧
      ∀ sorted, Sorted (atomSorter twoFunctions (fun _ => 0) overrides) [1, 2] sorted →
        ¬ OrderConstraints twoFunctions (fun _ => 0) {} [] [some 1, some 2, some 1] [1, 2]
          sorted := by
  refine ⟨_, rfl, exists_sorted atomSorter_comparesKey _, ?_⟩
  intro sorted hsorted hconstraints
  have hlen : sorted.length = 2 := hsorted.perm.length_eq
  have hnd : sorted.Nodup := hsorted.perm.nodup_iff.mpr (by decide)
  have hmem : ∀ a ∈ sorted, a = 1 ∨ a = 2 := fun a ha =>
    List.mem_pair.mp (hsorted.perm.mem_iff.mp ha)
  obtain ⟨x, y, rfl⟩ := List.length_eq_two.mp hlen
  have hlt := hsorted.pairwise
  have hfirst := hconstraints.firstEntry
  rw [pairwise_cons] at hlt hfirst
  have hfirst := hfirst.1 y (List.mem_singleton.mpr rfl) rfl
  rcases hmem x (by simp) with rfl | rfl <;> rcases hmem y (by simp) with rfl | rfl
  · exact absurd hnd (by decide)
  · exact absurd hlt (by decide)
  · exact absurd (hfirst ⟨by decide, rfl⟩ ⟨by decide, rfl⟩) (by decide)
  · exact absurd hnd (by decide)

end Toolwhip.Ld64
