import Toolwhip.Ld64.SymbolTable

/-! # Mixes of definitions for which the input order does not show -/

set_option autoImplicit false

namespace Toolwhip.Ld64.SymbolTable
open Lib.ThrowingFold Lib.SelectiveFold List

variable {objs : Objects} {mode : CommonsMode}
variable {atoms : List AtomPtr} {r : Option AtomPtr} {y : AtomPtr}

/-- `strong` counts regular and absolute definitions together. -/
structure Mix where
  strong : Nat
  weak : Nat
  tentative : Nat
  external : Nat
  externWeak : Nat

def mixOf (objs : Objects) (atoms : List AtomPtr) : Mix where
  strong := atoms.countP (isStrong objs)
  weak := atoms.countP (isKind objs .kWeakDefinition)
  tentative := atoms.countP (isKind objs .kTentativeDefinition)
  external := atoms.countP (isKind objs .kExternalDefinition)
  externWeak := atoms.countP (isKind objs .kExternalWeakDefinition)

variable {l : List AtomPtr}

theorem mixOf_perm {m : List AtomPtr} (h : l.Perm m) : mixOf objs l = mixOf objs m := by
  unfold mixOf
  simp only [h.countP_eq]

/-- Two strong definitions always clash; one hides everything else, as long as
the rest cannot clash before it comes; without one, weak and tentative
definitions replace each other and so must not meet. -/
inductive Mix.Consistent (mode : CommonsMode) (m : Mix) : Prop
  | clash (h : 2 ≤ m.strong)
  | oneStrong (h : m.strong = 1) (he : m.external ≤ 1)
      (hc : mode = .kCommonsConflictsDylibsError → m.tentative = 0 ∨ m.external + m.externWeak = 0)
  | weak (h : m.strong = 0) (hw : 1 ≤ m.weak) (ht : m.tentative = 0) (he : m.external ≤ 1)
  | tentative (h : m.strong = 0) (hw : m.weak = 0) (ht : 1 ≤ m.tentative)
      (he : mode = .kCommonsIgnoreDylibs → m.external ≤ 1)
  | dylib (h : m.strong = 0) (hw : m.weak = 0) (ht : m.tentative = 0)

theorem pairwise_not_conflict (hs : (mixOf objs l).strong ≤ 1) (he : (mixOf objs l).external ≤ 1)
    (hc : mode = .kCommonsConflictsDylibsError →
      (mixOf objs l).tentative = 0 ∨ (mixOf objs l).external + (mixOf objs l).externWeak = 0) :
    l.Pairwise fun x y => ¬ Conflict objs mode x y := by
  have hcommons : ∀ x ∈ l, ∀ y ∈ l, ¬ (mode = .kCommonsConflictsDylibsError ∧
      isKind objs .kTentativeDefinition x = true ∧ isDylib objs y = true) := by
    rintro x hx y hy ⟨hm, htx, hdy⟩
    have hpos : 0 < (mixOf objs l).tentative := List.countP_pos_iff.mpr ⟨x, hx, htx⟩
    have hdylib : 0 < (mixOf objs l).external + (mixOf objs l).externWeak := by
      rcases Bool.or_eq_true_iff.mp hdy with hk | hk
      · exact Nat.add_pos_left (List.countP_pos_iff.mpr ⟨y, hy, hk⟩) _
      · exact Nat.add_pos_right _ (List.countP_pos_iff.mpr ⟨y, hy, hk⟩)
    have := hc hm
    omega
  have hsp := Lib.SelectiveFold.pairwise_of_countP_le_one (p := isStrong objs) hs
  have hep := Lib.SelectiveFold.pairwise_of_countP_le_one
    (p := isKind objs .kExternalDefinition) he
  refine (hsp.and hep).imp_of_mem ?_
  intro x y hx hy hxy hconf
  rcases hconf with h | h | ⟨hm, h | h⟩
  · exact hxy.1 h
  · exact hxy.2 h
  · exact hcommons x hx y hy ⟨hm, h⟩
  · exact hcommons y hy x hx ⟨hm, h.2, h.1⟩

theorem outcome_returns (h : l.Pairwise fun x y => ¬ Conflict objs mode x y) :
    ∃ r, outcome objs mode l = .ok r := by
  cases l with
  | nil => exact ⟨none, rfl⟩
  | cons a l =>
    obtain ⟨t, ht⟩ := foldlM_returns_of_pairwise choose_selective
      (h.imp fun {x y} hxy => (choose_ok_iff x y).mpr hxy)
    exact ⟨some t, by simp only [outcome, ht, Except.map]⟩

theorem outcome_cons_ok {a : AtomPtr} (h : outcome objs mode (a :: l) = .ok r) :
    ∃ t, l.foldlM (choose objs mode) a = .ok t ∧ r = some t := by
  simp only [outcome] at h
  cases hf : l.foldlM (choose objs mode) a with
  | error e =>
    rw [hf] at h
    cases h
  | ok t =>
    rw [hf] at h
    cases h
    exact ⟨t, rfl, rfl⟩

variable {S : DefinitionKind → Prop}

theorem outcome_kind {kind : DefinitionKind}
    (h : ∀ k, S k → survivor mode kind k = kind ∧ survivor mode k kind = kind)
    (hS : ∀ x ∈ l, S (kindOf objs x))
    (hmem : 0 < l.countP (isKind objs kind))
    (hr : outcome objs mode l = .ok r) : r.map (kindOf objs) = some kind := by
  cases l with
  | nil => simp at hmem
  | cons a l =>
    obtain ⟨t, ht, rfl⟩ := outcome_cons_ok hr
    have hD := foldlM_dominant choose_selective (dominates_kind h) hS
      (List.countP_pos_iff.mp hmem) ht
    simp only [isKind, decide_eq_true_eq] at hD
    simp only [Option.map_some, hD]

theorem outcome_throws {S : AtomPtr → Prop} {D : AtomPtr → Bool}
    (hD : Dominates (choose objs mode) S fun x => D x)
    (hconf : ∀ x y, D x = true → D y = true → Conflict objs mode x y)
    (hS : ∀ x ∈ l, S x) (htwo : 2 ≤ l.countP D) : ∃ e, outcome objs mode l = .error e := by
  cases ho : outcome objs mode l with
  | error e => exact ⟨e, rfl⟩
  | ok r =>
    cases l with
    | nil => simp at htwo
    | cons a l =>
      obtain ⟨t, ht, -⟩ := outcome_cons_ok ho
      refine absurd ht (foldlM_throws_of_two choose_selective hD ?_ hS htwo t)
      intro x y z _ _ hx hy hz
      exact (choose_ok_iff x y).mp ⟨z, hz⟩ (hconf x y hx hy)

/-- `OrderIndependent`, read off the fold over the one entry. -/
def OutcomeIndependent (objs : Objects) (mode : CommonsMode) (atoms : List AtomPtr) : Prop :=
  (∀ order, order.Perm atoms → ∃ e, outcome objs mode order = .error e) ∨
    ∃ kind, ∀ order, order.Perm atoms →
      ∃ r, outcome objs mode order = .ok r ∧ r.map (kindOf objs) = kind

theorem orderIndependent_iff_outcome {scope : AtomPtr → Scope} {name : String}
    (hname : ∀ a ∈ atoms, objs.nameOf a = name) {t : SymbolTable} (ht : t.find name = none) :
    OrderIndependent objs mode scope t name atoms ↔ OutcomeIndependent objs mode atoms := by
  have hmap : ∀ order, order.Perm atoms →
      (addAll objs mode scope t order).map (fun t' => t'.find name) = outcome objs mode order :=
    fun order hp => map_addAll_eq_outcome (fun a ha => hname a (hp.mem_iff.mp ha)) ht
  have herr : ∀ order, order.Perm atoms → ((∃ e, addAll objs mode scope t order = .error e) ↔
      ∃ e, outcome objs mode order = .error e) := by
    intro order hp
    rw [← hmap order hp]
    cases addAll objs mode scope t order <;> simp [Except.map]
  have hok : ∀ kind order, order.Perm atoms → ((∃ t', addAll objs mode scope t order = .ok t' ∧
      (t'.find name).map (kindOf objs) = kind) ↔
      ∃ r, outcome objs mode order = .ok r ∧ r.map (kindOf objs) = kind) := by
    intro kind order hp
    rw [← hmap order hp]
    cases addAll objs mode scope t order <;> simp [Except.map]
  apply or_congr
  · exact forall_congr' fun order => forall_congr' fun hp => herr order hp
  · exact exists_congr fun kind => forall_congr' fun order => forall_congr' fun hp =>
      hok kind order hp

/-! ## Consistent mixes -/

variable {x : AtomPtr}

theorem conflict_external (hx : isKind objs .kExternalDefinition x = true)
    (hy : isKind objs .kExternalDefinition y = true) : Conflict objs mode x y :=
  Or.inr (Or.inl ⟨hx, hy⟩)

theorem conflict_strong (hx : isStrong objs x = true)
    (hy : isStrong objs y = true) : Conflict objs mode x y :=
  Or.inl ⟨hx, hy⟩

theorem kindOf_mem_mix (objs : Objects) (hx : x ∈ l) :
    (kindOf objs x = .kRegularDefinition → 0 < (mixOf objs l).strong) ∧
    (kindOf objs x = .kAbsoluteSymbol → 0 < (mixOf objs l).strong) ∧
    (kindOf objs x = .kWeakDefinition → 0 < (mixOf objs l).weak) ∧
    (kindOf objs x = .kTentativeDefinition → 0 < (mixOf objs l).tentative) ∧
    (kindOf objs x = .kExternalDefinition → 0 < (mixOf objs l).external) ∧
    (kindOf objs x = .kExternalWeakDefinition → 0 < (mixOf objs l).externWeak) := by
  have hpos : ∀ p : AtomPtr → Bool, p x = true → 0 < l.countP p := fun p hp =>
    List.countP_pos_iff.mpr ⟨x, hx, hp⟩
  refine ⟨fun h => hpos _ ?_, fun h => hpos _ ?_, fun h => hpos _ ?_, fun h => hpos _ ?_,
    fun h => hpos _ ?_, fun h => hpos _ ?_⟩ <;> simp [isStrong, strongKind, isKind, h]

theorem independent_of_kind (kind : DefinitionKind)
    (h : ∀ k, S k → survivor mode kind k = kind ∧ survivor mode k kind = kind)
    (hS : ∀ x ∈ atoms, S (kindOf objs x)) (hmem : 0 < atoms.countP (isKind objs kind))
    (hok : ∀ order, order.Perm atoms → ∃ r, outcome objs mode order = .ok r) :
    OutcomeIndependent objs mode atoms := by
  refine Or.inr ⟨some kind, ?_⟩
  intro order hp
  obtain ⟨r, hr⟩ := hok order hp
  exact ⟨r, hr, outcome_kind h (fun x hx => hS x (hp.mem_iff.mp hx))
    (by rwa [hp.countP_eq]) hr⟩

theorem outcome_returns_of_mix {atoms order : List AtomPtr} (hp : order.Perm atoms)
    (hs : (mixOf objs atoms).strong ≤ 1) (he : (mixOf objs atoms).external ≤ 1)
    (hc : mode = .kCommonsConflictsDylibsError →
      (mixOf objs atoms).tentative = 0 ∨
        (mixOf objs atoms).external + (mixOf objs atoms).externWeak = 0) :
    ∃ r, outcome objs mode order = .ok r := by
  rw [← mixOf_perm hp] at hs he hc
  exact outcome_returns (pairwise_not_conflict hs he hc)

theorem independent_clash (h : 2 ≤ (mixOf objs atoms).strong) :
    OutcomeIndependent objs mode atoms := by
  refine Or.inl ?_
  intro order hp
  refine outcome_throws dominates_strong (fun x y => conflict_strong) (fun _ _ => trivial) ?_
  rw [hp.countP_eq]
  exact h

theorem independent_oneStrong (h : (mixOf objs atoms).strong = 1)
    (he : (mixOf objs atoms).external ≤ 1)
    (hc : mode = .kCommonsConflictsDylibsError → (mixOf objs atoms).tentative = 0 ∨
      (mixOf objs atoms).external + (mixOf objs atoms).externWeak = 0) :
    OutcomeIndependent objs mode atoms := by
  have hcount : atoms.countP (isStrong objs) = 1 := h
  obtain ⟨s, hs, hstrong⟩ := List.countP_pos_iff.mp (by omega : 0 < atoms.countP (isStrong objs))
  refine Or.inr ⟨some (kindOf objs s), ?_⟩
  intro order hp
  obtain ⟨r, hr⟩ := outcome_returns_of_mix hp (by omega) he hc
  refine ⟨r, hr, ?_⟩
  cases order with
  | nil =>
    cases hp.nil_eq
    simp at hs
  | cons a l =>
    obtain ⟨t, ht, rfl⟩ := outcome_cons_ok hr
    have hD := foldlM_dominant choose_selective dominates_strong (fun _ _ => trivial)
      ⟨s, hp.mem_iff.mpr hs, hstrong⟩ ht
    have htmem : t ∈ atoms := hp.mem_iff.mp (foldlM_mem choose_selective ht)
    by_cases hts : t = s
    · rw [hts, Option.map_some]
    obtain ⟨rest, hrest⟩ := exists_perm_cons_cons htmem hs hts
    have htwo := hrest.countP_eq (isStrong objs)
    rw [countP_cons_of_pos hD, countP_cons_of_pos hstrong] at htwo
    omega

theorem independent_weak (h : (mixOf objs atoms).strong = 0)
    (hw : 1 ≤ (mixOf objs atoms).weak) (ht : (mixOf objs atoms).tentative = 0)
    (he : (mixOf objs atoms).external ≤ 1) : OutcomeIndependent objs mode atoms := by
  refine independent_of_kind .kWeakDefinition
    (S := fun k => k = .kWeakDefinition ∨ k = .kExternalDefinition ∨ k = .kExternalWeakDefinition)
    ?_ ?_ hw ?_
  · rintro k (rfl | rfl | rfl) <;> exact ⟨rfl, rfl⟩
  · intro x hx
    have := kindOf_mem_mix objs hx
    cases hk : kindOf objs x <;> simp_all
  · intro order hp
    exact outcome_returns_of_mix hp (by omega) he (fun _ => Or.inl ht)

theorem independent_external
    (h : ∀ k, S k → survivor mode .kExternalDefinition k = .kExternalDefinition ∧
      survivor mode k .kExternalDefinition = .kExternalDefinition)
    (hS : ∀ x ∈ atoms, S (kindOf objs x)) (he : 0 < (mixOf objs atoms).external)
    (hok : (mixOf objs atoms).external ≤ 1 →
      ∀ order, order.Perm atoms → ∃ r, outcome objs mode order = .ok r) :
    OutcomeIndependent objs mode atoms := by
  by_cases hone : (mixOf objs atoms).external ≤ 1
  · exact independent_of_kind _ h hS he (hok hone)
  refine Or.inl ?_
  intro order hp
  refine outcome_throws (dominates_kind h) (fun x y => conflict_external) ?_ ?_
  · intro x hx
    exact hS x (hp.mem_iff.mp hx)
  · have : 2 ≤ atoms.countP (isKind objs .kExternalDefinition) := Nat.lt_of_not_le hone
    rwa [hp.countP_eq]

theorem independent_dylib (h : (mixOf objs atoms).strong = 0)
    (hw : (mixOf objs atoms).weak = 0) (ht : (mixOf objs atoms).tentative = 0) :
    OutcomeIndependent objs mode atoms := by
  have hS : ∀ x ∈ atoms, kindOf objs x = .kExternalDefinition ∨
      kindOf objs x = .kExternalWeakDefinition := by
    intro x hx
    have := kindOf_mem_mix objs hx
    cases hk : kindOf objs x <;> simp_all
  have hret : (mixOf objs atoms).external ≤ 1 →
      ∀ order, order.Perm atoms → ∃ r, outcome objs mode order = .ok r :=
    fun he order hp => outcome_returns_of_mix hp (by omega) he (fun _ => Or.inl ht)
  rcases Nat.eq_zero_or_pos (mixOf objs atoms).external with he | he
  · have hweak : ∀ x ∈ atoms, kindOf objs x = .kExternalWeakDefinition := by
      intro x hx
      have := kindOf_mem_mix objs hx
      cases hk : kindOf objs x <;> simp_all
    cases atoms with
    | nil =>
      refine Or.inr ⟨none, ?_⟩
      intro order hp
      cases hp.eq_nil
      exact ⟨none, rfl, rfl⟩
    | cons a l =>
      refine independent_of_kind .kExternalWeakDefinition
        (S := fun k => k = .kExternalWeakDefinition) ?_ hweak ?_ (hret (by omega))
      · rintro k rfl
        exact ⟨rfl, rfl⟩
      · refine List.countP_pos_iff.mpr ⟨a, mem_cons_self, ?_⟩
        simp [isKind, hweak a mem_cons_self]
  · refine independent_external (S := fun k => k = .kExternalDefinition ∨
      k = .kExternalWeakDefinition) ?_ hS he hret
    rintro k (rfl | rfl) <;> exact ⟨rfl, rfl⟩

theorem outcome_throws_commons (hs : (mixOf objs l).strong = 0)
    (hw : (mixOf objs l).weak = 0) (ht : 0 < (mixOf objs l).tentative)
    (hd : 0 < (mixOf objs l).external + (mixOf objs l).externWeak) :
    ∃ e, outcome objs .kCommonsConflictsDylibsError l = .error e := by
  cases ho : outcome objs .kCommonsConflictsDylibsError l with
  | error e => exact ⟨e, rfl⟩
  | ok r =>
    cases l with
    | nil => simp [mixOf] at ht
    | cons a l =>
      obtain ⟨t, hfold, -⟩ := outcome_cons_ok ho
      have huni := foldlM_uniform (C := fun x => isKind objs .kTentativeDefinition x = true)
        (S := fun x => x ∈ a :: l) choose_selective ?_ (fun x hx => hx) hfold
      · obtain ⟨x, hx, hxt⟩ := List.countP_pos_iff.mp ht
        have hall : ∀ y ∈ a :: l, isKind objs .kTentativeDefinition y = true := by
          have hhead : isKind objs .kTentativeDefinition a = true := by
            rcases List.mem_cons.mp hx with rfl | hx
            · exact hxt
            · exact (huni x hx).mp hxt
          intro y hy
          rcases List.mem_cons.mp hy with rfl | hy
          · exact hhead
          · exact (huni y hy).mpr hhead
        have hno : ∀ kind, kind ≠ .kTentativeDefinition →
            (a :: l).countP (isKind objs kind) = 0 := by
          intro kind hne
          rw [countP_eq_zero]
          intro y hy hk
          have hy' := hall y hy
          simp only [isKind, decide_eq_true_eq] at hk hy'
          exact hne (hk.symm.trans hy')
        have h1 := hno .kExternalDefinition (by decide)
        have h2 := hno .kExternalWeakDefinition (by decide)
        simp only [mixOf] at hd
        omega
      · intro x y z hx hy hz
        have hnc := (choose_ok_iff x y).mp ⟨z, hz⟩
        have h1 := kindOf_mem_mix objs hx
        have h2 := kindOf_mem_mix objs hy
        simp only [Conflict, isStrong, strongKind, isKind, isDylib] at hnc ⊢
        cases hkx : kindOf objs x <;> cases hky : kindOf objs y <;> simp_all

theorem independent_tentative (h : (mixOf objs atoms).strong = 0)
    (hw : (mixOf objs atoms).weak = 0) (ht : 1 ≤ (mixOf objs atoms).tentative)
    (he : mode = .kCommonsIgnoreDylibs → (mixOf objs atoms).external ≤ 1) :
    OutcomeIndependent objs mode atoms := by
  have hS : ∀ x ∈ atoms, kindOf objs x = .kTentativeDefinition ∨
      kindOf objs x = .kExternalDefinition ∨ kindOf objs x = .kExternalWeakDefinition := by
    intro x hx
    have := kindOf_mem_mix objs hx
    cases hk : kindOf objs x <;> simp_all
  have hret : mode ≠ .kCommonsConflictsDylibsError → (mixOf objs atoms).external ≤ 1 →
      ∀ order, order.Perm atoms → ∃ r, outcome objs mode order = .ok r := fun hm he order hp =>
    outcome_returns_of_mix hp (by omega) he fun hm' => absurd hm' hm
  have honly : (mixOf objs atoms).external = 0 → (mixOf objs atoms).externWeak = 0 →
      OutcomeIndependent objs mode atoms := by
    intro hex hew
    refine independent_of_kind .kTentativeDefinition
      (S := fun k => k = .kTentativeDefinition) ?_ ?_ ht ?_
    · rintro k rfl
      exact ⟨rfl, rfl⟩
    · intro x hx
      have := kindOf_mem_mix objs hx
      rcases hS x hx with hk | hk | hk <;> simp_all
    · intro order hp
      exact outcome_returns_of_mix hp (by omega) (by omega) fun _ => Or.inr (by omega)
  cases mode with
  | kCommonsIgnoreDylibs =>
    refine independent_of_kind .kTentativeDefinition
      (S := fun k => k = .kTentativeDefinition ∨ k = .kExternalDefinition ∨
        k = .kExternalWeakDefinition) ?_ hS ht (hret (by decide) (he rfl))
    rintro k (rfl | rfl | rfl) <;> exact ⟨rfl, rfl⟩
  | kCommonsOverriddenByDylibs =>
    rcases Nat.eq_zero_or_pos (mixOf objs atoms).external with hex | hex
    · rcases Nat.eq_zero_or_pos (mixOf objs atoms).externWeak with hew | hew
      · exact honly hex hew
      refine independent_of_kind .kExternalWeakDefinition
        (S := fun k => k = .kTentativeDefinition ∨ k = .kExternalWeakDefinition) ?_ ?_ hew
        (hret (by decide) (by omega))
      · rintro k (rfl | rfl) <;> exact ⟨rfl, rfl⟩
      · intro x hx
        have := kindOf_mem_mix objs hx
        rcases hS x hx with hk | hk | hk <;> simp_all
    · refine independent_external (S := fun k => k = .kTentativeDefinition ∨
        k = .kExternalDefinition ∨ k = .kExternalWeakDefinition) ?_ hS hex (hret (by decide))
      rintro k (rfl | rfl | rfl) <;> exact ⟨rfl, rfl⟩
  | kCommonsConflictsDylibsError =>
    by_cases hd : 0 < (mixOf objs atoms).external + (mixOf objs atoms).externWeak
    · refine Or.inl ?_
      intro order hp
      rw [← mixOf_perm hp] at h hw ht hd
      exact outcome_throws_commons h hw ht hd
    · exact honly (by omega) (by omega)

/-! ## Order dependence of symbol resolution

Outside the consistent mixes there are two orders of the input files that the
linker answers differently. -/

variable {objs : Objects} {mode : CommonsMode}
variable {atoms : List AtomPtr} {kind : DefinitionKind} {b : AtomPtr}

theorem not_independent_of_return_throw {atoms order order' : List AtomPtr}
    (hp : order.Perm atoms) (hp' : order'.Perm atoms) (hok : ∃ r, outcome objs mode order = .ok r)
    (herr : ∃ e, outcome objs mode order' = .error e) : ¬ OutcomeIndependent objs mode atoms := by
  obtain ⟨r, hr⟩ := hok
  obtain ⟨e, he⟩ := herr
  rintro (hall | ⟨kind, hall⟩)
  · obtain ⟨e', he'⟩ := hall order hp
    rw [hr] at he'
    cases he'
  · obtain ⟨r', hr', -⟩ := hall order' hp'
    rw [he] at hr'
    cases hr'

variable {x y : AtomPtr} {l : List AtomPtr}

theorem outcome_throws_of_conflict
    (h : Conflict objs mode x y) : ∃ e, outcome objs mode (x :: y :: l) = .error e := by
  cases hc : choose objs mode x y with
  | ok z => exact absurd h ((choose_ok_iff x y).mp ⟨z, hc⟩)
  | error e =>
    refine ⟨e, ?_⟩
    simp only [outcome, foldlM_cons, hc]
    rfl

variable {a : AtomPtr}

theorem outcome_returns_of_head {K : AtomPtr → Prop} (ha : K a)
    (hkeep : ∀ x y, K x → y ∈ l → ∃ z, choose objs mode x y = .ok z ∧ K z) :
    ∃ t, outcome objs mode (a :: l) = .ok (some t) ∧ K t := by
  obtain ⟨t, ht, hK⟩ := foldlM_keeps ha hkeep
  exact ⟨t, by simp only [outcome, ht, Except.map], hK⟩

theorem keeps_kind (hx : kindOf objs x = kind)
    (hc : ¬ Conflict objs mode x y) (hs : survivor mode kind (kindOf objs y) = kind) :
    ∃ z, choose objs mode x y = .ok z ∧ kindOf objs z = kind := by
  obtain ⟨z, hz⟩ := (choose_ok_iff x y).mpr hc
  exact ⟨z, hz, by rw [kindOf_choose hz, hx, hs]⟩

theorem conflict_isDylib_of_tentative
    (hx : isKind objs .kTentativeDefinition x = true) (hy : isDylib objs y = true) :
    Conflict objs .kCommonsConflictsDylibsError x y :=
  Or.inr (Or.inr ⟨rfl, Or.inl ⟨hx, hy⟩⟩)

theorem exists_order_throws_of_external (mode : CommonsMode)
    (he : 2 ≤ (mixOf objs atoms).external) :
    ∃ order, order.Perm atoms ∧ ∃ e, outcome objs mode order = .error e := by
  obtain ⟨x, y, r, hp, hx, hy⟩ := exists_perm_of_two_le_countP he
  exact ⟨_, hp, outcome_throws_of_conflict (conflict_external hx hy)⟩

theorem exists_order_throws_of_commons (ht : 1 ≤ (mixOf objs atoms).tentative)
    (hd : 1 ≤ (mixOf objs atoms).external + (mixOf objs atoms).externWeak) :
    ∃ order, order.Perm atoms ∧
      ∃ e, outcome objs .kCommonsConflictsDylibsError order = .error e := by
  obtain ⟨x, hx, hxt⟩ := List.countP_pos_iff.mp (show 0 < atoms.countP _ from ht)
  have hdylib : ∃ y ∈ atoms, isDylib objs y = true := by
    rcases Nat.eq_zero_or_pos (mixOf objs atoms).external with hz | hpos
    · have hew : 0 < (mixOf objs atoms).externWeak := by omega
      obtain ⟨y, hy, hk⟩ := List.countP_pos_iff.mp hew
      exact ⟨y, hy, Bool.or_eq_true_iff.mpr (Or.inr hk)⟩
    · obtain ⟨y, hy, hk⟩ := List.countP_pos_iff.mp hpos
      exact ⟨y, hy, Bool.or_eq_true_iff.mpr (Or.inl hk)⟩
  obtain ⟨y, hy, hyd⟩ := hdylib
  have hne : x ≠ y := by
    rintro rfl
    simp only [isKind, isDylib, decide_eq_true_eq] at hxt hyd
    simp [hxt] at hyd
  obtain ⟨r, hr⟩ := exists_perm_cons_cons hx hy hne
  exact ⟨_, hr, outcome_throws_of_conflict (conflict_isDylib_of_tentative hxt hyd)⟩

theorem exists_order_returns_of_strong (mode : CommonsMode) (h : (mixOf objs atoms).strong = 1) :
    ∃ order, order.Perm atoms ∧ ∃ r, outcome objs mode order = .ok r := by
  have hcount : atoms.countP (isStrong objs) = 1 := h
  obtain ⟨s, hs, hstrong⟩ := List.countP_pos_iff.mp (by omega : 0 < atoms.countP (isStrong objs))
  have hperm := perm_cons_erase hs
  have hrest : ∀ y ∈ atoms.erase s, isStrong objs y = false := by
    have hzero := hperm.countP_eq (isStrong objs)
    rw [countP_cons_of_pos hstrong] at hzero
    intro y hy
    have := List.countP_eq_zero.mp (by omega : (atoms.erase s).countP (isStrong objs) = 0) y hy
    simpa using this
  have hkeep : ∀ x y, isStrong objs x = true → y ∈ atoms.erase s →
      ∃ z, choose objs mode x y = .ok z ∧ isStrong objs z = true := by
    intro x y hx hy
    have hy' := hrest y hy
    have hnc : ¬ Conflict objs mode x y := by
      unfold Conflict isDylib isKind
      unfold isStrong strongKind at hx hy' ⊢
      cases hkx : kindOf objs x <;> cases hky : kindOf objs y <;> simp_all
    obtain ⟨z, hz⟩ := (choose_ok_iff x y).mpr hnc
    exact ⟨z, hz, dominates_strong.keeps x y z trivial trivial hx hz⟩
  obtain ⟨t, ht, -⟩ := outcome_returns_of_head (K := fun x => isStrong objs x = true)
    hstrong hkeep
  exact ⟨_, hperm.symm, _, ht⟩

/-- A definition of `kind` heads the order and nothing after it displaces the kind. -/
theorem exists_order_returns_of_kind
    (hpos : 0 < atoms.countP (isKind objs kind)) (hkeep : ∀ x y, kindOf objs x = kind → y ∈ atoms →
      ¬ Conflict objs mode x y ∧ survivor mode kind (kindOf objs y) = kind) :
    ∃ order, order.Perm atoms ∧ ∃ r, outcome objs mode order = .ok r := by
  obtain ⟨w, hw, hk⟩ := List.countP_pos_iff.mp hpos
  simp only [isKind, decide_eq_true_eq] at hk
  have hkeep' : ∀ x y, kindOf objs x = kind → y ∈ atoms.erase w →
      ∃ z, choose objs mode x y = .ok z ∧ kindOf objs z = kind := by
    intro x y hx hy
    have h := hkeep x y hx (mem_of_mem_erase hy)
    exact keeps_kind hx h.1 h.2
  obtain ⟨t, ht, -⟩ := outcome_returns_of_head (K := fun x => kindOf objs x = kind) hk hkeep'
  exact ⟨_, (perm_cons_erase hw).symm, _, ht⟩

/-- A first group keeps the kind `k`, the definition after it brings the kind `j`,
and the last group keeps that. -/
theorem outcome_two_groups (mode : CommonsMode) {k j : DefinitionKind} {m : List AtomPtr}
    (ha : kindOf objs a = k) (hb : kindOf objs b = j) (hl : ∀ x y, kindOf objs x = k → y ∈ l →
      ¬ Conflict objs mode x y ∧ survivor mode k (kindOf objs y) = k)
    (hkj : survivor mode k j = j) (hab : ∀ x, kindOf objs x = k → ¬ Conflict objs mode x b)
    (hm : ∀ x y, kindOf objs x = j → y ∈ m →
      ¬ Conflict objs mode x y ∧ survivor mode j (kindOf objs y) = j) :
    ∃ r, outcome objs mode (a :: (l ++ b :: m)) = .ok r ∧ r.map (kindOf objs) = some j := by
  obtain ⟨u, hu, hku⟩ := foldlM_keeps (K := fun x => kindOf objs x = k) ha
    fun x y hx hy => keeps_kind hx (hl x y hx hy).1 (hl x y hx hy).2
  obtain ⟨v, hv⟩ := (choose_ok_iff u b).mpr (hab u hku)
  have hkv : kindOf objs v = j := by rw [kindOf_choose hv, hku, hb, hkj]
  obtain ⟨t, ht, hkt⟩ := foldlM_keeps (K := fun x => kindOf objs x = j) hkv
    fun x y hx hy => keeps_kind hx (hm x y hx hy).1 (hm x y hx hy).2
  have hfold : (l ++ b :: m).foldlM (choose objs mode) a = .ok t :=
    foldlM_append_ok.mpr ⟨u, hu, foldlM_cons_ok.mpr ⟨v, hv, ht⟩⟩
  exact ⟨some t, by simp only [outcome, hfold, Except.map], by rw [Option.map_some, hkt]⟩

theorem perm_two_groups {r atoms : List AtomPtr} (p : AtomPtr → Bool)
    (h : (a :: b :: r).Perm atoms) :
    (a :: (r.filter p ++ b :: r.filter fun x => !p x)).Perm atoms :=
  ((List.perm_middle.trans ((filter_append_perm p r).cons b)).cons a).trans h

theorem not_independent_weak_tentative
    (h : (mixOf objs atoms).strong = 0) (hw : 1 ≤ (mixOf objs atoms).weak)
    (ht : 1 ≤ (mixOf objs atoms).tentative) : ¬ OutcomeIndependent objs mode atoms := by
  obtain ⟨w, hw, hkw⟩ := List.countP_pos_iff.mp (show 0 < atoms.countP _ from hw)
  obtain ⟨c, hc, hkc⟩ := List.countP_pos_iff.mp (show 0 < atoms.countP _ from ht)
  simp only [isKind, decide_eq_true_eq] at hkw hkc
  have hne : w ≠ c := by
    rintro rfl
    rw [hkw] at hkc
    cases hkc
  obtain ⟨r, hr⟩ := exists_perm_cons_cons hw hc hne
  have hmem : ∀ y ∈ r, kindOf objs y ≠ .kRegularDefinition ∧ kindOf objs y ≠ .kAbsoluteSymbol := by
    intro y hy
    have := kindOf_mem_mix objs
      (hr.mem_iff.mp (mem_cons_of_mem w (mem_cons_of_mem c hy)))
    cases hk : kindOf objs y <;> simp_all
  have hweak : ∀ x y, kindOf objs x = .kWeakDefinition → kindOf objs y ≠ .kRegularDefinition →
      kindOf objs y ≠ .kAbsoluteSymbol → kindOf objs y ≠ .kTentativeDefinition →
      ¬ Conflict objs mode x y ∧
        survivor mode .kWeakDefinition (kindOf objs y) = .kWeakDefinition := by
    intro x y hx h1 h2 h3
    unfold Conflict isStrong strongKind isKind isDylib
    cases hk : kindOf objs y <;> simp_all [survivor]
  have hcommon : ∀ x y, kindOf objs x = .kTentativeDefinition →
      kindOf objs y = .kTentativeDefinition → ¬ Conflict objs mode x y ∧
        survivor mode .kTentativeDefinition (kindOf objs y) = .kTentativeDefinition := by
    intro x y hx hy
    unfold Conflict isStrong strongKind isKind isDylib
    simp [hx, hy, survivor]
  have hwc : ∀ x, kindOf objs x = .kWeakDefinition → ¬ Conflict objs mode x c := by
    intro x hx
    unfold Conflict isStrong strongKind isKind isDylib
    simp [hx, hkc]
  have hcw : ∀ x, kindOf objs x = .kTentativeDefinition → ¬ Conflict objs mode x w := by
    intro x hx
    unfold Conflict isStrong strongKind isKind isDylib
    simp [hx, hkw]
  let p : AtomPtr → Bool := fun x => kindOf objs x ≠ .kTentativeDefinition
  obtain ⟨s, hs, hks⟩ := outcome_two_groups mode hkw hkc
    (l := r.filter p) (m := r.filter fun x => !p x)
    (fun x y hx hy => hweak x y hx (hmem y (List.mem_filter.mp hy).1).1
      (hmem y (List.mem_filter.mp hy).1).2 (by simpa [p] using (List.mem_filter.mp hy).2))
    rfl hwc
    (fun x y hx hy => hcommon x y hx (by simpa [p] using (List.mem_filter.mp hy).2))
  obtain ⟨s', hs', hks'⟩ := outcome_two_groups mode hkc hkw
    (l := r.filter fun x => !p x) (m := r.filter fun x => !!p x)
    (fun x y hx hy => hcommon x y hx (by simpa [p] using (List.mem_filter.mp hy).2))
    rfl hcw
    (fun x y hx hy => hweak x y hx (hmem y (List.mem_filter.mp hy).1).1
      (hmem y (List.mem_filter.mp hy).1).2 (by simpa [p] using (List.mem_filter.mp hy).2))
  rintro (hall | ⟨kind, hall⟩)
  · obtain ⟨e, he⟩ := hall _ (perm_two_groups p hr)
    rw [hs] at he
    cases he
  · obtain ⟨q, hq, hkq⟩ := hall _ (perm_two_groups p hr)
    obtain ⟨q', hq', hkq'⟩ :=
      hall _ (perm_two_groups (fun x => !p x) ((List.Perm.swap w c r).trans hr))
    rw [hs] at hq
    rw [hs'] at hq'
    cases hq
    cases hq'
    rw [hks] at hkq
    rw [hks', ← hkq] at hkq'
    cases hkq'

theorem not_independent_of_not_consistent
    (h : ¬ (mixOf objs atoms).Consistent mode) : ¬ OutcomeIndependent objs mode atoms := by
  have hfew : (mixOf objs atoms).strong < 2 := Nat.lt_of_not_le fun hs => h (.clash hs)
  by_cases hone : (mixOf objs atoms).strong = 1
  · obtain ⟨order, hp, hok⟩ := exists_order_returns_of_strong mode hone
    by_cases he : (mixOf objs atoms).external ≤ 1
    · have hc : ¬ (mode = .kCommonsConflictsDylibsError → (mixOf objs atoms).tentative = 0 ∨
          (mixOf objs atoms).external + (mixOf objs atoms).externWeak = 0) :=
        fun hc => h (.oneStrong hone he hc)
      rw [Classical.not_imp] at hc
      obtain ⟨rfl, hc⟩ := hc
      have ht : 1 ≤ (mixOf objs atoms).tentative := by omega
      obtain ⟨order', hp', herr⟩ := exists_order_throws_of_commons ht (by omega)
      exact not_independent_of_return_throw hp hp' hok herr
    · have htwo : 2 ≤ (mixOf objs atoms).external := by omega
      obtain ⟨order', hp', herr⟩ := exists_order_throws_of_external mode htwo
      exact not_independent_of_return_throw hp hp' hok herr
  · have hzero : (mixOf objs atoms).strong = 0 := by omega
    rcases Nat.eq_zero_or_pos (mixOf objs atoms).weak with hw | hw
    · have ht : 1 ≤ (mixOf objs atoms).tentative := by
        by_contra ht
        exact h (.dylib hzero hw (by omega))
      have he : ¬ (mode = .kCommonsIgnoreDylibs → (mixOf objs atoms).external ≤ 1) :=
        fun he => h (.tentative hzero hw ht he)
      rw [Classical.not_imp] at he
      obtain ⟨rfl, he⟩ := he
      have htwo : 2 ≤ (mixOf objs atoms).external := by omega
      obtain ⟨order', hp', herr⟩ := exists_order_throws_of_external .kCommonsIgnoreDylibs htwo
      have hkeep : ∀ x y, kindOf objs x = .kTentativeDefinition → y ∈ atoms →
          ¬ Conflict objs .kCommonsIgnoreDylibs x y ∧ survivor .kCommonsIgnoreDylibs
            .kTentativeDefinition (kindOf objs y) = .kTentativeDefinition := by
        intro x y hx hy
        have := kindOf_mem_mix objs hy
        unfold Conflict isStrong strongKind isKind isDylib
        cases hk : kindOf objs y <;> simp_all [survivor]
      obtain ⟨order, hp, hok⟩ := exists_order_returns_of_kind
        (show 0 < atoms.countP _ from ht) hkeep
      exact not_independent_of_return_throw hp hp' hok herr
    · rcases Nat.eq_zero_or_pos (mixOf objs atoms).tentative with ht | ht
      · have he : ¬ (mixOf objs atoms).external ≤ 1 := fun he => h (.weak hzero hw ht he)
        have htwo : 2 ≤ (mixOf objs atoms).external := by omega
        obtain ⟨order', hp', herr⟩ := exists_order_throws_of_external mode htwo
        have hkeep : ∀ x y, kindOf objs x = .kWeakDefinition → y ∈ atoms →
            ¬ Conflict objs mode x y ∧
              survivor mode .kWeakDefinition (kindOf objs y) = .kWeakDefinition := by
          intro x y hx hy
          have := kindOf_mem_mix objs hy
          unfold Conflict isStrong strongKind isKind isDylib
          cases hk : kindOf objs y <;> simp_all [survivor]
        obtain ⟨order, hp, hok⟩ := exists_order_returns_of_kind
          (show 0 < atoms.countP _ from hw) hkeep
        exact not_independent_of_return_throw hp hp' hok herr
      · exact not_independent_weak_tentative hzero hw ht

/-- Order of the input shows exactly in the mixes that are not consistent. -/
theorem add_order_independent_iff (scope : AtomPtr → Scope) {name : String}
    {atoms : List AtomPtr} (hname : ∀ a ∈ atoms, objs.nameOf a = name) {t : SymbolTable}
    (ht : t.find name = none) :
    OrderIndependent objs mode scope t name atoms ↔ (mixOf objs atoms).Consistent mode := by
  rw [orderIndependent_iff_outcome hname ht]
  constructor
  · intro hind
    by_contra hc
    exact not_independent_of_not_consistent hc hind
  · rintro (h | ⟨h, he, hc⟩ | ⟨h, hw, ht, he⟩ | ⟨h, hw, ht, he⟩ | ⟨h, hw, ht⟩)
    · exact independent_clash h
    · exact independent_oneStrong h he hc
    · exact independent_weak h hw ht he
    · exact independent_tentative h hw ht he
    · exact independent_dylib h hw ht

def weakAndCommon : Objects where
  atom a :=
    { getName := some "_x", getScope := .scopeGlobal
      getDefinitionKind := if a = 1 then .kWeakDefinition else .kTentativeDefinition }

theorem add_order_independent_witness :
    OrderIndependent weakAndCommon .kCommonsIgnoreDylibs (fun _ => .scopeGlobal) {} "_x" [2, 2] ↔
      (mixOf weakAndCommon [2, 2]).Consistent .kCommonsIgnoreDylibs :=
  add_order_independent_iff _ (by decide) (by decide)

theorem add_depends_on_order :
    ¬ OrderIndependent weakAndCommon .kCommonsIgnoreDylibs (fun _ => .scopeGlobal) {} "_x"
      [1, 2] := by
  rintro (hall | ⟨kind, hall⟩)
  · obtain ⟨e, he⟩ := hall [1, 2] (.refl _)
    cases he
  · obtain ⟨t₁, ht₁, hk₁⟩ := hall [1, 2] (.refl _)
    obtain ⟨t₂, ht₂, hk₂⟩ := hall [2, 1] (.swap 1 2 [])
    have h₁ : kind = some .kTentativeDefinition := by
      cases ht₁
      exact hk₁.symm
    have h₂ : kind = some .kWeakDefinition := by
      cases ht₂
      exact hk₂.symm
    rw [h₁] at h₂
    cases h₂

end Toolwhip.Ld64.SymbolTable
