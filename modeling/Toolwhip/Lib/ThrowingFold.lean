import Mathlib.Data.List.Basic

/-! # Folds that throw, and folds that combine by key -/

set_option autoImplicit false

/-! ## Folds that may throw

Rules for `List.foldlM` in the `Except` monad: a fold is peeled one element at a
time, and a relation between the state before and the state after one element is
carried to the whole list. -/

namespace Toolwhip.Lib.ThrowingFold
open List

universe u v w
variable {ε : Type u} {σ β : Type v} {α : Type w}

variable {x : Except ε σ}
variable {g : α → Except ε PUnit} {γ : Type w}

theorem bind_eq_ok {f : σ → Except ε β} {b : β} :
    (x >>= f) = .ok b ↔ ∃ a, x = .ok a ∧ f a = .ok b := by
  cases x with
  | error e =>
    constructor
    · intro h
      cases h
    · rintro ⟨a, ha, -⟩
      cases ha
  | ok a =>
    constructor
    · intro h
      exact ⟨a, rfl, h⟩
    · rintro ⟨a', ha, hb⟩
      cases ha
      exact hb

theorem map_eq_ok {f : σ → γ} {c : γ} : x.map f = .ok c ↔ ∃ a, x = .ok a ∧ f a = c := by
  cases x with
  | error e => simp [Except.map]
  | ok a => simp [Except.map]

variable {e : ε}

theorem bind_eq_error {f : σ → Except ε β} :
    (x >>= f) = .error e ↔ x = .error e ∨ ∃ a, x = .ok a ∧ f a = .error e := by
  cases x with
  | error e' =>
    constructor
    · intro h
      cases h
      exact Or.inl rfl
    · rintro (h | ⟨a, ha, -⟩)
      · cases h
        rfl
      · cases ha
  | ok a =>
    constructor
    · intro h
      exact Or.inr ⟨a, rfl, h⟩
    · rintro (h | ⟨a', ha, hb⟩)
      · cases h
      · cases ha
        exact hb

variable {f : σ → α → Except ε σ}

variable {l : List α} {s t : σ}

theorem foldlM_cons_ok {a : α} :
    (a :: l).foldlM f s = .ok t ↔ ∃ u, f s a = .ok u ∧ l.foldlM f u = .ok t := by
  exact bind_eq_ok

theorem foldlM_nil_ok : ([] : List α).foldlM f s = .ok t ↔ s = t := by
  constructor
  · intro h
    cases h
    rfl
  · rintro rfl
    rfl

theorem foldlM_append_ok {m : List α} :
    (l ++ m).foldlM f s = .ok t ↔ ∃ u, l.foldlM f s = .ok u ∧ m.foldlM f u = .ok t := by
  rw [foldlM_append]
  exact bind_eq_ok

variable {P : σ → Prop}

theorem foldlM_invariant (hstep : ∀ u a v, a ∈ l → P u → f u a = .ok v → P v)
    (hs : P s) (h : l.foldlM f s = .ok t) : P t := by
  induction l generalizing s with
  | nil =>
    obtain rfl := foldlM_nil_ok.mp h
    exact hs
  | cons a l ih =>
    obtain ⟨u, hu, ht⟩ := foldlM_cons_ok.mp h
    refine ih ?_ (hstep s a u mem_cons_self hs hu) ht
    intro u' a' v ha'
    exact hstep u' a' v (mem_cons_of_mem a ha')

/-- One element establishes `P` and none destroys it. -/
theorem foldlM_establishes {a : α} (ha : a ∈ l) (hstep : ∀ u v, f u a = .ok v → P v)
    (hkeep : ∀ u b v, b ∈ l → P u → f u b = .ok v → P v) (h : l.foldlM f s = .ok t) : P t := by
  obtain ⟨l₁, l₂, rfl⟩ := append_of_mem ha
  obtain ⟨u, -, h⟩ := foldlM_append_ok.mp h
  obtain ⟨v, hv, ht⟩ := foldlM_cons_ok.mp h
  refine foldlM_invariant ?_ (hstep u v hv) ht
  intro u b v hb
  exact hkeep u b v (mem_append_right _ (mem_cons_of_mem _ hb))

theorem foldlM_progress {P : List α → σ → Prop}
    (hstep : ∀ pre a post u v, l = pre ++ a :: post → P pre u → f u a = .ok v → P (pre ++ [a]) v)
    (hs : P [] s) (h : l.foldlM f s = .ok t) : P l t := by
  suffices ∀ pre post u, l = pre ++ post → P pre u → post.foldlM f u = .ok t → P l t from
    this [] l s rfl hs h
  intro pre post
  induction post generalizing pre with
  | nil =>
    intro u hl hu ht
    obtain rfl := foldlM_nil_ok.mp ht
    rw [hl, append_nil]
    exact hu
  | cons a post ih =>
    intro u hl hu ht
    obtain ⟨v, hv, ht⟩ := foldlM_cons_ok.mp ht
    refine ih (pre ++ [a]) v ?_ (hstep pre a post u v hl hu hv) ht
    rw [hl, append_assoc, singleton_append]

theorem foldlM_flatMap {g : γ → List α} {l : List γ} :
    (l.flatMap g).foldlM f s = l.foldlM (fun s c => (g c).foldlM f s) s := by
  induction l generalizing s with
  | nil => rfl
  | cons c l ih =>
    rw [flatMap_cons, foldlM_append, foldlM_cons]
    exact congrArg _ (funext fun u => ih)

theorem foldlM_relates {R : σ → σ → Prop} (hrefl : ∀ s, R s s)
    (htrans : ∀ s t u, R s t → R t u → R s u) (hstep : ∀ u a v, a ∈ l → f u a = .ok v → R u v)
    (h : l.foldlM f s = .ok t) : R s t := by
  refine foldlM_invariant (P := fun v => R s v) ?_ (hrefl s) h
  intro u a v ha hu hv
  exact htrans s u v hu (hstep u a v ha hv)

theorem foldlM_returns (hstep : ∀ u a, a ∈ l → P u → ∃ v, f u a = .ok v ∧ P v) (hs : P s) :
    ∃ t, l.foldlM f s = .ok t ∧ P t := by
  induction l generalizing s with
  | nil => exact ⟨s, foldlM_nil_ok.mpr rfl, hs⟩
  | cons a l ih =>
    obtain ⟨u, hu, hPu⟩ := hstep s a mem_cons_self hs
    obtain ⟨t, ht, hPt⟩ := ih (fun u' a' ha' => hstep u' a' (mem_cons_of_mem a ha')) hPu
    exact ⟨t, foldlM_cons_ok.mpr ⟨u, hu, ht⟩, hPt⟩

theorem foldlM_error (h : l.foldlM f s = .error e) : ∃ u, ∃ a ∈ l, f u a = .error e := by
  induction l generalizing s with
  | nil =>
    cases h
  | cons a l ih =>
    cases bind_eq_error.mp h with
    | inl ha => exact ⟨s, a, mem_cons_self, ha⟩
    | inr hrest =>
      obtain ⟨u, _, hu⟩ := hrest
      obtain ⟨v, b, hb, hv⟩ := ih hu
      exact ⟨v, b, mem_cons_of_mem a hb, hv⟩

theorem foldlM_error_under (hstep : ∀ u a v, a ∈ l → P u → f u a = .ok v → P v) (hs : P s)
    (h : l.foldlM f s = .error e) : ∃ u, ∃ a ∈ l, P u ∧ f u a = .error e := by
  induction l generalizing s with
  | nil =>
    cases h
  | cons a l ih =>
    rcases bind_eq_error.mp h with ha | ⟨v, hv, hrest⟩
    · exact ⟨s, a, mem_cons_self, hs, ha⟩
    have hP := hstep s a v mem_cons_self hs hv
    obtain ⟨u, b, hb, hu⟩ :=
      ih (fun u' b' w hb' => hstep u' b' w (mem_cons_of_mem a hb')) hP hrest
    exact ⟨u, b, mem_cons_of_mem a hb, hu⟩

theorem forM_ok (h : l.forM g = .ok ⟨⟩) : ∀ a ∈ l, g a = .ok ⟨⟩ := by
  induction l with
  | nil =>
    intro a ha
    cases ha
  | cons b l ih =>
    obtain ⟨_, hb, hl⟩ := bind_eq_ok.mp h
    intro a ha
    cases ha with
    | head => exact hb
    | tail _ ha => exact ih hl a ha

theorem forM_error (h : l.forM g = .error e) : ∃ a ∈ l, g a = .error e := by
  induction l with
  | nil => cases h
  | cons b l ih =>
    cases bind_eq_error.mp h with
    | inl hb => exact ⟨b, mem_cons_self, hb⟩
    | inr hrest =>
      obtain ⟨_, _, hl⟩ := hrest
      obtain ⟨a, ha, he⟩ := ih hl
      exact ⟨a, mem_cons_of_mem b ha, he⟩

end Toolwhip.Lib.ThrowingFold

/-! ## Folding a partial choice over a list

`choose old new` keeps one of its two arguments or throws. Folding it over a
list is what a table does with the definitions of one key in the order they
arrive; the lemmas say when the order shows in the outcome. -/

namespace Toolwhip.Lib.SelectiveFold
open ThrowingFold List

variable {ε α : Type*}
variable {p : α → Bool}

def Selective (choose : α → α → Except ε α) : Prop :=
  ∀ x y z, choose x y = .ok z → z = x ∨ z = y

variable {choose : α → α → Except ε α}

variable {l : List α} {s t : α}

theorem foldlM_mem (hsel : Selective choose) (h : l.foldlM choose s = .ok t) : t ∈ s :: l := by
  induction l generalizing s with
  | nil =>
    obtain rfl := foldlM_nil_ok.mp h
    exact mem_cons_self
  | cons a l ih =>
    obtain ⟨u, hu, ht⟩ := foldlM_cons_ok.mp h
    rcases hsel s a u hu with rfl | rfl <;> grind

theorem foldlM_returns_of_pairwise (hsel : Selective choose)
    (hok : (s :: l).Pairwise fun x y => ∃ z, choose x y = .ok z) :
    ∃ t, l.foldlM choose s = .ok t := by
  induction l generalizing s with
  | nil => exact ⟨s, foldlM_nil_ok.mpr rfl⟩
  | cons a l ih =>
    rw [pairwise_cons] at hok
    obtain ⟨u, hu⟩ := hok.1 a mem_cons_self
    have htail : (u :: l).Pairwise fun x y => ∃ z, choose x y = .ok z := by
      rcases hsel s a u hu with rfl | rfl
      · rw [pairwise_cons]
        exact ⟨fun b hb => hok.1 b (mem_cons_of_mem a hb), (List.pairwise_cons.mp hok.2).2⟩
      · exact hok.2
    obtain ⟨t, ht⟩ := ih htail
    exact ⟨t, foldlM_cons_ok.mpr ⟨u, hu, ht⟩⟩

/-- Against the elements satisfying `S`, those satisfying `D` are always preferred. -/
structure Dominates (choose : α → α → Except ε α) (S D : α → Prop) : Prop where
  keeps : ∀ x y z, S x → S y → D x → choose x y = .ok z → D z
  takes : ∀ x y z, S x → S y → D y → choose x y = .ok z → D z

variable {S : α → Prop}

theorem foldlM_dominant (hsel : Selective choose) {D : α → Prop}
    (hD : Dominates choose S D) (hS : ∀ x ∈ s :: l, S x)
    (hmem : ∃ x ∈ s :: l, D x) (h : l.foldlM choose s = .ok t) : D t := by
  induction l generalizing s with
  | nil =>
    obtain rfl := foldlM_nil_ok.mp h
    obtain ⟨x, hx, hDx⟩ := hmem
    rwa [List.mem_singleton.mp hx] at hDx
  | cons a l ih =>
    obtain ⟨u, hu, ht⟩ := foldlM_cons_ok.mp h
    have hSs : S s := hS s mem_cons_self
    have hSa : S a := hS a (mem_cons_of_mem s mem_cons_self)
    have hSl : ∀ x ∈ l, S x := fun x hx =>
      hS x (mem_cons_of_mem s (mem_cons_of_mem a hx))
    have hSu : S u := by
      rcases hsel s a u hu with rfl | rfl
      · exact hSs
      · exact hSa
    refine ih ?_ ?_ ht
    · intro x hx
      rcases List.mem_cons.mp hx with rfl | hx
      · exact hSu
      · exact hSl x hx
    · obtain ⟨x, hx, hDx⟩ := hmem
      rcases List.mem_cons.mp hx with rfl | hx
      · exact ⟨u, mem_cons_self, hD.keeps x a u hSs hSa hDx hu⟩
      rcases List.mem_cons.mp hx with rfl | hx
      · exact ⟨u, mem_cons_self, hD.takes s x u hSs hSa hDx hu⟩
      · exact ⟨x, mem_cons_of_mem u hx, hDx⟩

/-- Two preferred elements that conflict with each other make every order throw. -/
theorem foldlM_throws_of_two (hsel : Selective choose) {D : α → Bool}
    (hD : Dominates choose S fun x => D x)
    (hconflict : ∀ x y z, S x → S y → D x → D y → choose x y ≠ .ok z)
    (hS : ∀ x ∈ s :: l, S x) (htwo : 2 ≤ (s :: l).countP D) (t : α) :
    l.foldlM choose s ≠ .ok t := by
  induction l generalizing s with
  | nil =>
    have := countP_le_length (p := D) (l := [s])
    simp only [length_cons, length_nil] at this
    omega
  | cons a l ih =>
    intro h
    obtain ⟨u, hu, ht⟩ := foldlM_cons_ok.mp h
    have hSs : S s := hS s mem_cons_self
    have hSa : S a := hS a (mem_cons_of_mem s mem_cons_self)
    have hSl : ∀ x ∈ l, S x := fun x hx =>
      hS x (mem_cons_of_mem s (mem_cons_of_mem a hx))
    have hSu : S u := by
      rcases hsel s a u hu with rfl | rfl
      · exact hSs
      · exact hSa
    refine ih ?_ ?_ ht
    · intro x hx
      rcases List.mem_cons.mp hx with rfl | hx
      · exact hSu
      · exact hSl x hx
    · have hk := hD.keeps s a u hSs hSa
      have htk := hD.takes s a u hSs hSa
      grind

/-- If the choice only ever returns inside one class, a fold that returns saw one class. -/
theorem foldlM_uniform (hsel : Selective choose) {C : α → Prop}
    (huni : ∀ x y z, S x → S y → choose x y = .ok z → (C x ↔ C y))
    (hS : ∀ x ∈ s :: l, S x) (h : l.foldlM choose s = .ok t) : ∀ x ∈ l, (C x ↔ C s) := by
  induction l generalizing s with
  | nil => simp
  | cons a l ih =>
    obtain ⟨u, hu, ht⟩ := foldlM_cons_ok.mp h
    have hSs : S s := hS s mem_cons_self
    have hSa : S a := hS a (mem_cons_of_mem s mem_cons_self)
    have hcls := huni s a u hSs hSa hu
    have hus : C u ↔ C s := by
      rcases hsel s a u hu with rfl | rfl
      · exact Iff.rfl
      · exact hcls.symm
    have hSu : ∀ x ∈ u :: l, S x := by
      intro x hx
      rcases List.mem_cons.mp hx with rfl | hx
      · rcases hsel s a x hu with rfl | rfl
        · exact hSs
        · exact hSa
      · exact hS x (mem_cons_of_mem s (mem_cons_of_mem a hx))
    intro x hx
    rcases List.mem_cons.mp hx with rfl | hx
    · exact hcls.symm
    · exact (ih hSu ht x hx).trans hus

theorem foldlM_keeps {K : α → Prop} (hs : K s)
    (hkeep : ∀ x y, K x → y ∈ l → ∃ z, choose x y = .ok z ∧ K z) :
    ∃ t, l.foldlM choose s = .ok t ∧ K t :=
  foldlM_returns (fun u a ha hu => hkeep u a hu ha) hs

theorem pairwise_of_countP_le_one (h : l.countP p ≤ 1) :
    l.Pairwise fun x y => ¬ (p x = true ∧ p y = true) := by
  induction l with
  | nil => exact .nil
  | cons a l ih =>
    constructor
    · rintro b hb ⟨ha, hpb⟩
      have hpos := List.countP_pos_iff.mpr ⟨b, hb, hpb⟩
      rw [countP_cons_of_pos ha] at h
      omega
    · exact ih (Nat.le_trans (by rw [countP_cons]; omega) h)

theorem exists_perm_cons_cons [DecidableEq α] {x y : α} (hx : x ∈ l) (hy : y ∈ l)
    (hne : x ≠ y) : ∃ r, (x :: y :: r).Perm l := by
  have hy' : y ∈ l.erase x := (mem_erase_of_ne (Ne.symm hne)).mpr hy
  exact ⟨(l.erase x).erase y,
    ((perm_cons_erase hy').symm.cons x).trans (perm_cons_erase hx).symm⟩

theorem exists_perm_of_two_le_countP (h : 2 ≤ l.countP p) :
    ∃ x y r, (x :: y :: r).Perm l ∧ p x = true ∧ p y = true := by
  rw [countP_eq_length_filter] at h
  have hperm := filter_append_perm p l
  match hf : l.filter p with
  | [] | [_] =>
    rw [hf] at h
    simp at h
  | x :: y :: r =>
    rw [hf] at hperm
    refine ⟨x, y, _, hperm, ?_, ?_⟩
    · exact (List.mem_filter.mp (hf ▸ mem_cons_self)).2
    · exact (List.mem_filter.mp (hf ▸ mem_cons_of_mem x mem_cons_self)).2

end Toolwhip.Lib.SelectiveFold
