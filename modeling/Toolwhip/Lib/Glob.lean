import Mathlib.Computability.Language

/-! # Glob patterns

A pattern is a list of elements, each either a star or a wildcard for one letter;
which letters the wildcard `i` stands for is given by `D i`. `Accepts` is the
matcher that lets a star that is not the last element match every rest of the word
but the empty one. -/

namespace Toolwhip.Lib.Glob
open List
set_option autoImplicit false

inductive Elem (ι : Type) where
  | star
  | one (i : ι)
  deriving DecidableEq, Repr

variable {ι α : Type}

def Elem.lang (D : ι → Set α) : Elem ι → Language α
  | .star => (Set.univ : Set (List α))
  | .one i => (fun x => [x]) '' D i

def lang (D : ι → Set α) (p : List (Elem ι)) : Language α :=
  (p.map (Elem.lang D)).prod

theorem mem_lang_nil (D : ι → Set α) (w : List α) : w ∈ lang D [] ↔ w = [] := by
  apply Language.mem_one

theorem mem_lang_one (D : ι → Set α) (i : ι) (p : List (Elem ι)) (w : List α) :
    w ∈ lang D (.one i :: p) ↔ ∃ x ∈ D i, ∃ v ∈ lang D p, x :: v = w := by
  constructor
  · intro ⟨u, ⟨x, hx, hu⟩, v, hv, hw⟩
    subst hu
    exact ⟨x, hx, v, hv, hw⟩
  · intro ⟨x, hx, v, hv, hw⟩
    exact ⟨[x], ⟨x, hx, rfl⟩, v, hv, hw⟩

theorem mem_lang_star (D : ι → Set α) (p : List (Elem ι)) (w : List α) :
    w ∈ lang D (.star :: p) ↔ ∃ v ∈ lang D p, v <:+ w := by
  constructor
  · intro ⟨u, _, v, hv, hw⟩
    exact ⟨v, hv, u, hw⟩
  · intro ⟨v, hv, u, hw⟩
    exact ⟨u, Set.mem_univ u, v, hv, hw⟩

/-- What the matcher accepts when it reads the wildcard `i` as `S i`. -/
def Accepts (S : ι → Set α) : List (Elem ι) → List α → Prop
  | [], w => w = []
  | [.star], _ => True
  | .star :: e :: p, w => ∃ v, v <:+ w ∧ v ≠ [] ∧ Accepts S (e :: p) v
  | .one i :: p, w => ∃ x ∈ S i, ∃ v, Accepts S p v ∧ x :: v = w

def core (D : ι → Set α) : List (Elem ι) → List (Set α)
  | [] => []
  | .star :: p => core D p
  | .one i :: p => D i :: core D p

def EndsInTwoStars (p : List (Elem ι)) : Prop := [.star, .star] <:+ p

instance [DecidableEq ι] (p : List (Elem ι)) : Decidable (EndsInTwoStars p) := by
  unfold EndsInTwoStars
  infer_instance

theorem length_core (D S : ι → Set α) (p : List (Elem ι)) :
    (core D p).length = (core S p).length := by
  induction p with
  | nil => rfl
  | cons e p ih =>
    cases e with
    | star => exact ih
    | one i => simp only [core, length_cons, ih]

section
variable {D : ι → Set α} {p : List (Elem ι)}
variable {w : List α}

theorem length_le_of_mem_lang (h : w ∈ lang D p) : (core D p).length ≤ w.length := by
  induction p generalizing w with
  | nil => exact Nat.zero_le _
  | cons e p ih =>
    cases e with
    | star =>
      obtain ⟨v, hv, hsuffix⟩ := (mem_lang_star D p w).mp h
      exact Nat.le_trans (ih hv) hsuffix.length_le
    | one i =>
      obtain ⟨x, _, v, hv, hw⟩ := (mem_lang_one D i p w).mp h
      subst hw
      exact Nat.succ_le_succ (ih hv)

/-- In a shortest word every star is empty. -/
theorem shortest_mem_lang (hlen : w.length = (core D p).length) :
    w ∈ lang D p ↔ List.Forall₂ (fun x A => x ∈ A) w (core D p) := by
  induction p generalizing w with
  | nil =>
    rw [mem_lang_nil, core, forall₂_nil_right_iff]
  | cons e p ih =>
    cases e with
    | star =>
      rw [mem_lang_star, core, ← ih hlen]
      constructor
      · intro ⟨v, hv, hsuffix⟩
        have hle := length_le_of_mem_lang hv
        have hv : v = w := by
          apply hsuffix.eq_of_length
          have := hsuffix.length_le
          rw [core] at hlen
          omega
        exact hv ▸ ‹v ∈ lang D p›
      · intro hw
        exact ⟨w, hw, suffix_rfl⟩
    | one i =>
      rw [mem_lang_one, core]
      constructor
      · intro ⟨x, hx, v, hv, hw⟩
        subst hw
        have hlen : v.length = (core D p).length := Nat.succ.inj hlen
        exact List.Forall₂.cons hx ((ih hlen).mp hv)
      · intro h
        cases h with
        | cons hx hrest =>
          rename_i x v
          have hlen : v.length = (core D p).length := Nat.succ.inj hlen
          exact ⟨x, hx, v, (ih hlen).mpr hrest, rfl⟩

theorem exists_shortest (h : ∀ i, .one i ∈ p → (D i).Nonempty) :
    ∃ w, w ∈ lang D p ∧ w.length = (core D p).length := by
  induction p with
  | nil => exact ⟨[], (mem_lang_nil D []).mpr rfl, rfl⟩
  | cons e p ih =>
    obtain ⟨v, hv, hlen⟩ := ih (fun i hi => h i (mem_cons_of_mem e hi))
    cases e with
    | star => exact ⟨v, (mem_lang_star D p v).mpr ⟨v, hv, suffix_rfl⟩, hlen⟩
    | one i =>
      obtain ⟨x, hx⟩ := h i mem_cons_self
      refine ⟨x :: v, (mem_lang_one D i p _).mpr ⟨x, hx, v, hv, rfl⟩, ?_⟩
      rw [core, length_cons, length_cons, hlen]

theorem nonempty_of_mem_lang (h : w ∈ lang D p) {i : ι} (hi : .one i ∈ p) : (D i).Nonempty := by
  induction p generalizing w with
  | nil => cases hi
  | cons e p ih =>
    cases e with
    | star =>
      obtain ⟨v, hv, _⟩ := (mem_lang_star D p w).mp h
      cases hi with
      | tail _ hi => exact ih hv hi
    | one j =>
      obtain ⟨x, hx, v, hv, _⟩ := (mem_lang_one D j p w).mp h
      cases hi with
      | head => exact ⟨x, hx⟩
      | tail _ hi => exact ih hv hi

end

section Matcher
variable {S : ι → Set α}
variable {p : List (Elem ι)} {w : List α}

theorem mem_lang_of_accepts (h : Accepts S p w) : w ∈ lang S p := by
  induction p generalizing w with
  | nil => exact (mem_lang_nil S w).mpr h
  | cons e p ih =>
    cases e with
    | one i =>
      obtain ⟨x, hx, v, hv, hw⟩ := h
      exact (mem_lang_one S i p w).mpr ⟨x, hx, v, ih hv, hw⟩
    | star =>
      apply (mem_lang_star S p w).mpr
      cases p with
      | nil => exact ⟨[], (mem_lang_nil S []).mpr rfl, nil_suffix⟩
      | cons e p =>
        obtain ⟨v, hsuffix, _, hv⟩ := h
        exact ⟨v, ih hv, hsuffix⟩

theorem accepts_star_of_accepts {v w : List α} (hp : p ≠ [])
    (h : Accepts S p v) (hv : v ≠ []) (hsuffix : v <:+ w) : Accepts S (.star :: p) w := by
  cases p with
  | nil => exact absurd rfl hp
  | cons e p => exact ⟨v, hsuffix, hv, h⟩

theorem nil_not_mem_lang (hne : p ≠ []) (hstar : p ≠ [.star])
    (htwo : ¬ EndsInTwoStars p) : [] ∉ lang S p := by
  induction p with
  | nil => exact absurd rfl hne
  | cons e p ih =>
    intro hmem
    cases e with
    | one i =>
      obtain ⟨x, _, v, _, hw⟩ := (mem_lang_one S i p []).mp hmem
      cases hw
    | star =>
      obtain ⟨v, hv, hsuffix⟩ := (mem_lang_star S p []).mp hmem
      have hv' : v = [] := List.suffix_nil.mp hsuffix
      subst hv'
      refine ih ?_ ?_ ?_ hv
      · intro hp
        exact hstar (hp ▸ rfl)
      · intro hp
        exact htwo (hp ▸ suffix_rfl)
      · intro h
        exact htwo (List.IsSuffix.trans h (suffix_cons _ _))

theorem accepts_of_mem_lang (htwo : ¬ EndsInTwoStars p) (h : w ∈ lang S p) : Accepts S p w := by
  induction p generalizing w with
  | nil => exact (mem_lang_nil S w).mp h
  | cons e p ih =>
    have hrest : ¬ EndsInTwoStars p :=
      fun h => htwo (List.IsSuffix.trans h (suffix_cons _ _))
    cases e with
    | one i =>
      obtain ⟨x, hx, v, hv, hw⟩ := (mem_lang_one S i p w).mp h
      exact ⟨x, hx, v, ih hrest hv, hw⟩
    | star =>
      obtain ⟨v, hv, hsuffix⟩ := (mem_lang_star S p w).mp h
      by_cases hp : p = []
      · subst hp
        trivial
      have hstar : p ≠ [.star] := fun h => htwo (h ▸ suffix_rfl)
      have hne : v ≠ [] := fun h => nil_not_mem_lang hp hstar hrest (h ▸ hv)
      exact accepts_star_of_accepts hp (ih hrest hv) hne hsuffix

/-- A pattern that ends in two stars wants one letter more. -/
theorem length_lt_of_accepts (htwo : EndsInTwoStars p)
    (h : Accepts S p w) : (core S p).length < w.length := by
  induction p generalizing w with
  | nil => cases List.suffix_nil.mp htwo
  | cons e p ih =>
    cases e with
    | one i =>
      obtain ⟨x, _, v, hv, hw⟩ := h
      subst hw
      have htwo : EndsInTwoStars p := by
        cases List.suffix_cons_iff.mp htwo with
        | inl h => cases h
        | inr h => exact h
      exact Nat.succ_lt_succ (ih htwo hv)
    | star =>
      cases p with
      | nil => cases List.IsSuffix.length_le htwo with
        | step h => cases h
      | cons e' p =>
        obtain ⟨v, hsuffix, hne, hv⟩ := h
        have hle := hsuffix.length_le
        cases List.suffix_cons_iff.mp htwo with
        | inl h =>
          cases h
          have := List.length_pos_iff.mpr hne
          exact Nat.lt_of_lt_of_le this hle
        | inr h => exact Nat.lt_of_lt_of_le (ih h hv) hle

end Matcher

/-- Two rows of nonempty sets with the same rows of members are equal. -/
theorem eq_of_forall₂ {As Bs : List (Set α)} (hlen : As.length = Bs.length)
    (hA : ∀ A ∈ As, A.Nonempty) (hB : ∀ B ∈ Bs, B.Nonempty)
    (h : ∀ w, List.Forall₂ (fun x A => x ∈ A) w As ↔ List.Forall₂ (fun x A => x ∈ A) w Bs) :
    As = Bs := by
  have row : ∀ {As : List (Set α)}, (∀ A ∈ As, A.Nonempty) →
      ∃ w, List.Forall₂ (fun x A => x ∈ A) w As := by
    intro As
    induction As with
    | nil => exact fun _ => ⟨[], .nil⟩
    | cons A As ih =>
      intro hA
      obtain ⟨w, hw⟩ := ih (fun B hB => hA B (mem_cons_of_mem A hB))
      obtain ⟨x, hx⟩ := hA A mem_cons_self
      exact ⟨x :: w, .cons hx hw⟩
  induction As generalizing Bs with
  | nil => exact (List.length_eq_zero_iff.mp hlen.symm).symm
  | cons A As ih =>
    cases Bs with
    | nil => cases hlen
    | cons B Bs =>
      have hA' := fun C hC => hA C (mem_cons_of_mem A hC)
      have hB' := fun C hC => hB C (mem_cons_of_mem B hC)
      obtain ⟨u, hu⟩ := row hA'
      obtain ⟨v, hv⟩ := row hB'
      have hhead : A = B := by
        ext x
        constructor
        · intro hx
          exact (List.forall₂_cons.mp ((h (x :: u)).mp (.cons hx hu))).1
        · intro hx
          exact (List.forall₂_cons.mp ((h (x :: v)).mpr (.cons hx hv))).1
      obtain ⟨x, hx⟩ := hA A mem_cons_self
      have htail : As = Bs := by
        apply ih (Nat.succ.inj hlen) hA' hB'
        intro w
        constructor
        · intro hw
          exact (List.forall₂_cons.mp ((h (x :: w)).mp (.cons hx hw))).2
        · intro hw
          exact (List.forall₂_cons.mp ((h (x :: w)).mpr (.cons (hhead ▸ hx) hw))).2
      rw [hhead, htail]

theorem eq_of_core_eq {D S : ι → Set α} {p : List (Elem ι)} (h : core S p = core D p) {i : ι}
    (hi : .one i ∈ p) : S i = D i := by
  induction p with
  | nil => cases hi
  | cons e p ih =>
    cases e with
    | star =>
      cases hi with
      | tail _ hi => exact ih h hi
    | one j =>
      cases hi with
      | head => exact (List.cons.inj h).1
      | tail _ hi => exact ih (List.cons.inj h).2 hi

theorem lang_congr {D S : ι → Set α} {p : List (Elem ι)} (h : ∀ i, .one i ∈ p → S i = D i) :
    lang S p = lang D p := by
  induction p with
  | nil => rfl
  | cons e p ih =>
    have ih : (p.map (Elem.lang S)).prod = (p.map (Elem.lang D)).prod :=
      ih (fun i hi => h i (mem_cons_of_mem e hi))
    rw [lang, lang, map_cons, map_cons, prod_cons, prod_cons, ih]
    cases e with
    | star => rfl
    | one i => rw [Elem.lang, Elem.lang, h i mem_cons_self]

theorem core_nonempty {D : ι → Set α} {p : List (Elem ι)} (h : ∀ i, .one i ∈ p → (D i).Nonempty) :
    ∀ A ∈ core D p, A.Nonempty := by
  induction p with
  | nil =>
    intro A hA
    cases hA
  | cons e p ih =>
    have ih := ih (fun i hi => h i (mem_cons_of_mem e hi))
    cases e with
    | star => exact ih
    | one i =>
      intro A hA
      cases hA with
      | head => exact h i mem_cons_self
      | tail _ hA => exact ih A hA

theorem exists_accepted [Inhabited α] {S : ι → Set α} {p : List (Elem ι)}
    (h : ∀ i, .one i ∈ p → (S i).Nonempty) : ∃ w, Accepts S p w := by
  induction p with
  | nil => exact ⟨[], rfl⟩
  | cons e p ih =>
    obtain ⟨v, hv⟩ := ih (fun i hi => h i (mem_cons_of_mem e hi))
    cases e with
    | one i =>
      obtain ⟨x, hx⟩ := h i mem_cons_self
      exact ⟨x :: v, x, hx, v, hv, rfl⟩
    | star =>
      cases p with
      | nil => exact ⟨[], trivial⟩
      | cons e p =>
        cases e with
        | one i =>
          obtain ⟨x, _, u, _, hv'⟩ := id hv
          subst hv'
          exact ⟨x :: u, accepts_star_of_accepts (cons_ne_nil _ p) hv
            (cons_ne_nil x u) suffix_rfl⟩
        | star =>
          cases p with
          | nil => exact ⟨[default], [default], suffix_rfl, cons_ne_nil _ _, trivial⟩
          | cons e p =>
            obtain ⟨u, hsuffix, hne, _⟩ := id hv
            have hne : v ≠ [] := by
              intro hnil
              subst hnil
              exact hne (List.suffix_nil.mp hsuffix)
            exact ⟨v, v, suffix_rfl, hne, hv⟩

/-- The matcher decides the language exactly when no two stars end the pattern and every
wildcard is read as it is meant; or when both readings have a wildcard for no letter. -/
theorem accepts_iff_mem_lang [Inhabited α] {D S : ι → Set α} {p : List (Elem ι)} :
    (∀ w, Accepts S p w ↔ w ∈ lang D p) ↔
      (¬ EndsInTwoStars p ∧ ∀ i, .one i ∈ p → S i = D i) ∨
      ((∃ i, .one i ∈ p ∧ S i = ∅) ∧ ∃ i, .one i ∈ p ∧ D i = ∅) := by
  constructor
  · intro h
    by_cases hD : ∀ i, .one i ∈ p → (D i).Nonempty
    · left
      obtain ⟨w, hw, hlen⟩ := exists_shortest hD
      have htwo : ¬ EndsInTwoStars p := by
        intro htwo
        have hlt := length_lt_of_accepts htwo ((h w).mpr hw)
        rw [length_core S D] at hlt
        omega
      have hlang : ∀ w, w ∈ lang S p ↔ w ∈ lang D p := by
        intro w
        rw [← h w]
        exact ⟨accepts_of_mem_lang htwo, mem_lang_of_accepts⟩
      have hS : ∀ i, .one i ∈ p → (S i).Nonempty :=
        fun i hi => nonempty_of_mem_lang ((hlang w).mpr hw) hi
      refine ⟨htwo, fun i hi => eq_of_core_eq (D := D) ?_ hi⟩
      apply eq_of_forall₂ (length_core S D p) (core_nonempty hS) (core_nonempty hD)
      intro u
      by_cases hu : u.length = (core D p).length
      · rw [← shortest_mem_lang hu, ← shortest_mem_lang (hu.trans (length_core D S p))]
        exact hlang u
      constructor
      · intro hrow
        exact absurd (hrow.length_eq.trans (length_core S D p)) hu
      · intro hrow
        exact absurd hrow.length_eq hu
    · right
      push Not at hD
      obtain ⟨i, hi, hempty⟩ := hD
      refine ⟨?_, i, hi, hempty⟩
      by_contra hS
      push Not at hS
      obtain ⟨w, hw⟩ := exists_accepted (S := S) (fun i hi => hS i hi)
      have := nonempty_of_mem_lang ((h w).mp hw) hi
      exact Set.not_nonempty_empty (hempty ▸ this)
  · intro h w
    cases h with
    | inl h =>
      obtain ⟨htwo, hread⟩ := h
      rw [← lang_congr hread]
      exact ⟨mem_lang_of_accepts, accepts_of_mem_lang htwo⟩
    | inr h =>
      obtain ⟨⟨i, hi, hS⟩, j, hj, hD⟩ := h
      constructor
      · intro hw
        have := nonempty_of_mem_lang (mem_lang_of_accepts hw) hi
        exact absurd (hS ▸ this) Set.not_nonempty_empty
      · intro hw
        have := nonempty_of_mem_lang hw hj
        exact absurd (hD ▸ this) Set.not_nonempty_empty

end Toolwhip.Lib.Glob
