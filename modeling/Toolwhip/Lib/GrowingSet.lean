import Mathlib.Data.Finset.Max
import Toolwhip.Lib.ThrowingFold

/-! # Iterating an ordered set that grows under the iterator

`next` is `++it` on an ordered set: the least element after the iterator, of the
set as it is then. An element inserted at or below the iterator is never visited. -/

namespace Toolwhip.Lib.GrowingSet
open ThrowingFold
set_option autoImplicit false

variable {α : Type} [LinearOrder α]

/-- `none` is before the first element. -/
def After (p : Option α) (x : α) : Prop := ∀ y ∈ p, y < x

instance (p : Option α) (x : α) : Decidable (After p x) := by
  unfold After
  infer_instance

def next (s : Finset α) (p : Option α) : Option α :=
  let rest := s.filter (After p)
  if h : rest.Nonempty then some (rest.min' h) else none

theorem after_some {y x : α} : After (some y) x ↔ y < x := by
  simp only [After, Option.mem_def, Option.some.injEq, forall_eq']

variable {p : Option α}

theorem next_eq_none {s : Finset α} (h : next s p = none) {y : α} (hy : y ∈ s) : ¬ After p y := by
  intro hafter
  simp only [next] at h
  split at h
  · cases h
  rename_i hne
  exact hne ⟨y, Finset.mem_filter.mpr ⟨hy, hafter⟩⟩

theorem next_eq_some {s : Finset α} {x : α} (h : next s p = some x) :
    x ∈ s ∧ After p x ∧ ∀ y ∈ s, After p y → x ≤ y := by
  simp only [next] at h
  split at h
  · rename_i hne
    cases h
    obtain ⟨hmem, hafter⟩ := Finset.mem_filter.mp (Finset.min'_mem _ hne)
    refine ⟨hmem, hafter, ?_⟩
    intro y hy hlate
    exact Finset.min'_le _ y (Finset.mem_filter.mpr ⟨hy, hlate⟩)
  · cases h

variable {ε σ : Type}

/-- A loop over the set `view s` of the state, from the iterator `p` on. -/
def walk (view : σ → Finset α) (visit : σ → α → Except ε σ) (stop : ε) :
    Nat → Option α → σ → Except ε σ
  | 0, _, _ => .error stop
  | fuel + 1, p, s =>
    match next (view s) p with
    | none => .ok s
    | some x => do
      let s ← visit s x
      walk view visit stop fuel (some x) s

variable {view : σ → Finset α} {visit : σ → α → Except ε σ} {stop : ε}

variable {fuel : Nat} {s t : σ}

theorem walk_succ_ok (h : walk view visit stop (fuel + 1) p s = .ok t) :
    next (view s) p = none ∧ t = s ∨
      ∃ x u, next (view s) p = some x ∧ visit s x = .ok u ∧
        walk view visit stop fuel (some x) u = .ok t := by
  rw [walk] at h
  split at h
  · rename_i hnext
    cases h
    exact Or.inl ⟨hnext, rfl⟩
  · rename_i x hnext
    obtain ⟨u, hu, ht⟩ := bind_eq_ok.mp h
    exact Or.inr ⟨x, u, hnext, hu, ht⟩

theorem walk_relates {R : σ → σ → Prop} (hrefl : ∀ s, R s s)
    (htrans : ∀ s t u, R s t → R t u → R s u) (hvisit : ∀ s x u, visit s x = .ok u → R s u)
    (h : walk view visit stop fuel p s = .ok t) : R s t := by
  induction fuel generalizing p s with
  | zero => cases h
  | succ fuel ih =>
    obtain ⟨-, rfl⟩ | ⟨x, u, -, hu, ht⟩ := walk_succ_ok h
    · exact hrefl t
    · exact htrans s u t (hvisit s x u hu) (ih ht)

/-- The loop visits everything when what a visit inserts lies after the element
visited. `Ok` is what is known of the run at its end, and of every state on the way. -/
theorem walk_visits_all {Ok : σ → Prop} {Done : σ → α → Prop}
    (hok : ∀ s x u, visit s x = .ok u → Ok u → Ok s) (hdone : ∀ s x u, visit s x = .ok u → Done u x)
    (hkeep : ∀ s x u y, visit s x = .ok u → Done s y → Done u y)
    (hlate : ∀ s x u, visit s x = .ok u → Ok u → ∀ y ∈ view u, y ∉ view s → x < y)
    (h : walk view visit stop fuel p s = .ok t) (ht : Ok t)
    (hs : ∀ y ∈ view s, ¬ After p y → Done s y) : ∀ y ∈ view t, Done t y := by
  have hback : ∀ {fuel p s t}, walk view visit stop fuel p s = .ok t → Ok t → Ok s := by
    intro fuel p s t hw
    exact walk_relates (R := fun s t => Ok t → Ok s) (fun _ h => h)
      (fun _ _ _ hst htu hu => hst (htu hu)) hok hw
  induction fuel generalizing p s with
  | zero => cases h
  | succ fuel ih =>
    obtain ⟨hnone, rfl⟩ | ⟨x, u, hnext, hu, hrest⟩ := walk_succ_ok h
    · intro y hy
      exact hs y hy (next_eq_none hnone hy)
    apply ih hrest
    intro y hy hbefore
    have hle : y ≤ x := not_lt.mp fun hlt => hbefore (after_some.mpr hlt)
    by_cases hin : y ∈ view s
    · by_cases hafter : After p y
      · -- nothing lies between the iterator and the element it advances to
        have heq : y = x := le_antisymm hle ((next_eq_some hnext).2.2 y hin hafter)
        rw [heq]
        exact hdone s x u hu
      · exact hkeep s x u y hu (hs y hin hafter)
    · exact absurd (hlate s x u hu (hback hrest ht) y hy hin) (not_lt.mpr hle)

end Toolwhip.Lib.GrowingSet
