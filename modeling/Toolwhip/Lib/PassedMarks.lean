import Mathlib.Data.List.Induction
import Mathlib.Order.Monotone.Basic

/-! # Marks that are passed one at a time

Points are visited in order, and each passes at most one mark: the next one, if it is beyond it. A
mark is passed if for each one up to it there are enough points beyond that one. -/

namespace Toolwhip.Lib.PassedMarks
open List
set_option autoImplicit false

variable {mark : Nat → Nat} {points : List Nat} {r : Nat}

def passOne (mark : Nat → Nat) (r point : Nat) : Nat := if mark r < point then r + 1 else r

def passed (mark : Nat → Nat) (points : List Nat) : Nat := points.foldl (passOne mark) 0

def beyond (mark : Nat → Nat) (points : List Nat) (j : Nat) : Nat :=
  points.countP fun point => mark j < point

theorem passed_concat (point : Nat) :
    passed mark (points ++ [point]) = passOne mark (passed mark points) point := by
  unfold passed
  rw [foldl_append, foldl_cons, foldl_nil]

theorem beyond_concat (point j : Nat) :
    beyond mark (points ++ [point]) j = beyond mark points j + if mark j < point then 1 else 0 := by
  unfold beyond
  rw [countP_append, countP_singleton]
  simp only [decide_eq_true_eq]

theorem beyond_zero {j : Nat} (h : ∀ point ∈ points, point ≤ mark j) : beyond mark points j = 0 := by
  apply List.countP_eq_zero.mpr
  intro point hpoint
  have := h point hpoint
  simp only [decide_eq_true_eq]
  omega

theorem le_passed_iff (hmark : Monotone mark) (hsorted : points.Pairwise (· ≤ ·)) :
    r ≤ passed mark points ↔ ∀ j < r, r - j ≤ beyond mark points j := by
  induction points using List.reverseRecOn generalizing r with
  | nil =>
    constructor
    · intro h j hj
      unfold passed at h
      rw [foldl_nil] at h
      omega
    · intro h
      by_contra hpos
      have hfirst := h 0 (by omega)
      unfold beyond at hfirst
      rw [countP_nil] at hfirst
      omega
  | append_singleton points point ih =>
    obtain ⟨hbefore, -, hlast⟩ := List.pairwise_append.mp hsorted
    have hle : ∀ other ∈ points, other ≤ point := by
      intro other hother
      exact hlast other hother point (mem_singleton_self point)
    rw [passed_concat]
    simp only [beyond_concat]
    unfold passOne
    by_cases hpass : mark (passed mark points) < point
    · rw [if_pos hpass]
      constructor
      · intro hr j hj
        have hj' : mark j < point := by
          have := hmark (show j ≤ passed mark points by omega)
          omega
        rw [if_pos hj']
        by_cases hlast' : j = r - 1
        · omega
        have := (ih hbefore).mp (show r - 1 ≤ passed mark points by omega) j (by omega)
        omega
      · intro h
        have hprev : r - 1 ≤ passed mark points := by
          apply (ih hbefore).mpr
          intro j hj
          have := h j (by omega)
          split at this <;> omega
        omega
    · rw [if_neg hpass]
      constructor
      · intro hr j hj
        have := (ih hbefore).mp hr j hj
        omega
      · intro h
        by_contra hlt
        have hnext := h (passed mark points) (by omega)
        have hzero : beyond mark points (passed mark points) = 0 := by
          apply beyond_zero
          intro other hother
          have := hle other hother
          omega
        rw [hzero, if_neg hpass] at hnext
        omega

end Toolwhip.Lib.PassedMarks
