import Toolwhip.Lib.ThrowingFold

/-! # A loop that goes on while a counter changes

`while (last != count) { last = count; body; }`, where the body may throw and the counter
never sinks. The loop ends because the counter is bounded, and the body has run once more
with the counter as it is at the end. -/

namespace Toolwhip.Lib.CountedLoop
open Lib.ThrowingFold
set_option autoImplicit false

universe u v
variable {σ : Type u} {ε : Type v} {count : σ → Nat} {body : σ → Except ε σ} {stop : ε}

def loop (count : σ → Nat) (body : σ → Except ε σ) (stop : ε) : Nat → Nat → σ → Except ε σ
  | 0, _, _ => .error stop
  | fuel + 1, last, s =>
    if last = count s then .ok s
    else do
      let t ← body s
      loop count body stop fuel (count s) t

variable {fuel : Nat} {s : σ}

theorem loop_of_eq {last : Nat} {t : σ} (hlast : last = count s)
    (h : loop count body stop fuel last s = .ok t) : t = s := by
  cases fuel with
  | zero => cases h
  | succ fuel =>
    rw [loop, if_pos hlast] at h
    exact (Except.ok.inj h).symm

variable {P : σ → Prop}

theorem loop_last_round (hP : ∀ s t, P s → body s = .ok t → P t) {last : Nat} {t : σ}
    (hs : P s) (hlast : last ≠ count s) (h : loop count body stop fuel last s = .ok t) :
    ∃ u, P u ∧ body u = .ok t ∧ count u = count t := by
  induction fuel generalizing last s with
  | zero => cases h
  | succ fuel ih =>
    rw [loop, if_neg hlast] at h
    obtain ⟨v, hv, hrest⟩ := bind_eq_ok.mp h
    by_cases hsame : count s = count v
    · rw [loop_of_eq hsame hrest]
      exact ⟨s, hs, hv, hsame⟩
    · exact ih (hP s v hs hv) hsame hrest

/-- Every round but two raises the counter. -/
theorem loop_ne_stop (hP : ∀ s t, P s → body s = .ok t → P t)
    (hbody : ∀ s, P s → body s ≠ .error stop) {bound : Nat} (hbound : ∀ s, P s → count s ≤ bound)
    (hgrow : ∀ s t, P s → body s = .ok t → count s ≤ count t) {last : Nat} (hs : P s)
    (hfuel : bound + 2 ≤ fuel + count s) : loop count body stop fuel last s ≠ .error stop := by
  induction fuel generalizing last s with
  | zero =>
    have := hbound s hs
    omega
  | succ fuel ih =>
    rw [loop]
    split
    · exact nofun
    intro h
    rcases bind_eq_error.mp h with h | ⟨t, ht, hrest⟩
    · exact hbody s hs h
    have hst := hgrow s t hs ht
    by_cases hsame : count s = count t
    · cases fuel with
      | zero =>
        have := hbound s hs
        omega
      | succ fuel =>
        rw [loop, if_pos hsame] at hrest
        cases hrest
    · exact ih (hP s t hs ht) (by omega) hrest

end Toolwhip.Lib.CountedLoop
