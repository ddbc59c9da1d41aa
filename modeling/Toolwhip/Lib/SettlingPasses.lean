import Mathlib.Tactic.Common

/-! # Passes until one changes nothing

A pass may raise a bounded total, and where it does not, it settles one more of `n` places. What was
settled before the total was raised may come loose again. -/

namespace Toolwhip.Lib.SettlingPasses
set_option autoImplicit false

universe u
variable {σ : Type u} {pass : σ → Option (σ × Bool)}

/-- `do { changed = pass(); } while (changed);` -/
def loop (pass : σ → Option (σ × Bool)) : Nat → σ → Option σ
  | 0, _ => none
  | fuel + 1, s =>
    match pass s with
    | none => none
    | some (t, changed) => if changed then loop pass fuel t else some t

theorem loop_last {fuel : Nat} {s t : σ} (h : loop pass fuel s = some t) :
    ∃ u, pass u = some (t, false) := by
  induction fuel generalizing s with
  | zero => cases h
  | succ fuel ih =>
    rw [loop] at h
    split at h
    · cases h
    rename_i changed hpass
    cases changed with
    | true => exact ih h
    | false => exact ⟨s, Option.some.inj h ▸ hpass⟩

structure Settling (pass : σ → Option (σ × Bool)) (P : σ → Prop) (total : σ → Nat)
    (Settled : Nat → σ → Prop) (bound n : Nat) : Prop where
  bounded : ∀ s, P s → total s ≤ bound
  start : ∀ s, P s → Settled 0 s
  round : ∀ k s, P s → Settled k s → k ≤ n → ∃ t changed, pass s = some (t, changed) ∧ P t ∧
    (changed = true → total s < total t ∨ total s = total t ∧ k < n ∧ Settled (k + 1) t)

variable {P : σ → Prop} {total : σ → Nat} {Settled : Nat → σ → Prop} {bound n : Nat}

theorem Settling.loop_within (h : Settling pass P total Settled bound n) {fuel k : Nat} {s : σ}
    (hs : P s) (hk : k ≤ n) (hsettled : Settled k s)
    (hfuel : (bound - total s) * (n + 1) + (n - k) < fuel) : ∃ t, loop pass fuel s = some t ∧ P t := by
  induction fuel generalizing k s with
  | zero => omega
  | succ fuel ih =>
    obtain ⟨t, changed, hpass, ht, hround⟩ := h.round k s hs hsettled hk
    rw [loop, hpass]
    cases changed with
    | false => exact ⟨t, rfl, ht⟩
    | true =>
      rcases hround rfl with hgrown | ⟨hsame, hlt, hmore⟩
      · apply ih ht (Nat.zero_le n) (h.start t ht)
        have hle := h.bounded t ht
        have hsplit : bound - total s = bound - total t + (total t - total s) := by omega
        have hmul : n + 1 ≤ (total t - total s) * (n + 1) := Nat.le_mul_of_pos_left _ (by omega)
        rw [hsplit, Nat.add_mul] at hfuel
        omega
      · apply ih ht hlt hmore
        rw [hsame] at hfuel
        omega

theorem Settling.loop_returns (h : Settling pass P total Settled bound n) {s : σ} (hs : P s) :
    ∃ t, loop pass ((bound + 1) * (n + 1)) s = some t ∧ P t := by
  apply h.loop_within hs (Nat.zero_le n) (h.start s hs)
  have hmul := Nat.mul_le_mul_right (n + 1) (Nat.sub_le bound (total s))
  rw [Nat.add_mul]
  omega

end Toolwhip.Lib.SettlingPasses
