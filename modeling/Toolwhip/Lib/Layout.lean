import Mathlib.Data.UInt

/-! # Laying things out at aligned offsets -/

set_option autoImplicit false

/-! ## Rounding up to a multiple

Over the natural numbers, and as `(x + alignment - 1) & -alignment` on 64-bit words,
where the alignment is a power of two and the sum may wrap. -/

namespace Toolwhip.Lib.AlignUp

def alignUp (a x : Nat) : Nat := (x + (a - 1)) / a * a

theorem dvd_alignUp (a x : Nat) : a ∣ alignUp a x := Nat.dvd_mul_left a _

theorem le_alignUp {a : Nat} (ha : 0 < a) (x : Nat) : x ≤ alignUp a x := by
  have hmod := Nat.mod_lt (x + (a - 1)) ha
  have hdiv := Nat.div_add_mod' (x + (a - 1)) a
  unfold alignUp
  omega

theorem alignUp_mono (a : Nat) {x y : Nat} (h : x ≤ y) : alignUp a x ≤ alignUp a y :=
  Nat.mul_le_mul_right a (Nat.div_le_div_right (Nat.add_le_add_right h _))

theorem alignUp_of_dvd {a : Nat} (ha : 0 < a) {x : Nat} (h : a ∣ x) : alignUp a x = x := by
  obtain ⟨k, rfl⟩ := h
  unfold alignUp
  rw [Nat.mul_add_div ha, Nat.div_eq_of_lt (by omega), Nat.add_zero, Nat.mul_comm]

/-- The bits from `k` on of a 64-bit number. -/
theorem and_high_bits {y k : Nat} (hy : y < 2 ^ 64) (hk : k < 64) :
    y &&& (2 ^ 64 - 2 ^ k) = y / 2 ^ k * 2 ^ k := by
  have hmask : 2 ^ 64 - 2 ^ k = (2 ^ (64 - k) - 1) * 2 ^ k := by
    rw [Nat.sub_mul, Nat.one_mul, ← Nat.pow_add, Nat.sub_add_cancel (Nat.le_of_lt hk)]
  rw [hmask]
  apply Nat.eq_of_testBit_eq
  intro i
  rw [Nat.testBit_and, Nat.testBit_mul_two_pow, Nat.testBit_mul_two_pow, Nat.testBit_div_two_pow,
    Nat.testBit_two_pow_sub_one]
  by_cases hi : k ≤ i
  · rw [Nat.sub_add_cancel hi]
    by_cases hi' : i < 64
    · have : i - k < 64 - k := by omega
      simp only [hi, this, decide_true, Bool.true_and, Bool.and_true]
    have hbit : y.testBit i = false := by
      apply Nat.testBit_lt_two_pow
      exact Nat.lt_of_lt_of_le hy (Nat.pow_le_pow_right (by decide) (by omega))
    simp only [hbit, Bool.false_and, Bool.and_false]
  · simp only [hi, decide_false, Bool.false_and, Bool.and_false]

/-- `(x + alignment - 1) & (-alignment)` -/
def alignUp64 (x alignment : UInt64) : UInt64 := (x + alignment - 1) &&& (-alignment)

section Words
variable {x alignment : UInt64} {k : Nat}

theorem toNat_and_neg (y : UInt64) (hk : k < 64) (ha : alignment.toNat = 2 ^ k) :
    (y &&& (-alignment)).toNat = y.toNat / 2 ^ k * 2 ^ k := by
  have hpos := Nat.two_pow_pos k
  have hmask : (-alignment).toNat = 2 ^ 64 - 2 ^ k := by
    rw [UInt64.toNat_neg, ha]
    exact Nat.mod_eq_of_lt (Nat.sub_lt (by decide) hpos)
  rw [UInt64.toNat_and, hmask]
  exact and_high_bits (UInt64.toNat_lt y) hk

theorem dvd_alignUp64 (x : UInt64) (hk : k < 64) (ha : alignment.toNat = 2 ^ k) :
    2 ^ k ∣ (alignUp64 x alignment).toNat := by
  unfold alignUp64
  rw [toNat_and_neg _ hk ha]
  exact Nat.dvd_mul_left _ _

theorem toNat_alignUp64 (hk : k < 64) (ha : alignment.toNat = 2 ^ k)
    (hfits : alignUp (2 ^ k) x.toNat < 2 ^ 64) :
    (alignUp64 x alignment).toNat = alignUp (2 ^ k) x.toNat := by
  have hpos := Nat.two_pow_pos k
  have hroom : x.toNat + 2 ^ k ≤ 2 ^ 64 := by
    -- two multiples of the alignment differ by it at least
    obtain ⟨m, hm⟩ := dvd_alignUp (2 ^ k) x.toNat
    have htop : 2 ^ 64 = 2 ^ k * 2 ^ (64 - k) := by
      rw [← Nat.pow_add, Nat.add_sub_cancel' (Nat.le_of_lt hk)]
    have hlt : m < 2 ^ (64 - k) := by
      rw [hm, htop] at hfits
      exact Nat.lt_of_mul_lt_mul_left hfits
    have hle : 2 ^ k * (m + 1) ≤ 2 ^ 64 := by
      rw [htop]
      exact Nat.mul_le_mul_left _ hlt
    have := le_alignUp hpos x.toNat
    rw [Nat.mul_add, ← hm] at hle
    omega
  have hsum : (x + alignment - 1).toNat = x.toNat + (2 ^ k - 1) := by
    rw [UInt64.toNat_sub, UInt64.toNat_add, ha, UInt64.toNat_one]
    omega
  unfold alignUp64
  rw [toNat_and_neg _ hk ha, hsum]
  rfl

end Words
end Toolwhip.Lib.AlignUp

/-! ## Things laid out one after the other

Each is placed at or behind the end of the one before it, where a rule of its own says. -/

namespace Toolwhip.Lib.RunningLayout
open List

universe u
variable {α : Type u} (place : α → Nat → Nat) (size : α → Nat)

def layoutEnd (start : Nat) (xs : List α) : Nat :=
  xs.foldl (fun offset x => place x offset + size x) start

def offsets : Nat → List α → List (α × Nat)
  | _, [] => []
  | start, x :: xs => (x, place x start) :: offsets (place x start + size x) xs

theorem layoutEnd_append (start : Nat) (xs ys : List α) : layoutEnd place size start (xs ++ ys) =
      layoutEnd place size (layoutEnd place size start xs) ys := foldl_append

theorem offsets_append (start : Nat) (xs ys : List α) : offsets place size start (xs ++ ys) =
      offsets place size start xs ++ offsets place size (layoutEnd place size start xs) ys := by
  induction xs generalizing start with
  | nil => rfl
  | cons x xs ih =>
    rw [cons_append, offsets, ih, offsets, cons_append]
    rfl

theorem map_fst_offsets (start : Nat) (xs : List α) :
    (offsets place size start xs).map Prod.fst = xs := by
  induction xs generalizing start with
  | nil => rfl
  | cons x xs ih => rw [offsets, map_cons, ih]

theorem offset_placed {start : Nat} {xs : List α} {a : α × Nat}
    (ha : a ∈ offsets place size start xs) : ∃ offset, a.2 = place a.1 offset := by
  induction xs generalizing start with
  | nil => cases ha
  | cons x xs ih =>
    rcases List.mem_cons.mp ha with rfl | ha
    · exact ⟨start, rfl⟩
    · exact ih ha

section Forward
variable {place} (hplace : ∀ x offset, offset ≤ place x offset)
include hplace

theorem le_layoutEnd (start : Nat) (xs : List α) : start ≤ layoutEnd place size start xs := by
  induction xs generalizing start with
  | nil => exact Nat.le_refl start
  | cons x xs ih =>
    have hnext := ih (place x start + size x)
    have hx := hplace x start
    unfold layoutEnd at hnext ⊢
    rw [foldl_cons]
    omega

theorem offset_bounds {start : Nat} {xs : List α} {a : α × Nat}
    (ha : a ∈ offsets place size start xs) :
    start ≤ a.2 ∧ a.2 + size a.1 ≤ layoutEnd place size start xs := by
  induction xs generalizing start with
  | nil => cases ha
  | cons x xs ih =>
    have hx := hplace x start
    have hstop := le_layoutEnd size hplace (place x start + size x) xs
    rcases List.mem_cons.mp ha with rfl | ha
    · exact ⟨hx, hstop⟩
    have hbounds := ih ha
    exact ⟨by omega, hbounds.2⟩

theorem offsets_apart (start : Nat) (xs : List α) :
    (offsets place size start xs).Pairwise fun a b => a.2 + size a.1 ≤ b.2 := by
  induction xs generalizing start with
  | nil => exact List.Pairwise.nil
  | cons x xs ih =>
    rw [offsets, pairwise_cons]
    exact ⟨fun b hb => (offset_bounds size hplace hb).1, ih _⟩

end Forward
end Toolwhip.Lib.RunningLayout
