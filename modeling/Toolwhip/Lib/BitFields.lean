import Mathlib.Data.UInt

/-! # Words, their fields and their bits -/

set_option autoImplicit false

/-! ## Prefix masks

The mask with the first `k` bits of a word set, and what two words that agree under a
mask have in common. -/

namespace Toolwhip.Lib.PrefixMask
open BitVec

section Agreement
variable {w : Nat} {x y m : BitVec w}

def prefixMask (w k : Nat) : BitVec w := ~~~(BitVec.allOnes w >>> k)

theorem prefixMask_getMsbD {k i : Nat} (hi : i < w) :
    (prefixMask w k).getMsbD i = decide (i < k) := by
  unfold prefixMask
  by_cases hk : i < k
  · simp [getMsbD_not, getMsbD_ushiftRight, hi, hk]
  have hsub : i - k < w := by omega
  simp [getMsbD_not, getMsbD_ushiftRight, hi, hk, hsub]

theorem prefixMask_all {k : Nat} (hk : w ≤ k) : prefixMask w k = BitVec.allOnes w := by
  apply eq_of_getMsbD_eq
  intro i hi
  rw [prefixMask_getMsbD hi]
  have hlt : i < k := by omega
  simp [hi, hlt]

theorem and_eq_and_iff : x &&& m = y &&& m ↔
    ∀ i < w, m.getMsbD i = true → x.getMsbD i = y.getMsbD i := by
  constructor
  · intro h i _ hm
    have hbit := congrArg (BitVec.getMsbD · i) h
    simpa [getMsbD_and, hm] using hbit
  · intro h
    apply eq_of_getMsbD_eq
    intro i hi
    rw [getMsbD_and, getMsbD_and]
    cases hm : m.getMsbD i with
    | false => rw [Bool.and_false, Bool.and_false]
    | true => rw [h i hi hm]

theorem and_prefixMask_iff {k : Nat} (hk : k ≤ w) :
    x &&& prefixMask w k = y &&& prefixMask w k ↔ ∀ i < k, x.getMsbD i = y.getMsbD i := by
  rw [and_eq_and_iff]
  constructor
  · intro h i hi
    have hw : i < w := by omega
    apply h i hw
    simpa [prefixMask_getMsbD hw] using hi
  · intro h i hi hm
    rw [prefixMask_getMsbD hi] at hm
    exact h i (of_decide_eq_true hm)

end Agreement
end Toolwhip.Lib.PrefixMask

/-! ## Fields of a machine word

A word made of consecutive fields gives each field back and is made of them, and a
number that fits a signed field survives being stored in it. -/

namespace Toolwhip.Lib.BitFields
open BitVec

section Fields
variable {m n : Nat}

section
variable (x : BitVec m) (y : BitVec n)

/-- The field above the low `n` bits. -/
@[simp] theorem extract_high : (x ++ y).extractLsb' n m = x := by
  ext i hi
  simp [getLsbD_append, hi]

@[simp] theorem extract_low : (x ++ y).extractLsb' 0 n = y := by
  ext i hi
  simp [getLsbD_append, hi]

theorem extract_in_low {start len : Nat} (h : start + len ≤ n) :
    (x ++ y).extractLsb' start len = y.extractLsb' start len := by
  ext i hi
  simp [getLsbD_append]
  omega

theorem extract_in_high (start len : Nat) :
    (x ++ y).extractLsb' (n + start) len = x.extractLsb' start len := by
  ext i hi
  simp [getLsbD_append, Nat.add_assoc]

theorem setWidth_append_low : (x ++ y).setWidth n = y := by
  ext i hi
  simp [getLsbD_append, hi]

end

theorem ofBool_beq_one (b : Bool) : (BitVec.ofBool b == 1#1) = b := by
  cases b with
  | false => rfl
  | true => rfl

end Fields

section Join
variable {m n : Nat}

theorem append_fields (x : BitVec (m + n)) : (x >>> n).setWidth m ++ x.setWidth n = x := by
  apply eq_of_getLsbD_eq
  intro i hi
  rw [getLsbD_append]
  by_cases h : i < n
  · simp [h]
  · simp [h, show n + (i - n) = i by omega, show i - n < m by omega]

theorem shiftLeft_or_field (x y : BitVec (m + n)) :
    x <<< n ||| (y.setWidth n).setWidth (m + n) = x.setWidth m ++ y.setWidth n := by
  apply eq_of_getLsbD_eq
  intro i hi
  rw [getLsbD_append]
  by_cases h : i < n
  · simp [h, hi]
  · simp [h, hi, show i - n < m by omega, getLsbD_eq_getElem (show i - n < m + n by omega)]

theorem shiftLeft_add_field (x y : BitVec (m + n)) :
    x <<< n + (y.setWidth n).setWidth (m + n) = x.setWidth m ++ y.setWidth n := by
  rw [← shiftLeft_or_field]
  apply add_eq_or_of_and_eq_zero
  apply eq_of_getLsbD_eq
  intro i hi
  by_cases h : i < n
  · simp [h]
  · simp [h]

end Join

section Signed
variable {w k : Nat} {x : BitVec w}

theorem toInt_setWidth_of_range (hk : k + 1 ≤ w) (hlow : -2 ^ k ≤ x.toInt) (hhigh : x.toInt < 2 ^ k) :
    (x.setWidth (k + 1)).toInt = x.toInt := by
  rw [← signExtend_eq_setWidth_of_le _ hk, toInt_signExtend, Nat.min_eq_left hk]
  apply Int.bmod_eq_of_le
  · push_cast
    omega
  · push_cast
    omega

theorem signExtend_setWidth (hk : k + 1 ≤ w) (hlow : -2 ^ k ≤ x.toInt) (hhigh : x.toInt < 2 ^ k)
    (v : Nat) : (x.setWidth (k + 1)).signExtend v = x.signExtend v := by
  unfold BitVec.signExtend
  rw [toInt_setWidth_of_range hk hlow hhigh]

theorem signExtend_truncate (y : BitVec k) (h : k ≤ w) : (y.signExtend w).setWidth k = y := by
  rw [← signExtend_eq_setWidth_of_le _ h]
  apply eq_of_toInt_eq
  rw [toInt_signExtend_eq_toInt_bmod_of_le _ h, toInt_signExtend_of_le h]
  exact toInt_bmod_cancel y

end Signed
end Toolwhip.Lib.BitFields

/-! ## A number as two signed halves

The high half is moved up by 16 bits and the low half, which has a sign, is added to it. In 32 bits
every number can be written so; in 64 bits the sum stops short of half of the range of the high
half before its end. -/

namespace Toolwhip.Lib.SignedHalves
open BitVec

/-- What a processor with registers of `w` bits makes of the two halves. -/
def sumHalves (w : Nat) (high low : BitVec 16) : BitVec w := high.signExtend w <<< 16 + low.signExtend w

def carriedHigh (x : BitVec 32) : BitVec 16 :=
  (x >>> 16).setWidth 16 + if (x.setWidth 16).msb then 1 else 0

theorem carry_halves (x : BitVec 32) :
    (carriedHigh x).setWidth 32 <<< 16 + (x.setWidth 16).signExtend 32 = x := by
  unfold carriedHigh
  apply eq_of_toNat_eq
  rw [toNat_add, toNat_signExtend]
  cases (x.setWidth 16).msb with
  | false =>
    simp only [Bool.false_eq_true, if_false]
    bv_omega
  | true =>
    simp only [if_true]
    bv_omega

theorem signExtend_shiftLeft (high : BitVec 16) :
    high.signExtend 32 <<< 16 = high.setWidth 32 <<< 16 := by
  apply eq_of_getLsbD_eq
  intro i hi
  rw [getLsbD_shiftLeft, getLsbD_shiftLeft, getLsbD_signExtend,
    getLsbD_setWidth]
  by_cases h : i < 16
  · simp [h]
  · simp [hi, show i - 16 < 16 by omega, show i - 16 < 32 by omega]

theorem sum_halves (x : BitVec 32) : sumHalves 32 (carriedHigh x) (x.setWidth 16) = x := by
  unfold sumHalves
  rw [signExtend_shiftLeft]
  exact carry_halves x

theorem sum_eq_ofInt (w : Nat) (high low : BitVec 16) :
    sumHalves w high low = BitVec.ofInt w (high.toInt * 65536 + low.toInt) := by
  have hpow : BitVec.twoPow w 16 = BitVec.ofInt w 65536 := by
    apply eq_of_toNat_eq
    rw [toNat_twoPow]
    rfl
  unfold sumHalves
  rw [shiftLeft_eq_mul_twoPow, hpow, ofInt_add, ofInt_mul]
  rfl

theorem toInt_bounds (half : BitVec 16) : -32768 ≤ half.toInt ∧ half.toInt ≤ 32767 := by
  have hlow := le_toInt half
  have hhigh := @BitVec.toInt_lt 16 half
  omega

theorem toInt_sum (high low : BitVec 16) :
    (sumHalves 64 high low).toInt = high.toInt * 65536 + low.toInt := by
  have hhigh := toInt_bounds high
  have hlow := toInt_bounds low
  rw [sum_eq_ofInt, toInt_ofInt]
  apply Int.bmod_eq_of_le
  · omega
  · omega

/-- Modulo `2 ^ 32` the sum is always right. -/
theorem toInt_sum_emod (d : BitVec 64) :
    (sumHalves 64 (carriedHigh (d.setWidth 32)) ((d.setWidth 32).setWidth 16)).toInt % 2 ^ 32 =
      d.toInt % 2 ^ 32 := by
  have hmod := congrArg BitVec.toNat (sum_halves (d.setWidth 32))
  rw [sum_eq_ofInt, toNat_ofInt, toNat_setWidth] at hmod
  rw [toInt_sum, toInt_eq_toNat_cond d]
  split <;> omega

/-- In 64 bits a number of two gigabytes either way is its halves unless it is so close to the end
that the carry makes the high half negative. -/
theorem sum_eq_iff {d : BitVec 64} (hlow : -0x80000000 ≤ d.toInt) (hhigh : d.toInt ≤ 0x80000000) :
    sumHalves 64 (carriedHigh (d.setWidth 32)) ((d.setWidth 32).setWidth 16) = d ↔
      d.toInt < 0x7FFF8000 := by
  have hmod := toInt_sum_emod d
  rw [← toInt_inj]
  rw [toInt_sum] at hmod ⊢
  have hhighHalf := toInt_bounds (carriedHigh (d.setWidth 32))
  have hlowHalf := toInt_bounds ((d.setWidth 32).setWidth 16)
  omega

end Toolwhip.Lib.SignedHalves
