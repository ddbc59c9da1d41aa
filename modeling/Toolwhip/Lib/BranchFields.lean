import Toolwhip.Lib.BitFields

/-! # Branch displacements in instruction words

A displacement is taken apart with shifts and masks and put into the fields of an instruction; a
processor joins the fields again and extends the sign of the highest one. -/

set_option autoImplicit false

namespace Toolwhip.Lib.BranchFields
open BitFields BitVec

theorem extract_extract {w s n start len : Nat} (x : BitVec w) (h : start + len ≤ n) :
    (x.extractLsb' s n).extractLsb' start len = x.extractLsb' (s + start) len := by
  apply eq_of_getLsbD_eq
  intro i hi
  have hn : start + i < n := by omega
  simp [hn, Nat.add_assoc]

section Masked
variable {m n : Nat}

theorem append_extract_fields (x : BitVec (m + n)) : x.extractLsb' n m ++ x.extractLsb' 0 n = x := by
  apply eq_of_getLsbD_eq
  intro i hi
  simp

/-- A mask that keeps the field above the low `n` bits. -/
theorem and_high (x : BitVec (m + n)) :
    x &&& (BitVec.allOnes m ++ 0#n) = x.extractLsb' n m ++ 0#n := by
  have hx := congrArg (· &&& (BitVec.allOnes m ++ 0#n)) (append_extract_fields x)
  rw [and_append, and_allOnes, and_zero] at hx
  exact hx.symm

theorem and_low (x : BitVec (m + n)) :
    x &&& (0#m ++ BitVec.allOnes n) = 0#m ++ x.extractLsb' 0 n := by
  have hx := congrArg (· &&& (0#m ++ BitVec.allOnes n)) (append_extract_fields x)
  rw [and_append, and_allOnes, and_zero] at hx
  exact hx.symm

theorem and_middle {k : Nat} (x : BitVec (k + m + n)) :
    x &&& (0#k ++ BitVec.allOnes m ++ 0#n) = 0#k ++ x.extractLsb' n m ++ 0#n := by
  have hfields := append_extract_fields (x.extractLsb' n (k + m))
  rw [extract_extract x (by omega), extract_extract x (by omega), Nat.add_zero] at hfields
  have hx := congrArg (· &&& (0#k ++ BitVec.allOnes m ++ 0#n)) (append_extract_fields x)
  rw [← hfields, and_append, and_append, and_allOnes, and_zero,
    and_zero] at hx
  exact hx.symm

theorem and_low_low {k : Nat} (x : BitVec (k + (m + n))) :
    x &&& (0#k ++ (0#m ++ BitVec.allOnes n)) = 0#k ++ (0#m ++ x.extractLsb' 0 n) := by
  have hlow := and_low (x.extractLsb' 0 (m + n))
  rw [extract_extract x (by omega), Nat.zero_add] at hlow
  have hx := congrArg (· &&& (0#k ++ (0#m ++ BitVec.allOnes n))) (append_extract_fields x)
  rw [and_append, and_zero, hlow] at hx
  exact hx.symm

theorem high_or_low (high : BitVec m) (low : BitVec n) :
    (high ++ 0#n) ||| (0#m ++ low) = high ++ low := by
  rw [or_append, or_zero, zero_or]

theorem extract_replaced {k : Nat} (instruction value : BitVec (k + m + n)) :
    (instruction &&& (BitVec.allOnes k ++ 0#m ++ BitVec.allOnes n) |||
        value &&& (0#k ++ BitVec.allOnes m ++ 0#n)).extractLsb' n m = value.extractLsb' n m := by
  have hfield : ∀ (high : BitVec k) (middle : BitVec m) (low : BitVec n),
      (high ++ middle ++ low).extractLsb' n m = middle := by
    intro high middle low
    have hmiddle := extract_in_high (high ++ middle) low 0 m
    rw [Nat.add_zero, extract_low] at hmiddle
    exact hmiddle
  rw [extractLsb'_or, extractLsb'_and, extractLsb'_and, hfield, hfield,
    and_zero, zero_or, and_allOnes]

theorem masked_beq (high mask value : BitVec m) (low : BitVec n) :
    ((high ++ low) &&& (mask ++ 0#n) == (value ++ 0#n)) = (high &&& mask == value) := by
  rw [and_append, and_zero, Bool.eq_iff_iff, beq_iff_eq, beq_iff_eq]
  constructor
  · intro h
    have hhigh := congrArg (BitVec.extractLsb' n m) h
    rw [extract_high, extract_high] at hhigh
    exact hhigh
  · intro h
    rw [h]

theorem shiftLeft_low (low : BitVec n) : (0#n ++ low) <<< n = low ++ 0#n := by
  apply eq_of_getLsbD_eq
  intro i hi
  rw [getLsbD_shiftLeft, getLsbD_append, getLsbD_append]
  by_cases h : i < n
  · simp [h]
  · simp [h, hi, show i - n < n by omega]

end Masked

section Shifted
variable {w : Nat}

theorem extract_sshiftRight (x : BitVec w) {v s start len : Nat} (hv : start + len ≤ v)
    (hw : s + start + len ≤ w) :
    ((x.sshiftRight s).setWidth v).extractLsb' start len = x.extractLsb' (s + start) len := by
  rw [extractLsb'_setWidth_of_le hv]
  apply eq_of_getLsbD_eq
  intro i hi
  rw [getLsbD_extractLsb', getLsbD_extractLsb', getLsbD_sshiftRight,
    if_pos (by omega)]
  have hle : ¬ w ≤ start + i := by omega
  simp [hle, Nat.add_assoc]

theorem extract_shiftLeft (x : BitVec w) {v s start len : Nat} (hv : s + start + len ≤ v)
    (hw : s + start + len ≤ w) :
    ((x <<< s).setWidth v).extractLsb' (s + start) len = x.extractLsb' start len := by
  rw [extractLsb'_setWidth_of_le hv]
  apply eq_of_getLsbD_eq
  intro i hi
  have hlt : s + start + i < w := by omega
  have hge : ¬ s + start + i < s := by omega
  have hsub : s + start + i - s = start + i := by omega
  rw [getLsbD_extractLsb', getLsbD_extractLsb', getLsbD_shiftLeft, hsub]
  simp [hlt, hge]

theorem extract_signExtend {v start len : Nat} {x : BitVec w} (hw : start + len ≤ w)
    (hv : start + len ≤ v) : (x.signExtend v).extractLsb' start len = x.extractLsb' start len := by
  apply eq_of_getLsbD_eq
  intro i hi
  have hiw : start + i < w := by omega
  have hiv : start + i < v := by omega
  rw [getLsbD_extractLsb', getLsbD_extractLsb', getLsbD_signExtend]
  simp [hiw, hiv]

end Shifted

section Signed
variable {d : BitVec 64}

/-- What a signed field of `n` bits can hold. -/
def FitsBits (n : Nat) (d : BitVec 64) : Prop := -2 ^ (n - 1) ≤ d.toInt ∧ d.toInt < 2 ^ (n - 1)

theorem signExtend_low {n : Nat} (hpos : 0 < n) (hn : n ≤ 64) (h : FitsBits n d) :
    (d.extractLsb' 0 n).signExtend 64 = d := by
  obtain ⟨k, rfl⟩ : ∃ k, n = k + 1 := ⟨n - 1, by omega⟩
  have hlow : d.extractLsb' 0 (k + 1) = d.setWidth (k + 1) := by
    apply eq_of_getLsbD_eq
    simp
  rw [hlow, signExtend_setWidth hn h.1 h.2]
  exact signExtend_eq d

/-- A field above `low` bits that are zero is the whole number. -/
theorem signExtend_aligned {n low : Nat} (hpos : 0 < n) (hn : n + low ≤ 64)
    (h : FitsBits (n + low) d) (hzero : d.extractLsb' 0 low = BitVec.ofNat low 0) :
    (d.extractLsb' low n ++ BitVec.ofNat low 0).signExtend 64 = d := by
  have hjoin : d.extractLsb' low n ++ BitVec.ofNat low 0 = d.extractLsb' 0 (n + low) := by
    rw [← hzero, extractLsb'_append_extractLsb'_eq_extractLsb' (by omega)]
  rw [hjoin]
  exact signExtend_low (by omega) hn h

/-- What a sign-extended field above `low` zero bits can be. -/
theorem signExtend_field_iff {n low : Nat} (hpos : 0 < n) (hn : n + low ≤ 64) (field : BitVec n) :
    (field ++ BitVec.ofNat low 0).signExtend 64 = d ↔
      FitsBits (n + low) d ∧ d.extractLsb' 0 low = BitVec.ofNat low 0 ∧
        d.extractLsb' low n = field := by
  constructor
  · rintro rfl
    refine ⟨?_, ?_, ?_⟩
    · unfold FitsBits
      rw [toInt_signExtend_of_le hn]
      exact ⟨le_toInt _, toInt_lt⟩
    · rw [extract_signExtend (by omega) (by omega)]
      exact extract_low field (BitVec.ofNat low 0)
    · rw [extract_signExtend (by omega) (by omega)]
      exact extract_high field (BitVec.ofNat low 0)
  · rintro ⟨hfits, hzero, rfl⟩
    exact signExtend_aligned hpos hn hfits hzero

end Signed

section Alignment
variable {w n : Nat} {x y : BitVec w}

/-- The low `n` bits are zero. -/
def Aligned (n : Nat) (x : BitVec w) : Prop := x.extractLsb' 0 n = 0#n

instance (n : Nat) (x : BitVec w) : Decidable (Aligned n x) :=
  inferInstanceAs (Decidable (x.extractLsb' 0 n = 0#n))

theorem extract_low_eq (x : BitVec w) (n : Nat) : x.extractLsb' 0 n = x.setWidth n := by
  apply eq_of_getLsbD_eq
  simp

theorem extract_low_add (h : n ≤ w) (x y : BitVec w) :
    (x + y).extractLsb' 0 n = x.extractLsb' 0 n + y.extractLsb' 0 n := by
  rw [extract_low_eq, extract_low_eq, extract_low_eq, setWidth_add _ _ h]

theorem Aligned.extract_add (hn : n ≤ w) (hy : Aligned n y) (x : BitVec w) :
    (x + y).extractLsb' 0 n = x.extractLsb' 0 n := by
  rw [extract_low_add hn, hy, BitVec.add_zero]

theorem Aligned.extract_sub (hn : n ≤ w) (hy : Aligned n y) (x : BitVec w) :
    (x - y).extractLsb' 0 n = x.extractLsb' 0 n := by
  have hsum := hy.extract_add hn (x - y)
  rw [BitVec.sub_add_cancel] at hsum
  exact hsum.symm

theorem Aligned.add (hn : n ≤ w) (hx : Aligned n x) (hy : Aligned n y) : Aligned n (x + y) :=
  (hy.extract_add hn x).trans hx

theorem Aligned.sub (hn : n ≤ w) (hx : Aligned n x) (hy : Aligned n y) : Aligned n (x - y) :=
  (hy.extract_sub hn x).trans hx

theorem Aligned.of_le {k : Nat} (hk : k ≤ n) (hx : Aligned n x) : Aligned k x := by
  have hlow := congrArg (BitVec.extractLsb' 0 k) hx
  rw [extractLsb'_extractLsb'_of_le (by omega), extractLsb'_zero] at hlow
  exact hlow

theorem extract_eq_shift (x : BitVec w) (start len : Nat) :
    x.extractLsb' start len = (x >>> start).setWidth len := by
  apply eq_of_getLsbD_eq
  intro i hi
  simp [hi]

theorem extract_add_of_aligned {len : Nat} (hlen : len ≤ 62) {d : BitVec 64} (hd : Aligned 2 d)
    (e : BitVec 64) : (d + e).extractLsb' 2 len = d.extractLsb' 2 len + e.extractLsb' 2 len := by
  have hlow : d.setWidth 2 = 0#2 := (extract_low_eq d 2).symm.trans hd
  have hsum : ((d + e) >>> 2).setWidth 62 = (d >>> 2).setWidth 62 + (e >>> 2).setWidth 62 := by
    bv_omega
  have hcut := congrArg (BitVec.setWidth len) hsum
  rw [setWidth_add _ _ hlen, setWidth_setWidth_of_le _ hlen,
    setWidth_setWidth_of_le _ hlen, setWidth_setWidth_of_le _ hlen] at hcut
  rw [extract_eq_shift, extract_eq_shift, extract_eq_shift, hcut]

end Alignment
end Toolwhip.Lib.BranchFields

/-! ## Where ARM and Thumb branches go

The rules of the architecture for `b`, `bl` and `blx` with an immediate, and for the Thumb pair `bl`
and `blx`. A Thumb pair is one word with the first instruction in its low half. -/

namespace Toolwhip.Lib.ArmBranch
open BranchFields BitVec

/-- Where a branch goes, and the state it leaves the processor in. -/
structure Transfer where
  destination : BitVec 64
  thumb : Bool
  deriving DecidableEq

/-! ### ARM -/

def condition (instruction : BitVec 32) : BitVec 4 := instruction.extractLsb' 28 4
def imm24 (instruction : BitVec 32) : BitVec 24 := instruction.extractLsb' 0 24
/-- The half-word bit of a `blx`, the link bit of another branch. -/
def hBit (instruction : BitVec 32) : BitVec 1 := instruction.extractLsb' 24 1

/-- One of `b`, `bl` and `blx`, under any condition. -/
def IsBranch (instruction : BitVec 32) : Prop := instruction.extractLsb' 25 3 = 5#3

instance (instruction : BitVec 32) : Decidable (IsBranch instruction) :=
  inferInstanceAs (Decidable (instruction.extractLsb' 25 3 = 5#3))

def isBlx (instruction : BitVec 32) : Bool := condition instruction == 15#4

def isBl (instruction : BitVec 32) : Bool := hBit instruction == 1#1 && !isBlx instruction

def transfer (address : BitVec 64) (instruction : BitVec 32) : Transfer :=
  if isBlx instruction then
    ⟨address + 8 + (imm24 instruction ++ (hBit instruction ++ 0#1)).signExtend 64, true⟩
  else ⟨address + 8 + (imm24 instruction ++ 0#2).signExtend 64, false⟩

section Fields
variable (top : BitVec 8) (imm : BitVec 24)

@[simp] theorem imm24_append : imm24 (top ++ imm) = imm := BitFields.extract_low top imm

@[simp] theorem hBit_append : hBit (top ++ imm) = top.extractLsb' 0 1 :=
  BitFields.extract_in_high top imm 0 1

@[simp] theorem condition_append : condition (top ++ imm) = top.extractLsb' 4 4 :=
  BitFields.extract_in_high top imm 4 4

end Fields

section Displacement
variable {d : BitVec 64}

theorem word_displacement (hfits : FitsBits 26 d) (haligned : Aligned 2 d) :
    (d.extractLsb' 2 24 ++ 0#2).signExtend 64 = d :=
  signExtend_aligned (by decide) (by decide) hfits haligned

theorem half_displacement (hfits : FitsBits 26 d) (haligned : Aligned 1 d) :
    (d.extractLsb' 2 24 ++ (d.extractLsb' 1 1 ++ 0#1)).signExtend 64 = d := by
  have hlow : d.extractLsb' 1 1 ++ 0#1 = d.extractLsb' 0 2 := by
    rw [← show d.extractLsb' 0 1 = 0#1 from haligned]
    exact extractLsb'_append_extractLsb'_eq_extractLsb' rfl
  have hall : d.extractLsb' 2 24 ++ d.extractLsb' 0 2 = d.extractLsb' 0 26 :=
    extractLsb'_append_extractLsb'_eq_extractLsb' rfl
  rw [hlow, hall]
  exact signExtend_low (by decide) (by decide) hfits

theorem half_displacement_bit (imm : BitVec 24) (h : BitVec 1)
    (hd : (imm ++ (h ++ 0#1)).signExtend 64 = d) : h = d.extractLsb' 1 1 := by
  have hlow : (imm ++ (h ++ 0#1)).extractLsb' 1 1 = h := by
    rw [BitFields.extract_in_low _ _ (by decide)]
    exact BitFields.extract_high h 0#1
  rw [← hd, extract_signExtend (by decide) (by decide), hlow]

end Displacement

/-! ### Thumb -/

def firstHalf (pair : BitVec 32) : BitVec 16 := pair.extractLsb' 0 16
def secondHalf (pair : BitVec 32) : BitVec 16 := pair.extractLsb' 16 16

def opcode (half : BitVec 16) : BitVec 5 := half.extractLsb' 11 5
def imm11 (half : BitVec 16) : BitVec 11 := half.extractLsb' 0 11

def IsPair (pair : BitVec 32) : Prop :=
  opcode (firstHalf pair) = 30#5 ∧
    (opcode (secondHalf pair) = 31#5 ∨ opcode (secondHalf pair) = 29#5)

instance (pair : BitVec 32) : Decidable (IsPair pair) :=
  inferInstanceAs (Decidable (_ ∧ (_ ∨ _)))

/-- From the address of the pair plus 4; a `blx` clears the bit 1 of the result. -/
def pairTransfer (address : BitVec 64) (pair : BitVec 32) : Transfer :=
  let displacement :=
    (imm11 (firstHalf pair) ++ (imm11 (secondHalf pair) ++ 0#1)).signExtend 64
  if opcode (secondHalf pair) = 29#5 then ⟨(address + 4 + displacement) &&& ~~~2, false⟩
  else ⟨address + 4 + displacement, true⟩

section Fields
variable (second first : BitVec 16) (op : BitVec 5) (imm : BitVec 11)

@[simp] theorem firstHalf_append : firstHalf (second ++ first) = first :=
  BitFields.extract_low second first

@[simp] theorem secondHalf_append : secondHalf (second ++ first) = second :=
  BitFields.extract_high second first

@[simp] theorem opcode_append : opcode (op ++ imm) = op := BitFields.extract_high op imm

@[simp] theorem imm11_append : imm11 (op ++ imm) = imm := BitFields.extract_low op imm

end Fields

theorem fields_of_half (half : BitVec 16) : opcode half ++ imm11 half = half :=
  @append_extract_fields 5 11 half

theorem fields_of_pair (pair : BitVec 32) : (opcode (secondHalf pair) ++ imm11 (secondHalf pair)) ++
      (opcode (firstHalf pair) ++ imm11 (firstHalf pair)) = pair := by
  rw [fields_of_half, fields_of_half]
  exact @append_extract_fields 16 16 pair

theorem pair_displacement {d : BitVec 64} (hfits : FitsBits 23 d) (haligned : Aligned 1 d) :
    (d.extractLsb' 12 11 ++ (d.extractLsb' 1 11 ++ 0#1)).signExtend 64 = d := by
  have hlow : d.extractLsb' 1 11 ++ 0#1 = d.extractLsb' 0 12 := by
    rw [← show d.extractLsb' 0 1 = 0#1 from haligned]
    exact extractLsb'_append_extractLsb'_eq_extractLsb' rfl
  have hall : d.extractLsb' 12 11 ++ d.extractLsb' 0 12 = d.extractLsb' 0 23 :=
    extractLsb'_append_extractLsb'_eq_extractLsb' rfl
  rw [hlow, hall]
  exact signExtend_low (by decide) (by decide) hfits

theorem pairTransfer_append {address d : BitVec 64} (op2 op1 : BitVec 5) (hfits : FitsBits 23 d)
    (haligned : Aligned 1 d) :
    pairTransfer address ((op2 ++ d.extractLsb' 1 11) ++ (op1 ++ d.extractLsb' 12 11)) =
      if op2 = 29#5 then ⟨(address + 4 + d) &&& ~~~2, false⟩ else ⟨address + 4 + d, true⟩ := by
  unfold pairTransfer
  rw [firstHalf_append, secondHalf_append, opcode_append, imm11_append, imm11_append,
    pair_displacement hfits haligned]

section Clearing
variable {target base : BitVec 64}

theorem forced_bit_eq (high low : BitVec 62) (bits : BitVec 2) :
    (high ++ 0#2 : BitVec 64) &&& -3 ||| (low ++ bits) &&& 2 = high ++ (bits &&& 2#2) := by
  have hclear : (-3 : BitVec 64) = BitVec.allOnes 62 ++ 1#2 := by decide
  have htwo : (2 : BitVec 64) = 0#62 ++ 2#2 := by decide
  rw [hclear, htwo, and_append, and_append, and_allOnes, and_zero,
    or_append, or_zero, zero_and, zero_or]

theorem append_of_aligned (htarget : Aligned 2 target) :
    target = target.extractLsb' 2 62 ++ 0#2 := by
  have hfields := @append_extract_fields 62 2 target
  rw [show target.extractLsb' 0 2 = 0#2 from htarget] at hfields
  exact hfields.symm

/-- A `blx` clears the bit that was made that of its base. -/
theorem clear_forced_bit (htarget : Aligned 2 target) :
    (target &&& -3 ||| base &&& 2) &&& ~~~2 = target := by
  have hbase := @append_extract_fields 62 2 base
  have hclear : (~~~2 : BitVec 64) = BitVec.allOnes 62 ++ 1#2 := by decide
  have hlow : ∀ bits : BitVec 2, bits &&& 2#2 &&& 1#2 = 0#2 := by decide
  rw [append_of_aligned htarget, ← hbase, forced_bit_eq, hclear, and_append,
    and_allOnes, hlow]

theorem forced_bit_aligned (htarget : Aligned 2 target) :
    Aligned 1 (target &&& -3 ||| base &&& 2) := by
  have hbase := @append_extract_fields 62 2 base
  have hlow : ∀ bits : BitVec 2, (bits &&& 2#2).extractLsb' 0 1 = 0#1 := by decide
  rw [append_of_aligned htarget, ← hbase, forced_bit_eq]
  exact (BitFields.extract_in_low _ _ (by decide)).trans (hlow _)

end Clearing

end Toolwhip.Lib.ArmBranch
