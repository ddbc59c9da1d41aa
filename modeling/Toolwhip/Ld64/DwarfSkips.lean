import Toolwhip.Ld64.DwarfForms

/-! # What skip_form skips -/

namespace Toolwhip.Ld64.Dwarf
set_option autoImplicit false

open Lib.Uleb128 Lib.EventRun List BitVec

section Leb
variable {region : Region} {stop pos : Int} {rest after : List Byte} {acc : BitVec 64} {bit n : Nat}

theorem result_emit {α : Type} (e : Event) (r : Reading α) : (r.emit e).result = r.result := rfl

theorem result_pure {α : Type} (a : α) : (pure a : Reading α).result = .ok a := rfl

theorem result_bind {α β : Type} {r : Reading α} {f : α → Reading β} {a : α}
    (h : r.result = .ok a) : (r >>= f).result = (f a).result := by
  rw [Traced.bind_def]
  unfold Traced.andThen
  rw [h]

def lebEnd (rest : List Byte) (stop : Int) : Int :=
  (Lib.Uleb128.read rest).elim stop fun r => stop - r.2.length

variable {byte : Byte}

theorem lebEnd_cons_small (h : byte.toNat < 128) (hstop : stop = pos + (byte :: rest).length) :
    lebEnd (byte :: rest) stop = pos + 1 := by
  unfold lebEnd
  rw [Lib.Uleb128.read, if_pos h, Option.elim_some]
  simp only [length_cons] at hstop ⊢
  omega

theorem lebEnd_cons_large (h : ¬ byte.toNat < 128) :
    lebEnd (byte :: rest) stop = lebEnd rest stop := by
  unfold lebEnd
  rw [Lib.Uleb128.read, if_neg h]
  cases Lib.Uleb128.read rest <;> rfl

theorem skipLebLoop_result (hstop : stop = pos + rest.length) :
    (skipLebLoop region stop rest pos).result = .ok (lebEnd rest stop) := by
  induction rest generalizing pos with
  | nil =>
    have heq : pos = stop := by simpa using hstop.symm
    rw [skipLebLoop, if_pos heq, heq]
    rfl
  | cons byte rest ih =>
    have hne : pos ≠ stop := by
      simp only [length_cons] at hstop
      omega
    rw [skipLebLoop, if_neg hne, result_emit]
    by_cases hbyte : byte.toNat < 128
    · rw [if_neg (by omega), lebEnd_cons_small hbyte hstop]
      rfl
    rw [if_pos (by omega), lebEnd_cons_large hbyte]
    apply ih
    simp only [length_cons] at hstop
    omega

/-- The value that `read_uleb128` makes of a number that is `bytes` long. -/
def ulebValue (n bytes : Nat) : BitVec 64 :=
  if n < 2 ^ 64 ∧ bytes ≤ 10 then BitVec.ofNat 64 n else -1

theorem ones_or (x : BitVec 64) : (-1 : BitVec 64) ||| x = -1 := by
  have hones : (-1 : BitVec 64) = BitVec.allOnes 64 := by decide
  rw [hones, allOnes_or]

theorem readUlebLoop_overflow (hstop : stop = pos + rest.length) :
    (readUlebLoop region stop rest pos (-1) bit).result = .ok (-1, lebEnd rest stop) := by
  induction rest generalizing pos bit with
  | nil =>
    have heq : pos = stop := by simpa using hstop.symm
    rw [readUlebLoop, if_pos heq, heq]
    rfl
  | cons byte rest ih =>
    have hne : pos ≠ stop := by
      simp only [length_cons] at hstop
      omega
    rw [readUlebLoop, if_neg hne, result_emit]
    simp only [ones_or, ite_self]
    by_cases hbyte : byte.toNat < 128
    · rw [if_neg (by omega), lebEnd_cons_small hbyte hstop]
      rfl
    rw [if_pos (by omega), lebEnd_cons_large hbyte]
    apply ih
    simp only [length_cons] at hstop
    omega

def group (byte : Byte) : BitVec 64 := (byte &&& 0x7f).setWidth 64

theorem toNat_group (byte : Byte) : (group byte).toNat = byte.toNat % 128 := by
  have hmask : (0x7f : Byte).toNat = 2 ^ 7 - 1 := rfl
  unfold group
  rw [toNat_setWidth, toNat_and, hmask, Nat.and_two_pow_sub_one_eq_mod]
  omega

theorem group_shift_iff (hbit : bit < 64) :
    (group byte <<< bit) >>> bit = group byte ↔ byte.toNat % 128 * 2 ^ bit < 2 ^ 64 := by
  have hpow : 2 ^ 64 = 2 ^ bit * 2 ^ (64 - bit) := by
    rw [← Nat.pow_add]
    congr 1
    omega
  have hpos : 0 < 2 ^ bit := Nat.two_pow_pos bit
  rw [← toNat_inj, toNat_ushiftRight, toNat_shiftLeft, toNat_group,
    Nat.shiftLeft_eq, Nat.shiftRight_eq_div_pow]
  constructor
  · intro h
    have hlt : byte.toNat % 128 * 2 ^ bit % 2 ^ 64 < 2 ^ 64 := Nat.mod_lt _ (by decide)
    have hdiv : byte.toNat % 128 * 2 ^ bit % 2 ^ 64 / 2 ^ bit < 2 ^ (64 - bit) := by
      apply Nat.div_lt_of_lt_mul
      rw [← hpow]
      exact hlt
    rw [h] at hdiv
    rw [hpow, Nat.mul_comm]
    exact Nat.mul_lt_mul_of_pos_left hdiv hpos
  · intro h
    rw [Nat.mod_eq_of_lt h, Nat.mul_div_cancel _ hpos]

theorem toNat_or_group (hacc : acc.toNat < 2 ^ bit) (hfits : byte.toNat % 128 * 2 ^ bit < 2 ^ 64) :
    (acc ||| group byte <<< bit).toNat = acc.toNat + byte.toNat % 128 * 2 ^ bit := by
  rw [toNat_or, toNat_shiftLeft, toNat_group, Nat.shiftLeft_eq, Nat.mod_eq_of_lt hfits,
    Nat.or_comm, ← Nat.shiftLeft_eq, ← Nat.shiftLeft_add_eq_or_of_lt hacc, Nat.shiftLeft_eq,
    Nat.add_comm]

/-- What has been read is `acc`, of `i` groups. -/
def ulebRest (acc : BitVec 64) (i : Nat) (rest : List Byte) : BitVec 64 :=
  (Lib.Uleb128.read rest).elim (-1) fun r =>
    ulebValue (acc.toNat + r.1 * 2 ^ (7 * i)) (i + (rest.length - r.2.length))

theorem read_length {r : Nat × List Byte} (h : Lib.Uleb128.read rest = some r) :
    r.2.length < rest.length := by
  induction rest generalizing r with
  | nil => cases h
  | cons byte rest ih =>
    rw [Lib.Uleb128.read] at h
    split at h
    · cases h
      exact Nat.lt_succ_self _
    obtain ⟨⟨high, after⟩, hafter, rfl⟩ := Option.map_eq_some_iff.mp h
    have hlt := ih hafter
    exact Nat.lt_succ_of_lt hlt

variable {i : Nat}

theorem ulebRest_overflow
    (h : 10 ≤ i ∨ 2 ^ 64 ≤ byte.toNat % 128 * 2 ^ (7 * i)) : ulebRest acc i (byte :: rest) = -1 := by
  unfold ulebRest
  cases hread : Lib.Uleb128.read (byte :: rest) with
  | none => rfl
  | some r =>
    rw [Option.elim_some]
    unfold ulebValue
    rw [if_neg]
    have hlen := read_length hread
    rcases h with h | h
    · omega
    have hgroup : byte.toNat % 128 ≤ r.1 := by
      rw [Lib.Uleb128.read] at hread
      split at hread
      · cases hread
        exact Nat.mod_le _ _
      · obtain ⟨⟨high, after⟩, _, rfl⟩ := Option.map_eq_some_iff.mp hread
        exact Nat.le_add_right _ _
    have hmul := Nat.mul_le_mul_right (2 ^ (7 * i)) hgroup
    omega

theorem ulebRest_cons (hbyte : ¬ byte.toNat < 128)
    (hacc : acc.toNat < 2 ^ (7 * i)) (hfits : byte.toNat % 128 * 2 ^ (7 * i) < 2 ^ 64) :
    ulebRest acc i (byte :: rest) = ulebRest (acc ||| group byte <<< (7 * i)) (i + 1) rest := by
  unfold ulebRest
  rw [Lib.Uleb128.read, if_neg hbyte, toNat_or_group hacc hfits]
  cases hread : Lib.Uleb128.read rest with
  | none => rfl
  | some r =>
    have hlen := read_length hread
    simp only [Option.map_some, Option.elim_some, length_cons]
    have hcount : i + (rest.length + 1 - r.2.length) = i + 1 + (rest.length - r.2.length) := by omega
    have hpow : 2 ^ (7 * (i + 1)) = 128 * 2 ^ (7 * i) := by
      rw [Nat.mul_add, Nat.pow_add, Nat.mul_comm]
    have hvalue : acc.toNat + (byte.toNat % 128 + 128 * r.1) * 2 ^ (7 * i) =
        acc.toNat + byte.toNat % 128 * 2 ^ (7 * i) + r.1 * 2 ^ (7 * (i + 1)) := by
      rw [hpow, Nat.add_mul, Nat.add_assoc, Nat.mul_comm 128 r.1, Nat.mul_assoc]
    rw [hcount, hvalue]

theorem ulebRest_last (hbyte : byte.toNat < 128) (hi : i < 10)
    (hacc : acc.toNat < 2 ^ (7 * i)) (hfits : byte.toNat % 128 * 2 ^ (7 * i) < 2 ^ 64) :
    ulebRest acc i (byte :: rest) = acc ||| group byte <<< (7 * i) := by
  have hvalue := toNat_or_group hacc hfits
  have hlt := (acc ||| group byte <<< (7 * i)).isLt
  have hmod : byte.toNat % 128 = byte.toNat := Nat.mod_eq_of_lt hbyte
  unfold ulebRest ulebValue
  rw [Lib.Uleb128.read, if_pos hbyte, Option.elim_some]
  simp only [length_cons]
  rw [hmod] at hvalue
  rw [← hvalue, if_pos ⟨hlt, by omega⟩, ofNat_toNat, setWidth_eq]

theorem readUlebLoop_result (hstop : stop = pos + rest.length) (hi : i ≤ 10)
    (hacc : acc.toNat < 2 ^ (7 * i)) : (readUlebLoop region stop rest pos acc (7 * i)).result =
      .ok (ulebRest acc i rest, lebEnd rest stop) := by
  induction rest generalizing pos acc i with
  | nil =>
    have heq : pos = stop := by simpa using hstop.symm
    rw [readUlebLoop, if_pos heq, heq]
    rfl
  | cons byte rest ih =>
    have hne : pos ≠ stop := by
      simp only [length_cons] at hstop
      omega
    have hnext : stop = pos + 1 + rest.length := by
      simp only [length_cons] at hstop
      omega
    rw [readUlebLoop, if_neg hne, result_emit]
    by_cases hover : 64 ≤ 7 * i ∨ (group byte <<< (7 * i)) >>> (7 * i) ≠ group byte
    · have hlost : 10 ≤ i ∨ 2 ^ 64 ≤ byte.toNat % 128 * 2 ^ (7 * i) := by
        by_cases hten : 10 ≤ i
        · exact Or.inl hten
        apply Or.inr
        have hbit : 7 * i < 64 := by omega
        have hne := hover.resolve_left (by omega)
        rw [ne_eq, group_shift_iff hbit] at hne
        omega
      rw [ulebRest_overflow hlost]
      unfold group at hover
      simp only [if_pos hover]
      by_cases hbyte : byte.toNat < 128
      · rw [if_neg (by omega), lebEnd_cons_small hbyte hstop]
        rfl
      · rw [if_pos (by omega), lebEnd_cons_large hbyte]
        exact readUlebLoop_overflow hnext
    · have hbit : 7 * i < 64 := by
        by_contra hlong
        exact hover (Or.inl (by omega))
      have hfits : byte.toNat % 128 * 2 ^ (7 * i) < 2 ^ 64 := by
        apply (group_shift_iff hbit).mp
        by_contra hlost
        exact hover (Or.inr hlost)
      have hvalue := toNat_or_group hacc hfits
      unfold group at hover
      simp only [if_neg hover]
      by_cases hbyte : byte.toNat < 128
      · rw [if_neg (by omega), lebEnd_cons_small hbyte hstop,
          ulebRest_last hbyte (by omega) hacc hfits]
        rfl
      rw [if_pos (by omega), lebEnd_cons_large hbyte, ulebRest_cons hbyte hacc hfits]
      apply @ih (pos + 1) _ (i + 1) hnext (by omega)
      have hpow : 2 ^ (7 * (i + 1)) = 128 * 2 ^ (7 * i) := by
        rw [Nat.mul_add, Nat.pow_add, Nat.mul_comm]
      have hsmall : byte.toNat % 128 * 2 ^ (7 * i) ≤ 127 * 2 ^ (7 * i) :=
        Nat.mul_le_mul_right _ (by omega)
      have hsum : (acc ||| group byte <<< (7 * i)).toNat < 2 ^ (7 * (i + 1)) := by
        omega
      exact hsum

end Leb
/-! ## The length of a value -/

def complete (rest : List Byte) (n : Nat) : Option Nat := if n ≤ rest.length then some n else none

def lebLength (rest : List Byte) : Option Nat :=
  (Lib.Uleb128.read rest).map fun r => rest.length - r.2.length

/-- A prefix of `n` bytes that says how long the payload is. -/
def blockLength (E : ByteOrder) (rest : List Byte) (n : Nat) : Option Nat :=
  (complete rest n).bind fun _ => complete rest (n + E.number (rest.take n))

/-- The length of the value of a form that the bytes start with. -/
def encodedLength (u : Encoding) (rest : List Byte) (form : BitVec 64) : Option Nat :=
  match formOf form with
  | some .DW_FORM_addr => complete rest u.addr_size.toNat
  | some .DW_FORM_block2 => blockLength u.E rest 2
  | some .DW_FORM_block4 => blockLength u.E rest 4
  | some .DW_FORM_data2 => complete rest 2
  | some .DW_FORM_ref2 => complete rest 2
  | some .DW_FORM_data4 => complete rest 4
  | some .DW_FORM_ref4 => complete rest 4
  | some .DW_FORM_data8 => complete rest 8
  | some .DW_FORM_ref8 => complete rest 8
  | some .DW_FORM_string => complete rest ((rest.takeWhile (· ≠ 0)).length + 1)
  | some .DW_FORM_data1 => complete rest 1
  | some .DW_FORM_flag => complete rest 1
  | some .DW_FORM_ref1 => complete rest 1
  | some .DW_FORM_block =>
    (Lib.Uleb128.read rest).bind fun r => complete rest (rest.length - r.2.length + r.1)
  | some .DW_FORM_block1 => blockLength u.E rest 1
  | some .DW_FORM_sdata => lebLength rest
  | some .DW_FORM_udata => lebLength rest
  | some .DW_FORM_ref_udata => lebLength rest
  | some .DW_FORM_strp => complete rest (if u.dwarf64 then 8 else 4)
  | some .DW_FORM_ref_addr => complete rest (if u.dwarf64 then 8 else 4)
  | some .DW_FORM_indirect => none
  | none => none

/-- The cursor stays in the bytes, and a value that is skipped is skipped as a whole. -/
structure SkipsTo (pos : Nat) (rest : List Byte) (length : Option Nat) (r : Bool × Int) : Prop where
  forward : (pos : Int) ≤ r.2
  inside : r.2 ≤ pos + rest.length
  exact : r.1 = true → ∃ n : Nat, length = some n ∧ r.2 = pos + n

/-- `skip_form` on the bytes of a section, with the cursor in them. -/
def SkipsExactly (u : Encoding) (data : List Byte) (pos : Nat) (form : BitVec 64) : Prop :=
  ∃ r, (skip_form u data pos data.length form).result = .ok r ∧
    SkipsTo pos (data.drop pos) (encodedLength u (data.drop pos) form) r

def NumberEnds (rest : List Byte) : Prop := (Lib.Uleb128.read rest).isSome = true

/-- The length of a block is a number of ten bytes at most and less than `2 ^ 63`. -/
def BlockFits (rest : List Byte) : Prop :=
  ∃ r, Lib.Uleb128.read rest = some r ∧ r.1 < 2 ^ 63 ∧ rest.length - r.2.length ≤ 10

/-- What is read of the variable `*offset` is no length that fits, or is the one that counts:
`size` is the prefix, and `skipped` is what the code steps over. -/
def PointerAgrees (E : ByteOrder) (rest : List Byte) (size skipped : Nat) : Prop :=
  size ≤ rest.length → skipped ≤ rest.length → skipped = size + E.number (rest.take size)

/-- When `skip_form` is exact. -/
def SkipsRight (u : Encoding) (pos : Nat) (rest : List Byte) (form : BitVec 64) : Prop :=
  match formOf form with
  | some .DW_FORM_block2 => PointerAgrees u.E rest 2 (2 + u.E.number (u.pointerBytes pos 2))
  | some .DW_FORM_block4 =>
    PointerAgrees u.E rest 4 ((2 + u.E.number (u.pointerBytes pos 4)) % 2 ^ 32)
  | some .DW_FORM_block => BlockFits rest
  | some .DW_FORM_sdata => NumberEnds rest
  | some .DW_FORM_udata => NumberEnds rest
  | some .DW_FORM_ref_udata => NumberEnds rest
  | _ => True

section Skips
variable {u : Encoding} {data rest : List Byte} {pos n : Nat} {form : BitVec 64} {stop : Int}
  {length : Option Nat}

theorem advance_result (stop pos sz : Int) : (advance stop pos sz).result =
    .ok (if stop - pos < sz then (false, pos) else (true, pos + sz)) := by
  unfold advance
  split <;> rfl

theorem complete_eq_some {m : Nat} : complete rest n = some m ↔ n ≤ rest.length ∧ n = m := by
  unfold complete
  split
  · rename_i h
    simp [h]
  · rename_i h
    simp [h]

theorem skipsTo_complete : SkipsTo pos rest (complete rest n)
    (if (pos + rest.length : Int) - pos < n then (false, (pos : Int)) else (true, pos + n)) := by
  by_cases h : (pos + rest.length : Int) - pos < n
  · rw [if_pos h]
    refine ⟨Int.le_refl _, ?_, ?_⟩
    · omega
    · intro hfalse
      cases hfalse
  rw [if_neg h]
  refine ⟨?_, ?_, ?_⟩
  · omega
  · omega
  · intro _
    exact ⟨n, complete_eq_some.mpr ⟨by omega, rfl⟩, rfl⟩

theorem skipsTo_false : SkipsTo pos rest length (false, (pos : Int)) where
  forward := Int.le_refl _
  inside := by
    omega
  exact := by
    intro h
    cases h

theorem bytesFrom_nat (data : List Byte) (pos : Nat) : bytesFrom data pos = data.drop pos := by
  rfl

theorem skipString_result {start : Int} (hstop : stop = start + rest.length) :
    (skipString stop rest start).result =
      .ok (start + (rest.takeWhile (· ≠ 0)).length) := by
  induction rest generalizing start with
  | nil =>
    have heq : start = stop := by simpa using hstop.symm
    rw [skipString, if_pos heq]
    simp [result_pure]
  | cons byte rest ih =>
    have hne : start ≠ stop := by
      simp only [length_cons] at hstop
      omega
    rw [skipString, if_neg hne, result_emit]
    by_cases hbyte : byte = 0
    · simp [hbyte, result_pure]
    rw [if_neg hbyte, ih (by simp only [length_cons] at hstop; omega),
      takeWhile_cons_of_pos (by simpa using hbyte), length_cons]
    congr 1
    omega

theorem stop_eq (hpos : pos ≤ data.length) :
    (data.length : Int) = pos + (data.drop pos).length := by
  rw [length_drop]
  omega

theorem skipsExactly_iff_of_result {r : Bool × Int}
    (h : (skip_form u data pos data.length form).result = .ok r) : SkipsExactly u data pos form ↔
      SkipsTo pos (data.drop pos) (encodedLength u (data.drop pos) form) r := by
  constructor
  · intro hskips
    obtain ⟨r', hr', hto⟩ := hskips
    rw [h] at hr'
    cases hr'
    exact hto
  · intro hto
    exact ⟨r, h, hto⟩

/-! ### The forms -/

theorem skipsExactly_fixed (hpos : pos ≤ data.length)
    (hrun : skip_form u data pos data.length form = advance data.length pos n)
    (hlength : encodedLength u (data.drop pos) form = complete (data.drop pos) n) :
    SkipsExactly u data pos form := by
  have hresult := advance_result data.length pos n
  rw [← hrun] at hresult
  apply (skipsExactly_iff_of_result hresult).mpr
  rw [hlength, stop_eq hpos]
  exact skipsTo_complete

theorem skipsExactly_refused
    (hrun : skip_form u data pos data.length form = pure (false, (pos : Int))) :
    SkipsExactly u data pos form :=
  ⟨(false, pos), by rw [hrun]; rfl, skipsTo_false⟩

theorem skipsExactly_string (hpos : pos ≤ data.length)
    (hform : formOf form = some .DW_FORM_string) : SkipsExactly u data pos form := by
  have hstop := stop_eq hpos
  have hnul := skipString_result hstop
  have hle : ((data.drop pos).takeWhile (· ≠ 0)).length ≤ (data.drop pos).length :=
    (takeWhile_sublist _).length_le
  have hrun : skip_form u data pos data.length form =
      (skipString data.length (data.drop pos) pos >>= fun nul => advance data.length nul 1) := by
    unfold skip_form
    simp only [hform, bytesFrom_nat]
  have hresult := result_bind (f := fun nul => advance data.length nul 1) hnul
  rw [← hrun, advance_result] at hresult
  have hlength : encodedLength u (data.drop pos) form =
      complete (data.drop pos) (((data.drop pos).takeWhile (· ≠ 0)).length + 1) := by
    unfold encodedLength
    rw [hform]
  apply (skipsExactly_iff_of_result hresult).mpr
  rw [hlength]
  split
  · refine ⟨?_, ?_, ?_⟩
    · omega
    · omega
    · intro h
      cases h
  refine ⟨?_, ?_, ?_⟩
  · omega
  · omega
  · intro _
    refine ⟨_, complete_eq_some.mpr ⟨?_, rfl⟩, ?_⟩
    · omega
    · omega

theorem number_singleton (E : ByteOrder) (byte : Byte) : E.number [byte] = byte.toNat := by
  cases E <;> simp [ByteOrder.number]

theorem skipsExactly_block1 (hpos : pos ≤ data.length)
    (hform : formOf form = some .DW_FORM_block1) : SkipsExactly u data pos form := by
  have hstop := stop_eq hpos
  cases hrest : data.drop pos with
  | nil =>
    rw [hrest] at hstop
    have heq : (pos : Int) = data.length := by simpa using hstop.symm
    apply skipsExactly_refused
    unfold skip_form
    simp only [hform]
    rw [if_pos heq]
  | cons byte after =>
    rw [hrest] at hstop
    have hne : (pos : Int) ≠ data.length := by
      simp only [length_cons] at hstop
      omega
    have hbyte : (readByte .die data pos).result = .ok byte := by
      unfold readByte
      rw [bytesFrom_nat, hrest]
      rfl
    have hrun : skip_form u data pos data.length form =
        (readByte .die data pos >>= fun byte => advance data.length pos (1 + byte.toNat)) := by
      unfold skip_form
      simp only [hform]
      rw [if_neg hne]
    have hresult := result_bind
      (f := fun byte : Byte => advance data.length pos (1 + byte.toNat)) hbyte
    rw [← hrun, advance_result] at hresult
    have hlength : encodedLength u (data.drop pos) form =
        complete (data.drop pos) (1 + byte.toNat) := by
      have hone : complete (data.drop pos) 1 = some 1 := by
        rw [complete_eq_some, hrest]
        simp
      unfold encodedLength blockLength
      rw [hform]
      simp only [hone, Option.bind_some]
      rw [hrest, take_succ_cons, take_zero, number_singleton]
    apply (skipsExactly_iff_of_result hresult).mpr
    have hto := @skipsTo_complete (data.drop pos) pos (1 + byte.toNat)
    rw [hlength]
    rw [hrest] at hto ⊢
    rw [← hstop] at hto
    simpa using hto

theorem skipsExactly_pointer {size skipped : Nat} (hpos : pos ≤ data.length)
    (hrun : skip_form u data pos data.length form =
      if (data.length : Int) - pos < size then pure (false, (pos : Int))
      else advance data.length pos skipped)
    (hlength : encodedLength u (data.drop pos) form = blockLength u.E (data.drop pos) size) :
    SkipsExactly u data pos form ↔ PointerAgrees u.E (data.drop pos) size skipped := by
  have hstop := stop_eq hpos
  unfold PointerAgrees
  by_cases hshort : (data.length : Int) - pos < size
  · rw [if_pos hshort] at hrun
    refine iff_of_true (skipsExactly_refused hrun) ?_
    omega
  rw [if_neg hshort] at hrun
  have hresult := advance_result data.length pos skipped
  rw [← hrun] at hresult
  rw [skipsExactly_iff_of_result hresult, hlength]
  have hsize : complete (data.drop pos) size = some size :=
    complete_eq_some.mpr ⟨by omega, rfl⟩
  unfold blockLength
  rw [hsize, Option.bind_some]
  by_cases hlong : (data.length : Int) - pos < skipped
  · rw [if_pos hlong]
    refine iff_of_true skipsTo_false ?_
    omega
  rw [if_neg hlong]
  constructor
  · intro hto _ _
    obtain ⟨m, hm, heq⟩ := hto.exact rfl
    obtain ⟨_, rfl⟩ := complete_eq_some.mp hm
    omega
  · intro hsame
    have hskipped := hsame (by omega) (by omega)
    refine ⟨?_, ?_, ?_⟩
    · omega
    · omega
    · intro _
      exact ⟨skipped, complete_eq_some.mpr ⟨by omega, hskipped.symm⟩, rfl⟩

theorem lebEnd_of_read {r : Nat × List Byte} (h : Lib.Uleb128.read rest = some r) :
    lebEnd rest stop = stop - r.2.length := by
  unfold lebEnd
  rw [h]
  rfl

theorem lebEnd_of_none (h : Lib.Uleb128.read rest = none) : lebEnd rest stop = stop := by
  unfold lebEnd
  rw [h]
  rfl

theorem skipsExactly_number (hpos : pos ≤ data.length)
    (hrun : skip_form u data pos data.length form =
      (skip_leb128 .die data pos data.length >>= fun next => pure (true, next)))
    (hlength : encodedLength u (data.drop pos) form = lebLength (data.drop pos)) :
    SkipsExactly u data pos form ↔ NumberEnds (data.drop pos) := by
  have hstop := stop_eq hpos
  have hskip : (skip_leb128 .die data pos data.length).result =
      .ok (lebEnd (data.drop pos) data.length) := by
    exact skipLebLoop_result hstop
  have hresult := result_bind (f := fun next => (pure (true, next) : Reading (Bool × Int))) hskip
  rw [← hrun, result_pure] at hresult
  rw [skipsExactly_iff_of_result hresult, hlength]
  unfold NumberEnds lebLength
  cases hread : Lib.Uleb128.read (data.drop pos) with
  | none =>
    refine iff_of_false ?_ (by simp)
    intro hto
    obtain ⟨n, hn, _⟩ := hto.exact rfl
    cases hn
  | some r =>
    have hlen := read_length hread
    refine iff_of_true ?_ rfl
    rw [lebEnd_of_read hread]
    refine ⟨?_, ?_, ?_⟩
    · omega
    · omega
    · intro _
      refine ⟨_, rfl, ?_⟩
      simp only
      omega

theorem ulebValue_toInt {bytes : Nat} : n < 2 ^ 63 ∧ bytes ≤ 10 ∧ (ulebValue n bytes).toInt = n ∨
    ¬ (n < 2 ^ 63 ∧ bytes ≤ 10) ∧ (ulebValue n bytes).toInt < 0 := by
  unfold ulebValue
  by_cases hfits : n < 2 ^ 64 ∧ bytes ≤ 10
  · rw [if_pos hfits, toInt_eq_toNat_cond, BitVec.toNat_ofNat, Nat.mod_eq_of_lt hfits.1]
    by_cases hsmall : n < 2 ^ 63
    · rw [if_pos (by omega)]
      exact Or.inl ⟨hsmall, hfits.2, rfl⟩
    · omega
  · rw [if_neg hfits]
    refine Or.inr ⟨?_, by decide⟩
    intro h
    apply hfits
    exact ⟨by omega, h.2⟩

theorem skipsExactly_block (hpos : pos ≤ data.length) (hform : formOf form = some .DW_FORM_block) :
    SkipsExactly u data pos form ↔ BlockFits (data.drop pos) := by
  have hstop := stop_eq hpos
  have hread : (read_uleb128 .die data pos data.length).result =
      .ok (ulebRest 0 0 (data.drop pos), lebEnd (data.drop pos) data.length) := by
    exact readUlebLoop_result hstop (Nat.zero_le 10) (by decide)
  have hrun : skip_form u data pos data.length form =
      (read_uleb128 .die data pos data.length >>= fun r =>
        advance data.length r.2 r.1.toInt) := by
    unfold skip_form
    simp only [hform]
  have hresult := result_bind
    (f := fun r : BitVec 64 × Int => advance data.length r.2 r.1.toInt) hread
  rw [← hrun, advance_result] at hresult
  have hlength : encodedLength u (data.drop pos) form =
      (Lib.Uleb128.read (data.drop pos)).bind fun r =>
        complete (data.drop pos) ((data.drop pos).length - r.2.length + r.1) := by
    unfold encodedLength
    rw [hform]
  rw [skipsExactly_iff_of_result hresult, hlength]
  unfold BlockFits ulebRest
  cases hnumber : Lib.Uleb128.read (data.drop pos) with
  | none =>
    refine iff_of_false ?_ ?_
    · intro hto
      have hneg : ¬ (data.length : Int) - lebEnd (data.drop pos) data.length <
          (-1 : BitVec 64).toInt := by
        rw [lebEnd_of_none hnumber]
        have hone : (-1 : BitVec 64).toInt = -1 := by decide
        omega
      rw [Option.elim_none, if_neg hneg] at hto
      obtain ⟨m, hm, _⟩ := hto.exact rfl
      cases hm
    · intro h
      obtain ⟨r, hr, _⟩ := h
      cases hr
  | some r =>
    have hlen := read_length hnumber
    rw [Option.elim_some, Option.bind_some, lebEnd_of_read hnumber]
    have hzero : (0 : BitVec 64).toNat + r.1 * 2 ^ (7 * 0) = r.1 := by simp
    rw [hzero, Nat.zero_add]
    rcases @ulebValue_toInt r.1 ((data.drop pos).length - r.2.length) with
      ⟨hsmall, hten, hvalue⟩ | ⟨hlarge, hvalue⟩
    · refine iff_of_true ?_ ⟨r, rfl, hsmall, hten⟩
      rw [hvalue]
      split
      · refine ⟨?_, ?_, ?_⟩
        · omega
        · omega
        · intro h
          cases h
      refine ⟨?_, ?_, ?_⟩
      · omega
      · omega
      · intro _
        refine ⟨_, complete_eq_some.mpr ⟨?_, rfl⟩, ?_⟩
        · omega
        · omega
    · refine iff_of_false ?_ ?_
      · intro hto
        have hneg : ¬ (data.length : Int) - (data.length - r.2.length) <
            (ulebValue r.1 ((data.drop pos).length - r.2.length)).toInt := by omega
        rw [if_neg hneg] at hto
        obtain ⟨m, hm, heq⟩ := hto.exact rfl
        obtain ⟨_, rfl⟩ := complete_eq_some.mp hm
        simp only at heq
        omega
      · intro h
        obtain ⟨r', hr', hsmall, hten⟩ := h
        cases hr'
        exact hlarge ⟨hsmall, hten⟩

theorem skip_form_exact_iff (hpos : pos ≤ data.length) :
    SkipsExactly u data pos form ↔ SkipsRight u pos (data.drop pos) form := by
  unfold SkipsRight
  cases hform : formOf form with
  | none =>
    apply iff_of_true (skipsExactly_refused _) trivial
    simp only [skip_form, hform]
  | some f =>
    cases f with
    | DW_FORM_block2 =>
      apply skipsExactly_pointer hpos
      · simp only [skip_form, hform]
        rfl
      · simp only [encodedLength, hform]
    | DW_FORM_block4 =>
      apply skipsExactly_pointer hpos
      · simp only [skip_form, hform]
        rfl
      · simp only [encodedLength, hform]
    | DW_FORM_block => exact skipsExactly_block hpos hform
    | DW_FORM_block1 => exact iff_of_true (skipsExactly_block1 hpos hform) trivial
    | DW_FORM_string => exact iff_of_true (skipsExactly_string hpos hform) trivial
    | DW_FORM_sdata =>
      apply skipsExactly_number hpos
      · simp only [skip_form, hform]
      · simp only [encodedLength, hform]
    | DW_FORM_udata =>
      apply skipsExactly_number hpos
      · simp only [skip_form, hform]
      · simp only [encodedLength, hform]
    | DW_FORM_ref_udata =>
      apply skipsExactly_number hpos
      · simp only [skip_form, hform]
      · simp only [encodedLength, hform]
    | DW_FORM_indirect =>
      apply iff_of_true (skipsExactly_refused _) trivial
      simp only [skip_form, hform]
    | DW_FORM_addr =>
      refine iff_of_true (@skipsExactly_fixed u data pos u.addr_size.toNat form hpos ?_ ?_) trivial
      · simp only [skip_form, hform]
      · simp only [encodedLength, hform]
    | DW_FORM_strp =>
      refine iff_of_true (skipsExactly_fixed hpos ?_ (by simp only [encodedLength, hform]; rfl)) trivial
      simp only [skip_form, hform]
      cases u.dwarf64 <;> rfl
    | DW_FORM_ref_addr =>
      refine iff_of_true (skipsExactly_fixed hpos ?_ (by simp only [encodedLength, hform]; rfl)) trivial
      simp only [skip_form, hform]
      cases u.dwarf64 <;> rfl
    | _ =>
      refine iff_of_true (skipsExactly_fixed hpos ?_ (by simp only [encodedLength, hform]; rfl)) trivial
      simp only [skip_form, hform]
      rfl

def dwarf32 : Encoding where
  E := .little
  addr_size := 4
  dwarf64 := false
  pointer := fun _ _ => 0

/-- A block of two bytes. -/
theorem skip_form_exact_block1 : SkipsExactly dwarf32 [2, 7, 8] 0 10 := by
  have hpos : 0 ≤ ([2, 7, 8] : List Byte).length := by decide
  exact (skip_form_exact_iff hpos).mpr trivial

/-- At the end of the bytes, a block moves the cursor backwards. -/
theorem skip_form_exact_backwards : ¬ ∀ u data pos form, pos ≤ data.length →
    SkipsExactly u data pos form := by
  intro hclaim
  have hrun : (skip_form dwarf32 [0] 1 1 9).result = .ok (true, 0) := by decide
  obtain ⟨r, hr, hto⟩ := hclaim dwarf32 [0] 1 9 (by decide)
  have hsame : (Except.ok (true, 0) : Except Stop (Bool × Int)) = .ok r := hrun.symm.trans hr
  cases hsame
  exact absurd hto.forward (by decide)

end Skips
end Toolwhip.Ld64.Dwarf
