import Mathlib.Data.List.DropRight
import Mathlib.Data.UInt

/-! # Numbers in the text of a C program

What `strtoul`, `strtol` and `atoi` of the C locale read: blanks, a sign, `0x` before
hexadecimal digits, and then the longest run of digits. -/

namespace Toolwhip.Lib.CNumber
open List
set_option autoImplicit false

def ascii (s : String) : List UInt8 := s.toList.map fun c => UInt8.ofNat c.toNat

def isspace (b : UInt8) : Bool := b == 32 || (9 ≤ b && b ≤ 13)

def digitValue (b : UInt8) : Option Nat :=
  if 48 ≤ b ∧ b ≤ 57 then some (b.toNat - 48)
  else if 97 ≤ b ∧ b ≤ 122 then some (b.toNat - 87)
  else if 65 ≤ b ∧ b ≤ 90 then some (b.toNat - 55)
  else none

def isDigit (base : Nat) (b : UInt8) : Bool :=
  match digitValue b with
  | some d => d < base
  | none => false

def stripSign : List UInt8 → Bool × List UInt8
  | 45 :: s => (true, s)
  | 43 :: s => (false, s)
  | s => (false, s)

/-- `0x` before a digit. -/
def stripPrefix (base : Nat) (s : List UInt8) : List UInt8 :=
  match s with
  | 48 :: x :: d :: rest =>
    if base = 16 ∧ (x = 120 ∨ x = 88) ∧ isDigit 16 d then d :: rest else s
  | _ => s

def number (base : Nat) (digits : List UInt8) : Nat :=
  digits.foldl (fun n b => n * base + (digitValue b).getD 0) 0

structure Subject where
  negative : Bool
  magnitude : Nat
  rest : List UInt8
  deriving DecidableEq

/-- The number at the start of a string, if there is one. -/
def subject (base : Nat) (s : List UInt8) : Option Subject :=
  let signed := stripSign (s.dropWhile isspace)
  let digits := stripPrefix base signed.2
  if digits.takeWhile (isDigit base) = [] then none
  else some
    { negative := signed.1, magnitude := number base (digits.takeWhile (isDigit base))
      rest := digits.dropWhile (isDigit base) }

/-- `strtoul` where `unsigned long` has this many bits, and where it stopped. -/
def strtoul (bits base : Nat) (s : List UInt8) : BitVec bits × List UInt8 :=
  match subject base s with
  | none => (0, s)
  | some n =>
    if 2 ^ bits ≤ n.magnitude then (BitVec.allOnes bits, n.rest)
    else if n.negative then (-BitVec.ofNat bits n.magnitude, n.rest)
    else (BitVec.ofNat bits n.magnitude, n.rest)

/-- `strtol` where `long` has this many bits. -/
def strtol (bits base : Nat) (s : List UInt8) : Int × List UInt8 :=
  match subject base s with
  | none => (0, s)
  | some n =>
    let value : Int := if n.negative then -n.magnitude else n.magnitude
    (max (-2 ^ (bits - 1)) (min value (2 ^ (bits - 1) - 1)), n.rest)

/-- `(int) strtol(s, NULL, 10)` -/
def atoi (bits : Nat) (s : List UInt8) : Int := (BitVec.ofInt 32 (strtol bits 10 s).1).toInt

section Whole
variable {base : Nat} {s digits : List UInt8} {negative : Bool} {magnitude : Nat} {b : UInt8}
variable {radix : List UInt8}

def IsSign (negative : Bool) (sign : List UInt8) : Prop :=
  if negative then sign = ascii "-" else sign = ascii "+" ∨ sign = []

def IsRadix (base : Nat) (radix : List UInt8) : Prop :=
  radix = [] ∨ base = 16 ∧ (radix = ascii "0x" ∨ radix = ascii "0X")

/-- The spellings of a number: blanks, a sign, `0x` or `0X` for base 16, and digits. -/
def Spells (base : Nat) (s : List UInt8) (negative : Bool) (magnitude : Nat) : Prop :=
  ∃ blanks sign radix digits, s = blanks ++ (sign ++ (radix ++ digits)) ∧
    (∀ b ∈ blanks, isspace b = true) ∧ IsSign negative sign ∧ IsRadix base radix ∧
    digits ≠ [] ∧ (∀ b ∈ digits, isDigit base b = true) ∧ magnitude = number base digits

theorem isDigit_range (h : isDigit base b = true) : 48 ≤ b ∧ b ≤ 57 ∨ 65 ≤ b ∧ b ≤ 90 ∨
    97 ≤ b ∧ b ≤ 122 := by
  unfold isDigit digitValue at h
  by_cases h1 : 48 ≤ b ∧ b ≤ 57
  · exact Or.inl h1
  by_cases h2 : 97 ≤ b ∧ b ≤ 122
  · exact Or.inr (Or.inr h2)
  by_cases h3 : 65 ≤ b ∧ b ≤ 90
  · exact Or.inr (Or.inl h3)
  rw [if_neg h1, if_neg h2, if_neg h3] at h
  cases h

theorem isDigit_not (h : isDigit base b = true) : isspace b = false ∧ b ≠ 45 ∧ b ≠ 43 := by
  have hrange := isDigit_range h
  have hle : (48 : UInt8) ≤ b := by
    rcases hrange with h | h | h
    · exact h.1
    · exact UInt8.le_trans (by decide) h.1
    · exact UInt8.le_trans (by decide) h.1
  have hnat : 48 ≤ b.toNat := hle
  refine ⟨?_, ?_, ?_⟩
  · unfold isspace
    simp only [Bool.or_eq_false_iff, Bool.and_eq_false_iff, beq_eq_false_iff_ne, decide_eq_false_iff_not]
    constructor
    · intro heq
      rw [heq] at hnat
      exact absurd hnat (by decide)
    · right
      intro hle
      have : b.toNat ≤ 13 := hle
      omega
  · intro heq
    rw [heq] at hnat
    exact absurd hnat (by decide)
  · intro heq
    rw [heq] at hnat
    exact absurd hnat (by decide)

theorem stripSign_cases (s : List UInt8) :
    ∃ sign, s = sign ++ (stripSign s).2 ∧ IsSign (stripSign s).1 sign := by
  unfold stripSign
  split
  · exact ⟨[45], rfl, rfl⟩
  · exact ⟨[43], rfl, Or.inl rfl⟩
  · exact ⟨[], rfl, Or.inr rfl⟩

theorem stripPrefix_cases (base : Nat) (s : List UInt8) :
    ∃ radix, s = radix ++ stripPrefix base s ∧ IsRadix base radix := by
  unfold stripPrefix
  split
  · rename_i x d rest
    by_cases h : base = 16 ∧ (x = 120 ∨ x = 88) ∧ isDigit 16 d = true
    · rw [if_pos h]
      obtain ⟨hbase, hx, _⟩ := h
      refine ⟨[48, x], rfl, Or.inr ⟨hbase, ?_⟩⟩
      rcases hx with rfl | rfl
      · exact Or.inl rfl
      · exact Or.inr rfl
    · rw [if_neg h]
      exact ⟨[], rfl, Or.inl rfl⟩
  · exact ⟨[], rfl, Or.inl rfl⟩

theorem stripSign_of (hsign : IsSign negative digits) (hdigit : isDigit base b = true)
    (rest : List UInt8) : stripSign (digits ++ b :: rest) = (negative, b :: rest) := by
  obtain ⟨_, hminus, hplus⟩ := isDigit_not hdigit
  cases negative with
  | true =>
    subst hsign
    rfl
  | false =>
    rcases hsign with rfl | rfl
    · rfl
    unfold stripSign
    split
    · rename_i heq
      exact absurd (List.cons.inj heq).1 hminus
    · rename_i heq
      exact absurd (List.cons.inj heq).1 hplus
    · rfl

theorem stripPrefix_of (hradix : IsRadix base radix) (hne : digits ≠ [])
    (hdigits : ∀ b ∈ digits, isDigit base b = true) :
    stripPrefix base (radix ++ digits) = digits := by
  rcases hradix with rfl | ⟨hbase, hradix⟩
  · unfold stripPrefix
    rw [nil_append]
    split
    · rename_i x d rest
      by_cases h : base = 16 ∧ (x = 120 ∨ x = 88) ∧ isDigit 16 d = true
      · obtain ⟨hbase, hx, _⟩ := h
        have hdigit := hdigits x (by simp)
        rw [hbase] at hdigit
        rcases hx with rfl | rfl
        · exact absurd hdigit (by decide)
        · exact absurd hdigit (by decide)
      · exact if_neg h
    · rfl
  · obtain ⟨d, rest, rfl⟩ := exists_cons_of_ne_nil hne
    have hdigit := hdigits d (by simp)
    rw [hbase] at hdigit
    rcases hradix with rfl | rfl
    · exact if_pos ⟨hbase, Or.inl rfl, hdigit⟩
    · exact if_pos ⟨hbase, Or.inr rfl, hdigit⟩

theorem dropWhile_isspace {blanks rest : List UInt8} (hblanks : ∀ b ∈ blanks, isspace b = true)
    (hb : isspace b = false) : (blanks ++ b :: rest).dropWhile isspace = b :: rest := by
  rw [dropWhile_append_of_pos hblanks, dropWhile_cons_of_neg (by simp [hb])]

theorem sign_not_space {sign : List UInt8} (rest : List UInt8) (hsign : IsSign negative sign)
    (hdigit : isDigit base b = true) :
    ∃ x tail, sign ++ b :: rest = x :: tail ∧ isspace x = false := by
  cases negative with
  | true =>
    subst hsign
    exact ⟨45, b :: rest, rfl, by decide⟩
  | false =>
    rcases hsign with rfl | rfl
    · exact ⟨43, b :: rest, rfl, by decide⟩
    · exact ⟨b, rest, rfl, (isDigit_not hdigit).1⟩

theorem radix_digit (hradix : IsRadix base radix) (hne : digits ≠ [])
    (hdigits : ∀ b ∈ digits, isDigit base b = true) :
    ∃ b rest, radix ++ digits = b :: rest ∧ isDigit base b = true := by
  rcases hradix with rfl | ⟨rfl, rfl | rfl⟩
  · obtain ⟨d, rest, rfl⟩ := exists_cons_of_ne_nil hne
    exact ⟨d, rest, rfl, hdigits d (by simp)⟩
  · exact ⟨48, 120 :: digits, rfl, by decide⟩
  · exact ⟨48, 88 :: digits, rfl, by decide⟩

/-- A string is read to its end just if it spells a number. -/
theorem subject_whole_iff :
    subject base s = some ⟨negative, magnitude, []⟩ ↔ Spells base s negative magnitude := by
  constructor
  · intro h
    unfold subject at h
    simp only at h
    split at h
    · cases h
    rename_i hne
    obtain ⟨hnegative, hmagnitude, hrest⟩ := Subject.mk.inj (Option.some.inj h)
    obtain ⟨sign, hsign, hissign⟩ := stripSign_cases (s.dropWhile isspace)
    obtain ⟨radix, hradix, hisradix⟩ := stripPrefix_cases base (stripSign (s.dropWhile isspace)).2
    have hall : (stripPrefix base (stripSign (s.dropWhile isspace)).2).takeWhile (isDigit base) =
        stripPrefix base (stripSign (s.dropWhile isspace)).2 := by
      have := takeWhile_append_dropWhile (p := isDigit base)
        (l := stripPrefix base (stripSign (s.dropWhile isspace)).2)
      rw [hrest, append_nil] at this
      exact this
    refine ⟨s.takeWhile isspace, sign, radix, _, ?_, ?_, hnegative ▸ hissign, hisradix, hne, ?_,
      hmagnitude.symm⟩
    · rw [hall, ← hradix, ← hsign]
      exact List.takeWhile_append_dropWhile.symm
    · intro b hb
      exact mem_takeWhile_imp hb
    · intro b hb
      exact mem_takeWhile_imp hb
  · intro ⟨blanks, sign, radix, digits, heq, hblanks, hsign, hradix, hne, hdigits, hmagnitude⟩
    obtain ⟨b, rest, hcons, hb⟩ := radix_digit hradix hne hdigits
    obtain ⟨x, tail, hx, hspace⟩ := sign_not_space rest hsign hb
    have hstripped : s.dropWhile isspace = sign ++ (radix ++ digits) := by
      rw [heq, hcons, hx]
      exact dropWhile_isspace hblanks hspace
    have hsigned : stripSign (s.dropWhile isspace) = (negative, radix ++ digits) := by
      rw [hstripped, hcons]
      exact stripSign_of hsign hb rest
    have htake : digits.takeWhile (isDigit base) = digits :=
      List.takeWhile_eq_self_iff.mpr hdigits
    have hdrop : digits.dropWhile (isDigit base) = [] :=
      List.dropWhile_eq_nil_iff.mpr hdigits
    unfold subject
    simp only [hsigned, stripPrefix_of hradix hne hdigits, htake, hdrop, if_neg hne, hmagnitude]

end Whole

section Value
variable {base : Nat} {digits : List UInt8}
variable {b : UInt8}

theorem number_append (base : Nat) (digits : List UInt8) (b : UInt8) :
    number base (digits ++ [b]) = number base digits * base + (digitValue b).getD 0 := by
  unfold number
  rw [foldl_append]
  rfl

theorem digit_lt (h : isDigit base b = true) : (digitValue b).getD 0 < base := by
  unfold isDigit at h
  cases hb : digitValue b with
  | none =>
    rw [hb] at h
    cases h
  | some d =>
    rw [hb] at h
    exact of_decide_eq_true h

theorem digitValue_of_digit (h : isDigit base b = true) :
    digitValue b = some ((digitValue b).getD 0) := by
  unfold isDigit at h
  cases hb : digitValue b with
  | none =>
    rw [hb] at h
    cases h
  | some d => rfl

theorem number_lt (h : ∀ b ∈ digits, isDigit base b = true) :
    number base digits < base ^ digits.length := by
  induction digits using List.reverseRecOn with
  | nil => exact Nat.zero_lt_one
  | append_singleton digits b ih =>
    have ih := ih fun x hx => h x (mem_append_left _ hx)
    have hb := digit_lt (h b (by simp))
    rw [number_append, length_append, length_singleton, Nat.pow_succ]
    calc number base digits * base + (digitValue b).getD 0
        < number base digits * base + base := Nat.add_lt_add_left hb _
      _ = (number base digits + 1) * base := (Nat.succ_mul _ _).symm
      _ ≤ base ^ digits.length * base := Nat.mul_le_mul_right _ ih

/-- Digits of which each value has one spelling are determined by their number. -/
theorem number_inj {digits' : List UInt8} (hlen : digits.length = digits'.length)
    (h : ∀ b ∈ digits, isDigit base b = true) (h' : ∀ b ∈ digits', isDigit base b = true)
    (hinj : ∀ b ∈ digits, ∀ b' ∈ digits', digitValue b = digitValue b' → b = b')
    (heq : number base digits = number base digits') : digits = digits' := by
  induction digits using List.reverseRecOn generalizing digits' with
  | nil => exact (List.length_eq_zero_iff.mp hlen.symm).symm
  | append_singleton digits b ih =>
    rcases eq_nil_or_concat digits' with rfl | ⟨tail, b', rfl⟩
    · simp at hlen
    rw [concat_eq_append] at *
    have hb := h b (by simp)
    have hb' := h' b' (by simp)
    have hlt := digit_lt hb
    have hlt' := digit_lt hb'
    rw [number_append, number_append] at heq
    have hvalue : (digitValue b).getD 0 = (digitValue b').getD 0 := by
      have hmod := congrArg (· % base) heq
      simpa [Nat.mul_add_mod_self_right, Nat.mod_eq_of_lt hlt, Nat.mod_eq_of_lt hlt'] using hmod
    have hnumber : number base digits = number base tail := by
      rw [hvalue] at heq
      exact Nat.mul_right_cancel (Nat.lt_of_le_of_lt (Nat.zero_le _) hlt) (Nat.add_right_cancel heq)
    have htail : digits = tail := by
      apply ih (by simpa using hlen) _ _ _ hnumber
      · intro x hx
        exact h x (mem_append_left _ hx)
      · intro x hx
        exact h' x (mem_append_left _ hx)
      · intro x hx y hy
        exact hinj x (mem_append_left _ hx) y (mem_append_left _ hy)
    have hlast : b = b' := by
      apply hinj b (by simp) b' (by simp)
      rw [digitValue_of_digit hb, digitValue_of_digit hb', hvalue]
    rw [htail, hlast]

end Value

section Within
variable {base : Nat} {s digits rest : List UInt8}
variable {p : UInt8 → Bool} {bits : Nat}

theorem takeWhile_append_stop (hdigits : ∀ b ∈ digits, p b = true)
    (hrest : ∀ b ∈ rest.head?, p b = false) : (digits ++ rest).takeWhile p = digits := by
  rw [takeWhile_append_of_pos hdigits]
  cases rest with
  | nil => simp
  | cons b rest =>
    have hb := hrest b rfl
    rw [takeWhile_cons_of_neg (by simp [hb]), append_nil]

theorem dropWhile_append_stop (hdigits : ∀ b ∈ digits, p b = true)
    (hrest : ∀ b ∈ rest.head?, p b = false) : (digits ++ rest).dropWhile p = rest := by
  rw [dropWhile_append_of_pos hdigits]
  cases rest with
  | nil => rfl
  | cons b rest =>
    have hb := hrest b rfl
    exact dropWhile_cons_of_neg (by simp [hb])

theorem stripPrefix_other (hbase : base ≠ 16) (s : List UInt8) : stripPrefix base s = s := by
  unfold stripPrefix
  split
  · rw [if_neg fun h => hbase h.1]
  · rfl

theorem stripSign_other (h : ∀ b ∈ s.head?, b ≠ 45 ∧ b ≠ 43) : stripSign s = (false, s) := by
  unfold stripSign
  split
  · exact absurd rfl (h _ rfl).1
  · exact absurd rfl (h _ rfl).2
  · rfl

theorem dropWhile_isspace_other (h : ∀ b ∈ s.head?, isspace b = false) :
    s.dropWhile isspace = s := by
  have hnil : ∀ b ∈ ([] : List UInt8), isspace b = true := by simp
  have hdrop : ([] ++ s).dropWhile isspace = s := dropWhile_append_stop hnil h
  exact hdrop

theorem subject_digits (hbase : base ≠ 16) (hne : digits ≠ [])
    (hdigits : ∀ b ∈ digits, isDigit base b = true)
    (hrest : ∀ b ∈ rest.head?, isDigit base b = false) :
    subject base (digits ++ rest) = some ⟨false, number base digits, rest⟩ := by
  have hhead : ∀ b ∈ (digits ++ rest).head?, isspace b = false ∧ b ≠ 45 ∧ b ≠ 43 := by
    obtain ⟨d, tail, rfl⟩ := exists_cons_of_ne_nil hne
    intro b hb
    obtain rfl : d = b := by simpa using hb
    exact isDigit_not (hdigits d (by simp))
  have hspace := dropWhile_isspace_other fun b hb => (hhead b hb).1
  have hsign := stripSign_other fun b hb => (hhead b hb).2
  unfold subject
  simp only [hspace, hsign, stripPrefix_other hbase, takeWhile_append_stop hdigits hrest,
    dropWhile_append_stop hdigits hrest, if_neg hne]

theorem subject_none (hbase : base ≠ 16)
    (h : ∀ b ∈ s.head?, isspace b = false ∧ (b ≠ 45 ∧ b ≠ 43) ∧ isDigit base b = false) :
    subject base s = none := by
  have hspace := dropWhile_isspace_other fun b hb => (h b hb).1
  have hsign := stripSign_other fun b hb => (h b hb).2.1
  have hnil : ∀ b ∈ ([] : List UInt8), isDigit base b = true := by simp
  have htake : ([] ++ s).takeWhile (isDigit base) = [] :=
    takeWhile_append_stop hnil fun b hb => (h b hb).2.2
  rw [nil_append] at htake
  unfold subject
  simp only [hspace, hsign, stripPrefix_other hbase, htake, if_true]

theorem strtol_digits (hbase : base ≠ 16) (hne : digits ≠ [])
    (hdigits : ∀ b ∈ digits, isDigit base b = true)
    (hrest : ∀ b ∈ rest.head?, isDigit base b = false)
    (hfits : number base digits < 2 ^ (bits - 1)) :
    strtol bits base (digits ++ rest) = ((number base digits : Int), rest) := by
  unfold strtol
  rw [subject_digits hbase hne hdigits hrest]
  have hpow : ((2 ^ (bits - 1) : Nat) : Int) = 2 ^ (bits - 1) := by simp
  simp only [Bool.false_eq_true, if_false, Prod.mk.injEq, and_true]
  omega

theorem strtol_none (hbase : base ≠ 16)
    (h : ∀ b ∈ s.head?, isspace b = false ∧ (b ≠ 45 ∧ b ≠ 43) ∧ isDigit base b = false) :
    strtol bits base s = (0, s) := by
  unfold strtol
  rw [subject_none hbase h]

end Within

section Strtoul
variable {bits base : Nat} {s : List UInt8} {n : Subject}

theorem strtoul_none (h : subject base s = none) : strtoul bits base s = (0, s) := by
  unfold strtoul
  rw [h]

theorem strtoul_rest (h : subject base s = some n) : (strtoul bits base s).2 = n.rest := by
  unfold strtoul
  rw [h]
  simp only
  split
  · rfl
  split
  · rfl
  · rfl

theorem strtoul_fits (h : subject base s = some n) (hfits : n.magnitude < 2 ^ bits) :
    (strtoul bits base s).1 =
      if n.negative then -BitVec.ofNat bits n.magnitude else BitVec.ofNat bits n.magnitude := by
  unfold strtoul
  rw [h]
  simp only [if_neg (Nat.not_le.mpr hfits)]
  split
  · rfl
  · rfl

end Strtoul
end Toolwhip.Lib.CNumber
