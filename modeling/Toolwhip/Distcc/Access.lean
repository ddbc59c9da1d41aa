import Toolwhip.Lib.BitFields
import Toolwhip.Distcc.FixDebugInfo
import Toolwhip.Distcc.HostSpec

/-! # Access control by address

access.c: the specification `ADDRESS/BITS` of who may run compilers here, and the check of
a client against it. A number in network byte order is what `htonl` makes of it. -/

namespace Toolwhip.Distcc
open Lib.CNumber Lib.PrefixMask Lib.ThrowingFold List BitVec
set_option autoImplicit false

/-- `in_addr_t` -/
abbrev InAddr := BitVec 32

def htonl (host : BigEndian) (x : BitVec 32) : InAddr := swap_big_to_cpu_32 host x

def octet (part : List UInt8) : Option (BitVec 8) :=
  if part ≠ [] ∧ part.length ≤ 3 ∧ part.all (isDigit 10) = true ∧ number 10 part ≤ 255 then
    some (BitVec.ofNat 8 (number 10 part))
  else none

/-- The number that `ddd.ddd.ddd.ddd` stands for. -/
def quad (text : List UInt8) : Option (BitVec 32) :=
  match text.splitOn 46 with
  | [a, b, c, d] => do
    let a ← octet a
    let b ← octet b
    let c ← octet c
    let d ← octet d
    some (a ++ b ++ c ++ d)
  | _ => none

def inet_pton (host : BigEndian) (text : List UInt8) : Option InAddr := (quad text).map (htonl host)

def allones : InAddr := 0xffffffff

section Parse
variable (host : BigEndian) (longBits : Nat)

def maskOfBits (mask_bits : Nat) : InAddr :=
  if mask_bits = 32 then allones else htonl host (~~~(allones >>> mask_bits))

/-- `spec.dropWhile (· ≠ 47)` starts with the slash, if there is one. -/
def parseMaskText : List UInt8 → Except ExitCode InAddr
  | _ :: b :: mask_str =>
    let mask_bits := atoi longBits (b :: mask_str)
    if mask_bits < 0 ∨ mask_bits > 32 then .error .EXIT_BAD_ARGUMENTS
    else .ok (maskOfBits host mask_bits.toNat)
  | _ => .ok allones

def dcc_parse_mask (spec : List UInt8) : Except ExitCode (InAddr × InAddr) :=
  match inet_pton host (spec.takeWhile (· ≠ 47)) with
  | none => .error .EXIT_BAD_ARGUMENTS
  | some value => (parseMaskText host longBits (spec.dropWhile (· ≠ 47))).map (value, ·)

end Parse

def dcc_check_address (client value mask : InAddr) : Except ExitCode Unit :=
  if client &&& mask = value &&& mask then .ok () else .error .EXIT_ACCESS_DENIED

section Order
variable {host : BigEndian} {x y : BitVec 32}

theorem swap_32_getLsbD {i : Nat} (hi : i < 32) :
    (swap_32 x).getLsbD i = x.getLsbD (8 * (3 - i / 8) + i % 8) := by
  have hlow : (0x0000ff00#32).getLsbD i = decide (i / 8 = 1) := by
    revert i
    decide
  have hhigh : (0x00ff0000#32).getLsbD i = decide (i / 8 = 2) := by
    revert i
    decide
  have hdiv : i / 8 = 0 ∨ i / 8 = 1 ∨ i / 8 = 2 ∨ i / 8 = 3 := by omega
  unfold swap_32
  simp only [getLsbD_or, getLsbD_and, getLsbD_ushiftRight,
    getLsbD_shiftLeft, natCast_eq_ofNat, hlow, hhigh]
  rcases hdiv with h | h | h | h
  · have hpos : 24 + i = 8 * (3 - 0) + i % 8 := by omega
    have hlt : i < 24 := by omega
    simp [h, hpos, hlt]
  · have hpos : 8 + i = 8 * (3 - 1) + i % 8 := by omega
    have hlt : i < 24 := by omega
    have hout : x.getLsbD (24 + i) = false := getLsbD_of_ge x _ (by omega)
    simp [h, hpos, hlt, hout]
  · have hpos : i - 8 = 8 * (3 - 2) + i % 8 := by omega
    have hge : ¬ i < 8 := by omega
    have hlt : i < 24 := by omega
    have hout : x.getLsbD (24 + i) = false := getLsbD_of_ge x _ (by omega)
    simp [h, hi, hge, hlt, hpos, hout]
  have hpos : i - 24 = 8 * (3 - 3) + i % 8 := by omega
  have hge : ¬ i < 24 := by omega
  have hout : x.getLsbD (24 + i) = false := getLsbD_of_ge x _ (by omega)
  simp [h, hi, hge, hpos, hout]

theorem swap_32_swap_32 : swap_32 (swap_32 x) = x := by
  apply eq_of_getLsbD_eq
  intro i hi
  rw [swap_32_getLsbD hi, swap_32_getLsbD (by omega)]
  congr 1
  omega

theorem swap_32_and : swap_32 (x &&& y) = swap_32 x &&& swap_32 y := by
  apply eq_of_getLsbD_eq
  intro i hi
  rw [getLsbD_and, swap_32_getLsbD hi, swap_32_getLsbD hi, swap_32_getLsbD hi,
    getLsbD_and]

theorem htonl_inj (h : htonl host x = htonl host y) : x = y := by
  cases host with
  | true => exact h
  | false =>
    calc x = swap_32 (swap_32 x) := swap_32_swap_32.symm
      _ = swap_32 (swap_32 y) := congrArg swap_32 h
      _ = y := swap_32_swap_32

theorem htonl_and : htonl host (x &&& y) = htonl host x &&& htonl host y := by
  cases host with
  | true => rfl
  | false => exact swap_32_and

theorem htonl_allones : htonl host allones = allones := by
  cases host with
  | true => rfl
  | false => decide

end Order

section Mask
variable {host : BigEndian}

theorem maskOfBits_eq (bits : Nat) : maskOfBits host bits = htonl host (prefixMask 32 bits) := by
  have hones : allones = BitVec.allOnes 32 := by decide
  unfold maskOfBits
  split
  case isTrue h =>
    rw [h, prefixMask_all (Nat.le_refl 32), ← hones, htonl_allones]
  case isFalse => rw [hones, prefixMask]

theorem dcc_check_address_prefix {bits : Nat} (hbits : bits ≤ 32) (client address : BitVec 32) :
    dcc_check_address (htonl host client) (htonl host address) (maskOfBits host bits) = .ok () ↔
      ∀ i < bits, client.getMsbD i = address.getMsbD i := by
  rw [← and_prefixMask_iff hbits, maskOfBits_eq]
  unfold dcc_check_address
  rw [← htonl_and, ← htonl_and]
  constructor
  · intro h
    split at h
    case isTrue heq => exact htonl_inj heq
    case isFalse => cases h
  · intro h
    rw [h, if_pos rfl]

end Mask

/-! ## The text of a specification -/

def Octet (part : List UInt8) (n : BitVec 8) : Prop := IsDecimal part n.toNat ∧ part.length ≤ 3

def DottedQuad (text : List UInt8) (address : BitVec 32) : Prop :=
  ∃ a b c d na nb nc nd, Octet a na ∧ Octet b nb ∧ Octet c nc ∧ Octet d nd ∧
    text = a ++ 46 :: (b ++ 46 :: (c ++ 46 :: d)) ∧ address = na ++ nb ++ nc ++ nd

def AccessSpec (spec : List UInt8) (address : BitVec 32) (bits : Nat) : Prop :=
  DottedQuad spec address ∧ bits = 32 ∨
    ∃ text digits, spec = text ++ 47 :: digits ∧ DottedQuad text address ∧
      IsDecimal digits bits ∧ bits ≤ 32

def SpecOrSlash (spec : List UInt8) (address : BitVec 32) (bits : Nat) : Prop :=
  AccessSpec spec address bits ∨ ∃ text, spec = text ++ [47] ∧ DottedQuad text address ∧ bits = 32

section Text
variable {part text : List UInt8} {address : BitVec 32} {n : BitVec 8}

theorem Octet.not_mem (h : Octet part n) {b : UInt8} (hb : b < 48) : b ∉ part := by
  intro hmem
  have hge : 48 ≤ b := by
    rcases isDigit_range (h.1.2.1 b hmem) with h | h | h
    · exact h.1
    · exact UInt8.le_trans (by decide) h.1
    · exact UInt8.le_trans (by decide) h.1
  have hnat : 48 ≤ b.toNat := hge
  have hlt : b.toNat < 48 := hb
  omega

theorem octet_iff : octet part = some n ↔ Octet part n := by
  unfold octet Octet IsDecimal
  constructor
  · intro h
    split at h
    case isTrue hall =>
      obtain ⟨hne, hlen, hdigits, hle⟩ := hall
      obtain rfl := Option.some.inj h
      have hlt : number 10 part < 2 ^ 8 := by omega
      refine ⟨⟨hne, List.all_eq_true.mp hdigits, ?_⟩, hlen⟩
      rw [BitVec.toNat_ofNat, Nat.mod_eq_of_lt hlt]
    case isFalse => cases h
  · rintro ⟨⟨hne, hdigits, hn⟩, hlen⟩
    rw [if_pos ⟨hne, hlen, List.all_eq_true.mpr hdigits, by omega⟩, ← hn]
    simp

theorem quad_iff : quad text = some address ↔ DottedQuad text address := by
  unfold quad
  constructor
  · intro h
    have htext : [46].intercalate (text.splitOn 46) = text := intercalate_splitOn 46
    split at h
    case h_1 a b c d hparts =>
      rw [hparts] at htext
      simp only [Option.bind_eq_bind, Option.bind_eq_some_iff, octet_iff] at h
      obtain ⟨na, ha, nb, hb, nc, hc, nd, hd, haddress⟩ := h
      refine ⟨a, b, c, d, na, nb, nc, nd, ha, hb, hc, hd, ?_, (Option.some.inj haddress).symm⟩
      simp [← htext]
    case h_2 => cases h
  · rintro ⟨a, b, c, d, na, nb, nc, nd, ha, hb, hc, hd, rfl, rfl⟩
    have hdot : (46 : UInt8) < 48 := by decide
    rw [splitOn_append_cons_self_of_not_mem (ha.not_mem hdot),
      splitOn_append_cons_self_of_not_mem (hb.not_mem hdot),
      splitOn_append_cons_self_of_not_mem (hc.not_mem hdot),
      splitOn_eq_singleton (hd.not_mem hdot)]
    simp only [octet_iff.mpr ha, octet_iff.mpr hb, octet_iff.mpr hc, octet_iff.mpr hd]
    rfl

theorem DottedQuad.no_slash (h : DottedQuad text address) : (47 : UInt8) ∉ text := by
  obtain ⟨a, b, c, d, na, nb, nc, nd, ha, hb, hc, hd, rfl, rfl⟩ := h
  have hslash : (47 : UInt8) < 48 := by decide
  simp [ha.not_mem hslash, hb.not_mem hslash, hc.not_mem hslash, hd.not_mem hslash]

theorem inet_pton_iff {host : BigEndian} {value : InAddr} : inet_pton host text = some value ↔
    ∃ address, DottedQuad text address ∧ value = htonl host address := by
  unfold inet_pton
  simp only [Option.map_eq_some_iff, quad_iff, eq_comm (a := value)]

theorem split_slash {digits : List UInt8} (h : (47 : UInt8) ∉ text) :
    (text ++ 47 :: digits).takeWhile (· ≠ 47) = text ∧
      (text ++ 47 :: digits).dropWhile (· ≠ 47) = 47 :: digits := by
  have htext : ∀ b ∈ text, decide (b ≠ 47) = true := by
    intro b hb
    apply decide_eq_true
    rintro rfl
    exact h hb
  have hrest : ∀ b ∈ (47 :: digits).head?, decide (b ≠ 47) = false := by
    intro b hb
    obtain rfl : 47 = b := by simpa using hb
    decide
  exact ⟨takeWhile_append_stop htext hrest, dropWhile_append_stop htext hrest⟩

end Text

section Meaning
variable {host : BigEndian} {longBits : Nat} {spec : List UInt8}

/-- An accepted specification has the form `Spec`, and lets in those whose first bits are
the ones of its address. -/
def Restricts (Spec : List UInt8 → BitVec 32 → Nat → Prop) (host : BigEndian) (longBits : Nat)
    (spec : List UInt8) : Prop :=
  ∀ value mask, dcc_parse_mask host longBits spec = .ok (value, mask) →
    ∃ address bits, Spec spec address bits ∧
      ∀ client, dcc_check_address (htonl host client) value mask = .ok () ↔
        ∀ i < bits, client.getMsbD i = address.getMsbD i

/-- Nothing follows the slash, or a numeral of at most 32, or what `atoi` reads as a number
that is not a length. -/
def MaskTextMeant (longBits : Nat) : List UInt8 → Prop
  | [] => True
  | _ :: mask_str => mask_str = [] ∨ (∃ bits, IsDecimal mask_str bits ∧ bits ≤ 32) ∨
      (atoi longBits mask_str < 0 ∨ atoi longBits mask_str > 32)

variable {c : UInt8} {mask_str : List UInt8}

theorem AccessSpec.of_slash {address : BitVec 32} {bits : Nat}
    (h : AccessSpec spec address bits) (hslash : spec.dropWhile (· ≠ 47) = c :: mask_str) :
    IsDecimal mask_str bits ∧ bits ≤ 32 := by
  rcases h with ⟨hquad, _⟩ | ⟨text, digits, rfl, hquad, hdigits, hbits⟩
  · have hnone : ∀ b ∈ spec, decide (b ≠ 47) = true := by
      intro b hb
      apply decide_eq_true
      rintro rfl
      exact hquad.no_slash hb
    rw [List.dropWhile_eq_nil_iff.mpr hnone] at hslash
    cases hslash
  · rw [(split_slash hquad.no_slash).2] at hslash
    cases hslash
    exact ⟨hdigits, hbits⟩

theorem SpecOrSlash.of_slash {address : BitVec 32} {bits : Nat}
    (h : SpecOrSlash spec address bits) (hslash : spec.dropWhile (· ≠ 47) = c :: mask_str) :
    mask_str = [] ∨ IsDecimal mask_str bits ∧ bits ≤ 32 := by
  rcases h with hspec | ⟨text, rfl, hquad, _⟩
  · exact Or.inr (hspec.of_slash hslash)
  · rw [(split_slash hquad.no_slash).2] at hslash
    cases hslash
    exact Or.inl rfl

theorem dcc_parse_mask_ok {value mask : InAddr}
    (hvalue : inet_pton host (spec.takeWhile (· ≠ 47)) = some value)
    (hmask : parseMaskText host longBits (spec.dropWhile (· ≠ 47)) = .ok mask) :
    dcc_parse_mask host longBits spec = .ok (value, mask) := by
  unfold dcc_parse_mask
  rw [hvalue]
  simp only [hmask]
  rfl

theorem meant_of_restricts (h : Restricts SpecOrSlash host longBits spec) {value : InAddr}
    (hvalue : inet_pton host (spec.takeWhile (· ≠ 47)) = some value) :
    MaskTextMeant longBits (spec.dropWhile (· ≠ 47)) := by
  cases hslash : spec.dropWhile (· ≠ 47) with
  | nil => trivial
  | cons c mask_str =>
    cases mask_str with
    | nil => exact Or.inl rfl
    | cons b mask_str =>
      by_cases hrange : atoi longBits (b :: mask_str) < 0 ∨ atoi longBits (b :: mask_str) > 32
      · exact Or.inr (Or.inr hrange)
      · have hmask : parseMaskText host longBits (spec.dropWhile (· ≠ 47)) =
            .ok (maskOfBits host (atoi longBits (b :: mask_str)).toNat) := by
          rw [hslash]
          simp only [parseMaskText, if_neg hrange]
        obtain ⟨address, bits, hspec, _⟩ := h value _ (dcc_parse_mask_ok hvalue hmask)
        rcases hspec.of_slash hslash with hnil | hdigits
        · exact Or.inl hnil
        · exact Or.inr (Or.inl ⟨bits, hdigits⟩)

theorem parseMaskText_meant (hlong : 32 ≤ longBits) {text : List UInt8} {mask : InAddr}
    (hmeant : MaskTextMeant longBits text) (h : parseMaskText host longBits text = .ok mask) :
    text.tail = [] ∧ mask = maskOfBits host 32 ∨
      ∃ c mask_str bits, text = c :: mask_str ∧ IsDecimal mask_str bits ∧ bits ≤ 32 ∧
        mask = maskOfBits host bits := by
  rcases text with _ | ⟨c, _ | ⟨b, mask_str⟩⟩
  · cases h
    exact Or.inl ⟨rfl, rfl⟩
  · cases h
    exact Or.inl ⟨rfl, rfl⟩
  apply Or.inr
  simp only [parseMaskText] at h
  rcases hmeant with hnil | ⟨bits, hdigits, hbits⟩ | hrange
  · cases hnil
  · have hvalue : atoi longBits (b :: mask_str) = bits := by
      have hfits : bits < 2 ^ 31 := by omega
      have hend : ∀ b ∈ ([] : List UInt8).head?, isDigit 10 b = false := by simp
      simpa using atoi_decimal hlong hdigits hfits hend
    rw [hvalue, if_neg (by omega), Int.toNat_natCast] at h
    cases h
    exact ⟨c, _, bits, rfl, hdigits, hbits, rfl⟩
  · rw [if_pos hrange] at h
    cases h

theorem spec_slash (hslash : spec.dropWhile (· ≠ 47) = c :: mask_str) :
    spec = spec.takeWhile (· ≠ 47) ++ 47 :: mask_str := by
  have hhead := head?_dropWhile_not (· ≠ 47) spec
  rw [hslash] at hhead
  obtain rfl : c = 47 := by simpa using hhead
  rw [← hslash]
  exact List.takeWhile_append_dropWhile.symm

/-- An accepted specification is one, but for a slash at its end, and means what it says unless
`atoi` takes a text that is no decimal length for one. -/
theorem dcc_parse_mask_restricts (hlong : 32 ≤ longBits)
    (hmeant : MaskTextMeant longBits (spec.dropWhile (· ≠ 47))) :
    Restricts SpecOrSlash host longBits spec := by
  intro value mask h
  unfold dcc_parse_mask at h
  cases hvalue : inet_pton host (spec.takeWhile (· ≠ 47)) with
  | none =>
    rw [hvalue] at h
    cases h
  | some v =>
    rw [hvalue] at h
    obtain ⟨_, hmask, heq⟩ := map_eq_ok.mp h
    cases heq
    obtain ⟨address, hquad, rfl⟩ := inet_pton_iff.mp hvalue
    rcases parseMaskText_meant hlong hmeant hmask with
      ⟨htail, rfl⟩ | ⟨c, mask_str, bits, hslash, hdigits, hbits, rfl⟩
    · refine ⟨address, 32, ?_, fun client =>
        dcc_check_address_prefix (Nat.le_refl 32) client address⟩
      cases hslash : spec.dropWhile (· ≠ 47) with
      | nil =>
        have hspec := takeWhile_append_dropWhile (p := (· ≠ 47)) (l := spec)
        rw [hslash, append_nil] at hspec
        rw [hspec] at hquad
        exact Or.inl (Or.inl ⟨hquad, rfl⟩)
      | cons c mask_str =>
        rw [hslash] at htail
        obtain rfl : mask_str = [] := htail
        exact Or.inr ⟨_, spec_slash hslash, hquad, rfl⟩
    · refine ⟨address, bits, Or.inl (Or.inr ⟨_, mask_str, spec_slash hslash, hquad, hdigits, hbits⟩),
        fun client => dcc_check_address_prefix hbits client address⟩

/-- Private network 10, with a client in it and one outside. -/
theorem ten_restricts : 32 ≤ 64 ∧ Restricts SpecOrSlash false 64 (ascii "10.0.0.0/8") ∧
    dcc_parse_mask false 64 (ascii "10.0.0.0/8") = .ok (0x0000000a, 0x000000ff) ∧
    dcc_check_address (htonl false 0x0a713b07) 0x0000000a 0x000000ff = .ok () ∧
    dcc_check_address (htonl false 0x0b713b07) 0x0000000a 0x000000ff = .error .EXIT_ACCESS_DENIED := by
  refine ⟨by decide, ?_, by decide, by decide, by decide⟩
  have hdigits : (ascii "8").all (isDigit 10) = true := by decide
  have hbits : IsDecimal (ascii "8") 8 := ⟨by decide, List.all_eq_true.mp hdigits, by decide⟩
  apply dcc_parse_mask_restricts (by decide)
  apply Or.inr
  apply Or.inl
  exact ⟨8, hbits, by decide⟩

/-- A slash at the end is accepted; after one, a word lets in everyone. -/
theorem slash_is_accepted :
    (dcc_parse_mask false 64 (ascii "1.2.3.4/") = .ok (0x04030201, allones) ∧
      ¬ Restricts AccessSpec false 64 (ascii "1.2.3.4/")) ∧
    dcc_parse_mask false 64 (ascii "1.2.3.4/abc") = .ok (0x04030201, 0) ∧
      (∀ client, dcc_check_address client 0x04030201 0 = .ok ()) ∧
      ¬ Restricts AccessSpec false 64 (ascii "1.2.3.4/abc") := by
  have hempty : dcc_parse_mask false 64 (ascii "1.2.3.4/") = .ok (0x04030201, allones) := by decide
  have hword : dcc_parse_mask false 64 (ascii "1.2.3.4/abc") = .ok (0x04030201, 0) := by decide
  refine ⟨⟨hempty, ?_⟩, hword, ?_, ?_⟩
  · intro h
    obtain ⟨address, bits, hspec, _⟩ := h _ _ hempty
    have hslash : (ascii "1.2.3.4/").dropWhile (· ≠ 47) = 47 :: [] := by decide
    exact (hspec.of_slash hslash).1.1 rfl
  · intro client
    simp [dcc_check_address]
  · intro h
    obtain ⟨address, bits, hspec, _⟩ := h _ _ hword
    have hslash : (ascii "1.2.3.4/abc").dropWhile (· ≠ 47) = 47 :: ascii "abc" := by decide
    have hdigit := (hspec.of_slash hslash).1.2.1 97 (by decide)
    exact absurd hdigit (by decide)

end Meaning
end Toolwhip.Distcc
