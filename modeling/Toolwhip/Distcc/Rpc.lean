import Toolwhip.Lib.CNumber
import Toolwhip.Lib.ThrowingFold

/-! # The RPC layer of distcc

rpc.c: packets of a token of four characters, a value or a length in eight hexadecimal
digits, and data of that length. What is sent is the bytes that are written; what is
received is read from the bytes that the other side has sent. -/

set_option autoImplicit false

namespace Toolwhip.Distcc
open Lib.CNumber

inductive ExitCode where
  | EXIT_DISTCC_FAILED
  | EXIT_BAD_ARGUMENTS
  | EXIT_BIND_FAILED
  | EXIT_CONNECT_FAILED
  | EXIT_COMPILER_CRASHED
  | EXIT_OUT_OF_MEMORY
  | EXIT_BAD_HOSTSPEC
  | EXIT_IO_ERROR
  | EXIT_TRUNCATED
  | EXIT_PROTOCOL_ERROR
  | EXIT_COMPILER_MISSING
  | EXIT_RECURSION
  | EXIT_SETUID_FAILED
  | EXIT_ACCESS_DENIED
  | EXIT_BUSY
  | EXIT_NO_SUCH_FILE
  | EXIT_NO_HOSTS
  | EXIT_GONE
  | EXIT_TIMEOUT
  deriving DecidableEq, Repr

structure CString where
  bytes : List UInt8
  noNul : ∀ b ∈ bytes, b ≠ 0
  deriving DecidableEq

def CString.strlen (s : CString) : Nat := s.bytes.length

theorem noNul_of_contains {bytes : List UInt8} (h : bytes.contains 0 = false) :
    ∀ b ∈ bytes, b ≠ 0 := by
  intro b hb hzero
  rw [hzero] at hb
  rw [List.contains_iff_mem.mpr hb] at h
  cases h

def DONE : CString := ⟨ascii "DONE", noNul_of_contains (by decide)⟩

/-- The C library and the connection: the width of `unsigned long` and `size_t`, whether
an allocation succeeds, and what `read` fails with after the bytes that were sent, if
that is not the end of the file. -/
structure Machine where
  ulongBits : Nat
  sizeBits : Nat
  ulong_wide : 32 ≤ ulongBits
  size_wide : 32 ≤ sizeBits
  malloc : Nat → Bool
  readError : Option ExitCode

variable (m : Machine)

def dcc_readx (len : Nat) (stream : List UInt8) : Except ExitCode (List UInt8 × List UInt8) :=
  if len ≤ stream.length then .ok (stream.take len, stream.drop len)
  else .error (m.readError.getD .EXIT_TRUNCATED)

def hex : List UInt8 := ascii "0123456789abcdef"

def hexDigit (param : BitVec 32) (shift : Nat) : UInt8 :=
  hex.getD (param >>> shift &&& 0xf).toNat 0

def hexDigits (param : BitVec 32) : List UInt8 :=
  [28, 24, 20, 16, 12, 8, 4, 0].map (hexDigit param)

def dcc_x_token_int (token : CString) (param : BitVec 32) : Except ExitCode (List UInt8) :=
  if token.strlen ≠ 4 then .error .EXIT_PROTOCOL_ERROR
  else .ok (token.bytes ++ hexDigits param)

/-- The value of the eight bytes, if `strtoul` reads all of them. -/
def frameValue (digits : List UInt8) : Except ExitCode (BitVec 32) :=
  let parsed := strtoul m.ulongBits 16 digits
  if parsed.2 ≠ [] then .error .EXIT_PROTOCOL_ERROR else .ok (parsed.1.setWidth 32)

def dcc_r_token_int (expected : CString) (stream : List UInt8) :
    Except ExitCode (BitVec 32 × List UInt8) :=
  if expected.strlen ≠ 4 then .error .EXIT_PROTOCOL_ERROR
  else do
    let buf ← dcc_readx m 12 stream
    if buf.1.take 4 ≠ expected.bytes then .error .EXIT_PROTOCOL_ERROR
    else (frameValue m (buf.1.drop 4)).map fun val => (val, buf.2)

def strncpy4 (buf : List UInt8) : List UInt8 :=
  let copied := (buf.take 4).takeWhile (· ≠ 0)
  copied ++ List.replicate (4 - copied.length) 0

def dcc_r_sometoken_int (stream : List UInt8) :
    Except ExitCode ((List UInt8 × BitVec 32) × List UInt8) := do
  let buf ← dcc_readx m 12 stream
  (frameValue m (buf.1.drop 4)).map fun val => ((strncpy4 buf.1, val), buf.2)

/-! ## Frames

What `dcc_r_token_int` accepts: the frames that are sent, and other spellings of the
value that `strtoul` reads to their end. -/

open Lib.ThrowingFold List BitVec

section Digits
variable {digits : List UInt8} {v : BitVec 32}

/-- The eight bytes of a frame, read as `strtoul` reads them. -/
def SpellsValue (digits : List UInt8) (v : BitVec 32) : Prop :=
  ∃ negative magnitude, Spells 16 digits negative magnitude ∧
    v = if negative then -BitVec.ofNat 32 magnitude else BitVec.ofNat 32 magnitude

/-- `strtoul` finds the number that ends with the frame. -/
def ReadsToEnd (digits : List UInt8) : Prop := ∃ v, SpellsValue digits v

def isLowerHex (b : UInt8) : Bool := hex.contains b

theorem Spells.lt {negative : Bool} {magnitude : Nat} (hlen : digits.length = 8)
    (h : Spells 16 digits negative magnitude) : magnitude < 2 ^ 32 := by
  obtain ⟨blanks, sign, radix, run, heq, _, _, _, _, hrun, hmagnitude⟩ := h
  have hshort : run.length ≤ 8 := by
    rw [heq] at hlen
    simp only [length_append] at hlen
    omega
  calc magnitude = number 16 run := hmagnitude
    _ < 16 ^ run.length := number_lt hrun
    _ ≤ 16 ^ 8 := Nat.pow_le_pow_right (by decide) hshort

theorem setWidth_neg_ofNat {bits : Nat} (hbits : 32 ≤ bits) (n : Nat) :
    (-BitVec.ofNat bits n).setWidth 32 = -BitVec.ofNat 32 n := by
  rw [setWidth_neg_of_le hbits, setWidth_ofNat_of_le hbits]

theorem frameValue_of_spells (m : Machine) (hlen : digits.length = 8)
    (h : SpellsValue digits v) : frameValue m digits = .ok v := by
  obtain ⟨negative, magnitude, hspells, hv⟩ := h
  have hsubject := subject_whole_iff.mpr hspells
  have hfits : magnitude < 2 ^ m.ulongBits :=
    Nat.lt_of_lt_of_le (Spells.lt hlen hspells) (Nat.pow_le_pow_right (by decide) m.ulong_wide)
  unfold frameValue
  simp only [strtoul_rest hsubject, strtoul_fits hsubject hfits, ne_eq, not_true_eq_false, if_false]
  cases negative with
  | false =>
    rw [hv]
    exact congrArg Except.ok (setWidth_ofNat_of_le m.ulong_wide magnitude)
  | true =>
    rw [hv]
    exact congrArg Except.ok (setWidth_neg_ofNat m.ulong_wide magnitude)

theorem frameValue_iff (m : Machine) (hlen : digits.length = 8) :
    frameValue m digits = .ok v ↔ SpellsValue digits v := by
  constructor
  · intro h
    unfold frameValue at h
    simp only at h
    split at h
    · cases h
    rename_i hstop
    have hstop := Classical.not_not.mp hstop
    cases hsubject : subject 16 digits with
    | none =>
      rw [strtoul_none hsubject] at hstop
      have hnil : digits = [] := hstop
      rw [hnil] at hlen
      cases hlen
    | some n =>
      obtain ⟨negative, magnitude, rest⟩ := n
      rw [strtoul_rest hsubject] at hstop
      subst hstop
      have hspells := subject_whole_iff.mp hsubject
      have hspelled : SpellsValue digits _ := ⟨negative, magnitude, hspells, rfl⟩
      have hvalue := frameValue_of_spells m hlen hspelled
      unfold frameValue at hvalue
      simp only [strtoul_rest hsubject, ne_eq, not_true_eq_false, if_false] at hvalue
      rw [h] at hvalue
      rw [Except.ok.inj hvalue]
      exact hspelled
  · exact frameValue_of_spells m hlen

/-! ### The frames that are sent -/

theorem hex_digit : ∀ n, n < 16 → isDigit 16 (hex.getD n 0) = true ∧
    digitValue (hex.getD n 0) = some n := by
  decide

theorem hex_inj {b b' : UInt8} (h : isLowerHex b = true) (h' : isLowerHex b' = true)
    (heq : digitValue b = digitValue b') : b = b' := by
  have hall : hex.all (fun x => hex.all fun y => digitValue x = digitValue y → x = y) = true := by
    decide
  have hb := List.all_eq_true.mp hall b (List.contains_iff_mem.mp h)
  have hb' := List.all_eq_true.mp hb b' (List.contains_iff_mem.mp h')
  exact of_decide_eq_true hb' heq

theorem lowerHex_digit {b : UInt8} (h : isLowerHex b = true) : isDigit 16 b = true := by
  have hall : hex.all (isDigit 16) = true := by decide
  exact List.all_eq_true.mp hall b (List.contains_iff_mem.mp h)

theorem nibble_lt (v : BitVec 32) (shift : Nat) : (v >>> shift &&& 0xf).toNat < 16 := by
  exact Nat.lt_of_le_of_lt Nat.and_le_right (by decide)

theorem nibble_toNat (v : BitVec 32) (shift : Nat) :
    (v >>> shift &&& 0xf).toNat = v.toNat / 2 ^ shift % 16 := by
  rw [toNat_and, toNat_ushiftRight, Nat.shiftRight_eq_div_pow]
  exact Nat.and_two_pow_sub_one_eq_mod _ 4

theorem hexDigits_length (v : BitVec 32) : (hexDigits v).length = 8 := rfl

theorem hexDigits_lower (v : BitVec 32) : ∀ b ∈ hexDigits v, isLowerHex b = true := by
  have hall : ∀ n, n < 16 → isLowerHex (hex.getD n 0) = true := by decide
  intro b hb
  obtain ⟨shift, _, rfl⟩ := List.mem_map.mp hb
  exact hall _ (nibble_lt v shift)

theorem hexDigits_number (v : BitVec 32) : number 16 (hexDigits v) = v.toNat := by
  have hdigit : ∀ shift, (digitValue (hexDigit v shift)).getD 0 = v.toNat / 2 ^ shift % 16 := by
    intro shift
    unfold hexDigit
    rw [(hex_digit _ (nibble_lt v shift)).2, Option.getD_some, nibble_toNat]
  unfold number hexDigits
  simp only [map_cons, map_nil, foldl_cons, foldl_nil, hdigit]
  omega

theorem hexDigits_spells (v : BitVec 32) : SpellsValue (hexDigits v) v := by
  refine ⟨false, v.toNat, ⟨[], [], [], hexDigits v, rfl, by simp, Or.inr rfl, Or.inl rfl,
    by simp [hexDigits], ?_, (hexDigits_number v).symm⟩, ?_⟩
  · intro b hb
    exact lowerHex_digit (hexDigits_lower v b hb)
  · simp

/-- Of all spellings of a value, only the one that is sent has just lower-case digits. -/
theorem spellsValue_lower (hlen : digits.length = 8) (hlower : ∀ b ∈ digits, isLowerHex b = true)
    (h : SpellsValue digits v) : digits = hexDigits v := by
  obtain ⟨negative, magnitude, ⟨blanks, sign, radix, run, heq, hblanks, hsign, hradix, _, hrun,
    hmagnitude⟩, hv⟩ := h
  have hmem : ∀ b, b ∈ blanks ∨ b ∈ sign ∨ b ∈ radix → isLowerHex b = true := by
    intro b hb
    apply hlower
    rw [heq]
    simp only [mem_append]
    rcases hb with hb | hb | hb
    · exact Or.inl hb
    · exact Or.inr (Or.inl hb)
    · exact Or.inr (Or.inr (Or.inl hb))
  have hblanks : blanks = [] := by
    apply List.eq_nil_iff_forall_not_mem.mpr
    intro b hb
    have hspace := (isDigit_not (lowerHex_digit (hmem b (Or.inl hb)))).1
    rw [hblanks b hb] at hspace
    cases hspace
  have hsign : sign = [] ∧ negative = false := by
    unfold IsSign at hsign
    cases negative with
    | true =>
      have := hmem 45 (Or.inr (Or.inl (by rw [hsign]; decide)))
      exact absurd this (by decide)
    | false =>
      rcases hsign with hsign | hsign
      · have := hmem 43 (Or.inr (Or.inl (by rw [hsign]; decide)))
        exact absurd this (by decide)
      · exact ⟨hsign, rfl⟩
  have hradix : radix = [] := by
    rcases hradix with hradix | ⟨_, hradix | hradix⟩
    · exact hradix
    · have := hmem 120 (Or.inr (Or.inr (by rw [hradix]; decide)))
      exact absurd this (by decide)
    have := hmem 88 (Or.inr (Or.inr (by rw [hradix]; decide)))
    exact absurd this (by decide)
  rw [hblanks, hsign.1, hradix] at heq
  subst heq
  rw [hsign.2] at hv
  have hlt : magnitude < 2 ^ 32 := by
    rw [hmagnitude]
    have := number_lt hrun
    rw [hlen] at this
    exact this
  apply number_inj (by rw [hlen, hexDigits_length]) hrun
  · intro b hb
    exact lowerHex_digit (hexDigits_lower v b hb)
  · intro b hb b' hb' hvalue
    exact hex_inj (hlower b hb) (hexDigits_lower v b' hb') hvalue
  · rw [hexDigits_number, hv, ← hmagnitude]
    exact (Nat.mod_eq_of_lt hlt).symm

end Digits

section Frames
variable {m : Machine} {expected : CString} {frame rest : List UInt8} {v : BitVec 32}

theorem dcc_readx_append {len : Nat} (hlen : frame.length = len) :
    dcc_readx m len (frame ++ rest) = .ok (frame, rest) := by
  unfold dcc_readx
  rw [if_pos (by simp [← hlen]), ← hlen, take_left, drop_left]

theorem dcc_x_token_int_eq (token : CString) (h : token.strlen = 4) (v : BitVec 32) :
    dcc_x_token_int token v = .ok (token.bytes ++ hexDigits v) :=
  if_neg (Classical.not_not.mpr h)

theorem dcc_r_token_int_iff (h : expected.strlen = 4) (hframe : frame.length = 12) :
    dcc_r_token_int m expected (frame ++ rest) = .ok (v, rest) ↔
      ∃ digits, frame = expected.bytes ++ digits ∧ SpellsValue digits v := by
  have hdrop : (frame.drop 4).length = 8 := by
    rw [length_drop, hframe]
  unfold dcc_r_token_int
  rw [if_neg (Classical.not_not.mpr h), dcc_readx_append hframe]
  change (if frame.take 4 ≠ expected.bytes then _ else _) = _ ↔ _
  by_cases htoken : frame.take 4 = expected.bytes
  · rw [if_neg (Classical.not_not.mpr htoken), map_eq_ok]
    constructor
    · intro ⟨value, hvalue, heq⟩
      obtain rfl := (Prod.mk.inj heq).1
      refine ⟨frame.drop 4, ?_, (frameValue_iff m hdrop).mp hvalue⟩
      rw [← htoken, take_append_drop]
    · intro ⟨digits, heq, hspells⟩
      have hdigits : frame.drop 4 = digits := by
        have hlen : expected.bytes.length = 4 := h
        rw [heq, ← hlen, drop_left]
      exact ⟨v, (frameValue_iff m hdrop).mpr (hdigits ▸ hspells), rfl⟩
  · rw [if_pos htoken]
    constructor
    · intro h
      cases h
    · intro ⟨digits, heq, _⟩
      have hlen : expected.bytes.length = 4 := h
      rw [heq, ← hlen, take_left] at htoken
      exact absurd rfl htoken

theorem dcc_r_sometoken_int_iff {token : List UInt8} (hframe : frame.length = 12) :
    dcc_r_sometoken_int m (frame ++ rest) = .ok ((token, v), rest) ↔
      token = strncpy4 frame ∧ SpellsValue (frame.drop 4) v := by
  have hdrop : (frame.drop 4).length = 8 := by
    rw [length_drop, hframe]
  unfold dcc_r_sometoken_int
  rw [dcc_readx_append hframe]
  change (frameValue m (frame.drop 4)).map _ = _ ↔ _
  rw [map_eq_ok]
  constructor
  · intro ⟨value, hvalue, heq⟩
    obtain ⟨hpair, _⟩ := Prod.mk.inj heq
    obtain ⟨htoken, rfl⟩ := Prod.mk.inj hpair
    exact ⟨htoken.symm, (frameValue_iff m hdrop).mp hvalue⟩
  · intro ⟨htoken, hspells⟩
    rw [htoken]
    exact ⟨v, (frameValue_iff m hdrop).mpr hspells, rfl⟩

/-- Of the frames with the token, the one that is sent for a value has lower-case digits. -/
theorem sent_iff {token : CString} (h : token.strlen = 4) (hframe : frame.length = 12)
    (htoken : frame.take 4 = token.bytes) (hspells : SpellsValue (frame.drop 4) v) :
    dcc_x_token_int token v = .ok frame ↔ ∀ b ∈ frame.drop 4, isLowerHex b = true := by
  have hbytes : token.bytes.length = 4 := h
  rw [dcc_x_token_int_eq token h]
  constructor
  · intro hsent
    rw [← Except.ok.inj hsent, ← hbytes, drop_left]
    exact hexDigits_lower v
  · intro hlower
    have hdigits : (frame.drop 4).length = 8 := by rw [length_drop, hframe]
    rw [← spellsValue_lower hdigits hlower hspells, ← htoken, take_append_drop]

theorem takeWhile_noNul {bytes : List UInt8} :
    bytes.takeWhile (· ≠ 0) = bytes ↔ 0 ∉ bytes := by
  rw [takeWhile_eq_self_iff]
  constructor
  · intro h hzero
    exact of_decide_eq_true (h 0 hzero) rfl
  · intro h b hb
    apply decide_eq_true
    rintro rfl
    exact h hb

theorem takeWhile_strncpy4 : (strncpy4 frame).takeWhile (· ≠ 0) = (frame.take 4).takeWhile (· ≠ 0) := by
  have hcopied : ∀ b ∈ (frame.take 4).takeWhile (· ≠ 0), decide (b ≠ 0) = true :=
    all_eq_true.mp all_takeWhile
  unfold strncpy4
  dsimp only
  rw [takeWhile_append_of_pos hcopied]
  cases 4 - ((frame.take 4).takeWhile (· ≠ 0)).length with
  | zero => exact append_nil _
  | succ n =>
    rw [List.replicate_succ, takeWhile_cons_of_neg (by decide), append_nil]

/-- The token of four letters has been copied whole, or there is a NUL in it. -/
theorem copied_token (hframe : frame.length = 12) (token : CString)
    (htoken : token.bytes = (strncpy4 frame).takeWhile (· ≠ 0)) :
    token.strlen = 4 ↔ 0 ∉ frame.take 4 := by
  have hfour : (frame.take 4).length = 4 := by
    rw [length_take, hframe]
    rfl
  unfold CString.strlen
  rw [htoken, takeWhile_strncpy4]
  rw [← takeWhile_noNul]
  constructor
  · intro hlength
    exact (takeWhile_sublist _).eq_of_length (hlength.trans hfour.symm)
  · intro hall
    rw [hall, hfour]

section Alone
variable {token : CString} (hframe : frame.length = 12)
include hframe

/-- With nothing behind the frame. -/
theorem dcc_r_token_int_alone (h : token.strlen = 4) :
    dcc_r_token_int m token frame = .ok (v, []) ↔
      ∃ digits, frame = token.bytes ++ digits ∧ SpellsValue digits v := by
  have hiff : dcc_r_token_int m token (frame ++ []) = .ok (v, []) ↔ _ :=
    dcc_r_token_int_iff h hframe
  rwa [append_nil] at hiff

theorem dcc_r_sometoken_int_alone {read : List UInt8} :
    dcc_r_sometoken_int m frame = .ok ((read, v), []) ↔
      read = strncpy4 frame ∧ SpellsValue (frame.drop 4) v := by
  have hiff : dcc_r_sometoken_int m (frame ++ []) = .ok ((read, v), []) ↔ _ :=
    dcc_r_sometoken_int_iff hframe
  rwa [append_nil] at hiff

theorem accepted_spells (h : token.strlen = 4) (haccepted : dcc_r_token_int m token frame = .ok (v, [])) :
    frame.take 4 = token.bytes ∧ SpellsValue (frame.drop 4) v := by
  obtain ⟨digits, rfl, hspells⟩ := (dcc_r_token_int_alone hframe h).mp haccepted
  have hbytes : token.bytes.length = 4 := h
  rw [← hbytes, take_left, drop_left]
  exact ⟨rfl, hspells⟩

theorem token_int_sent_iff (h : token.strlen = 4) :
    (∀ v, dcc_r_token_int m token frame = .ok (v, []) → dcc_x_token_int token v = .ok frame) ↔
      (frame.take 4 = token.bytes → ReadsToEnd (frame.drop 4) →
        ∀ b ∈ frame.drop 4, isLowerHex b = true) := by
  constructor
  · intro hclaim htoken ⟨v, hspells⟩
    have haccepted : dcc_r_token_int m token frame = .ok (v, []) :=
      (dcc_r_token_int_alone hframe h).mpr
        ⟨frame.drop 4, by rw [← htoken, take_append_drop], hspells⟩
    exact (sent_iff h hframe htoken hspells).mp (hclaim v haccepted)
  · intro hlower v haccepted
    obtain ⟨htoken, hspells⟩ := accepted_spells hframe h haccepted
    exact (sent_iff h hframe htoken hspells).mpr (hlower htoken ⟨v, hspells⟩)

/-- The token that is read is cut at its first NUL. -/
theorem sometoken_int_sent_iff :
    (∀ read v, ∀ t : CString, dcc_r_sometoken_int m frame = .ok ((read, v), []) →
        t.bytes = read.takeWhile (· ≠ 0) → dcc_x_token_int t v = .ok frame) ↔
      (ReadsToEnd (frame.drop 4) →
        0 ∉ frame.take 4 ∧ ∀ b ∈ frame.drop 4, isLowerHex b = true) := by
  constructor
  · intro hclaim ⟨v, hspells⟩
    have hnotNul : ∀ b ∈ (strncpy4 frame).takeWhile (· ≠ 0), b ≠ 0 :=
      fun b hb => of_decide_eq_true (all_eq_true.mp all_takeWhile b hb)
    let t : CString := ⟨_, hnotNul⟩
    have hsent := hclaim _ v t ((dcc_r_sometoken_int_alone hframe).mpr ⟨rfl, hspells⟩) rfl
    have hfour : t.strlen = 4 := by
      by_contra hnot
      rw [dcc_x_token_int, if_pos hnot] at hsent
      cases hsent
    have hnul := (copied_token hframe t rfl).mp hfour
    have htoken : frame.take 4 = t.bytes := by
      rw [← takeWhile_noNul.mpr hnul, ← takeWhile_strncpy4]
    exact ⟨hnul, (sent_iff hfour hframe htoken hspells).mp hsent⟩
  · intro hlower read v t haccepted ht
    obtain ⟨rfl, hspells⟩ := (dcc_r_sometoken_int_alone hframe).mp haccepted
    obtain ⟨hnul, hlower⟩ := hlower ⟨v, hspells⟩
    have hfour := (copied_token hframe t ht).mpr hnul
    have htoken : frame.take 4 = t.bytes := by
      rw [ht, takeWhile_strncpy4, takeWhile_noNul.mpr hnul]
    exact (sent_iff hfour hframe htoken hspells).mpr hlower

end Alone

theorem hexFrame_length {token : CString} (h : token.strlen = 4) (v : BitVec 32) :
    (token.bytes ++ hexDigits v).length = 12 := by
  have hbytes : token.bytes.length = 4 := h
  rw [length_append, hbytes, hexDigits_length]

theorem token_int_received (m : Machine) {token : CString} (h : token.strlen = 4) (v : BitVec 32)
    (rest : List UInt8) :
    dcc_r_token_int m token (token.bytes ++ hexDigits v ++ rest) = .ok (v, rest) :=
  (dcc_r_token_int_iff h (hexFrame_length h v)).mpr ⟨_, rfl, hexDigits_spells v⟩

theorem token_int_read_back {token : CString} (h : token.strlen = 4) (v : BitVec 32)
    (rest : List UInt8) : ∃ frame, dcc_x_token_int token v = .ok frame ∧ frame.length = 12 ∧
      dcc_r_token_int m token (frame ++ rest) = .ok (v, rest) :=
  ⟨_, dcc_x_token_int_eq token h v, hexFrame_length h v, token_int_received m h v rest⟩

/-- A frame that is sent is read back. Besides it, other spellings of the value are
accepted: those that `strtoul` reads to their end. So just those frames are taken as they
were sent whose number, if it is read to the end, has lower-case digits only; for any token,
it must be without a NUL too. -/
theorem token_int_frames (m : Machine) (token : CString) (h : token.strlen = 4) :
    (∀ v rest, ∃ frame, dcc_x_token_int token v = .ok frame ∧ frame.length = 12 ∧
      dcc_r_token_int m token (frame ++ rest) = .ok (v, rest)) ∧
    ∀ frame, frame.length = 12 →
      ((∀ v, dcc_r_token_int m token frame = .ok (v, []) → dcc_x_token_int token v = .ok frame) ↔
        (frame.take 4 = token.bytes → ReadsToEnd (frame.drop 4) →
          ∀ b ∈ frame.drop 4, isLowerHex b = true)) ∧
      ((∀ read v, ∀ t : CString, dcc_r_sometoken_int m frame = .ok ((read, v), []) →
          t.bytes = read.takeWhile (· ≠ 0) → dcc_x_token_int t v = .ok frame) ↔
        (ReadsToEnd (frame.drop 4) →
          0 ∉ frame.take 4 ∧ ∀ b ∈ frame.drop 4, isLowerHex b = true)) ∧
      ∀ v, (dcc_r_token_int m token frame = .ok (v, []) ↔
          ∃ digits, frame = token.bytes ++ digits ∧ SpellsValue digits v) ∧
        (∀ read, dcc_r_sometoken_int m frame = .ok ((read, v), []) ↔
          read = strncpy4 frame ∧ SpellsValue (frame.drop 4) v) ∧
        (dcc_r_token_int m token frame = .ok (v, []) →
          ((∀ b ∈ frame.drop 4, isLowerHex b = true) ↔ dcc_x_token_int token v = .ok frame)) := by
  refine ⟨fun v rest => token_int_read_back h v rest, fun frame hframe => ⟨?_, ?_, ?_⟩⟩
  · exact token_int_sent_iff hframe h
  · exact sometoken_int_sent_iff hframe
  · intro v
    refine ⟨dcc_r_token_int_alone hframe h, fun read => dcc_r_sometoken_int_alone hframe, ?_⟩
    intro haccepted
    obtain ⟨htoken, hspells⟩ := accepted_spells hframe h haccepted
    exact (sent_iff h hframe htoken hspells).symm

end Frames

def lp64 : Machine where
  ulongBits := 64
  sizeBits := 64
  ulong_wide := by decide
  size_wide := by decide
  malloc := fun _ => true
  readError := none

theorem token_int_frames_done :
    DONE.strlen = 4 ∧ ∃ frame, dcc_x_token_int DONE 3 = .ok frame ∧ frame.length = 12 ∧
      dcc_r_token_int lp64 DONE (frame ++ []) = .ok (3, []) :=
  ⟨rfl, (token_int_frames lp64 DONE rfl).1 3 []⟩

/-- A plus and seven digits are accepted. -/
theorem signed_frame_accepted :
    ∃ frame v, frame.length = 12 ∧ dcc_r_token_int lp64 DONE frame = .ok (v, []) ∧
      dcc_x_token_int DONE v ≠ .ok frame :=
  ⟨ascii "DONE+0000003", 3, by decide, by decide, by decide⟩

end Toolwhip.Distcc
