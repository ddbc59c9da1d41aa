import Mathlib.Data.UInt

/-! # Words in memory, in either byte order -/

set_option autoImplicit false

/-! ## Little-endian words in a memory of bytes

Storing and loading a word of any number of bytes, its lowest byte first. -/

namespace Toolwhip.Lib.LittleEndian

abbrev Memory := Int → BitVec 8

def load (mem : Memory) : Int → (n : Nat) → BitVec (8 * n)
  | _, 0 => 0#0
  | addr, n + 1 => load mem (addr + 1) n ++ mem addr

def store : Memory → Int → (n : Nat) → BitVec (8 * n) → Memory
  | mem, _, 0, _ => mem
  | mem, addr, n + 1, v =>
    store (Function.update mem addr (v.extractLsb' 0 8)) (addr + 1) n (v.extractLsb' 8 (8 * n))

theorem store_outside (mem : Memory) (addr : Int) {n : Nat} (v : BitVec (8 * n)) {i : Int}
    (h : i < addr ∨ addr + n ≤ i) : store mem addr n v i = mem i := by
  induction n generalizing mem addr with
  | zero => rfl
  | succ n ih =>
    unfold store
    rw [ih, Function.update_of_ne]
    · omega
    · omega

theorem append_extract {n : Nat} (v : BitVec (8 * (n + 1))) :
    (v.extractLsb' 8 (8 * n) ++ v.extractLsb' 0 8 : BitVec (8 * n + 8)) = v := by
  apply BitVec.eq_of_getLsbD_eq
  intro i hi
  rw [BitVec.getLsbD_append]
  by_cases h : i < 8
  · simp [h]
  simp only [h, if_false, decide_false, BitVec.getLsbD_extractLsb']
  rw [show 8 + (i - 8) = i by omega]
  simp
  omega

theorem load_store (mem : Memory) (addr : Int) {n : Nat} (v : BitVec (8 * n)) :
    load (store mem addr n v) addr n = v := by
  induction n generalizing mem addr with
  | zero => exact BitVec.eq_of_zero_length rfl
  | succ n ih =>
    unfold load store
    rw [ih, store_outside _ _ _ (Or.inl (by omega)), Function.update_self]
    exact append_extract v

end Toolwhip.Lib.LittleEndian

/-! ## Big-endian records

Numbers as bytes, the highest byte first, and records that are a row of 32-bit words. -/

namespace Toolwhip.Lib.BigEndian
open List

def encode : Nat → Nat → List UInt8
  | 0, _ => []
  | k + 1, n => encode k (n / 256) ++ [UInt8.ofNat n]

def decode (bytes : List UInt8) : Nat := bytes.foldl (fun n b => n * 256 + b.toNat) 0

@[simp] theorem length_encode (k n : Nat) : (encode k n).length = k := by
  induction k generalizing n with
  | zero => rfl
  | succ k ih =>
    unfold encode
    rw [length_append, ih]
    rfl

theorem decode_append_byte (bytes : List UInt8) (b : UInt8) :
    decode (bytes ++ [b]) = decode bytes * 256 + b.toNat := by
  unfold decode
  rw [foldl_append]
  rfl

theorem decode_encode (k n : Nat) : decode (encode k n) = n % 256 ^ k := by
  induction k generalizing n with
  | zero =>
    rw [Nat.pow_zero, Nat.mod_one]
    rfl
  | succ k ih =>
    have hbyte : (UInt8.ofNat n).toNat = n % 256 := rfl
    unfold encode
    rw [decode_append_byte, ih, hbyte, Nat.pow_succ, Nat.mul_comm (256 ^ k), Nat.mod_mul]
    omega

def word (bytes : List UInt8) (i : Nat) : Nat := decode ((bytes.drop (4 * i)).take 4)

def encodeWords (words : List Nat) : List UInt8 := words.flatMap (encode 4)

theorem length_encodeWords (words : List Nat) : (encodeWords words).length = 4 * words.length := by
  induction words with
  | nil => rfl
  | cons n words ih =>
    unfold encodeWords at ih ⊢
    rw [flatMap_cons, length_append, ih, length_encode, length_cons]
    omega

theorem word_encodeWords {words : List Nat} {i : Nat} (hi : i < words.length) (rest : List UInt8) :
    word (encodeWords words ++ rest) i = words[i] % 2 ^ 32 := by
  induction words generalizing i with
  | nil => cases hi
  | cons n words ih =>
    have hcons : encodeWords (n :: words) ++ rest = encode 4 n ++ (encodeWords words ++ rest) := by
      unfold encodeWords
      rw [flatMap_cons, append_assoc]
    rw [hcons]
    unfold word at ih ⊢
    cases i with
    | zero =>
      rw [Nat.mul_zero, drop_zero, take_append_of_le_length (by simp),
        take_of_length_le (by simp), decode_encode]
      rfl
    | succ i =>
      have hdrop : 4 * (i + 1) = (encode 4 n).length + 4 * i := by
        rw [length_encode]
        omega
      rw [hdrop, drop_length_add_append, ih (Nat.lt_of_succ_lt_succ hi)]
      rfl

end Toolwhip.Lib.BigEndian
