import Toolwhip.Lib.ByteBuffer

/-! # A mapped file

The bytes of a file at an address, and parts of it. A load or a store that leaves the
part it is meant for is a violation. Pointers are 64 bits wide and wrap around. -/

namespace Toolwhip.Lib.MappedFile
open Lib.ByteBuffer
set_option autoImplicit false

structure Mapped where
  base : Nat
  bytes : List UInt8
  /-- the pointer past the end does not wrap around -/
  fits : base + bytes.length < 2 ^ 64

structure Region where
  start : Nat
  size : Nat
  deriving DecidableEq, Repr

/-- What a function must not do. -/
inductive Violation where
  | load
  | store
  /-- a size that an int cannot hold is stored in one -/
  | size
  deriving DecidableEq, Repr

def whole (f : Mapped) : Region := ⟨0, f.bytes.length⟩

def pointer (f : Mapped) (r : Region) (pos : Nat) : Nat := (f.base + r.start + pos) % 2 ^ 64

/-- `last` after `first` is in the part: what comparisons of pointers say about a range. -/
def rangeInside (f : Mapped) (r : Region) (first : Nat) (len : Nat) : Bool :=
  let first := pointer f r first
  let last := (first + len) % 2 ^ 64
  !(first < pointer f r 0 || last > pointer f r r.size || last < first)

def peek (f : Mapped) (r : Region) (pos len : Nat) : List UInt8 :=
  (f.bytes.drop (r.start + pos)).take len

def load (f : Mapped) (r : Region) (pos len : Nat) : Except Violation (List UInt8) :=
  if pos + len ≤ r.size then .ok (peek f r pos len) else .error .load

def inside (outer inner : Region) : Prop :=
  outer.start ≤ inner.start ∧ inner.start + inner.size ≤ outer.start + outer.size

instance (outer inner : Region) : Decidable (inside outer inner) :=
  inferInstanceAs (Decidable (_ ∧ _))

theorem writeAt_fits (f : Mapped) (pos : Nat) (new : List UInt8)
    (h : pos + new.length ≤ f.bytes.length) :
    f.base + (writeAt f.bytes pos new).length < 2 ^ 64 := by
  have := f.fits
  by_cases hnil : new = []
  · rw [writeAt, if_pos hnil]
    exact this
  · rw [length_writeAt _ _ hnil]
    omega

/-- The store is meant for `target`, which has to be in `r` and in the file. -/
def store (f : Mapped) (r target : Region) (pos : Nat) (new : List UInt8) :
    Except Violation Mapped :=
  if h : pos + new.length ≤ target.size ∧ inside r target ∧ inside (whole f) r then
    .ok ⟨f.base, writeAt f.bytes (target.start + pos) new, writeAt_fits f _ _ (by
      obtain ⟨h₁, ⟨_, h₂⟩, _, h₃⟩ := h
      simp only [whole] at h₃
      omega)⟩
  else .error .store

section Facts
variable {f f' : Mapped} {r target : Region} {pos len : Nat} {bytes new : List UInt8}

theorem load_ok (h : load f r pos len = .ok bytes) :
    pos + len ≤ r.size ∧ bytes = peek f r pos len := by
  unfold load at h
  split at h
  · exact ⟨by assumption, (Except.ok.inj h).symm⟩
  · cases h

theorem load_of_le (h : pos + len ≤ r.size) : load f r pos len = .ok (peek f r pos len) :=
  if_pos h

theorem store_ok (h : store f r target pos new = .ok f') :
    f'.base = f.base ∧ f'.bytes.length = f.bytes.length ∧
      ∀ i, i < target.start ∨ target.start + target.size ≤ i →
        f'.bytes.getD i 0 = f.bytes.getD i 0 := by
  unfold store at h
  split at h
  · rename_i hin
    obtain ⟨h₁, ⟨_, h₂⟩, _, h₃⟩ := hin
    simp only [whole] at h₃
    obtain rfl := Except.ok.inj h
    refine ⟨rfl, ?_, ?_⟩
    · by_cases hnil : new = []
      · simp [writeAt, hnil]
      simp only [length_writeAt _ _ hnil]
      omega
    · intro i hi
      simp only [getD_writeAt]
      rw [if_neg (by omega)]
  · cases h

theorem store_of_inside (h₁ : pos + new.length ≤ target.size) (h₂ : inside r target)
    (h₃ : inside (whole f) r) : ∃ f', store f r target pos new = .ok f' := by
  unfold store
  rw [dif_pos ⟨h₁, h₂, h₃⟩]
  exact ⟨_, rfl⟩

theorem rangeInside_iff (hr : inside (whole f) r) (hpos : pos < 2 ^ 32) (hlen : len < 2 ^ 32) :
    rangeInside f r pos len = true ↔ pos + len ≤ r.size := by
  have hfits := f.fits
  obtain ⟨_, hend⟩ := hr
  simp only [whole] at hend
  unfold rangeInside pointer
  simp only [Bool.not_eq_true', Bool.or_eq_false_iff, decide_eq_false_iff_not]
  omega

end Facts
end Toolwhip.Lib.MappedFile
