import Mathlib.Data.List.TakeWhile
import Mathlib.Data.UInt

/-! # Byte buffers

Writing a run of bytes at a position. A position beyond the end leaves a hole of
zeros, as in a file; writing nothing leaves none. -/

namespace Toolwhip.Lib.ByteBuffer
open List
set_option autoImplicit false

def writeAt (buf : List UInt8) (pos : Nat) (bytes : List UInt8) : List UInt8 :=
  if bytes = [] then buf
  else buf.take pos ++ List.replicate (pos - buf.length) 0 ++ bytes ++
    buf.drop (pos + bytes.length)

/-- The string that starts at `pos`, if its terminator is in the buffer. -/
def cstringAt (buf : List UInt8) (pos : Nat) : Option (List UInt8) :=
  if 0 ∈ buf.drop pos then some ((buf.drop pos).takeWhile (· ≠ 0)) else none

@[simp] theorem writeAt_end (buf bytes : List UInt8) :
    writeAt buf buf.length bytes = buf ++ bytes := by
  unfold writeAt
  split
  · rename_i hnil
    rw [hnil, append_nil]
  · simp

theorem length_writeAt (buf : List UInt8) (pos : Nat) {bytes : List UInt8} (h : bytes ≠ []) :
    (writeAt buf pos bytes).length = max buf.length (pos + bytes.length) := by
  rw [writeAt, if_neg h]
  simp only [length_append, length_take, length_replicate, length_drop]
  omega

theorem length_le_writeAt (buf : List UInt8) (pos : Nat) (bytes : List UInt8) :
    buf.length ≤ (writeAt buf pos bytes).length := by
  by_cases h : bytes = []
  · rw [writeAt, if_pos h]
  rw [length_writeAt buf pos h]
  exact Nat.le_max_left _ _

theorem getD_writeAt (buf : List UInt8) (pos : Nat) (bytes : List UInt8) (i : Nat) :
    (writeAt buf pos bytes).getD i 0 =
      if pos ≤ i ∧ i < pos + bytes.length then bytes.getD (i - pos) 0 else buf.getD i 0 := by
  unfold writeAt
  split
  · rename_i hnil
    rw [hnil, if_neg]
    rw [length_nil]
    omega
  simp only [getD_eq_getElem?_getD, getElem?_append, length_append,
    getElem?_drop]
  split_ifs with h1 h2 h3 h4 h5 h6 h7 <;> grind

/-- `for (p = pos; p < stop; p += unit.length)` writing `unit` at `p`. -/
def writeRepeated (unit : List UInt8) (buf : List UInt8) (pos stop : Nat) : List UInt8 :=
  (List.range ((stop - pos + unit.length - 1) / unit.length)).foldl
    (fun b k => writeAt b (pos + unit.length * k) unit) buf

theorem length_le_writeRepeated (unit buf : List UInt8) (pos stop : Nat) :
    buf.length ≤ (writeRepeated unit buf pos stop).length := by
  unfold writeRepeated
  induction (stop - pos + unit.length - 1) / unit.length with
  | zero => exact Nat.le_refl _
  | succ n ih =>
    rw [range_succ, foldl_append, foldl_cons, foldl_nil]
    exact ih.trans (length_le_writeAt _ _ _)

/-- `n` whole units are written, the last one perhaps beyond `stop`. -/
theorem getD_foldl_writeAt (unit buf : List UInt8) (pos n i : Nat) :
    ((List.range n).foldl (fun b k => writeAt b (pos + unit.length * k) unit) buf).getD i 0 =
      if pos ≤ i ∧ i < pos + unit.length * n then unit.getD ((i - pos) % unit.length) 0
      else buf.getD i 0 := by
  induction n with
  | zero =>
    rw [if_neg (by omega)]
    rfl
  | succ n ih =>
    rw [range_succ, foldl_append, foldl_cons, foldl_nil, getD_writeAt, ih]
    have hmul : unit.length * (n + 1) = unit.length * n + unit.length := by
      exact Nat.mul_succ unit.length n
    by_cases hlast : pos + unit.length * n ≤ i ∧ i < pos + unit.length * n + unit.length
    · have hmod : (i - pos) % unit.length = i - (pos + unit.length * n) := by
        have hsplit : i - pos = (i - (pos + unit.length * n)) + unit.length * n := by
          omega
        rw [hsplit, Nat.add_mul_mod_self_left, Nat.mod_eq_of_lt (by omega)]
      rw [if_pos hlast, if_pos (by omega), hmod]
    · rw [if_neg hlast]
      by_cases hbefore : pos ≤ i ∧ i < pos + unit.length * n
      · rw [if_pos hbefore, if_pos (by omega)]
      · rw [if_neg hbefore, if_neg (by omega)]

theorem getD_writeRepeated_of_lt {unit : List UInt8} (buf : List UInt8) {pos stop i : Nat}
    (hpos : pos ≤ i) (hstop : i < stop) (hunit : 0 < unit.length) :
    (writeRepeated unit buf pos stop).getD i 0 = unit.getD ((i - pos) % unit.length) 0 := by
  unfold writeRepeated
  rw [getD_foldl_writeAt, if_pos]
  have hdiv := Nat.div_add_mod (stop - pos + unit.length - 1) unit.length
  have hmod := Nat.mod_lt (stop - pos + unit.length - 1) hunit
  omega

theorem getD_writeRepeated_of_gt (unit buf : List UInt8) {pos stop i : Nat} (hpos : i < pos) :
    (writeRepeated unit buf pos stop).getD i 0 = buf.getD i 0 := by
  unfold writeRepeated
  rw [getD_foldl_writeAt, if_neg (by omega)]

/-- Beyond `stop` there can only be the tail of the last unit. -/
theorem getD_writeRepeated_of_ge {unit : List UInt8} (buf : List UInt8) {pos stop i : Nat}
    (hstop : stop ≤ i) (hunit : 0 < unit.length) (htail : ∀ k, 0 < k → unit.getD k 0 = 0) :
    (writeRepeated unit buf pos stop).getD i 0 = buf.getD i 0 ∨
      (writeRepeated unit buf pos stop).getD i 0 = 0 := by
  unfold writeRepeated
  rw [getD_foldl_writeAt]
  split
  · right
    apply htail
    have hdiv := Nat.div_add_mod (stop - pos + unit.length - 1) unit.length
    have hidiv := Nat.div_add_mod (i - pos) unit.length
    have hlt : (i - pos) / unit.length < (stop - pos + unit.length - 1) / unit.length := by
      apply Nat.lt_of_mul_lt_mul_left (a := unit.length)
      omega
    have hle := Nat.mul_le_mul_left unit.length (Nat.succ_le_of_lt hlt)
    rw [Nat.mul_succ] at hle
    omega
  · exact Or.inl rfl

theorem take_eq_take_iff {l m : List UInt8} {n : Nat} (hl : n ≤ l.length) (hm : n ≤ m.length) :
    l.take n = m.take n ↔ ∀ i < n, l.getD i 0 = m.getD i 0 := by
  constructor
  · intro h i hi
    have hget := congrArg (fun k => k.getD i 0) h
    simpa [getD_eq_getElem?_getD, getElem?_take, hi] using hget
  · intro h
    apply ext_getElem
    · rw [length_take, length_take]
      omega
    · intro i hi hi'
      rw [length_take] at hi hi'
      have hget := h i (by omega)
      have hil : i < l.length := by omega
      have him : i < m.length := by omega
      simpa [getD_eq_getElem?_getD, hil, him] using hget

section
variable {buf : List UInt8} {pos : Nat} {name : List UInt8}

theorem cstringAt_of_prefix
    (hname : 0 ∉ name) (h : name ++ [0] <+: buf.drop pos) : cstringAt buf pos = some name := by
  obtain ⟨rest, hrest⟩ := h
  unfold cstringAt
  rw [← hrest, if_pos (by simp)]
  rw [append_assoc, takeWhile_append_of_pos]
  · simp
  · intro b hb
    simp only [ne_eq, decide_not, Bool.not_eq_eq_eq_not, Bool.not_true, decide_eq_false_iff_not]
    rintro rfl
    exact hname hb

theorem length_lt_of_cstringAt (h : cstringAt buf pos = some name) : name.length < buf.length := by
  unfold cstringAt at h
  split at h
  · rename_i hmem
    cases h
    have hlen : ((buf.drop pos).takeWhile (· ≠ 0)).length < (buf.drop pos).length := by
      refine Nat.lt_of_le_of_ne (takeWhile_sublist _).length_le ?_
      intro heq
      have hall := List.takeWhile_eq_self_iff.mp
        ((takeWhile_sublist (l := buf.drop pos) (· ≠ 0)).eq_of_length heq)
      simpa using hall 0 hmem
    have := length_drop (l := buf) (i := pos)
    omega
  · cases h

theorem terminated_of_cstringAt
    (h : cstringAt buf pos = some name) : 0 ∉ name ∧ name ++ [0] <+: buf.drop pos := by
  unfold cstringAt at h
  split at h
  · rename_i hmem
    obtain ⟨before, after, hsplit, hnot⟩ := eq_append_cons_of_mem hmem
    rw [hsplit, takeWhile_append_of_pos, takeWhile_cons_of_neg (by simp)] at h
    · cases h
      rw [hsplit, append_nil]
      exact ⟨hnot, after, by simp⟩
    · intro b hb
      simp only [ne_eq, decide_not, Bool.not_eq_eq_eq_not, Bool.not_true, decide_eq_false_iff_not]
      rintro rfl
      exact hnot hb
  · cases h

theorem cstringAt_append (more : List UInt8)
    (h : cstringAt buf pos = some name) : cstringAt (buf ++ more) pos = some name := by
  obtain ⟨hname, hpre⟩ := terminated_of_cstringAt h
  apply cstringAt_of_prefix hname
  rw [drop_append]
  exact hpre.trans (prefix_append _ _)

end

theorem cstringAt_eq_none {buf : List UInt8} {pos : Nat} (h : 0 ∉ buf.drop pos) :
    cstringAt buf pos = none :=
  if_neg h

end Toolwhip.Lib.ByteBuffer
