import Toolwhip.Lib.ByteBuffer
import Toolwhip.Lib.ThrowingFold
import Toolwhip.Distcc.FileSet

/-! # Replacing in a buffer that grows

`dcc_replace_substring` with its buffer, whose size and position are `int`s: every write is checked
against the size allocated so far, and a size that is no `int` any more is negative and cannot be
allocated. -/

namespace Toolwhip.Distcc.Buffered
open Lib.Substring Lib.ByteBuffer Lib.ThrowingFold List
set_option autoImplicit false

/-- The value that an `int` has when it is given `n`. -/
def int (n : Int) : Int := n.bmod (2 ^ 32)

inductive Stop where
  /-- a write past the buffer, or a string without its NUL -/
  | past
  /-- `out_error`, which returns the null pointer -/
  | out_error
  deriving DecidableEq

structure Buffer where
  buf : List UInt8
  buf_pos : Int
  buf_size : Int

def Buffer.write (b : Buffer) (bytes : List UInt8) (moves : Int) : Except Stop Buffer :=
  if 0 ≤ b.buf_pos ∧ b.buf_pos + bytes.length ≤ b.buf_size then
    .ok { b with buf := writeAt b.buf b.buf_pos.toNat bytes, buf_pos := int (b.buf_pos + moves) }
  else .error .past

/-- `malloc` and `realloc`: as a `size_t` a negative size is one that no memory has. -/
def Buffer.alloc (b : Buffer) (size : Int) : Except Stop Buffer :=
  if 0 ≤ size then .ok { b with buf_size := size } else .error .out_error

section Code
variable (find replace : List UInt8)

def len_change : Int := max 0 (int (int replace.length - int find.length))

def grow (b : Buffer) : Except Stop Buffer :=
  if len_change find replace ≠ 0 then b.alloc (int (b.buf_size + len_change find replace)) else .ok b

def replaceNext (b : Buffer) (before : List UInt8) : Except Stop Buffer := do
  let b ← grow find replace b
  let b ← b.write before before.length
  b.write (replace ++ [0]) (int replace.length)

def copyRest (b : Buffer) (s : List UInt8) (s_left : Int) : Except Stop Buffer :=
  if s_left ≠ 0 then b.write (s ++ [0]) s_left else .ok b

def finish (b : Buffer) (s : List UInt8) (s_left : Int) : Except Stop Buffer := do
  let b ← copyRest b s s_left
  b.write [0] 1

/-- The loop over the matches: `strstr` is `splitFirst`. -/
def replaceLoop : Nat → Buffer → List UInt8 → Int → Except Stop Buffer
  | 0, _, _, _ => .error .past
  | fuel + 1, b, s, s_left =>
    match splitFirst find s with
    | none => finish b s s_left
    | some (before, after) => do
      let b ← replaceNext find replace b before
      replaceLoop fuel b after (int (int (s_left - before.length) - int find.length))

/-- If the last `realloc` fails, the buffer stays. -/
def Buffer.downsize (b : Buffer) : Buffer :=
  if 0 ≤ b.buf_pos ∧ b.buf_pos < b.buf_size then
    { b with buf := b.buf.take b.buf_pos.toNat, buf_size := b.buf_pos }
  else b

def Buffer.string (b : Buffer) : Except Stop (List UInt8) :=
  (cstringAt b.buf 0).elim (.error .past) .ok

end Code

def dcc_replace_substring (s find replace : List UInt8) : Except Stop (List UInt8) := do
  if int find.length = 0 then .error .out_error
  let b ← Buffer.alloc ⟨[], 0, 0⟩ (int (int s.length + 1))
  let b ← replaceLoop find replace (s.length + 1) b s (int s.length)
  b.downsize.string

def dcc_xci_mask_developer_dir (dir path : List UInt8) : Except Stop (List UInt8) :=
  dcc_replace_substring path dir xci_dev_dir_token

def dcc_xci_unmask_developer_dir (dir path : List UInt8) : Except Stop (List UInt8) :=
  dcc_replace_substring path xci_dev_dir_token dir

/-! ## The invariant -/

structure Written (b : Buffer) (out : List UInt8) : Prop where
  written : b.buf.take out.length = out
  place : b.buf_pos = out.length
  size : b.buf_size < 2 ^ 31

/-- What is left of the string still fits, with its NUL. -/
structure Holds (b : Buffer) (out s : List UInt8) : Prop extends Written b out where
  room : out.length + s.length + 1 ≤ b.buf_size

theorem int_eq {n : Int} (hn : 0 ≤ n) (hlt : n < 2 ^ 31) : int n = n := by
  apply Int.bmod_eq_of_le
  · omega
  · omega

theorem int_lt (n : Int) : int n < 2 ^ 31 := by
  have hlt := Int.bmod_lt (x := n) (m := 2 ^ 32) (by omega)
  exact lt_of_lt_of_eq hlt rfl

theorem int_neg {n : Int} (hn : 2 ^ 31 ≤ n) (hlt : n < 2 ^ 32) : int n < 0 := by
  have heq : int n = int (n - 2 ^ 32) := by
    have hwrap := Int.sub_mul_bmod_self_left n (2 ^ 32) 1
    rw [Int.mul_one] at hwrap
    exact hwrap.symm
  rw [heq, int, Int.bmod_eq_of_le]
  · omega
  · omega
  · omega

theorem take_writeAt {buf : List UInt8} (bytes more : List UInt8) {pos : Nat} (h : pos ≤ buf.length) :
    (writeAt buf pos (bytes ++ more)).take (pos + bytes.length) = buf.take pos ++ bytes := by
  have hfill : List.replicate (pos - buf.length) (0 : UInt8) = [] := by
    rw [Nat.sub_eq_zero_of_le h]
    rfl
  have hlength : (buf.take pos).length = pos := length_take_of_le h
  unfold writeAt
  split
  · rename_i hnil
    obtain ⟨rfl, rfl⟩ := List.append_eq_nil_iff.mp hnil
    simp
  · rw [hfill, append_nil, ← append_assoc, append_assoc, take_left']
    rw [length_append, hlength]

section Steps
variable {b : Buffer} {out s : List UInt8} {find replace : List UInt8}

theorem Written.write (bytes more : List UInt8) (h : Written b out)
    (hroom : out.length + (bytes ++ more).length ≤ b.buf_size) :
    ∃ b', b.write (bytes ++ more) bytes.length = .ok b' ∧ b'.buf_size = b.buf_size ∧
      Written b' (out ++ bytes) := by
  have hpos : out.length ≤ b.buf.length := by
    conv => lhs; rw [← h.written]
    exact length_take_le' _ _
  have hsize := h.size
  have hplace := h.place
  rw [length_append] at hroom
  have hmoved : int (b.buf_pos + bytes.length) = (out ++ bytes).length := by
    rw [int_eq (by omega) (by omega), hplace, length_append]
    rfl
  have htake : (writeAt b.buf b.buf_pos.toNat (bytes ++ more)).take (out ++ bytes).length =
      out ++ bytes := by
    rw [hplace, Int.toNat_natCast, length_append, take_writeAt _ _ hpos, h.written]
  refine ⟨_, if_pos ⟨by omega, ?_⟩, rfl, htake, hmoved, hsize⟩
  rw [length_append]
  omega

theorem len_change_eq (hfind : find.length < 2 ^ 31) (hreplace : replace.length < 2 ^ 31) :
    len_change find replace = (replace.length - find.length : Nat) := by
  have hsub : int ((replace.length : Int) - find.length) = replace.length - find.length := by
    apply Int.bmod_eq_of_le
    · omega
    · omega
  have hfind' : int find.length = find.length := int_eq (by omega) (by omega)
  have hreplace' : int replace.length = replace.length := int_eq (by omega) (by omega)
  rw [len_change, hfind', hreplace', hsub]
  omega

/-- The growth of the buffer ends the run when the new size is no `int`. -/
theorem grow_spec (h : Holds b out s) (hfind : find.length < 2 ^ 31)
    (hreplace : replace.length < 2 ^ 31) :
    grow find replace b =
      if b.buf_size + (replace.length - find.length : Nat) < 2 ^ 31 then
        .ok { b with buf_size := b.buf_size + (replace.length - find.length : Nat) }
      else .error .out_error := by
  have hsize := h.size
  have hroom := h.room
  rw [grow, len_change_eq hfind hreplace]
  generalize hchange : replace.length - find.length = change
  have hlt : change < 2 ^ 31 := by omega
  by_cases hzero : change = 0
  · subst hzero
    rw [if_neg (by simp), if_pos (by omega)]
    simp
  rw [if_pos (by omega), Buffer.alloc]
  by_cases hfits : b.buf_size + (change : Int) < 2 ^ 31
  · rw [if_pos hfits, int_eq (by omega) hfits, if_pos (by omega)]
  · rw [if_neg hfits, if_neg]
    exact Int.not_le.mpr (int_neg (by omega) (by omega))

theorem replaceNext_spec {before after : List UInt8} (h : Holds b out s)
    (hs : s = before ++ (find ++ after))
    (hreplace : replace.length < 2 ^ 31) :
    if b.buf_size + (replace.length - find.length : Nat) < 2 ^ 31 then
      ∃ b', replaceNext find replace b before = .ok b' ∧
        b'.buf_size = b.buf_size + (replace.length - find.length : Nat) ∧
        Holds b' (out ++ before ++ replace) after
    else replaceNext find replace b before = .error .out_error := by
  have hroom := h.room
  have hsize := h.size
  have hlength : s.length = before.length + (find.length + after.length) := by simp [hs]
  have hgrow := @grow_spec b out s find replace h (by omega) hreplace
  by_cases hfits : b.buf_size + (replace.length - find.length : Nat) < 2 ^ 31
  case neg =>
    rw [if_neg hfits] at hgrow ⊢
    rw [replaceNext, hgrow]
    rfl
  case pos =>
    rw [if_pos hfits] at hgrow ⊢
    have hgrown : Holds { b with buf_size := b.buf_size + (replace.length - find.length : Nat) } out s :=
      ⟨⟨h.written, h.place, hfits⟩, by simp only; omega⟩
    obtain ⟨b₁, hfirst, hsize₁, h₁⟩ := hgrown.write before [] (by simp only [append_nil]; omega)
    rw [append_nil] at hfirst
    obtain ⟨b₂, hsecond, hsize₂, h₂⟩ := h₁.write replace [0]
      (by simp only [length_append, length_singleton, hsize₁]; omega)
    refine ⟨b₂, ?_, hsize₂.trans hsize₁, h₂, ?_⟩
    · rw [replaceNext, hgrow, int_eq (by omega) (by omega)]
      show (Buffer.write _ _ _).bind _ = _
      rw [hfirst]
      exact hsecond
    · rw [hsize₂, hsize₁]
      simp only [length_append]
      omega

/-- The last `realloc` leaves the string and its NUL. -/
theorem Written.string (h : Written b (out ++ [0])) (hout : 0 ∉ out) : b.downsize.string = .ok out := by
  have hplace := h.place
  have htake := h.written
  have hstring : ∀ rest, cstringAt (out ++ [0] ++ rest) 0 = some out := by
    intro rest
    exact cstringAt_of_prefix hout (by rw [drop_zero]; exact prefix_append _ _)
  unfold Buffer.downsize Buffer.string
  split
  · rw [hplace, Int.toNat_natCast]
    simp only [htake]
    have := hstring []
    rw [append_nil] at this
    rw [this]
    rfl
  · rw [← take_append_drop (out ++ [0]).length b.buf, htake, hstring]
    rfl

theorem finish_spec (h : Holds b out s) (hout : 0 ∉ out) (hs : 0 ∉ s) :
    (finish b s s.length).bind (fun b => b.downsize.string) = .ok (out ++ s) := by
  have hroom := h.room
  have hcopied : ∃ b', copyRest b s s.length = .ok b' ∧ b'.buf_size = b.buf_size ∧
    Written b' (out ++ s) := by
    by_cases hnil : s = []
    · subst hnil
      exact ⟨b, rfl, rfl, by rw [append_nil]; exact h.toWritten⟩
    rw [copyRest, if_pos (by simpa using hnil)]
    exact h.write s [0] (by simp only [length_append, length_singleton]; omega)
  obtain ⟨b₁, hcopy, hsize, h₁⟩ := hcopied
  obtain ⟨b₂, hend, -, h₂⟩ := h₁.write [0] [] (by
    simp only [length_append, append_nil, length_singleton]
    omega)
  have hfinish : finish b s s.length = .ok b₂ := by
    rw [finish, hcopy]
    exact hend
  rw [hfinish]
  exact h₂.string (by simp [hout, hs])

theorem replaceLoop_spec {fuel : Nat} (hfind : find ≠ []) (hreplace : 0 ∉ replace)
    (hlong : replace.length < 2 ^ 31) (hfuel : s.length ≤ fuel) (h : Holds b out s) (hout : 0 ∉ out)
    (hs : 0 ∉ s) :
    (replaceLoop find replace (fuel + 1) b s s.length).bind (fun b => b.downsize.string) =
      if b.buf_size +
          (((piecesWithin find fuel s).length - 1) * (replace.length - find.length) : Nat) <
          2 ^ 31 then
        .ok (out ++ replaceWithin find replace fuel s)
      else .error .out_error := by
  induction fuel generalizing b out s with
  | zero =>
    obtain rfl := List.length_eq_zero_iff.mp (Nat.le_zero.mp hfuel)
    rw [if_pos]
    · exact finish_spec h hout hs
    · simpa [piecesWithin] using h.size
  | succ fuel ih =>
    rw [replaceLoop, replaceWithin, piecesWithin]
    cases hsplit : splitFirst find s with
    | none =>
      rw [if_pos]
      · exact finish_spec h hout hs
      · simpa using h.size
    | some split =>
      obtain ⟨before, after⟩ := split
      have heq := splitFirst_eq hsplit
      have hlength : s.length = before.length + (find.length + after.length) := by simp [heq]
      have hpos := List.length_pos_iff.mpr hfind
      have hnext := replaceNext_spec h heq hlong
      generalize hchange : replace.length - find.length = change at hnext ih ⊢
      have hsum : ((before :: piecesWithin find fuel after).length - 1) * change =
          ((piecesWithin find fuel after).length - 1) * change + change := by
        have hsome : 0 < (piecesWithin find fuel after).length :=
          List.length_pos_iff.mpr piecesWithin_ne_nil
        rw [← Nat.succ_mul, length_cons]
        congr 1
        omega
      simp only [hsum]
      generalize hmore : ((piecesWithin find fuel after).length - 1) * change = more at ih ⊢
      by_cases hfits : b.buf_size + (change : Int) < 2 ^ 31
      case neg =>
        rw [if_neg hfits] at hnext
        rw [if_neg (by omega)]
        show ((replaceNext find replace b before).bind _).bind _ = _
        rw [hnext]
        rfl
      case pos =>
        rw [if_pos hfits] at hnext
        obtain ⟨b', hok, hsize, hb'⟩ := hnext
        have hroom := h.room
        have hlt := h.size
        have hleft : int (int (s.length - before.length) - int find.length) = after.length := by
          rw [int_eq (n := (s.length : Int) - before.length) (by omega) (by omega),
            int_eq (n := (find.length : Int)) (by omega) (by omega), int_eq (by omega) (by omega)]
          omega
        have hplain : 0 ∉ before ∧ 0 ∉ after := by
          rw [heq] at hs
          simp only [mem_append, not_or] at hs
          exact ⟨hs.1, hs.2.2⟩
        show ((replaceNext find replace b before).bind _).bind _ = _
        rw [hok, hleft]
        show (replaceLoop find replace (fuel + 1) b' after after.length).bind _ = _
        rw [ih (by omega) hb' (by simp [hout, hplain.1, hreplace]) hplain.2, hsize, hmore]
        simp only [append_assoc, Int.add_assoc, Int.natCast_add, Int.add_comm]

theorem write_ok {b' : Buffer} {bytes : List UInt8} {moves : Int} (h : b.write bytes moves = .ok b') :
    bytes.length ≤ b.buf_size ∧ b'.buf_size = b.buf_size := by
  unfold Buffer.write at h
  split at h
  · cases h
    exact ⟨by omega, rfl⟩
  · cases h

theorem replace_lt_of_replaceNext {b' : Buffer} {before : List UInt8}
    (h : replaceNext find replace b before = .ok b')
    (hsize : b.buf_size < 2 ^ 31) : replace.length < 2 ^ 31 := by
  obtain ⟨b₁, hgrow, h⟩ := bind_eq_ok.mp h
  obtain ⟨b₂, hfirst, hsecond⟩ := bind_eq_ok.mp h
  have hgrown : b₁.buf_size < 2 ^ 31 := by
    unfold grow Buffer.alloc at hgrow
    split at hgrow
    · split at hgrow
      · cases hgrow
        exact int_lt _
      · cases hgrow
    · cases hgrow
      exact hsize
  have hsame := (write_ok hfirst).2
  have hfits := (write_ok hsecond).1
  rw [length_append, length_singleton] at hfits
  omega

end Steps

/-! ## What is returned

From 4 GiB on the `int` that holds the length of the string is too small by a multiple of 2 ^ 32. -/

def occurrences (find s : List UInt8) : Nat := (pieces find s).length - 1

/-- `find` is not taken for an empty string, and the size that the buffer grows to is an `int`. -/
def Fits (s find replace : List UInt8) : Prop :=
  find.length % 2 ^ 32 ≠ 0 ∧ s.length + 1 + occurrences find s * (replace.length - find.length) < 2 ^ 31

theorem int_eq_zero_iff (n : Nat) : int n = 0 ↔ n % 2 ^ 32 = 0 := by
  rw [int, ← Int.dvd_iff_bmod_eq_zero]
  omega

section Result
variable {s find replace : CString} {t : List UInt8}

theorem dcc_replace_substring_run (h : find.bytes.length % 2 ^ 32 ≠ 0)
    (hs : s.bytes.length + 1 < 2 ^ 31) :
    dcc_replace_substring s.bytes find.bytes replace.bytes =
      (replaceLoop find.bytes replace.bytes (s.bytes.length + 1) ⟨[], 0, s.bytes.length + 1⟩ s.bytes
        s.bytes.length).bind fun b => b.downsize.string := by
  have hlength : int s.bytes.length = s.bytes.length := int_eq (by omega) (by omega)
  rw [dcc_replace_substring, if_neg (mt (int_eq_zero_iff _).mp h), hlength,
    int_eq (by omega) (by omega), Buffer.alloc,
    if_pos (by omega)]
  rfl

theorem holds_start (hs : s.bytes.length + 1 < 2 ^ 31) : Holds ⟨[], 0, s.bytes.length + 1⟩ [] s.bytes :=
  ⟨⟨rfl, rfl, by simp only; omega⟩, by simp⟩

theorem replaceAll_of_none (h : splitFirst find.bytes s.bytes = none) :
    replaceAll find.bytes replace.bytes s.bytes = s.bytes ∧ occurrences find.bytes s.bytes = 0 := by
  unfold replaceAll occurrences pieces
  cases s.bytes.length with
  | zero => exact ⟨rfl, rfl⟩
  | succ n =>
    rw [replaceWithin, piecesWithin, h]
    exact ⟨rfl, rfl⟩

theorem dcc_replace_substring_of_none (h : find.bytes.length % 2 ^ 32 ≠ 0)
    (hs : s.bytes.length + 1 < 2 ^ 31)
    (hnone : splitFirst find.bytes s.bytes = none) :
    dcc_replace_substring s.bytes find.bytes replace.bytes =
      .ok (replaceAll find.bytes replace.bytes s.bytes) := by
  rw [dcc_replace_substring_run h hs, replaceLoop, hnone, (replaceAll_of_none hnone).1]
  exact finish_spec (holds_start hs) (by simp) fun h => s.noNul 0 h rfl

/-- Below 2 GiB a string is returned, or the null pointer where the buffer cannot grow. -/
theorem dcc_replace_substring_eq (h : find.bytes.length % 2 ^ 32 ≠ 0) (hs : s.bytes.length + 1 < 2 ^ 31)
    (hreplace : replace.bytes.length < 2 ^ 31) :
    dcc_replace_substring s.bytes find.bytes replace.bytes =
      if s.bytes.length + 1 + occurrences find.bytes s.bytes *
          (replace.bytes.length - find.bytes.length) < 2 ^ 31 then
        .ok (replaceAll find.bytes replace.bytes s.bytes)
      else .error .out_error := by
  have hfind : find.bytes ≠ [] := by
    intro hnil
    exact h (by rw [hnil]; rfl)
  rw [dcc_replace_substring_run h hs, replaceLoop_spec hfind (fun h => replace.noNul 0 h rfl)
    hreplace (Nat.le_refl _)
    (holds_start hs) (by simp) fun h => s.noNul 0 h rfl]
  apply if_congr ?_ rfl rfl
  unfold occurrences pieces
  dsimp only
  omega

theorem occurrences_pos {split : List UInt8 × List UInt8}
    (h : splitFirst find.bytes s.bytes = some split) :
    0 < occurrences find.bytes s.bytes := by
  unfold occurrences pieces
  cases hs : s.bytes with
  | nil =>
    rw [hs] at h
    cases h
  | cons c rest =>
    rw [hs] at h
    rw [length_cons, piecesWithin, h]
    simp only [length_cons, Nat.add_sub_cancel]
    exact List.length_pos_iff.mpr piecesWithin_ne_nil

/-- What replaces a match has to fit in a buffer whose size is an `int`. -/
theorem replace_lt_of_ok {split : List UInt8 × List UInt8} (h : find.bytes.length % 2 ^ 32 ≠ 0)
    (hs : s.bytes.length + 1 < 2 ^ 31) (hsplit : splitFirst find.bytes s.bytes = some split)
    (hok : dcc_replace_substring s.bytes find.bytes replace.bytes = .ok t) :
    replace.bytes.length < 2 ^ 31 := by
  rw [dcc_replace_substring_run h hs, replaceLoop, hsplit] at hok
  obtain ⟨_, hloop, -⟩ := bind_eq_ok.mp hok
  obtain ⟨_, hnext, -⟩ := bind_eq_ok.mp hloop
  exact replace_lt_of_replaceNext hnext (holds_start hs).size

theorem Fits.replace_lt {split : List UInt8 × List UInt8}
    (hsplit : splitFirst find.bytes s.bytes = some split)
    (h : Fits s.bytes find.bytes replace.bytes) : replace.bytes.length < 2 ^ 31 := by
  have hgrown := h.2
  have hone := Nat.mul_le_mul_right (replace.bytes.length - find.bytes.length) (occurrences_pos hsplit)
  have hlength := congrArg List.length (splitFirst_eq hsplit)
  simp only [length_append] at hlength
  omega

theorem dcc_replace_substring_ok_iff (hs : s.bytes.length + 1 < 2 ^ 32) :
    dcc_replace_substring s.bytes find.bytes replace.bytes = .ok t ↔
      Fits s.bytes find.bytes replace.bytes ∧ t = replaceAll find.bytes replace.bytes s.bytes := by
  by_cases hfind : find.bytes.length % 2 ^ 32 = 0
  · rw [dcc_replace_substring, if_pos ((int_eq_zero_iff _).mpr hfind)]
    exact iff_of_false (by rintro ⟨⟩) fun h => h.1.1 hfind
  by_cases hlong : s.bytes.length + 1 < 2 ^ 31
  case neg =>
    have hnegative : int (int s.bytes.length + 1) < 0 := by
      rw [int, int, Int.bmod_add_bmod]
      exact int_neg (by omega) (by omega)
    rw [dcc_replace_substring, if_neg (mt (int_eq_zero_iff _).mp hfind), Buffer.alloc, if_neg (by omega)]
    exact iff_of_false (by rintro ⟨⟩) fun h => by have := h.1.2; omega
  cases hsplit : splitFirst find.bytes s.bytes with
  | none =>
    have hfits : Fits s.bytes find.bytes replace.bytes := by
      have hzero : occurrences find.bytes s.bytes = 0 := (@replaceAll_of_none s find replace hsplit).2
      refine ⟨hfind, ?_⟩
      rw [hzero]
      omega
    rw [dcc_replace_substring_of_none hfind hlong hsplit]
    simp only [Except.ok.injEq, hfits, true_and, eq_comm]
  | some split =>
    by_cases hreplace : replace.bytes.length < 2 ^ 31
    · rw [dcc_replace_substring_eq hfind hlong hreplace]
      split
      case isTrue hfits =>
        have hall : Fits s.bytes find.bytes replace.bytes := ⟨hfind, hfits⟩
        simp only [Except.ok.injEq, hall, true_and, eq_comm]
      case isFalse hfits => exact iff_of_false (by rintro ⟨⟩) fun h => hfits h.1.2
    · exact iff_of_false (fun h => hreplace (replace_lt_of_ok hfind hlong hsplit h))
        fun h => hreplace (h.1.replace_lt hsplit)

theorem dcc_replace_substring_of_fits (h : Fits s.bytes find.bytes replace.bytes) :
    dcc_replace_substring s.bytes find.bytes replace.bytes =
      .ok (replaceAll find.bytes replace.bytes s.bytes) := by
  have hgrown := h.2
  exact (dcc_replace_substring_ok_iff (by omega)).mpr ⟨h, rfl⟩

/-- Where the sizes are those of an `int`, the other models have what the function returns. -/
theorem dcc_replace_substring_models (h : Fits s.bytes find.bytes replace.bytes) :
    (dcc_replace_substring s.bytes find.bytes replace.bytes).toOption =
      Distcc.dcc_replace_substring s.bytes find.bytes replace.bytes := by
  have hfind : find.bytes ≠ [] := by
    intro hnil
    exact h.1 (by rw [hnil]; rfl)
  rw [dcc_replace_substring_of_fits h, Distcc.dcc_replace_substring, if_neg hfind]
  rfl

end Result

theorem join_piecesWithin {find s : List UInt8} (n : Nat) : join find (piecesWithin find n s) = s := by
  induction n generalizing s with
  | zero => rfl
  | succ n ih =>
    unfold piecesWithin
    cases hsplit : splitFirst find s with
    | none => rfl
    | some split =>
      rw [join_cons piecesWithin_ne_nil, ih, ← splitFirst_eq hsplit]

def token : CString where
  bytes := xci_dev_dir_token
  noNul := noNul_of_contains (by decide)

/-- What `dcc_xci_mask_developer_dir` returns, unmasked for a server whose directory is `dir'`. -/
def throughMask (dir dir' path : List UInt8) : Except Stop (List UInt8) :=
  dcc_xci_mask_developer_dir dir path >>= dcc_xci_unmask_developer_dir dir'

/-- Both calls fit. -/
def MaskFits (dir dir' path : CString) : Prop :=
  Fits path.bytes dir.bytes xci_dev_dir_token ∧ Fits (masked dir path).bytes xci_dev_dir_token dir'.bytes

section Masks
variable {dir dir' path : CString} {t : List UInt8}

theorem length_masked_lt (h : Fits path.bytes dir.bytes xci_dev_dir_token) :
    (masked dir path).bytes.length + 1 < 2 ^ 31 := by
  have hfits := h.2
  have hle : (masked dir path).bytes.length ≤ path.bytes.length +
      occurrences dir.bytes path.bytes * (xci_dev_dir_token.length - dir.bytes.length) :=
        length_replaceWithin_le
  omega

theorem throughMask_ok_iff (hpath : path.bytes.length + 1 < 2 ^ 32)
    (habsent : ¬ xci_dev_dir_token <:+: path.bytes) :
    throughMask dir.bytes dir'.bytes path.bytes = .ok t ↔
      MaskFits dir dir' path ∧ t = replaceAll dir.bytes dir'.bytes path.bytes := by
  have hback : replaceAll xci_dev_dir_token dir'.bytes (masked dir path).bytes =
      replaceAll dir.bytes dir'.bytes path.bytes := by
    rw [replaceAll_eq_join (s := path.bytes)]
    exact replaceAll_replaceAll token_unbordered habsent
  have hmask := @dcc_replace_substring_ok_iff path dir token (masked dir path).bytes hpath
  rw [← hback]
  constructor
  · intro h
    obtain ⟨_, hfirst, hsecond⟩ := bind_eq_ok.mp h
    obtain ⟨hfits, rfl⟩ := (@dcc_replace_substring_ok_iff path dir token _ hpath).mp hfirst
    have hlength := length_masked_lt hfits
    obtain ⟨hfits', ht⟩ :=
      (@dcc_replace_substring_ok_iff (masked dir path) token dir' t (by omega)).mp hsecond
    exact ⟨⟨hfits, hfits'⟩, ht⟩
  · rintro ⟨⟨hfits, hfits'⟩, rfl⟩
    exact bind_eq_ok.mpr ⟨_, hmask.mpr ⟨hfits, rfl⟩,
      @dcc_replace_substring_of_fits (masked dir path) token dir' hfits'⟩

end Masks

/-- The occurrences are replaced without a write past the buffer if the sizes are those of an `int`, and
below 4 GiB only then; and so a mask is taken off again, or leaves another directory where the first
one was. -/
theorem dcc_replace_substring_right (s find replace dir dir' path : CString) :
    (Fits s.bytes find.bytes replace.bytes → dcc_replace_substring s.bytes find.bytes replace.bytes =
      .ok (replaceAll find.bytes replace.bytes s.bytes)) ∧
    (s.bytes.length + 1 < 2 ^ 32 → dcc_replace_substring s.bytes find.bytes replace.bytes =
      .ok (replaceAll find.bytes replace.bytes s.bytes) → Fits s.bytes find.bytes replace.bytes) ∧
    (¬ xci_dev_dir_token <:+: path.bytes →
      (MaskFits dir dir' path → throughMask dir.bytes dir'.bytes path.bytes =
        .ok (replaceAll dir.bytes dir'.bytes path.bytes)) ∧
      (path.bytes.length + 1 < 2 ^ 32 → throughMask dir.bytes dir'.bytes path.bytes =
        .ok (replaceAll dir.bytes dir'.bytes path.bytes) → MaskFits dir dir' path) ∧
      replaceAll dir.bytes dir.bytes path.bytes = path.bytes) := by
  refine ⟨dcc_replace_substring_of_fits, fun hs h => ((dcc_replace_substring_ok_iff hs).mp h).1,
    fun habsent => ?_⟩
  refine ⟨fun h => ?_, fun hpath h => ((throughMask_ok_iff hpath habsent).mp h).1, ?_⟩
  · have hgrown := h.1.2
    exact (throughMask_ok_iff (by omega) habsent).mpr ⟨h, rfl⟩
  · rw [replaceAll_eq_join]
    exact join_piecesWithin _

theorem developer_dir_put_back :
    dcc_replace_substring [97, 47, 97] [97] [98, 98] = .ok [98, 98, 47, 98, 98] ∧
      throughMask [47, 68] [47, 68] [47, 68, 47, 97] = .ok [47, 68, 47, 97] := by
  obtain ⟨hreplace, -, hmask⟩ := dcc_replace_substring_right (cstring [97, 47, 97]) (cstring [97])
    (cstring [98, 98])
    (cstring [47, 68]) (cstring [47, 68]) (cstring [47, 68, 47, 97])
  constructor
  · exact hreplace ⟨by decide, by decide⟩
  · exact (hmask (by decide)).1 ⟨⟨by decide, by decide⟩, by decide, by decide⟩

section Counterexample
variable {c : UInt8}

theorem length_piecesWithin_replicate (n : Nat) :
    (piecesWithin [c] n (List.replicate n c)).length = n + 1 := by
  induction n with
  | zero => rfl
  | succ n ih =>
    have hsplit : splitFirst [c] (List.replicate (n + 1) c) = some ([], List.replicate n c) := by
      simp [List.replicate_succ, splitFirst]
    rw [piecesWithin, hsplit, length_cons, ih]

def copies (n : Nat) (c : UInt8) (hc : c ≠ 0) : CString where
  bytes := List.replicate n c
  noNul b hb := by
    rw [List.eq_of_mem_replicate hb]
    exact hc

theorem occurrences_copies (n : Nat) (hc : c ≠ 0) : occurrences [c] (copies n c hc).bytes = n := by
  show (pieces [c] (List.replicate n c)).length - 1 = n
  rw [pieces, length_replicate, length_piecesWithin_replicate, Nat.add_sub_cancel]

/-- 64 KiB of matches and 32 KiB in the place of each: the buffer would grow past 2 GiB. -/
theorem buffer_size_overflows :
    dcc_replace_substring (List.replicate 65536 97) [97] (List.replicate 32768 98) =
      .error .out_error := by
  have hs : (copies 65536 97 (by decide)).bytes.length = 65536 := length_replicate
  have hreplace : (copies 32768 98 (by decide)).bytes.length = 32768 := length_replicate
  have hfind : (copies 1 97 (by decide)).bytes.length = 1 := rfl
  have hrun := @dcc_replace_substring_eq (copies 65536 97 (by decide)) (copies 1 97 (by decide))
    (copies 32768 98 (by decide)) (by rw [hfind]; decide) (by rw [hs]; decide)
    (by rw [hreplace]; decide)
  have hmatches : occurrences (copies 1 97 (by decide)).bytes
      (copies 65536 97 (by decide)).bytes = 65536 := occurrences_copies 65536 (by decide)
  rw [hs, hreplace, hfind, hmatches, if_neg (by decide)] at hrun
  exact hrun

end Counterexample

end Toolwhip.Distcc.Buffered
