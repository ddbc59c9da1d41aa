import Toolwhip.Lib.ByteBuffer

/-! # StringsLinkEditAtom

The string pool is a row of full buffers and a current one. Of a buffer the
model holds the bytes that have been written; reading past a string's terminator,
or memory that was never written, has no result. -/

set_option autoImplicit false

namespace Toolwhip.Ld64
open Lib.ByteBuffer

@[irreducible] def kBufferSize : Nat := 0x01000000

theorem kBufferSize_eq : kBufferSize = 16777216 := by
  unfold kBufferSize
  rfl

def toInt32 (n : Nat) : Int := (n : Int).bmod (2 ^ 32)

/-- A `const char*`: the characters before the terminator. -/
structure CString where
  chars : List UInt8
  noNul : 0 ∉ chars

structure StringPool where
  fFullBuffers : List (List UInt8) := []
  fCurrentBuffer : List UInt8 := [0x20, 0]
  fCurrentBufferUsed : Nat := 2
  fUniqueStrings : List UInt8 → Option Int := fun _ => none

/-- `strlcpy(&buf[pos], src, size)` for a string `src`. -/
def strlcpy (buf : List UInt8) (pos size : Nat) (src : List UInt8) : List UInt8 :=
  if size = 0 then buf else writeAt buf pos (src.take (size - 1) ++ [0])

namespace StringPool
variable {s : StringPool}

def nextOffset (s : StringPool) : Int :=
  toInt32 (kBufferSize * s.fFullBuffers.length + s.fCurrentBufferUsed)

/-- `lenNeeded` is an `int` that is added to a `uint32_t`. -/
def usedAfter (s : StringPool) (name : List UInt8) : Nat :=
  (s.fCurrentBufferUsed + (name.length + 1)) % 2 ^ 32

def copyIn (s : StringPool) (name : List UInt8) : List UInt8 :=
  strlcpy s.fCurrentBuffer s.fCurrentBufferUsed (kBufferSize - s.fCurrentBufferUsed) name

def turnOver (s : StringPool) (name : List UInt8) (last : UInt8) : StringPool :=
  { s with
    fFullBuffers := s.fFullBuffers ++ [(s.copyIn name).set (kBufferSize - 1) last]
    fCurrentBuffer := []
    fCurrentBufferUsed := 0 }

/-- `add`; the recursion goes on with `&name[copied+1]`, which lies past the
terminator when `name[copied]` is the terminator itself. -/
def add (s : StringPool) (name : List UInt8) : Option (Int × StringPool) :=
  if s.usedAfter name < kBufferSize then
    some (s.nextOffset,
      { s with fCurrentBuffer := s.copyIn name, fCurrentBufferUsed := s.usedAfter name })
  else
    match _h : name.drop (kBufferSize - s.fCurrentBufferUsed - 1) with
    | [] => none
    | last :: rest => (add (s.turnOver name last) rest).map fun r => (s.nextOffset, r.2)
termination_by name.length
decreasing_by
  have hlen := congrArg List.length _h
  rw [List.length_drop, List.length_cons] at hlen
  omega

def addUnique (s : StringPool) (name : List UInt8) : Option (Int × StringPool) :=
  match s.fUniqueStrings name with
  | some offset => some (offset, s)
  | none => (s.add name).map fun r =>
    (r.1, { r.2 with
      fUniqueStrings := Function.update r.2.fUniqueStrings name (some r.1) })

/-- What the returned pointer denotes. -/
def stringForIndex (s : StringPool) (index : Int) : Option (List UInt8) :=
  let currentBufferStartIndex := toInt32 (kBufferSize * s.fFullBuffers.length)
  let maxIndex := (currentBufferStartIndex + s.fCurrentBufferUsed).bmod (2 ^ 32)
  if maxIndex < index then some []
  else if currentBufferStartIndex < index then
    cstringAt s.fCurrentBuffer (index - currentBufferStartIndex).toNat
  else
    let fullBufferIndex : Nat := (index.tdiv (kBufferSize : Int) % 2 ^ 32).toNat
    s.fFullBuffers[fullBufferIndex]?.bind fun buffer =>
      cstringAt buffer (index - kBufferSize * fullBufferIndex).toNat

/-- `wordSize` is `sizeof(A::P::uint_t)`. -/
def copyRawContent (wordSize : Nat) (s : StringPool) : List UInt8 :=
  let content := s.fFullBuffers.flatten ++ s.fCurrentBuffer.take s.fCurrentBufferUsed
  content ++ List.replicate ((wordSize - content.length % wordSize) % wordSize) 0

inductive Call where
  | add (name : CString)
  | addUnique (name : CString)

def Call.name : Call → CString
  | .add name => name
  | .addUnique name => name

def call (s : StringPool) : Call → Option (Int × StringPool)
  | .add name => s.add name.chars
  | .addUnique name => s.addUnique name.chars

def run (s : StringPool) (calls : List Call) : Option StringPool :=
  calls.foldlM (fun s c => (s.call c).map Prod.snd) s

def Stores (s : StringPool) : Call → Prop
  | .add _ => True
  | .addUnique name => s.fUniqueStrings name.chars = none

theorem run_cons {s t : StringPool} {c : Call} {calls : List Call} :
    s.run (c :: calls) = some t ↔ ∃ o u, s.call c = some (o, u) ∧ u.run calls = some t := by
  unfold run
  rw [List.foldlM_cons]
  simp only [Option.bind_eq_bind, Option.bind_eq_some_iff, Option.map_eq_some_iff]
  constructor
  · rintro ⟨u, ⟨⟨o, v⟩, hc, rfl⟩, hrun⟩
    exact ⟨o, v, hc, hrun⟩
  · rintro ⟨o, u, hc, hrun⟩
    exact ⟨u, ⟨(o, u), hc, rfl⟩, hrun⟩

theorem add_of_fits {name : List UInt8} (h : s.usedAfter name < kBufferSize) :
    s.add name = some (s.nextOffset,
      { s with fCurrentBuffer := s.copyIn name, fCurrentBufferUsed := s.usedAfter name }) := by
  rw [add, if_pos h]

theorem add_of_terminator {name : List UInt8} (h : ¬ s.usedAfter name < kBufferSize)
    (hdrop : name.drop (kBufferSize - s.fCurrentBufferUsed - 1) = []) : s.add name = none := by
  rw [add, if_neg h]
  split
  · rfl
  rename_i last rest hcons
  rw [hdrop] at hcons
  cases hcons

theorem add_of_straddle {name rest : List UInt8} {last : UInt8}
    (h : ¬ s.usedAfter name < kBufferSize)
    (hdrop : name.drop (kBufferSize - s.fCurrentBufferUsed - 1) = last :: rest) :
    s.add name = ((s.turnOver name last).add rest).map fun r => (s.nextOffset, r.2) := by
  rw [add, if_neg h]
  split
  · rename_i hnil
    rw [hdrop] at hnil
    cases hnil
  rename_i last' rest' hcons
  rw [hdrop] at hcons
  cases hcons
  rfl

theorem addUnique_found {name : List UInt8} {o : Int}
    (h : s.fUniqueStrings name = some o) : s.addUnique name = some (o, s) := by
  simp only [addUnique, h]

theorem addUnique_new {name : List UInt8} (h : s.fUniqueStrings name = none) :
    s.addUnique name = (s.add name).map fun r =>
      (r.1, { r.2 with
        fUniqueStrings := Function.update r.2.fUniqueStrings name (some r.1) }) := by
  simp only [addUnique, h]

end StringPool
end Toolwhip.Ld64

/-! ## When the string pool keeps its strings

As long as every stored string ends before the last byte of the first buffer,
the pool is one growing run of terminated strings. The first string that does
not is either read past its terminator or cannot be read back. -/

namespace Toolwhip.Ld64.StringPool
open Lib.ByteBuffer List
variable {s : StringPool} {name : List UInt8} {calls : List Call}

/-- No call reads past its argument, and at every returned offset the emitted
bytes and `stringForIndex` give back the string, after any later calls. -/
def Faithful (wordSize : Nat) (s : StringPool) (calls : List Call) : Prop :=
  (s.run calls).isSome ∧ ∀ pre c post, pre ++ c :: post <+: calls →
    ∀ s₁ o s₂ s₃, s.run pre = some s₁ → s₁.call c = some (o, s₂) → s₂.run post = some s₃ →
      0 ≤ o ∧ c.name.chars ++ [0] <+: (s₃.copyRawContent wordSize).drop o.toNat ∧
        s₃.stringForIndex o = some c.name.chars

/-- A string to be stored, with its terminator, ends before the last byte of the
buffer. -/
def CallFits (s : StringPool) (c : Call) : Prop :=
  s.Stores c → s.fCurrentBufferUsed + c.name.chars.length + 1 < kBufferSize

def CallsFit : StringPool → List Call → Prop
  | _, [] => True
  | s, c :: calls => s.CallFits c ∧ ∀ o s', s.call c = some (o, s') → CallsFit s' calls

def Holds (s : StringPool) (o : Int) (name : List UInt8) : Prop :=
  2 ≤ o ∧ name ++ [0] <+: s.fCurrentBuffer.drop o.toNat

/-- Only the first buffer is in use, and it holds every unique string. -/
structure FirstBuffer (s : StringPool) : Prop where
  full_nil : s.fFullBuffers = []
  length_eq : s.fCurrentBuffer.length = s.fCurrentBufferUsed
  two_le : 2 ≤ s.fCurrentBufferUsed
  lt_size : s.fCurrentBufferUsed < kBufferSize
  unique : ∀ name o, s.fUniqueStrings name = some o → s.Holds o name

theorem toInt32_of_lt {n : Nat} (h : n < 2 ^ 31) : toInt32 n = n := by
  exact Int.bmod_eq_of_le (by omega) (by omega)

theorem firstBuffer_new : FirstBuffer {} where
  full_nil := rfl
  length_eq := rfl
  two_le := Nat.le_refl 2
  lt_size := by
    rw [kBufferSize_eq]
    exact Nat.lt_of_sub_ne_zero (Nat.succ_ne_zero _)
  unique := by
    intro name o h
    cases h

variable {o : Int}

theorem Holds.mono {s t : StringPool} (h : s.Holds o name)
    (hpre : s.fCurrentBuffer <+: t.fCurrentBuffer) : t.Holds o name := by
  obtain ⟨rest, hrest⟩ := hpre
  refine ⟨h.1, h.2.trans ?_⟩
  rw [← hrest, drop_append]
  exact prefix_append _ _

section FirstBuffer

variable {s : StringPool}

section
variable (h : s.FirstBuffer)
variable {name : List UInt8}
include h

theorem FirstBuffer.nextOffset_eq : s.nextOffset = s.fCurrentBufferUsed := by
  have := h.lt_size
  rw [kBufferSize_eq] at this
  unfold nextOffset
  rw [h.full_nil, length_nil, Nat.mul_zero, Nat.zero_add]
  exact toInt32_of_lt (by omega)

theorem FirstBuffer.read_back {o : Int}
    (hname : 0 ∉ name) (hold : s.Holds o name) (wordSize : Nat) :
    0 ≤ o ∧ name ++ [0] <+: (s.copyRawContent wordSize).drop o.toNat ∧
      s.stringForIndex o = some name := by
  obtain ⟨ho, hpre⟩ := hold
  have hsize := h.lt_size
  rw [kBufferSize_eq] at hsize
  have hlen := hpre.length_le
  rw [length_append, length_singleton, length_drop, h.length_eq] at hlen
  refine ⟨by omega, ?_, ?_⟩
  · unfold copyRawContent
    rw [h.full_nil, flatten_nil, nil_append, take_of_length_le
      (Nat.le_of_eq h.length_eq), drop_append]
    exact hpre.trans (prefix_append _ _)
  · unfold stringForIndex
    have hstart : toInt32 (kBufferSize * s.fFullBuffers.length) = 0 := by
      rw [h.full_nil]
      rfl
    have hmax : ((0 : Int) + s.fCurrentBufferUsed).bmod (2 ^ 32) = s.fCurrentBufferUsed := by
      rw [Int.zero_add]
      exact toInt32_of_lt (by omega)
    simp only [hstart, hmax]
    rw [if_neg (by omega), if_pos (by omega), Int.sub_zero]
    exact cstringAt_of_prefix hname hpre

theorem FirstBuffer.usedAfter_eq (hlen : name.length < kBufferSize) :
    s.usedAfter name = s.fCurrentBufferUsed + name.length + 1 := by
  have := h.lt_size
  rw [kBufferSize_eq] at this hlen
  unfold usedAfter
  omega

theorem FirstBuffer.copyIn_eq (name : List UInt8) : s.copyIn name = s.fCurrentBuffer ++
      (name.take (kBufferSize - s.fCurrentBufferUsed - 1) ++ [0]) := by
  have hlt := h.lt_size
  unfold copyIn strlcpy
  rw [if_neg (by omega), ← h.length_eq, writeAt_end]

theorem FirstBuffer.add_fits (hfit : s.fCurrentBufferUsed + name.length + 1 < kBufferSize) :
    ∃ s', s.add name = some (s.nextOffset, s') ∧ s'.FirstBuffer ∧
      s'.Holds s.nextOffset name ∧ s.fCurrentBuffer <+: s'.fCurrentBuffer ∧
      s'.fUniqueStrings = s.fUniqueStrings := by
  have husedAfter := @FirstBuffer.usedAfter_eq s h name (by omega)
  have hcopy := h.copyIn_eq name
  rw [take_of_length_le (by omega)] at hcopy
  have hpre : s.fCurrentBuffer <+: s.copyIn name := by
    rw [hcopy]
    exact prefix_append _ _
  refine ⟨_, add_of_fits (by omega), ⟨h.full_nil, ?_, ?_, ?_, ?_⟩, ⟨?_, ?_⟩, hpre, rfl⟩
  · simp only [hcopy, husedAfter, length_append, length_singleton, h.length_eq]
    omega
  · have := h.two_le
    simp only [husedAfter]
    omega
  · simp only [husedAfter]
    exact hfit
  · intro other o ho
    exact (h.unique other o ho).mono hpre
  · have := h.two_le
    rw [h.nextOffset_eq]
    omega
  · simp only [hcopy, h.nextOffset_eq, Int.toNat_natCast, ← h.length_eq, drop_left]
    exact prefix_refl _

theorem FirstBuffer.setUnique {o : Int} (hold : s.Holds o name) : FirstBuffer
      { s with fUniqueStrings := Function.update s.fUniqueStrings name (some o) } where
  full_nil := h.full_nil
  length_eq := h.length_eq
  two_le := h.two_le
  lt_size := h.lt_size
  unique := by
    intro other o' ho'
    by_cases hne : other = name
    · subst other
      simp only [Function.update_self, Option.some.injEq] at ho'
      subst o'
      exact hold
    · simp only [Function.update_of_ne hne] at ho'
      exact h.unique other o' ho'

theorem FirstBuffer.call_fits {c : Call} (hfit : s.CallFits c) :
    ∃ o s', s.call c = some (o, s') ∧ s'.FirstBuffer ∧ s'.Holds o c.name.chars ∧
      s.fCurrentBuffer <+: s'.fCurrentBuffer := by
  cases c with
  | add name =>
    obtain ⟨s', hs', hfirst, hold, hpre, -⟩ := h.add_fits (hfit trivial)
    exact ⟨_, s', hs', hfirst, hold, hpre⟩
  | addUnique name =>
    cases hu : s.fUniqueStrings name.chars with
    | some o => exact ⟨o, s, addUnique_found hu, h, h.unique _ _ hu, prefix_refl _⟩
    | none =>
      have hfits : s.fCurrentBufferUsed + name.chars.length + 1 < kBufferSize := hfit hu
      obtain ⟨s', hs', hfirst, hold, hpre, -⟩ := h.add_fits hfits
      refine ⟨_, _, ?_, hfirst.setUnique hold, hold, hpre⟩
      exact (addUnique_new hu).trans (by rw [hs', Option.map_some])

end

end FirstBuffer

/-- No buffer is longer than the size it was allocated with. -/
structure Bounded (s : StringPool) : Prop where
  full : ∀ buffer ∈ s.fFullBuffers, buffer.length ≤ kBufferSize
  current : s.fCurrentBuffer.length ≤ kBufferSize
  used : s.fCurrentBufferUsed < kBufferSize

theorem FirstBuffer.bounded (h : s.FirstBuffer) : s.Bounded where
  full := by simp [h.full_nil]
  current := by
    rw [h.length_eq]
    exact Nat.le_of_lt h.lt_size
  used := h.lt_size

theorem Bounded.copyIn (h : s.Bounded) (name : List UInt8) :
    (s.copyIn name).length ≤ kBufferSize := by
  have hused := h.used
  have hcurrent := h.current
  unfold StringPool.copyIn strlcpy
  rw [if_neg (by omega), length_writeAt _ _ (by simp), length_append, length_singleton,
    length_take]
  omega

theorem Bounded.turnOver (h : s.Bounded) (name : List UInt8) (last : UInt8) :
    (s.turnOver name last).Bounded where
  full := by
    intro buffer hb
    rcases List.mem_append.mp hb with hb | hb
    · exact h.full buffer hb
    rw [List.mem_singleton.mp hb, length_set]
    exact h.copyIn name
  current := Nat.zero_le _
  used := by
    rw [kBufferSize_eq]
    exact Nat.succ_pos _

variable {s' : StringPool}

theorem Bounded.add (h : s.Bounded) (hadd : s.add name = some (o, s')) : s'.Bounded := by
  induction hn : name.length using Nat.strong_induction_on generalizing name s s' o with
  | _ n ih =>
    by_cases hfit : s.usedAfter name < kBufferSize
    · rw [add_of_fits hfit] at hadd
      obtain ⟨-, rfl⟩ := Prod.mk.inj (Option.some.inj hadd)
      exact ⟨h.full, h.copyIn name, hfit⟩
    cases hdrop : name.drop (kBufferSize - s.fCurrentBufferUsed - 1) with
    | nil =>
      rw [add_of_terminator hfit hdrop] at hadd
      cases hadd
    | cons last rest =>
      rw [add_of_straddle hfit hdrop] at hadd
      obtain ⟨⟨o', t⟩, ht, heq⟩ := Option.map_eq_some_iff.mp hadd
      obtain ⟨-, rfl⟩ := Prod.mk.inj heq
      have hlen := congrArg List.length hdrop
      rw [length_drop, length_cons] at hlen
      exact ih rest.length (by omega) (h.turnOver name last) ht rfl

theorem Bounded.stringForIndex_lt (h : s.Bounded)
    (hs : s.stringForIndex o = some name) : name.length < kBufferSize := by
  unfold stringForIndex at hs
  simp only at hs
  split at hs
  · cases hs
    rw [kBufferSize_eq]
    exact Nat.succ_pos _
  split at hs
  · exact Nat.lt_of_lt_of_le (length_lt_of_cstringAt hs) h.current
  obtain ⟨buffer, hb, hc⟩ := Option.bind_eq_some_iff.mp hs
  exact Nat.lt_of_lt_of_le (length_lt_of_cstringAt hc)
    (h.full buffer (mem_of_getElem? hb))

/-- What is filed away ends with characters of the string, the terminator overwritten. -/
theorem FirstBuffer.copyIn_set (h : s.FirstBuffer) {name rest : List UInt8}
    {last : UInt8} (hdrop : name.drop (kBufferSize - s.fCurrentBufferUsed - 1) = last :: rest) :
    (s.copyIn name).set (kBufferSize - 1) last =
      s.fCurrentBuffer ++ (name.take (kBufferSize - s.fCurrentBufferUsed - 1) ++ [last]) := by
  have hused := h.lt_size
  have hlen := congrArg List.length hdrop
  rw [length_drop, length_cons] at hlen
  have htake : (name.take (kBufferSize - s.fCurrentBufferUsed - 1)).length =
      kBufferSize - s.fCurrentBufferUsed - 1 := by
    rw [length_take]
    omega
  have hpos : kBufferSize - 1 - s.fCurrentBufferUsed -
      (kBufferSize - s.fCurrentBufferUsed - 1) = 0 := by
    omega
  rw [h.copyIn_eq, set_append_right _ _ (by rw [h.length_eq]; omega),
    set_append_right _ _ (by rw [htake, h.length_eq]; omega), htake, h.length_eq, hpos,
    set_cons_zero]

theorem FirstBuffer.straddle_lost (h : s.FirstBuffer)
    (hname : 0 ∉ name) (hlen : name.length < kBufferSize)
    (hunfit : ¬ s.fCurrentBufferUsed + name.length + 1 < kBufferSize)
    (hadd : s.add name = some (o, s')) : s'.stringForIndex o = none := by
  have hafter := h.usedAfter_eq hlen
  have hused := h.lt_size
  have hsize := kBufferSize_eq
  cases hdrop : name.drop (kBufferSize - s.fCurrentBufferUsed - 1) with
  | nil =>
    rw [add_of_terminator (by omega) hdrop] at hadd
    cases hadd
  | cons last rest =>
    have hrest := congrArg List.length hdrop
    rw [length_drop, length_cons] at hrest
    have hrestAfter : (s.turnOver name last).usedAfter rest = rest.length + 1 := by
      change (0 + (rest.length + 1)) % 2 ^ 32 = _
      rw [Nat.zero_add, Nat.mod_eq_of_lt (by omega)]
    rw [add_of_straddle (by omega) hdrop, add_of_fits (by omega), h.nextOffset_eq,
      Option.map_some] at hadd
    obtain ⟨rfl, rfl⟩ := Prod.mk.inj (Option.some.inj hadd)
    have hbuffer := h.copyIn_set hdrop
    have hnul : 0 ∉ name.take (kBufferSize - s.fCurrentBufferUsed - 1) ++ [last] := by
      rw [mem_append, mem_singleton]
      rintro (hmem | hmem)
      · exact hname (mem_of_mem_take hmem)
      · refine hname (mem_of_mem_drop (i := kBufferSize - s.fCurrentBufferUsed - 1) ?_)
        rw [hdrop, hmem]
        exact mem_cons_self
    have hstart : toInt32 (kBufferSize * 1) = kBufferSize := by
      rw [Nat.mul_one]
      exact toInt32_of_lt (by omega)
    have hmax : ((kBufferSize : Int) + (rest.length + 1 : Nat)).bmod (2 ^ 32) =
        kBufferSize + (rest.length + 1 : Nat) := by
      exact Int.bmod_eq_of_le (by omega) (by omega)
    have hindex : (s.fCurrentBufferUsed : Int).tdiv kBufferSize = 0 :=
      Int.tdiv_eq_zero_of_lt (by omega) (by omega)
    unfold stringForIndex
    simp only [hrestAfter]
    simp only [turnOver, h.full_nil, nil_append, length_singleton, hstart, hmax]
    rw [if_neg (by omega), if_neg (by omega), hindex, hbuffer]
    change cstringAt _ ((s.fCurrentBufferUsed : Int) - kBufferSize * (0 : Nat)).toNat = none
    have hpos : ((s.fCurrentBufferUsed : Int) - kBufferSize * (0 : Nat)).toNat =
        s.fCurrentBuffer.length := by
      rw [h.length_eq]
      omega
    rw [hpos]
    apply cstringAt_eq_none
    rw [drop_left]
    exact hnul

/-- A stored string that does not fit makes the call run past it, or is not found again. -/
theorem FirstBuffer.call_unfit (h : s.FirstBuffer) {c : Call}
    (hunfit : ¬ s.CallFits c) (hcall : s.call c = some (o, s')) :
    s'.stringForIndex o ≠ some c.name.chars := by
  have hadd : ∀ t, s.add c.name.chars = some (o, t) →
      t.stringForIndex o ≠ some c.name.chars := by
    intro t ht hread
    have hlen := (h.bounded.add ht).stringForIndex_lt hread
    have hlost := h.straddle_lost c.name.noNul hlen
      (fun hfit => hunfit fun _ => hfit) ht
    rw [hlost] at hread
    cases hread
  cases c with
  | add name => exact hadd s' hcall
  | addUnique name =>
    have hnew : s.fUniqueStrings name.chars = none := by
      by_contra hfound
      exact hunfit fun hstores => absurd hstores hfound
    change s.addUnique name.chars = _ at hcall
    rw [addUnique_new hnew] at hcall
    obtain ⟨⟨o', t⟩, ht, heq⟩ := Option.map_eq_some_iff.mp hcall
    obtain ⟨rfl, rfl⟩ := Prod.mk.inj heq
    exact hadd t ht

theorem FirstBuffer.run_fits (h : s.FirstBuffer) (hfit : s.CallsFit calls) :
    ∃ t, s.run calls = some t ∧ t.FirstBuffer ∧ s.fCurrentBuffer <+: t.fCurrentBuffer := by
  induction calls generalizing s with
  | nil => exact ⟨s, rfl, h, prefix_refl _⟩
  | cons c calls ih =>
    obtain ⟨o, u, hu, hfirst, -, hpre⟩ := h.call_fits hfit.1
    obtain ⟨t, ht, hlast, hpre'⟩ := ih hfirst (hfit.2 o u hu)
    exact ⟨t, run_cons.mpr ⟨o, u, hu, ht⟩, hlast, hpre.trans hpre'⟩

theorem CallsFit.of_append {s t : StringPool} {pre post : List Call}
    (h : s.CallsFit (pre ++ post)) (hrun : s.run pre = some t) :
    s.CallsFit pre ∧ t.CallsFit post := by
  induction pre generalizing s with
  | nil =>
    cases hrun
    exact ⟨trivial, h⟩
  | cons c pre ih =>
    obtain ⟨o, u, hu, hrun⟩ := run_cons.mp hrun
    have hpost := ih (h.2 o u hu) hrun
    refine ⟨⟨h.1, ?_⟩, hpost.2⟩
    intro o' u' hu'
    rw [hu] at hu'
    obtain ⟨rfl, rfl⟩ := Prod.mk.inj (Option.some.inj hu')
    exact hpost.1

theorem FirstBuffer.callsFit_of_faithful (h : s.FirstBuffer) {wordSize : Nat}
    (hf : s.Faithful wordSize calls) : s.CallsFit calls := by
  induction calls generalizing s with
  | nil => trivial
  | cons c calls ih =>
    obtain ⟨t, ht⟩ := Option.isSome_iff_exists.mp hf.1
    obtain ⟨o, u, hu, hrun⟩ := run_cons.mp ht
    have hfits : s.CallFits c := by
      by_contra hunfit
      apply h.call_unfit hunfit hu
      exact (hf.2 [] c [] ⟨calls, rfl⟩ s o u u rfl hu rfl).2.2
    obtain ⟨o', u', hu', hfirst, -, -⟩ := h.call_fits hfits
    refine ⟨hfits, ?_⟩
    intro o₁ u₁ hu₁
    rw [hu'] at hu₁
    obtain ⟨rfl, rfl⟩ := Prod.mk.inj (Option.some.inj hu₁)
    rw [hu'] at hu
    obtain ⟨rfl, rfl⟩ := Prod.mk.inj (Option.some.inj hu)
    refine ih hfirst ⟨by rw [hrun]; rfl, ?_⟩
    intro pre c' post hpre s₁ o₁ s₂ s₃ hrun₁ hcall hrun₃
    refine hf.2 (c :: pre) c' post ?_ s₁ o₁ s₂ s₃ (run_cons.mpr ⟨_, _, hu', hrun₁⟩) hcall hrun₃
    exact List.cons_prefix_cons.mpr ⟨rfl, hpre⟩

theorem faithful_iff (wordSize : Nat) (calls : List Call) :
    Faithful wordSize {} calls ↔ CallsFit {} calls := by
  constructor
  · exact firstBuffer_new.callsFit_of_faithful
  · intro hfit
    obtain ⟨t, ht, -, -⟩ := firstBuffer_new.run_fits hfit
    refine ⟨by rw [ht]; rfl, ?_⟩
    rintro pre c post ⟨rest, rfl⟩ s₁ o s₂ s₃ hrun₁ hcall hrun₃
    rw [append_assoc] at hfit
    obtain ⟨hpre, hrest⟩ := hfit.of_append hrun₁
    obtain ⟨s₁', hs₁', hfirst, -⟩ := firstBuffer_new.run_fits hpre
    rw [hrun₁] at hs₁'
    obtain rfl := Option.some.inj hs₁'
    obtain ⟨o', s₂', hcall', hfirst', hold, -⟩ := hfirst.call_fits hrest.1
    rw [hcall] at hcall'
    obtain ⟨rfl, rfl⟩ := Prod.mk.inj (Option.some.inj hcall')
    obtain ⟨hpost, -⟩ := CallsFit.of_append (hrest.2 o s₂ hcall) hrun₃
    obtain ⟨s₃', hs₃', hlast, hgrow⟩ := hfirst'.run_fits hpost
    rw [hrun₃] at hs₃'
    obtain rfl := Option.some.inj hs₃'
    exact hlast.read_back c.name.noNul (hold.mono hgrow) wordSize

/-- The first string ends with the buffer's last byte: `add` goes on behind its terminator. -/
theorem run_past_terminator (c : Call)
    (hlen : c.name.chars.length = 16777213) : run {} [c] = none := by
  have hsize := kBufferSize_eq
  have hadd : add {} c.name.chars = none := by
    apply add_of_terminator
    · change ¬ (2 + (c.name.chars.length + 1)) % 2 ^ 32 < kBufferSize
      omega
    · apply drop_of_length_le
      change c.name.chars.length ≤ kBufferSize - 2 - 1
      omega
  have hcall : call {} c = none := by
    cases c with
    | add name => exact hadd
    | addUnique name =>
      change addUnique {} name.chars = none
      exact Option.map_eq_none_iff.mpr hadd
  rw [run, foldlM_cons, hcall, Option.map_none]
  rfl

def aString (n : Nat) : CString where
  chars := List.replicate n 0x61
  noNul := fun h => by cases eq_of_mem_replicate h

theorem faithful_fails_at_buffer_end : ¬ Faithful 4 {} [.add (aString 16777213)] := by
  intro hf
  have hrun := hf.1
  have hlen : (Call.add (aString 16777213)).name.chars.length = 16777213 := by
    exact length_replicate
  rw [run_past_terminator _ hlen] at hrun
  exact Bool.false_ne_true hrun

end Toolwhip.Ld64.StringPool
