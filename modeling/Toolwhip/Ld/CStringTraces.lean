import Mathlib.Data.List.GetD
import Mathlib.Data.List.Perm.Subperm
import Toolwhip.Ld.CStringPool

/-! # Runs of look-ups

A trace has the strings that were looked up and the offsets that came back. Where the offsets
are the positions in the final pool, the output has every string at its offset exactly when the
running size has not wrapped. -/

namespace Toolwhip.Ld
open Lib.InternedPool List
set_option autoImplicit false

abbrev Trace := List (List UInt8 × Nat)

variable {opts : MergeOptions} {items : List (List UInt8)} {data : CStringData}

/-- `trace` is what came back for `strings`, after which the pool has them all. -/
structure Entered (opts : MergeOptions) (items strings : List (List UInt8)) (trace : Trace)
    (data : CStringData) : Prop where
  holds : HoldsStrings opts (internAll items strings) data
  strings_eq : trace.map Prod.fst = strings
  offsets : ∀ final, internAll items strings <+: final →
    ∀ p ∈ trace, p.2 = position opts.bytes final p.1 % 2 ^ 32

theorem Entered.nil (h : HoldsStrings opts items data) : Entered opts items [] [] data :=
  ⟨h, rfl, nofun⟩

theorem Entered.append {l m : List (List UInt8)} {t u : Trace} {data' : CStringData}
    (h : Entered opts items l t data) (h' : Entered opts (internAll items l) m u data') :
    Entered opts items (l ++ m) (t ++ u) data' where
  holds := by
    rw [internAll_append]
    exact h'.holds
  strings_eq := by rw [map_append, h.strings_eq, h'.strings_eq]
  offsets final hfinal := by
    rw [internAll_append] at hfinal
    intro p hp
    rcases List.mem_append.mp hp with hp | hp
    · exact h.offsets final ((prefix_internAll _ m).trans hfinal) p hp
    · exact h'.offsets final hfinal p hp

theorem Entered.lookup (h : HoldsStrings opts items data) {cstring : List UInt8}
    (hnul : 0 ∉ cstring) : ∃ offset data', lookup_cstring opts cstring data = .ok (offset, data') ∧
      Entered opts items [cstring] [(cstring, offset)] data' := by
  obtain ⟨data', hlookup, hdata'⟩ := h.lookup hnul
  refine ⟨_, data', hlookup, hdata', rfl, ?_⟩
  intro final hfinal p hp
  cases List.mem_singleton.mp hp
  rw [position_extends hfinal (mem_intern_self items cstring)]
  rfl

theorem cstringsOf_noNul (contents : List UInt8) : ∀ s ∈ cstringsOf contents, (0 : UInt8) ∉ s := by
  induction contents with
  | nil => exact nofun
  | cons c rest ih =>
    unfold cstringsOf
    split
    · intro s hs
      rcases List.mem_cons.mp hs with rfl | hs
      · exact not_mem_nil
      · exact ih s hs
    rename_i hc
    split
    · intro s hs
      cases List.mem_singleton.mp hs
      simpa using fun h => hc h.symm
    rename_i first strings heq
    rw [heq] at ih
    intro s hs
    rcases List.mem_cons.mp hs with rfl | hs
    · intro hmem
      rcases List.mem_cons.mp hmem with hmem | hmem
      · exact hc hmem.symm
      · exact ih first mem_cons_self hmem
    · exact ih s (mem_cons_of_mem _ hs)

def mergeTrace (strings : List (List UInt8)) (fine_relocs : List FineReloc) : Trace :=
  strings.zip (fine_relocs.map FineReloc.output_offset)

def liveStrings (pairs : List (FineReloc × List UInt8)) : List (List UInt8) :=
  (pairs.filter fun p => p.1.live).map Prod.snd

def liveTrace (strings : List (List UInt8)) (fine_relocs : List FineReloc) : Trace :=
  ((strings.zip fine_relocs).filter fun p => p.2.live).map fun p => (p.1, p.2.output_offset)

theorem mergeAll_entered {strings : List (List UInt8)} (hnul : ∀ s ∈ strings, (0 : UInt8) ∉ s)
    (h : HoldsStrings opts items data) (p : Nat) : ∃ fine_relocs data',
      mergeAll opts p strings data = .ok (fine_relocs, data') ∧
        fine_relocs.length = strings.length ∧
        Entered opts items strings (mergeTrace strings fine_relocs) data' := by
  induction strings generalizing items data p with
  | nil => exact ⟨[], data, rfl, rfl, Entered.nil h⟩
  | cons s strings ih =>
    obtain ⟨offset, data₁, hlookup, hfirst⟩ := Entered.lookup h (hnul s mem_cons_self)
    obtain ⟨fine_relocs, data₂, hrest, hlen, hothers⟩ :=
      ih (fun t ht => hnul t (mem_cons_of_mem s ht)) hfirst.holds (p + s.length + 1)
    unfold mergeAll
    rw [hlookup]
    dsimp only [bind, Except.bind]
    rw [hrest]
    exact ⟨_, data₂, rfl, congrArg (· + 1) hlen, hfirst.append hothers⟩

theorem mergeLive_entered {pairs : List (FineReloc × List UInt8)}
    (hnul : ∀ p ∈ pairs, (0 : UInt8) ∉ p.2) (h : HoldsStrings opts items data) :
    ∃ fine_relocs data', mergeLive opts pairs data = .ok (fine_relocs, data') ∧
      fine_relocs.map FineReloc.live = pairs.map (fun p => p.1.live) ∧
      Entered opts items (liveStrings pairs) (liveTrace (pairs.map Prod.snd) fine_relocs) data' := by
  induction pairs generalizing items data with
  | nil => exact ⟨[], data, rfl, rfl, Entered.nil h⟩
  | cons p pairs ih =>
    obtain ⟨fine_reloc, s⟩ := p
    have hrest := fun q hq => hnul q (mem_cons_of_mem _ hq)
    unfold mergeLive
    by_cases hlive : fine_reloc.live = true
    · obtain ⟨offset, data₁, hlookup, hfirst⟩ := Entered.lookup h (hnul _ mem_cons_self)
      obtain ⟨fine_relocs, data₂, hmerge, hflags, hothers⟩ := ih hrest hfirst.holds
      rw [if_pos hlive, hlookup]
      dsimp only [bind, Except.bind]
      rw [hmerge]
      refine ⟨_, data₂, rfl, ?_, ?_⟩
      · rw [map_cons, map_cons, hflags]
      · have hstrings : liveStrings ((fine_reloc, s) :: pairs) = [s] ++ liveStrings pairs := by
          simp [liveStrings, hlive]
        have htrace : ∀ o, liveTrace (((fine_reloc, s) :: pairs).map Prod.snd)
            ({ fine_reloc with output_offset := o } :: fine_relocs) =
              [(s, o)] ++ liveTrace (pairs.map Prod.snd) fine_relocs := by
          intro o
          simp [liveTrace, hlive]
        rw [hstrings, htrace]
        exact hfirst.append hothers
    · obtain ⟨fine_relocs, data₂, hmerge, hflags, hothers⟩ := ih hrest h
      rw [if_neg hlive]
      dsimp only [bind, Except.bind]
      rw [hmerge]
      refine ⟨_, data₂, rfl, ?_, ?_⟩
      · rw [map_cons, map_cons, hflags]
      · have hstrings : liveStrings ((fine_reloc, s) :: pairs) = liveStrings pairs := by
          simp [liveStrings, hlive]
        have htrace : ∀ o, liveTrace (((fine_reloc, s) :: pairs).map Prod.snd)
            ({ fine_reloc with output_offset := o } :: fine_relocs) =
              liveTrace (pairs.map Prod.snd) fine_relocs := by
          intro o
          simp [liveTrace, hlive]
        rw [hstrings, htrace]
        exact hothers

theorem cstring_output_apply {blocks : List CStringBlock}
    (hused : ∀ b ∈ blocks, b.cstrings.length = b.used)
    (offset : Nat) (output : Nat → UInt8) (i : Nat) : cstring_output offset blocks output i =
      if offset ≤ i ∧ i < offset + (blockContent blocks).length then
        (blockContent blocks).getD (i - offset) 0
      else output i := by
  induction blocks generalizing offset output with
  | nil =>
    unfold cstring_output blockContent
    rw [flatMap_nil, length_nil, if_neg (by omega)]
  | cons b blocks ih =>
    have hb := hused b mem_cons_self
    have hcontent : blockContent (b :: blocks) = b.cstrings ++ blockContent blocks :=
      flatMap_cons
    unfold cstring_output
    rw [ih (fun c hc => hused c (mem_cons_of_mem b hc)), take_of_length_le (Nat.le_of_eq hb)]
    unfold memcpy
    rw [hcontent, length_append, hb]
    by_cases hfirst : offset ≤ i ∧ i < offset + b.used
    · rw [if_neg (by omega), if_pos hfirst, if_pos (by omega), getD_append _ _ _ _ (by omega)]
    rw [if_neg hfirst]
    by_cases hrest : offset + b.used ≤ i ∧ i < offset + b.used + (blockContent blocks).length
    · rw [if_pos hrest, if_pos (by omega), getD_append_right _ _ _ _ (by omega)]
      congr 1
      omega
    · rw [if_neg hrest, if_neg (by omega)]

/-- The string and its terminator stand at `position`. -/
def StringAt (output : Nat → UInt8) (position : Nat) (cstring : List UInt8) : Prop :=
  ∀ i < cstring.length + 1, output (position + i) = (cstring ++ [0]).getD i 0

/-- What the output is to look like when the section's data are written at `offset`. -/
structure StringsPlaced (opts : MergeOptions) (offset : Nat) (data : CStringData) (trace : Trace) :
    Prop where
  bytes : ∀ output, ∀ p ∈ trace,
    StringAt (cstring_output offset data.cstring_blocks output) (offset + p.2) p.1
  shared : ∀ p ∈ trace, ∀ q ∈ trace, p.1 = q.1 → p.2 = q.2
  disjoint : ∀ p ∈ trace, ∀ q ∈ trace, p.1 ≠ q.1 →
    p.2 + p.1.length < q.2 ∨ q.2 + q.1.length < p.2
  aligned : ∀ p ∈ trace, 2 ^ opts.align ∣ p.2
  ordered : ∀ before after, trace = before ++ after → ∀ p ∈ before, ∀ q ∈ after,
    q.1 ∉ before.map Prod.fst → p.2 < q.2
  total : (blockContent data.cstring_blocks).length = data.size

def MergeOptions.total (opts : MergeOptions) (strings : List (List UInt8)) : Nat :=
  (content opts.bytes (internAll [] strings)).length

theorem getD_of_starts {l m : List UInt8} (h : l <+: m) {i : Nat} (hi : i < l.length) :
    m.getD i 0 = l.getD i 0 := by
  obtain ⟨r, rfl⟩ := h
  exact getD_append _ _ _ _ hi

section
variable {strings : List (List UInt8)} {trace : Trace} (h : Entered opts [] strings trace data)
include h

theorem Entered.offset_eq (hsmall : opts.total strings < 2 ^ 32)
    {p : List UInt8 × Nat} (hp : p ∈ trace) :
    p.1 ∈ internAll [] strings ∧ p.2 = position opts.bytes (internAll [] strings) p.1 := by
  have hmem : p.1 ∈ internAll [] strings := by
    apply mem_internAll.mpr
    right
    rw [← h.strings_eq]
    exact mem_map_of_mem hp
  refine ⟨hmem, ?_⟩
  have hle := @position_add_le _ _ _ opts.bytes _ _ hmem
  unfold MergeOptions.total at hsmall
  rw [h.offsets _ (prefix_refl _) p hp]
  exact Nat.mod_eq_of_lt (by omega)

theorem Entered.placed (hsmall : opts.total strings < 2 ^ 32) (offset : Nat) :
    StringsPlaced opts offset data trace where
  bytes output p hp i hi := by
    obtain ⟨hmem, hoffset⟩ := h.offset_eq hsmall hp
    have hle := @position_add_le _ _ _ opts.bytes _ _ hmem
    have hlen := opts.lt_lenOf p.1
    rw [opts.length_bytes] at hle
    have hat := (opts.terminated_prefix p.1).trans (@units_at _ _ _ opts.bytes _ _ hmem)
    have hget := getD_of_starts hat (i := i) (by simp; omega)
    rw [cstring_output_apply h.holds.blocks.used, h.holds.row, if_pos (by omega), ← hget,
      getD_eq_getElem?_getD, getD_eq_getElem?_getD, getElem?_drop, ← hoffset]
    congr 2
    omega
  shared p hp q hq heq := by
    rw [(h.offset_eq hsmall hp).2, (h.offset_eq hsmall hq).2, heq]
  disjoint p hp q hq hne := by
    obtain ⟨hpmem, hpoffset⟩ := h.offset_eq hsmall hp
    obtain ⟨hqmem, hqoffset⟩ := h.offset_eq hsmall hq
    have hpbytes := opts.lt_lenOf p.1
    have hqbytes := opts.lt_lenOf q.1
    have hdisjoint := @position_disjoint _ _ _ opts.bytes _ _ _ h.holds.nodup hpmem hqmem hne
    rw [opts.length_bytes, opts.length_bytes] at hdisjoint
    omega
  aligned p hp := by
    rw [(h.offset_eq hsmall hp).2]
    exact position_dvd opts.bytes_dvd _ _
  ordered before after hsplit p hp q hq hnew := by
    have hpmem : p ∈ trace := by
      rw [hsplit]
      exact mem_append_left _ hp
    have hqmem : q ∈ trace := by
      rw [hsplit]
      exact mem_append_right _ hq
    have hstrings : strings = before.map Prod.fst ++ after.map Prod.fst := by
      rw [← map_append, ← hsplit, h.strings_eq]
    have horder := @position_order _ _ _ opts.bytes _ _ _ _ (mem_map_of_mem (f := Prod.fst) hp)
      hnew (mem_map_of_mem (f := Prod.fst) hq)
    have hbytes := opts.lt_lenOf p.1
    rw [← hstrings, opts.length_bytes] at horder
    rw [(h.offset_eq hsmall hpmem).2, (h.offset_eq hsmall hqmem).2]
    omega
  total := by
    rw [h.holds.row, h.holds.size]
    exact (Nat.mod_eq_of_lt hsmall).symm

theorem Entered.placed_iff (offset : Nat) :
    StringsPlaced opts offset data trace ↔ opts.total strings < 2 ^ 32 := by
  constructor
  · intro hplaced
    have htotal := hplaced.total
    rw [h.holds.row, h.holds.size] at htotal
    unfold MergeOptions.total
    rw [htotal]
    exact Nat.mod_lt _ (Nat.two_pow_pos 32)
  · intro hsmall
    exact h.placed hsmall offset

end

theorem MergeOptions.total_le {l m : List (List UInt8)} (hsub : l ⊆ m) :
    opts.total l ≤ opts.total m := by
  have hnd := nodup_internAll (nodup_nil (α := List UInt8)) l
  have hmem : internAll [] l ⊆ internAll [] m := by
    intro s hs
    rcases mem_internAll.mp hs with hs | hs
    · cases hs
    · exact mem_internAll.mpr (Or.inr (hsub hs))
  obtain ⟨k, hperm, hsublist⟩ := hnd.subperm hmem
  have hsame := (hperm.flatMap_right opts.bytes).length_eq
  have hle := @length_content_le _ _ opts.bytes _ _ hsublist
  unfold content at hle
  unfold total content
  omega

end Toolwhip.Ld
