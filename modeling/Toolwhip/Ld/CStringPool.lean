import Toolwhip.Lib.ByteBuffer
import Toolwhip.Lib.Numbering

/-! # C string literals

`lookup_cstring` enters a string into the hash table and the blocks of a merged section,
`cstring_merge` does so for the strings of one input section, and `cstring_output` copies the
blocks. Of a block the model has the bytes that were written; a write that does not fit is an
error of its own. -/

set_option autoImplicit false

namespace Toolwhip.Ld
open Lib.ByteBuffer

/-- What is wrong with a line of an order file. -/
inductive FormatProblem where
  | nullCharacter
  | backslashAtEnd
  | outOfRangeForCharacter
  | hexOutOfRange
  | unknownEscape
  deriving DecidableEq, Repr

/-- `error` and `fatal` name the line and the character position. -/
structure FormatError where
  problem : FormatProblem
  line_number : Nat
  char_pos : Nat
  deriving DecidableEq, Repr

inductive LdError where
  | outOfBounds
  | fatal (error : FormatError)
  deriving DecidableEq, Repr

structure CStringBlock where
  size : Nat
  used : Nat
  full : Bool
  cstrings : List UInt8
  deriving DecidableEq

/-- A pointer into a block is the number of the block and the position in it. -/
structure CStringBucket where
  cstring : Nat × Nat
  offset : Nat
  deriving DecidableEq

def CSTRING_HASHSIZE : Nat := 1022

/-- The `cstring_data` of a merged section and the section's `s.size`, a `uint32_t`. A hash table
that is not allocated yet has only empty chains. -/
structure CStringData where
  hashtable : Nat → List CStringBucket := fun _ => []
  cstring_blocks : List CStringBlock := []
  size : Nat := 0

def hash_string (key : List UInt8) : BitVec 64 :=
  key.foldl (fun k c => (((k <<< 1) + (k >>> 14)) ^^^ c.toBitVec.signExtend 64) &&& 0x3fff) 0

def hashval (cstring : List UInt8) : Nat := (hash_string cstring).toNat % CSTRING_HASHSIZE

def round (v r : Nat) : Nat := (v + (r - 1)) / r * r

def cstringOf (blocks : List CStringBlock) (p : Nat × Nat) : Option (List UInt8) :=
  blocks[p.1]?.bind fun block => cstringAt block.cstrings p.2

def findBucket (blocks : List CStringBlock) (cstring : List UInt8) :
    List CStringBucket → Except LdError (Option CStringBucket)
  | [] => .ok none
  | bp :: next =>
    match cstringOf blocks bp.cstring with
    | none => .error .outOfBounds
    | some entered => if entered = cstring then .ok (some bp) else findBucket blocks cstring next

/-- The bytes of a string in a block: `strcpy`, then zeros up to `len`. -/
def padded (len : Nat) (cstring : List UInt8) : List UInt8 :=
  cstring ++ [0] ++ List.replicate (len - (cstring.length + 1)) 0

def allocateBlock (host_pagesize len : Nat) (bytes : List UInt8) : Except LdError CStringBlock :=
  let size := if len > host_pagesize then len else host_pagesize
  if size < bytes.length then .error .outOfBounds
  else .ok { size := size, used := len, full := len = size, cstrings := bytes }

/-- The loop over the blocks; the result has the number of the block and the position. -/
def placeString (host_pagesize len : Nat) (bytes : List UInt8) :
    List CStringBlock → Except LdError (List CStringBlock × Nat × Nat)
  | [] => do
    let block ← allocateBlock host_pagesize len bytes
    return ([block], 0, 0)
  | block :: next =>
    if block.full then do
      let (blocks, i, pos) ← placeString host_pagesize len bytes next
      return (block :: blocks, i + 1, pos)
    else if len > block.size - block.used then do
      let (blocks, i, pos) ← placeString host_pagesize len bytes next
      return ({ block with full := true } :: blocks, i + 1, pos)
    else if block.size < block.used + bytes.length then .error .outOfBounds
    else
      let written :=
        { block with
          cstrings := writeAt block.cstrings block.used bytes
          used := block.used + len }
      .ok (written :: next, 0, block.used)

/-- `align` is `ms->s.align`. -/
structure MergeOptions where
  align : Nat
  host_pagesize : Nat

variable (opts : MergeOptions)

def MergeOptions.lenOf (cstring : List UInt8) : Nat := round (cstring.length + 1) (2 ^ opts.align)

def enterString (cstring : List UInt8) (data : CStringData) : Except LdError (Nat × CStringData) := do
  let len := opts.lenOf cstring
  let (blocks, i, pos) ←
    placeString opts.host_pagesize len (padded len cstring) data.cstring_blocks
  let h := hashval cstring
  let bp : CStringBucket := { cstring := (i, pos), offset := data.size }
  return (data.size,
    { hashtable := Function.update data.hashtable h (bp :: data.hashtable h)
      cstring_blocks := blocks
      size := (data.size + len) % 2 ^ 32 })

def lookup_cstring (cstring : List UInt8) (data : CStringData) :
    Except LdError (Nat × CStringData) := do
  match ← findBucket data.cstring_blocks cstring (data.hashtable (hashval cstring)) with
  | some bp => return (bp.offset, data)
  | none => enterString opts cstring data

structure FineReloc where
  input_offset : Nat
  output_offset : Nat
  live : Bool := false
  deriving DecidableEq

def cstringsOf : List UInt8 → List (List UInt8)
  | [] => []
  | c :: rest =>
    if c = 0 then [] :: cstringsOf rest
    else
      match cstringsOf rest with
      | [] => [[c]]
      | s :: strings => (c :: s) :: strings

def endsWithNull (contents : List UInt8) : Bool := contents.getLast? == some 0

def mergeAll (p : Nat) : List (List UInt8) → CStringData →
    Except LdError (List FineReloc × CStringData)
  | [], data => .ok ([], data)
  | cstring :: rest, data => do
    let (output_offset, data) ← lookup_cstring opts cstring data
    let (fine_relocs, data) ← mergeAll (p + cstring.length + 1) rest data
    return ({ input_offset := p, output_offset := output_offset } :: fine_relocs, data)

/-- `redo_live == TRUE`: the fine relocations beside their strings. -/
def mergeLive : List (FineReloc × List UInt8) → CStringData →
    Except LdError (List FineReloc × CStringData)
  | [], data => .ok ([], data)
  | (fine_reloc, cstring) :: rest, data => do
    let (output_offset, data) ←
      if fine_reloc.live then lookup_cstring opts cstring data else .ok (0, data)
    let (fine_relocs, data) ← mergeLive rest data
    return ({ fine_reloc with output_offset := output_offset } :: fine_relocs, data)

/-- The new fine relocations of a section; without strings there are none. -/
def cstring_merge (contents : List UInt8) (fine_relocs : List FineReloc) (redo_live : Bool)
    (data : CStringData) : Except LdError (List FineReloc × CStringData) :=
  if contents = [] then .ok (if redo_live then fine_relocs else [], data)
  else if endsWithNull contents = false then .ok (fine_relocs, data)
  else if redo_live then mergeLive opts (fine_relocs.zip (cstringsOf contents)) data
  else mergeAll opts 0 (cstringsOf contents) data

def memcpy (output : Nat → UInt8) (offset : Nat) (bytes : List UInt8) : Nat → UInt8 := fun i =>
  if offset ≤ i ∧ i < offset + bytes.length then bytes.getD (i - offset) 0 else output i

/-- `offset` is `ms->s.offset` at first. -/
def cstring_output : Nat → List CStringBlock → (Nat → UInt8) → (Nat → UInt8)
  | _, [], output => output
  | offset, block :: next, output =>
    cstring_output (offset + block.used) next
      (memcpy output offset (block.cstrings.take block.used))

/-! ## The blocks are one pool

Only the last block can take another string, so what the blocks hold together is a row of
interned strings, and the running size is the length of the row. -/

open Lib.InternedPool List

variable {opts : MergeOptions}
variable {b : CStringBlock} {next : List CStringBlock} {cstring : List UInt8}

namespace MergeOptions

def bytes (opts : MergeOptions) (cstring : List UInt8) : List UInt8 :=
  padded (opts.lenOf cstring) cstring

section
variable (opts : MergeOptions) (cstring : List UInt8)

theorem lt_lenOf : cstring.length < opts.lenOf cstring := by
  unfold lenOf round
  have hpos : 0 < 2 ^ opts.align := Nat.two_pow_pos _
  have hdiv := Nat.div_add_mod (cstring.length + 1 + (2 ^ opts.align - 1)) (2 ^ opts.align)
  rw [Nat.mul_comm] at hdiv
  omega

theorem lenOf_dvd : 2 ^ opts.align ∣ opts.lenOf cstring := Nat.dvd_mul_left _ _

theorem length_bytes : (opts.bytes cstring).length = opts.lenOf cstring := by
  have := opts.lt_lenOf cstring
  simp only [bytes, padded, length_append, length_singleton, length_replicate]
  omega

theorem terminated_prefix : cstring ++ [0] <+: opts.bytes cstring := prefix_append _ _

theorem bytes_dvd : 2 ^ opts.align ∣ (opts.bytes cstring).length := by
  rw [length_bytes]
  exact opts.lenOf_dvd cstring

end

end MergeOptions

def blockContent (blocks : List CStringBlock) : List UInt8 := blocks.flatMap CStringBlock.cstrings

structure BlocksRight (blocks : List CStringBlock) : Prop where
  used : ∀ b ∈ blocks, b.cstrings.length = b.used
  fits : ∀ b ∈ blocks, b.used ≤ b.size
  full : ∀ b ∈ blocks.dropLast, b.full = true

theorem BlocksRight.tail (h : BlocksRight (b :: next)) : BlocksRight next where
  used c hc := h.used c (mem_cons_of_mem b hc)
  fits c hc := h.fits c (mem_cons_of_mem b hc)
  full c hc := by
    apply h.full c
    cases next with
    | nil => cases hc
    | cons d next => exact mem_cons_of_mem b hc

theorem BlocksRight.cons (hused : b.cstrings.length = b.used)
    (hfits : b.used ≤ b.size) (hfull : b.full = true) (h : BlocksRight next) :
    BlocksRight (b :: next) where
  used := by
    intro c hc
    rcases List.mem_cons.mp hc with rfl | hc
    · exact hused
    · exact h.used c hc
  fits := by
    intro c hc
    rcases List.mem_cons.mp hc with rfl | hc
    · exact hfits
    · exact h.fits c hc
  full := by
    intro c hc
    cases next with
    | nil => cases hc
    | cons d next =>
      rcases List.mem_cons.mp hc with rfl | hc
      · exact hfull
      · exact h.full c hc

theorem BlocksRight.single (hused : b.cstrings.length = b.used)
    (hfits : b.used ≤ b.size) : BlocksRight [b] where
  used := by
    intro c hc
    cases List.mem_singleton.mp hc
    exact hused
  fits := by
    intro c hc
    cases List.mem_singleton.mp hc
    exact hfits
  full := nofun

/-- What placing a string does to the blocks. -/
structure Placed (blocks blocks' : List CStringBlock) (bytes : List UInt8) (i pos : Nat) : Prop where
  right : BlocksRight blocks'
  content : blockContent blocks' = blockContent blocks ++ bytes
  atEnd : ∃ block, blocks'[i]? = some block ∧ block.cstrings.drop pos = bytes
  keeps : ∀ p s, cstringOf blocks p = some s → cstringOf blocks' p = some s

theorem allocateBlock_spec (host_pagesize : Nat) {len : Nat} {bytes : List UInt8}
    (hlen : bytes.length = len) : ∃ block, allocateBlock host_pagesize len bytes = .ok block ∧
      block.cstrings = bytes ∧ block.used = len ∧ len ≤ block.size := by
  have hroom : ¬ (if len > host_pagesize then len else host_pagesize) < bytes.length := by
    split <;> omega
  have hsize : len ≤ if len > host_pagesize then len else host_pagesize := by
    split <;> omega
  unfold allocateBlock
  rw [if_neg hroom]
  exact ⟨_, rfl, rfl, rfl, hsize⟩

theorem Placed.cons {block : CStringBlock} {blocks blocks' : List CStringBlock} {bytes : List UInt8}
    {i pos : Nat} (hused : block.cstrings.length = block.used) (hfits : block.used ≤ block.size)
    {block' : CStringBlock} (hsame : block'.cstrings = block.cstrings)
    (hused' : block'.used = block.used) (hsize : block'.size = block.size)
    (hfull : block'.full = true) (h : Placed blocks blocks' bytes i pos) :
    Placed (block :: blocks) (block' :: blocks') bytes (i + 1) pos where
  right := h.right.cons (by rw [hsame, hused', hused]) (by rw [hused', hsize]; exact hfits) hfull
  content := by
    have hcontent := h.content
    unfold blockContent at hcontent ⊢
    rw [flatMap_cons, flatMap_cons, hcontent, hsame, append_assoc]
  atEnd := h.atEnd
  keeps := by
    rintro ⟨j, q⟩ s hs
    cases j with
    | zero =>
      unfold cstringOf at hs ⊢
      simpa [hsame] using hs
    | succ j => exact h.keeps (j, q) s hs

theorem placeString_spec {host_pagesize len : Nat} {bytes : List UInt8} {blocks : List CStringBlock}
    (hlen : bytes.length = len) (hright : BlocksRight blocks) :
    ∃ blocks' i pos, placeString host_pagesize len bytes blocks = .ok (blocks', i, pos) ∧
      Placed blocks blocks' bytes i pos := by
  induction blocks with
  | nil =>
    obtain ⟨block, hblock, hbytes, hused, hfits⟩ := allocateBlock_spec host_pagesize hlen
    unfold placeString
    rw [hblock]
    refine ⟨[block], 0, 0, rfl, BlocksRight.single ?_ ?_, ?_, ⟨block, rfl, hbytes⟩, ?_⟩
    · rw [hbytes, hlen, hused]
    · rw [hused]
      exact hfits
    · simp [blockContent, hbytes]
    · intro p s hs
      cases hs
  | cons block next ih =>
    obtain ⟨blocks', i, pos, hplace, hplaced⟩ := ih hright.tail
    have hused := hright.used block mem_cons_self
    have hfits := hright.fits block mem_cons_self
    unfold placeString
    rw [hplace]
    by_cases hfull : block.full = true
    · rw [if_pos hfull]
      exact ⟨_, _, _, rfl, hplaced.cons hused hfits rfl rfl rfl hfull⟩
    rw [if_neg hfull]
    by_cases hmore : len > block.size - block.used
    · rw [if_pos hmore]
      exact ⟨_, _, _, rfl, hplaced.cons hused hfits rfl rfl rfl rfl⟩
    have hroom : ¬ block.size < block.used + bytes.length := by omega
    rw [if_neg hmore, if_neg hroom]
    -- only the last block takes another string
    have hlast : next = [] := by
      cases next with
      | nil => rfl
      | cons c next => exact absurd (hright.full block mem_cons_self) hfull
    subst hlast
    have hwritten : writeAt block.cstrings block.used bytes = block.cstrings ++ bytes := by
      rw [← hused, writeAt_end]
    refine ⟨_, _, _, rfl, ?_⟩
    refine ⟨BlocksRight.single ?_ ?_, ?_, ⟨_, rfl, ?_⟩, ?_⟩
    · simp [hwritten, hused, hlen]
    · dsimp only
      omega
    · simp [blockContent, hwritten]
    · rw [hwritten, ← hused, drop_left]
    · rintro ⟨j, q⟩ s hs
      cases j with
      | zero =>
        obtain ⟨b, hb, hat⟩ := Option.bind_eq_some_iff.mp hs
        cases hb
        simp only [hwritten]
        exact cstringAt_append bytes hat
      | succ j => cases hs

/-- The data of a merged section hold the strings in `items`, in that order. -/
structure HoldsStrings (opts : MergeOptions) (items : List (List UInt8)) (data : CStringData) :
    Prop where
  nodup : items.Nodup
  blocks : BlocksRight data.cstring_blocks
  row : blockContent data.cstring_blocks = content opts.bytes items
  size : data.size = (content opts.bytes items).length % 2 ^ 32
  buckets : ∀ h, ∀ bp ∈ data.hashtable h, ∃ s ∈ items,
    cstringOf data.cstring_blocks bp.cstring = some s ∧
      bp.offset = position opts.bytes items s % 2 ^ 32
  entered : ∀ s ∈ items, ∃ bp ∈ data.hashtable (hashval s),
    cstringOf data.cstring_blocks bp.cstring = some s

theorem holdsStrings_empty (opts : MergeOptions) : HoldsStrings opts [] {} where
  nodup := nodup_nil
  blocks := ⟨nofun, nofun, nofun⟩
  row := rfl
  size := rfl
  buckets := nofun
  entered := nofun

variable {items : List (List UInt8)} {data : CStringData}

theorem HoldsStrings.found (h : HoldsStrings opts items data) (cstring : List UInt8) :
    (cstring ∈ items ∧ ∃ bp, findBucket data.cstring_blocks cstring
        (data.hashtable (hashval cstring)) = .ok (some bp) ∧
        bp.offset = position opts.bytes items cstring % 2 ^ 32) ∨
      cstring ∉ items ∧ findBucket data.cstring_blocks cstring
        (data.hashtable (hashval cstring)) = .ok none := by
  have hchain : ∀ chain : List CStringBucket,
      (∀ bp ∈ chain, ∃ s ∈ items, cstringOf data.cstring_blocks bp.cstring = some s ∧
        bp.offset = position opts.bytes items s % 2 ^ 32) →
      (∃ bp, findBucket data.cstring_blocks cstring chain = .ok (some bp) ∧ cstring ∈ items ∧
        bp.offset = position opts.bytes items cstring % 2 ^ 32) ∨
      (findBucket data.cstring_blocks cstring chain = .ok none ∧
        ∀ bp ∈ chain, cstringOf data.cstring_blocks bp.cstring ≠ some cstring) := by
    intro chain
    induction chain with
    | nil =>
      intro _
      exact Or.inr ⟨rfl, nofun⟩
    | cons bp chain ih =>
      intro hall
      obtain ⟨s, hs, hread, hoffset⟩ := hall bp mem_cons_self
      unfold findBucket
      rw [hread]
      dsimp only
      by_cases heq : s = cstring
      · subst s
        rw [if_pos rfl]
        exact Or.inl ⟨bp, rfl, hs, hoffset⟩
      rw [if_neg heq]
      rcases ih (fun c hc => hall c (mem_cons_of_mem bp hc)) with hfound | ⟨hnone, hothers⟩
      · exact Or.inl hfound
      refine Or.inr ⟨hnone, ?_⟩
      intro c hc
      rcases List.mem_cons.mp hc with rfl | hc
      · rw [hread]
        exact fun hsome => heq (Option.some.inj hsome)
      · exact hothers c hc
  rcases hchain _ (h.buckets (hashval cstring)) with ⟨bp, hfound, hmem, hoffset⟩ | ⟨hnone, hothers⟩
  · exact Or.inl ⟨hmem, bp, hfound, hoffset⟩
  refine Or.inr ⟨?_, hnone⟩
  intro hmem
  obtain ⟨bp, hbp, hread⟩ := h.entered cstring hmem
  exact hothers bp hbp hread

theorem HoldsStrings.enters (h : HoldsStrings opts items data)
    (hnul : 0 ∉ cstring) (hnew : cstring ∉ items) :
    ∃ data', enterString opts cstring data = .ok (data.size, data') ∧
      HoldsStrings opts (items ++ [cstring]) data' := by
  obtain ⟨blocks, i, pos, hplace, hplaced⟩ :=
    @placeString_spec opts.host_pagesize _ _ _ (opts.length_bytes cstring) h.blocks
  have hcontent : content opts.bytes (items ++ [cstring]) =
      content opts.bytes items ++ opts.bytes cstring := by
    simp [content]
  have hkept : ∀ s ∈ items, position opts.bytes (items ++ [cstring]) s =
      position opts.bytes items s :=
    fun s hs => position_extends (prefix_append _ _) hs
  have hstring : cstringOf blocks (i, pos) = some cstring := by
    obtain ⟨block, hblock, hdrop⟩ := hplaced.atEnd
    unfold cstringOf
    rw [hblock]
    apply cstringAt_of_prefix hnul
    rw [hdrop]
    exact opts.terminated_prefix cstring
  have hposition : position opts.bytes (items ++ [cstring]) cstring =
      (content opts.bytes items).length := position_append hnew
  unfold MergeOptions.bytes at hplace
  unfold enterString
  dsimp only
  rw [hplace]
  refine ⟨_, rfl, ?_, hplaced.right, ?_, ?_, ?_, ?_⟩
  · rw [← intern_of_not_mem hnew]
    exact nodup_intern h.nodup cstring
  · rw [hplaced.content, h.row, hcontent]
  · rw [hcontent, length_append, opts.length_bytes, h.size]
    exact Nat.mod_add_mod _ _ _
  · intro hv bp hbp
    dsimp only at hbp ⊢
    have hold : bp ∈ data.hashtable hv → ∃ s ∈ items ++ [cstring],
        cstringOf blocks bp.cstring = some s ∧
          bp.offset = position opts.bytes (items ++ [cstring]) s % 2 ^ 32 := by
      intro hbp
      obtain ⟨s, hs, hread, hoffset⟩ := h.buckets hv bp hbp
      refine ⟨s, mem_append_left _ hs, hplaced.keeps _ s hread, ?_⟩
      rw [hkept s hs]
      exact hoffset
    by_cases hsame : hv = hashval cstring
    · subst hv
      rw [Function.update_self] at hbp
      rcases List.mem_cons.mp hbp with rfl | hbp
      · refine ⟨cstring, by simp, hstring, ?_⟩
        rw [hposition]
        exact h.size
      · exact hold hbp
    · rw [Function.update_of_ne hsame] at hbp
      exact hold hbp
  · intro s hs
    dsimp only
    rcases List.mem_append.mp hs with hs | hs
    · obtain ⟨bp, hbp, hread⟩ := h.entered s hs
      refine ⟨bp, ?_, hplaced.keeps _ s hread⟩
      by_cases hsame : hashval s = hashval cstring
      · rw [hsame, Function.update_self]
        rw [hsame] at hbp
        exact mem_cons_of_mem _ hbp
      · rw [Function.update_of_ne hsame]
        exact hbp
    · cases List.mem_singleton.mp hs
      refine ⟨{ cstring := (i, pos), offset := data.size }, ?_, hstring⟩
      rw [Function.update_self]
      exact mem_cons_self

theorem HoldsStrings.lookup (h : HoldsStrings opts items data) (hnul : 0 ∉ cstring) : ∃ data',
      lookup_cstring opts cstring data =
        .ok (position opts.bytes (intern items cstring) cstring % 2 ^ 32, data') ∧
      HoldsStrings opts (intern items cstring) data' := by
  unfold lookup_cstring
  rcases h.found cstring with ⟨hmem, bp, hfound, hoffset⟩ | ⟨hnew, hnone⟩
  · rw [hfound, intern_of_mem hmem, ← hoffset]
    exact ⟨data, rfl, h⟩
  obtain ⟨data', henter, hdata'⟩ := h.enters hnul hnew
  rw [hnone, intern_of_not_mem hnew, position_append hnew, ← h.size]
  exact ⟨data', henter, hdata'⟩

end Toolwhip.Ld
