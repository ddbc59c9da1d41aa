import Toolwhip.Ld.CStringReplay

/-! # Merging with an order file

The first pass enters the order file and the sections; with `-dead_strip` a second pass does so
once more with what is live. Which offsets and which fine relocations are live is decided between
the passes. -/

namespace Toolwhip.Ld
open List
set_option autoImplicit false

/-- The sections of the objects, with their fine relocations. -/
def mergeSections (opts : MergeOptions) (redo_live : Bool) :
    List (List UInt8 × List FineReloc) → CStringData →
      Except LdError (List (List FineReloc) × CStringData)
  | [], data => .ok ([], data)
  | (contents, fine_relocs) :: rest, data => do
    let (fine_relocs, data) ← cstring_merge opts contents fine_relocs redo_live data
    let (others, data) ← mergeSections opts redo_live rest data
    return (fine_relocs :: others, data)

structure FirstPass where
  load : LoadOrderData
  fine_relocs : List (List FineReloc)
  data : CStringData

def firstPass (opts : OrderOptions) (order : List UInt8) (sections : List (List UInt8)) :
    Except LdError FirstPass := do
  let (load, data) ← cstring_order opts order {}
  let (fine_relocs, data) ← mergeSections opts.merge false (sections.map fun s => (s, [])) data
  return { load := load, fine_relocs := fine_relocs, data := data }

/-- The fine relocation `j` of section `i` is live. -/
def markLive (live : Nat → Nat → Bool) (fine_relocs : List (List FineReloc)) :
    List (List FineReloc) :=
  fine_relocs.mapIdx fun i relocs => relocs.mapIdx fun j r => { r with live := live i j }

structure SecondPass where
  lines : List CStringOrderLine
  fine_relocs : List (List FineReloc)
  data : CStringData

/-- `marked` has the fine relocations of the first pass with their live bits. -/
def secondPass (opts : OrderOptions) (sections : List (List UInt8)) (load : LoadOrderData)
    (marked : List (List FineReloc)) (is_literal_output_offset_live : Nat → Bool) :
    Except LdError SecondPass := do
  let (lines, data) ← cstring_reset_live opts (some load) is_literal_output_offset_live
  let (fine_relocs, data) ← mergeSections opts.merge true (sections.zip marked) data
  return { lines := lines, fine_relocs := fine_relocs, data := data }

/-! ## What the passes look up -/

def sectionStrings (contents : List UInt8) : List (List UInt8) :=
  if contents = [] ∨ endsWithNull contents = false then [] else cstringsOf contents

def FirstPass.trace (first : FirstPass) (sections : List (List UInt8)) : Trace :=
  orderTrace first.load.cstring_order_lines ++
    (sections.zip first.fine_relocs).flatMap fun p => mergeTrace (sectionStrings p.1) p.2

def SecondPass.trace (second : SecondPass) (sections : List (List UInt8)) : Trace :=
  orderTrace second.lines ++
    (sections.zip second.fine_relocs).flatMap fun p => liveTrace (sectionStrings p.1) p.2

def liveLiterals (sections : List (List UInt8)) (marked : List (List FineReloc)) :
    List (List UInt8) :=
  (sections.zip marked).flatMap fun p => liveStrings (p.2.zip (sectionStrings p.1))

def liveLines (load : LoadOrderData) (is_literal_output_offset_live : Nat → Bool) :
    List (List UInt8) :=
  (load.cstring_order_lines.filter fun line =>
    is_literal_output_offset_live line.output_offset).map CStringOrderLine.cstring

section Sections
variable {opts : MergeOptions} {items : List (List UInt8)} {data : CStringData}
variable {sections : List (List UInt8)}

theorem sectionStrings_noNul (contents : List UInt8) :
    ∀ s ∈ sectionStrings contents, (0 : UInt8) ∉ s := by
  unfold sectionStrings
  split
  · exact nofun
  · exact cstringsOf_noNul contents

theorem cstring_merge_all (contents : List UInt8) (data : CStringData) :
    cstring_merge opts contents [] false data = mergeAll opts 0 (sectionStrings contents) data := by
  unfold cstring_merge sectionStrings
  by_cases hnil : contents = []
  · rw [if_pos hnil, if_pos (Or.inl hnil)]
    rfl
  by_cases hnull : endsWithNull contents = false
  · rw [if_neg hnil, if_pos hnull, if_pos (Or.inr hnull)]
    rfl
  · rw [if_neg hnil, if_neg hnull, if_neg (not_or.mpr ⟨hnil, hnull⟩)]
    rfl

theorem cstring_merge_live {contents : List UInt8} {fine_relocs : List FineReloc}
    (hlen : fine_relocs.length = (sectionStrings contents).length) (data : CStringData) :
    cstring_merge opts contents fine_relocs true data =
      mergeLive opts (fine_relocs.zip (sectionStrings contents)) data := by
  unfold cstring_merge
  unfold sectionStrings at hlen ⊢
  by_cases hnil : contents = []
  · rw [if_pos (Or.inl hnil)] at hlen
    rw [if_pos hnil, eq_nil_of_length_eq_zero hlen]
    rfl
  by_cases hnull : endsWithNull contents = false
  · rw [if_pos (Or.inr hnull)] at hlen
    rw [if_neg hnil, if_pos hnull, eq_nil_of_length_eq_zero hlen]
    rfl
  · rw [if_neg hnil, if_neg hnull, if_neg (not_or.mpr ⟨hnil, hnull⟩)]
    rfl

theorem mergeSections_entered (h : HoldsStrings opts items data) (sections : List (List UInt8)) :
    ∃ fine_relocs data',
      mergeSections opts false (sections.map fun s => (s, [])) data = .ok (fine_relocs, data') ∧
      List.Forall₂ (fun s f => f.length = (sectionStrings s).length) sections fine_relocs ∧
      Entered opts items (sections.flatMap sectionStrings)
        ((sections.zip fine_relocs).flatMap fun p => mergeTrace (sectionStrings p.1) p.2) data' := by
  induction sections generalizing items data with
  | nil => exact ⟨[], data, rfl, .nil, Entered.nil h⟩
  | cons contents sections ih =>
    obtain ⟨relocs, data₁, hmerge, hlen, hfirst⟩ :=
      mergeAll_entered (sectionStrings_noNul contents) h 0
    obtain ⟨fine_relocs, data₂, hrest, hlens, hothers⟩ := ih hfirst.holds
    rw [map_cons, mergeSections, cstring_merge_all, hmerge]
    dsimp only [bind, Except.bind]
    rw [hrest]
    exact ⟨_, data₂, rfl, .cons hlen hlens, hfirst.append hothers⟩

theorem remergeSections_entered (h : HoldsStrings opts items data)
    {marked : List (List FineReloc)}
    (hlens : List.Forall₂ (fun s f => f.length = (sectionStrings s).length) sections marked) :
    ∃ fine_relocs data',
      mergeSections opts true (sections.zip marked) data = .ok (fine_relocs, data') ∧
      Entered opts items (liveLiterals sections marked)
        ((sections.zip fine_relocs).flatMap fun p => liveTrace (sectionStrings p.1) p.2) data' := by
  induction hlens generalizing items data with
  | nil => exact ⟨[], data, rfl, Entered.nil h⟩
  | @cons contents relocs sections marked hlen _ ih =>
    have hnul : ∀ p ∈ relocs.zip (sectionStrings contents), (0 : UInt8) ∉ p.2 :=
      fun p hp => sectionStrings_noNul contents p.2 (of_mem_zip hp).2
    have hstrings : (relocs.zip (sectionStrings contents)).map Prod.snd = sectionStrings contents :=
      map_snd_zip (Nat.le_of_eq hlen.symm)
    obtain ⟨relocs', data₁, hmerge, -, hfirst⟩ := mergeLive_entered hnul h
    rw [hstrings] at hfirst
    obtain ⟨fine_relocs, data₂, hrest, hothers⟩ := ih hfirst.holds
    rw [zip_cons_cons, mergeSections, cstring_merge_live hlen, hmerge]
    dsimp only [bind, Except.bind]
    rw [hrest]
    exact ⟨_, data₂, rfl, hfirst.append hothers⟩

theorem markLive_lengths {fine_relocs : List (List FineReloc)}
    (h : List.Forall₂ (fun s f => f.length = (sectionStrings s).length) sections fine_relocs)
    (live : Nat → Nat → Bool) :
    List.Forall₂ (fun s f => f.length = (sectionStrings s).length) sections
      (markLive live fine_relocs) := by
  unfold markLive
  induction h generalizing live with
  | nil => exact .nil
  | cons hlen _ ih =>
    rw [mapIdx_cons]
    refine .cons ?_ (ih fun i => live (i + 1))
    rw [length_mapIdx, hlen]

end Sections

/-- What merging is to do, whatever is live when the first pass is over. -/
structure MergedRight (opts : OrderOptions) (offset : Nat) (order : List UInt8)
    (sections : List (List UInt8)) : Prop where
  inside : firstPass opts order sections ≠ .error .outOfBounds
  strings : ∀ first, firstPass opts order sections = .ok first →
    (first.trace sections).map Prod.fst = orderStrings order ++ sections.flatMap sectionStrings
  placed : ∀ first, firstPass opts order sections = .ok first →
    StringsPlaced opts.merge offset first.data (first.trace sections)
  again : opts.dead_strip = true → ∀ first, firstPass opts order sections = .ok first →
    ∀ is_literal_output_offset_live live, ∃ second,
      secondPass opts sections first.load (markLive live first.fine_relocs)
        is_literal_output_offset_live = .ok second ∧
      (second.trace sections).map Prod.fst =
        liveLines first.load is_literal_output_offset_live ++
          liveLiterals sections (markLive live first.fine_relocs) ∧
      StringsPlaced opts.merge offset second.data (second.trace sections)

def MergesRight (opts : OrderOptions) (order : List UInt8) (sections : List (List UInt8)) : Prop :=
  StopsEarly order ∨ LastFits opts.dead_strip order ∧
    (¬ EndsInBackslash (splitLines order).2 →
      opts.merge.total (orderStrings order ++ sections.flatMap sectionStrings) < 2 ^ 32)

section Passes
variable {opts : OrderOptions} {order : List UInt8} {sections : List (List UInt8)}
variable {load : LoadOrderData} {marked : List (List FineReloc)} {offset : Nat}

theorem firstPass_entered {data : CStringData}
    (horder : cstring_order opts order {} = .ok (load, data))
    (hentered : Entered opts.merge [] (orderStrings order) (orderTrace load.cstring_order_lines)
      data) : ∃ first, firstPass opts order sections = .ok first ∧ first.load = load ∧
      List.Forall₂ (fun s f => f.length = (sectionStrings s).length) sections first.fine_relocs ∧
      Entered opts.merge [] (orderStrings order ++ sections.flatMap sectionStrings)
        (first.trace sections) first.data := by
  obtain ⟨fine_relocs, data', hmerge, hlens, hsections⟩ :=
    mergeSections_entered hentered.holds sections
  unfold firstPass
  rw [horder]
  dsimp only [bind, Except.bind]
  rw [hmerge]
  exact ⟨{ load := load, fine_relocs := fine_relocs, data := data' }, rfl, rfl, hlens,
    hentered.append hsections⟩

theorem secondPass_entered
    (hreplays : ∀ entry ∈ load.cstring_order_lines, Replays load.order_addr load.limit entry)
    (hnul : ∀ entry ∈ load.cstring_order_lines, (0 : UInt8) ∉ entry.cstring)
    (hlens : List.Forall₂ (fun s f => f.length = (sectionStrings s).length) sections marked)
    (is_literal_output_offset_live : Nat → Bool) :
    ∃ second, secondPass opts sections load marked is_literal_output_offset_live = .ok second ∧
      Entered opts.merge []
        (liveLines load is_literal_output_offset_live ++ liveLiterals sections marked)
        (second.trace sections) second.data := by
  obtain ⟨lines, data, hreset, hlines⟩ :=
    @resetLoop_entered opts _ _ load is_literal_output_offset_live _ hreplays hnul
      (holdsStrings_empty opts.merge) 1
  obtain ⟨fine_relocs, data', hmerge, hsections⟩ := remergeSections_entered hlines.holds hlens
  unfold secondPass cstring_reset_live
  dsimp only [bind, Except.bind]
  rw [hreset]
  dsimp only
  rw [hmerge]
  exact ⟨{ lines := lines, fine_relocs := fine_relocs, data := data' }, rfl,
    hlines.append hsections⟩

theorem live_subset {data : CStringData}
    (hentered : Entered opts.merge [] (orderStrings order) (orderTrace load.cstring_order_lines)
      data) (is_literal_output_offset_live : Nat → Bool) :
    liveLines load is_literal_output_offset_live ++ liveLiterals sections marked ⊆
      orderStrings order ++ sections.flatMap sectionStrings := by
  intro s hs
  rw [← hentered.strings_eq]
  rcases List.mem_append.mp hs with hs | hs
  · apply mem_append_left
    obtain ⟨entry, hentry, rfl⟩ := List.mem_map.mp hs
    have hmem := (List.mem_filter.mp hentry).1
    exact List.mem_map.mpr ⟨_, mem_map_of_mem hmem, rfl⟩
  apply mem_append_right
  obtain ⟨⟨contents, relocs⟩, hp, hs⟩ := List.mem_flatMap.mp hs
  obtain ⟨q, hq, rfl⟩ := List.mem_map.mp hs
  have hstring := (of_mem_zip (List.mem_filter.mp hq).1).2
  exact List.mem_flatMap.mpr ⟨contents, (of_mem_zip hp).1, hstring⟩

theorem noNul_of_entered {data : CStringData}
    (hentered : Entered opts.merge [] (orderStrings order) (orderTrace load.cstring_order_lines)
      data) : ∀ entry ∈ load.cstring_order_lines, (0 : UInt8) ∉ entry.cstring := by
  intro entry hentry
  have hmem : entry.cstring ∈ orderStrings order := by
    rw [← hentered.strings_eq]
    exact List.mem_map.mpr ⟨_, mem_map_of_mem hentry, rfl⟩
  obtain ⟨line, -, hline⟩ := List.mem_map.mp hmem
  rw [← hline]
  exact not_mem_lineString line

theorem mergedRight_of_fatal {e : FormatError}
    (h : cstring_order opts order {} = .error (.fatal e)) :
    MergedRight opts offset order sections := by
  have hfirst : firstPass opts order sections = .error (.fatal e) := by
    unfold firstPass
    rw [h]
    rfl
  refine ⟨?_, ?_, ?_, ?_⟩
  · rw [hfirst]
    exact nofun
  · rw [hfirst]
    exact nofun
  · rw [hfirst]
    exact nofun
  · rw [hfirst]
    exact fun _ => nofun

theorem mergedRight_iff_total {data : CStringData}
    (horder : cstring_order opts order {} = .ok (load, data))
    (hentered : Entered opts.merge [] (orderStrings order) (orderTrace load.cstring_order_lines)
      data) (hreplays : opts.dead_strip = true → ∀ entry ∈ load.cstring_order_lines,
      Replays load.order_addr load.limit entry) : MergedRight opts offset order sections ↔
      opts.merge.total (orderStrings order ++ sections.flatMap sectionStrings) < 2 ^ 32 := by
  obtain ⟨first, hfirst, hload, hlens, hall⟩ :=
    @firstPass_entered opts order sections load data horder hentered
  have honly : ∀ other, firstPass opts order sections = .ok other → other = first := by
    intro other hother
    rw [hfirst] at hother
    exact (Except.ok.inj hother).symm
  constructor
  · intro h
    exact (hall.placed_iff offset).mp (h.placed first hfirst)
  · intro hsmall
    refine ⟨?_, ?_, ?_, ?_⟩
    · rw [hfirst]
      exact nofun
    · intro other hother
      rw [honly other hother]
      exact hall.strings_eq
    · intro other hother
      rw [honly other hother]
      exact hall.placed hsmall offset
    · intro hdead other hother is_literal_output_offset_live live
      rw [honly other hother, hload]
      obtain ⟨second, hsecond, hagain⟩ :=
        @secondPass_entered opts sections load _ (hreplays hdead) (noNul_of_entered hentered)
          (markLive_lengths hlens live) is_literal_output_offset_live
      have hsubset := @live_subset opts order sections load (markLive live first.fine_relocs) data
        hentered is_literal_output_offset_live
      have hsmaller := @MergeOptions.total_le opts.merge _ _ hsubset
      exact ⟨second, hsecond, hagain.strings_eq, hagain.placed (by omega) offset⟩

end Passes

def oneByte (dead_strip : Bool) : OrderOptions :=
  { merge := { align := 0, host_pagesize := 4096 }, dead_strip := dead_strip }

end Toolwhip.Ld
