import Toolwhip.Ld64.CollectStabs
import Toolwhip.Lib.NestedRanges

/-! # The ranges of a list of stabs

A range is what the BINCL says and what the stabs that belong to it add. -/

namespace Toolwhip.Ld64.Stabs
set_option autoImplicit false

open Lib.Uleb128 Lib.NestedRanges List

section Ranges
variable {Atom : Type}
variable {ms : List (Stab Atom)}

def stabMark (it : Stab Atom) : Mark :=
  match it.type with
  | .N_BINCL => .opens
  | .N_EINCL => .closes
  | _ => .inside

def tagged (stabs : List (Stab Atom)) : List (Stab Atom × Option Nat) := tags stabMark 0 [] stabs

def members (k : Nat) (l : List (Stab Atom × Option Nat)) : List (Stab Atom) :=
  (l.filter fun t => t.2 = some k ∧ stabMark t.1 = .inside).map Prod.fst

def sumMembers (ms : List (Stab Atom)) : BitVec 32 :=
  ms.foldr (fun it n => if it.type.cannotEXCL then n else sumString false (it.string.getD []) + n) 0

def closeRange (range : HeaderRange) (ms : List (Stab Atom)) : HeaderRange :=
  { range with
    cannotEXCL := range.cannotEXCL || ms.any fun it => it.type.cannotEXCL
    sum := if range.sumPrecomputed then range.sum else range.sum + sumMembers ms }

def StringsRead (range : HeaderRange) (ms : List (Stab Atom)) : Prop :=
  range.sumPrecomputed = false → ∀ it ∈ ms, it.type.cannotEXCL = true ∨ it.string ≠ none

def openRanges : Nat → Nat → List Nat → List (Stab Atom) → List HeaderRange
  | _, _, _, [] => []
  | pos, next, stack, it :: rest =>
    match stabMark it with
    | .opens => openRange pos it stack.head? :: openRanges (pos + 1) (next + 1) (next :: stack) rest
    | .closes => openRanges (pos + 1) next stack.tail rest
    | .inside => openRanges (pos + 1) next stack rest

def closeAll (ranges : List HeaderRange) (l : List (Stab Atom × Option Nat)) : List HeaderRange :=
  ranges.mapIdx fun k range => closeRange range (members k l)

def AllRead (ranges : List HeaderRange) (l : List (Stab Atom × Option Nat)) : Prop :=
  ∀ k range, ranges[k]? = some range → StringsRead range (members k l)

def headerRanges (stabs : List (Stab Atom)) : List HeaderRange :=
  closeAll (openRanges 0 0 [] stabs) (tagged stabs)

variable {it : Stab Atom} {rest : List (Stab Atom)} {l : List (Stab Atom × Option Nat)}
  {ranges hs : List HeaderRange} {range : HeaderRange} {next pos i : Nat} {stack : List Nat}

theorem stabMark_opens : stabMark it = .opens ↔ it.type = .N_BINCL := by
  unfold stabMark
  split <;> simp_all

theorem stabMark_closes : stabMark it = .closes ↔ it.type = .N_EINCL := by
  unfold stabMark
  split <;> simp_all

theorem openRanges_opens (h : stabMark it = .opens) : openRanges pos next stack (it :: rest) =
    openRange pos it stack.head? :: openRanges (pos + 1) (next + 1) (next :: stack) rest := by
  rw [openRanges, h]

theorem openRanges_closes (h : stabMark it = .closes) : openRanges pos next stack (it :: rest) =
    openRanges (pos + 1) next stack.tail rest := by
  rw [openRanges, h]

theorem openRanges_inside (h : stabMark it = .inside) : openRanges pos next stack (it :: rest) =
    openRanges (pos + 1) next stack rest := by
  rw [openRanges, h]

/-! ## Members -/

variable {t : Stab Atom × Option Nat}

theorem members_cons_other {k : Nat}
    (h : ¬ (t.2 = some k ∧ stabMark t.1 = .inside)) : members k (t :: l) = members k l := by
  unfold members
  rw [filter_cons_of_neg (by simpa using h)]

theorem members_cons_self (h : stabMark it = .inside) :
    members i ((it, some i) :: l) = it :: members i l := by
  unfold members
  rw [filter_cons_of_pos (by simpa using h), map_cons]

theorem closeAll_cons_other (h : t.2 = none ∨ stabMark t.1 ≠ .inside) :
    closeAll ranges (t :: l) = closeAll ranges l := by
  have hsame : ∀ k, members k (t :: l) = members k l := by
    intro k
    apply members_cons_other
    intro hmember
    rcases h with h | h
    · rw [h] at hmember
      cases hmember.1
    · exact h hmember.2
  unfold closeAll
  simp only [hsame]

theorem allRead_cons_other (h : t.2 = none ∨ stabMark t.1 ≠ .inside) :
    AllRead ranges (t :: l) ↔ AllRead ranges l := by
  have hsame : ∀ k, members k (t :: l) = members k l := by
    intro k
    apply members_cons_other
    intro hmember
    rcases h with h | h
    · rw [h] at hmember
      cases hmember.1
    · exact h hmember.2
  unfold AllRead
  simp only [hsame]

theorem closeRange_nil : closeRange range ([] : List (Stab Atom)) = range := by
  unfold closeRange sumMembers
  simp

theorem closeRange_cons : closeRange range (it :: ms) = closeRange (closeRange range [it]) ms := by
  unfold closeRange sumMembers
  cases hsum : range.sumPrecomputed <;> cases hblock : it.type.cannotEXCL <;>
    simp [hblock, BitVec.add_assoc]

theorem stringsRead_cons : StringsRead range (it :: ms) ↔
    StringsRead range [it] ∧ StringsRead (closeRange range [it]) ms := by
  unfold StringsRead closeRange
  simp only [forall_mem_cons, not_mem_nil, false_implies, implies_true, and_true]
  constructor
  · intro h
    exact ⟨fun hsum => (h hsum).1, fun hsum => (h hsum).2⟩
  · intro h hsum
    exact ⟨h.1 hsum, h.2 hsum⟩

theorem addStab_eq : StringsRead range [it] ∧ range.addStab it = .ok (closeRange range [it]) ∨
    ¬ StringsRead range [it] ∧ range.addStab it = .error .nullString := by
  unfold HeaderRange.addStab StringsRead closeRange sumMembers
  cases hblock : it.type.cannotEXCL with
  | true =>
    simp [hblock]
  | false =>
    cases hsum : range.sumPrecomputed with
    | true =>
      cases range
      simp_all
    | false =>
      cases hstring : it.string with
      | none =>
        simp [hblock, hstring]
      | some s =>
        simp [hblock, hstring]

theorem getElem?_set_append {range' : HeaderRange} (hi : ranges[i]? = some range) (k : Nat) :
    (ranges.set i range' ++ hs)[k]? = if k = i then some range' else (ranges ++ hs)[k]? := by
  have hlt := (List.getElem?_eq_some_iff.mp hi).1
  by_cases hk : k = i
  · subst hk
    rw [if_pos rfl, getElem?_append_left (by rwa [length_set]), getElem?_set_self hlt]
  rw [if_neg hk]
  by_cases hlen : k < ranges.length
  · rw [getElem?_append_left (by rwa [length_set]), getElem?_append_left hlen,
      getElem?_set_ne (Ne.symm hk)]
  · rw [getElem?_append_right (by rw [length_set]; omega),
      getElem?_append_right (by omega), length_set]

theorem closeAll_cons_self (hi : ranges[i]? = some range) (h : stabMark it = .inside) :
    closeAll (ranges ++ hs) ((it, some i) :: l) =
      closeAll (ranges.set i (closeRange range [it]) ++ hs) l := by
  apply ext_getElem?
  intro k
  unfold closeAll
  rw [getElem?_mapIdx, getElem?_mapIdx, getElem?_set_append hi]
  by_cases hk : k = i
  · subst hk
    have hget : (ranges ++ hs)[k]? = some range := by
      rw [getElem?_append_left (List.getElem?_eq_some_iff.mp hi).1, hi]
    rw [if_pos rfl, hget, members_cons_self h]
    exact congrArg some closeRange_cons
  · rw [if_neg hk, members_cons_other (by rintro ⟨hsame, _⟩; exact hk (Option.some.inj hsame).symm)]

theorem allRead_cons_self (hi : ranges[i]? = some range) (h : stabMark it = .inside) :
    AllRead (ranges ++ hs) ((it, some i) :: l) ↔
      StringsRead range [it] ∧ AllRead (ranges.set i (closeRange range [it]) ++ hs) l := by
  have hget : (ranges ++ hs)[i]? = some range := by
    rw [getElem?_append_left (List.getElem?_eq_some_iff.mp hi).1, hi]
  have hother : ∀ k, k ≠ i → members k ((it, some i) :: l) = members k l := by
    intro k hk
    apply members_cons_other
    rintro ⟨hsame, _⟩
    exact hk (Option.some.inj hsame).symm
  constructor
  · intro hall
    have hself := hall i range hget
    rw [members_cons_self h] at hself
    refine ⟨(stringsRead_cons.mp hself).1, ?_⟩
    intro k r hr
    rw [getElem?_set_append hi] at hr
    by_cases hk : k = i
    · subst hk
      rw [if_pos rfl] at hr
      cases hr
      exact (stringsRead_cons.mp hself).2
    · rw [if_neg hk] at hr
      have hread := hall k r hr
      rwa [hother k hk] at hread
  · rintro ⟨hread, hall⟩ k r hr
    by_cases hk : k = i
    · subst hk
      rw [hget] at hr
      cases hr
      rw [members_cons_self h]
      apply stringsRead_cons.mpr
      refine ⟨hread, hall k _ ?_⟩
      rw [getElem?_set_append hi, if_pos rfl]
    · rw [hother k hk]
      apply hall k r
      rw [getElem?_set_append hi, if_neg hk]
      exact hr

def Chained (ranges : List HeaderRange) : List Nat → Prop
  | [] => True
  | i :: stack => i < ranges.length ∧ parentOf ranges i = stack.head? ∧ Chained ranges stack

theorem Chained.congr {ranges' : List HeaderRange} (h : Chained ranges stack)
    (hlength : ranges.length ≤ ranges'.length)
    (hparent : ∀ i, i < ranges.length → parentOf ranges' i = parentOf ranges i) :
    Chained ranges' stack := by
  induction stack with
  | nil => trivial
  | cons i stack ih =>
    obtain ⟨hlt, hhead, hrest⟩ := h
    exact ⟨by omega, by rw [hparent i hlt, hhead], ih hrest⟩

theorem Chained.tail (h : Chained ranges stack) : Chained ranges stack.tail := by
  cases stack with
  | nil => trivial
  | cons i stack => exact h.2.2

theorem Chained.parent (h : Chained ranges stack) :
    stack.head?.bind (parentOf ranges) = stack.tail.head? := by
  cases stack with
  | nil => rfl
  | cons i stack => exact h.2.1

/-! ## The first pass -/

def scanRanges : Nat → RangeScan → List (Stab Atom) → Except Stop RangeScan
  | _, scan, [] => .ok scan
  | pos, scan, it :: rest => do
    let scan ← scanRange scan pos it
    scanRanges (pos + 1) scan rest

theorem scanRange_opens (h : stabMark it = .opens) (scan : RangeScan) : scanRange scan pos it =
    .ok ⟨scan.ranges ++ [openRange pos it scan.curRangeIndex], some scan.ranges.length⟩ := by
  unfold scanRange
  rw [stabMark_opens.mp h]

theorem scanRange_closes (h : stabMark it = .closes) (scan : RangeScan) : scanRange scan pos it =
    .ok { scan with curRangeIndex := scan.curRangeIndex.bind (parentOf scan.ranges) } := by
  unfold scanRange
  rw [stabMark_closes.mp h]

theorem scanRange_outside (h : stabMark it = .inside) {scan : RangeScan}
    (hcur : scan.curRangeIndex = none) : scanRange scan pos it = .ok scan := by
  unfold stabMark at h
  unfold scanRange
  split at h <;> simp_all

theorem scanRange_inside (h : stabMark it = .inside) {scan : RangeScan}
    (hcur : scan.curRangeIndex = some i) (hi : scan.ranges[i]? = some range) :
    scanRange scan pos it =
      (range.addStab it).map fun range => { scan with ranges := scan.ranges.set i range } := by
  have hopens : it.type ≠ .N_BINCL := by
    intro htype
    simp [stabMark, htype] at h
  have hcloses : it.type ≠ .N_EINCL := by
    intro htype
    simp [stabMark, htype] at h
  unfold scanRange
  simp only [hcur, hi]
  cases range.addStab it <;> rfl

def Finds (run : Except Stop RangeScan) (ranges : List HeaderRange)
    (l : List (Stab Atom × Option Nat)) : Prop :=
  AllRead ranges l ∧ (∃ cur, run = .ok ⟨closeAll ranges l, cur⟩) ∨
    ¬ AllRead ranges l ∧ run = .error .nullString

theorem closeAll_nil : closeAll ranges ([] : List (Stab Atom × Option Nat)) = ranges := by
  have hnil : ∀ k, members k ([] : List (Stab Atom × Option Nat)) = [] := fun _ => rfl
  unfold closeAll
  simp only [hnil, closeRange_nil]
  apply ext_getElem?
  intro k
  rw [getElem?_mapIdx, Option.map_id']

theorem parentOf_append {new : HeaderRange} (h : i < ranges.length) :
    parentOf (ranges ++ [new]) i = parentOf ranges i := by
  unfold parentOf
  rw [getElem?_append_left h]

theorem parentOf_set {range' : HeaderRange} (hi : ranges[i]? = some range)
    (hparent : range'.parentRangeIndex = range.parentRangeIndex) (k : Nat) :
    parentOf (ranges.set i range') k = parentOf ranges k := by
  unfold parentOf
  by_cases hk : k = i
  · subst hk
    rw [getElem?_set_self (List.getElem?_eq_some_iff.mp hi).1, hi, Option.bind_some,
      Option.bind_some, hparent]
  · rw [getElem?_set_ne (Ne.symm hk)]

theorem scanRanges_finds {scan : RangeScan} {stabs : List (Stab Atom)}
    (hlength : scan.ranges.length = next) (hcur : scan.curRangeIndex = stack.head?)
    (hchain : Chained scan.ranges stack) :
    Finds (scanRanges pos scan stabs) (scan.ranges ++ openRanges pos next stack stabs)
      (tags stabMark next stack stabs) := by
  induction stabs generalizing scan next pos stack with
  | nil =>
    left
    refine ⟨?_, scan.curRangeIndex, ?_⟩
    · intro k r _ _ it hit
      cases hit
    rw [openRanges, append_nil, tags, closeAll_nil]
    rfl
  | cons it rest ih =>
    rw [scanRanges]
    cases hmark : stabMark it with
    | opens =>
      rw [scanRange_opens hmark, openRanges_opens hmark, tags_opens hmark]
      unfold Finds
      rw [allRead_cons_other (Or.inr (by simp [hmark])), closeAll_cons_other (Or.inr (by simp [hmark]))]
      have happend : scan.ranges ++ openRange pos it stack.head? ::
          openRanges (pos + 1) (next + 1) (next :: stack) rest =
          (scan.ranges ++ [openRange pos it scan.curRangeIndex]) ++
            openRanges (pos + 1) (next + 1) (next :: stack) rest := by
        rw [hcur, append_assoc, singleton_append]
      rw [happend]
      apply @ih (next + 1) (pos + 1) (next :: stack)
        ⟨scan.ranges ++ [openRange pos it scan.curRangeIndex], some scan.ranges.length⟩
      · simp [hlength]
      · simp [hlength]
      · refine ⟨by simp [hlength], ?_, ?_⟩
        · unfold parentOf
          rw [← hlength, getElem?_concat_length, Option.bind_some]
          exact hcur
        · exact hchain.congr (by simp) fun i hi => parentOf_append hi
    | closes =>
      rw [scanRange_closes hmark, openRanges_closes hmark, tags_closes hmark]
      unfold Finds
      rw [allRead_cons_other (Or.inr (by simp [hmark])), closeAll_cons_other (Or.inr (by simp [hmark]))]
      apply @ih next (pos + 1) stack.tail
        { scan with curRangeIndex := scan.curRangeIndex.bind (parentOf scan.ranges) } hlength
      · rw [hcur, hchain.parent]
      · exact hchain.tail
    | inside =>
      rw [openRanges_inside hmark, tags_inside hmark]
      cases hstack : stack with
      | nil =>
        rw [hstack] at hcur
        rw [scanRange_outside hmark hcur]
        exact ih hlength hcur trivial
      | cons i below =>
        rw [hstack] at hcur hchain
        obtain ⟨range, hi⟩ : ∃ range, scan.ranges[i]? = some range :=
          ⟨_, getElem?_eq_getElem hchain.1⟩
        rw [scanRange_inside hmark hcur hi, head?_cons]
        unfold Finds
        rw [allRead_cons_self hi hmark, closeAll_cons_self hi hmark]
        rcases @addStab_eq _ it range with ⟨hread, hadd⟩ | ⟨hread, hadd⟩
        · rw [hadd]
          have hrest := @ih next (pos + 1) (i :: below)
            { scan with ranges := scan.ranges.set i (closeRange range [it]) }
            (by rw [length_set]; exact hlength) hcur
            (hchain.congr (Nat.le_of_eq List.length_set.symm)
              fun k _ => @parentOf_set scan.ranges range i (closeRange range [it]) hi rfl k)
          rcases hrest with ⟨hall, hrun⟩ | ⟨hall, hrun⟩
          · exact Or.inl ⟨⟨hread, hall⟩, hrun⟩
          · exact Or.inr ⟨fun h => hall h.2, hrun⟩
        · rw [hadd]
          exact Or.inr ⟨fun h => hread h.1, rfl⟩

def endsSource (it : Stab Atom) : Bool := it.type = .N_SO ∧ ¬ it.startsSource

theorem scanSo_length {atomOrdinals : Option Atom → Option Nat} {so : SoScan Atom} :
    (scanSo atomOrdinals so it).soRanges.length = so.soRanges.length + [it].countP endsSource := by
  unfold scanSo
  split
  · rename_i htype
    have hno : endsSource it = false := by simp [endsSource, htype]
    rw [countP_singleton, hno]
    cases atomOrdinals it.atom with
    | none => rfl
    | some ordinal =>
      simp only [Option.elim_some]
      split <;> split <;> rfl
  · rename_i htype
    by_cases hstarts : it.startsSource
    · simp [endsSource, htype, hstarts]
    · simp [endsSource, htype, hstarts]
  · rename_i hso
    have hno : endsSource it = false := by
      unfold endsSource
      rw [decide_eq_false_iff_not]
      intro h
      exact hso h.1
    rw [countP_singleton, hno]
    rfl

theorem firstPass_eq {atomOrdinals : Option Atom → Option Nat} {so : SoScan Atom} {scan : RangeScan}
    {stabs : List (Stab Atom)} : ∃ soRanges : List (Option Atom × Option Atom),
      soRanges.length = so.soRanges.length + stabs.countP endsSource ∧
        firstPass atomOrdinals pos scan so stabs =
          (scanRanges pos scan stabs).map fun scan => (scan.ranges, soRanges) := by
  induction stabs generalizing pos scan so with
  | nil => exact ⟨so.soRanges, rfl, rfl⟩
  | cons it rest ih =>
    rw [firstPass, scanRanges]
    cases hscan : scanRange scan pos it with
    | error stop =>
      let count := so.soRanges.length + (it :: rest).countP endsSource
      exact ⟨List.replicate count (none, none), length_replicate, rfl⟩
    | ok scan' =>
      obtain ⟨soRanges, hlength, hrun⟩ := @ih (pos + 1) (scanSo atomOrdinals so it) scan'
      refine ⟨soRanges, ?_, hrun⟩
      rw [hlength, scanSo_length, Nat.add_assoc, ← countP_append, singleton_append]

/-- The first pass finds the ranges, and an SO range for every SO that ends a source. -/
theorem firstPass_finds {atomOrdinals : Option Atom → Option Nat} {stabs : List (Stab Atom)} :
    AllRead (openRanges 0 0 [] stabs) (tagged stabs) ∧
        (∃ soRanges : List (Option Atom × Option Atom), soRanges.length = stabs.countP endsSource ∧
          firstPass atomOrdinals 0 ⟨[], none⟩ {} stabs = .ok (headerRanges stabs, soRanges)) ∨
      ¬ AllRead (openRanges 0 0 [] stabs) (tagged stabs) ∧
        firstPass atomOrdinals 0 ⟨[], none⟩ {} stabs = .error .nullString := by
  obtain ⟨soRanges, hlength, hrun⟩ :=
    @firstPass_eq Atom 0 atomOrdinals {} ⟨[], none⟩ stabs
  have hfinds := @scanRanges_finds Atom 0 0 [] ⟨[], none⟩ stabs rfl rfl trivial
  rcases hfinds with ⟨hall, cur, hscan⟩ | ⟨hall, hscan⟩
  · left
    refine ⟨hall, soRanges, by simpa using hlength, ?_⟩
    rw [hrun, hscan]
    rfl
  · right
    refine ⟨hall, ?_⟩
    rw [hrun, hscan]
    rfl

end Ranges
/-! ## Ranges that are replaced

A range is replaced when its path is known with its checksum, from other files or from an
earlier range of the file. -/

def HeaderRange.registers (range : HeaderRange) (path : List Byte) (sum : BitVec 32) : Bool :=
  !range.cannotEXCL && range.path = some path && range.sum = sum

def replacedAfter (known : PathToSums) (earlier : List HeaderRange) (range : HeaderRange) : Bool :=
  !range.cannotEXCL && range.path.any fun path =>
    (known path).contains range.sum || earlier.any fun r => r.registers path range.sum

def replaced (known : PathToSums) (hs : List HeaderRange) (k : Nat) : Bool :=
  hs[k]?.any fun range => replacedAfter known (hs.take k) range

def PathsRead (hs : List HeaderRange) : Prop :=
  ∀ range ∈ hs, range.cannotEXCL = false → range.path ≠ none

section Marking
variable {known known' : PathToSums} {earlier rest hs : List HeaderRange} {range : HeaderRange}
  {path : List Byte} {sum : BitVec 32}
variable {header : List Byte}

def markAfter (known : PathToSums) : List HeaderRange → List HeaderRange → List HeaderRange
  | _, [] => []
  | earlier, range :: rest =>
    (if replacedAfter known earlier range then { range with useEXCL := true } else range) ::
      markAfter known (earlier ++ [range]) rest

/-- `known'` has what was known and what the earlier ranges register. -/
def Registers (known : PathToSums) (earlier : List HeaderRange) (known' : PathToSums) : Prop :=
  ∀ path sum, sum ∈ known' path ↔
    sum ∈ known path ∨ (earlier.any fun r => r.registers path sum) = true

theorem any_append_singleton : ((earlier ++ [range]).any fun r => r.registers path sum) = true ↔
    (earlier.any fun r => r.registers path sum) = true ∨ range.registers path sum = true := by
  rw [any_append, Bool.or_eq_true, any_cons, any_nil, Bool.or_false]

theorem registers_iff : range.registers path sum = true ↔
    range.cannotEXCL = false ∧ range.path = some path ∧ range.sum = sum := by
  simp [HeaderRange.registers, and_assoc]

theorem Registers.unregistered (h : Registers known earlier known') (hcannot : range.cannotEXCL = true) :
    Registers known (earlier ++ [range]) known' := by
  intro path sum
  rw [h path sum, any_append_singleton, registers_iff, hcannot]
  simp

theorem Registers.again (h : Registers known earlier known')
    (hpath : range.path = some header) (hsum : range.sum ∈ known' header) :
    Registers known (earlier ++ [range]) known' := by
  intro path sum
  rw [any_append_singleton, ← or_assoc, ← h path sum]
  constructor
  · exact Or.inl
  · rintro (hmem | hregisters)
    · exact hmem
    · obtain ⟨_, hsame, hvalue⟩ := registers_iff.mp hregisters
      rw [hpath] at hsame
      cases hsame
      rw [← hvalue]
      exact hsum

theorem Registers.first (h : Registers known earlier known')
    (hcannot : range.cannotEXCL = false) (hpath : range.path = some header) :
    Registers known (earlier ++ [range])
      (Function.update known' header (known' header ++ [range.sum])) := by
  intro path sum
  rw [any_append_singleton, ← or_assoc, ← h path sum, registers_iff, hpath]
  by_cases hsame : path = header
  · subst hsame
    simp [hcannot, eq_comm]
  rw [Function.update_of_ne hsame]
  constructor
  · exact Or.inl
  · rintro (hmem | ⟨_, heq, _⟩)
    · exact hmem
    · exact absurd (Option.some.inj heq).symm hsame

theorem replacedAfter_eq (h : Registers known earlier known')
    (hcannot : range.cannotEXCL = false) (hpath : range.path = some header) :
    replacedAfter known earlier range = true ↔ range.sum ∈ known' header := by
  unfold replacedAfter
  rw [hcannot, hpath, h header range.sum]
  simp

theorem replacedAfter_cannot (hcannot : range.cannotEXCL = true) :
    replacedAfter known earlier range = false := by
  unfold replacedAfter
  rw [hcannot]
  rfl

theorem markKnown_marks (h : Registers known earlier known') :
    PathsRead rest ∧ (∃ known'', markKnown known' rest = .ok (markAfter known earlier rest, known'')) ∨
      ¬ PathsRead rest ∧ markKnown known' rest = .error .nullString := by
  induction rest generalizing earlier known' with
  | nil => exact Or.inl ⟨fun _ hr => absurd hr not_mem_nil, known', rfl⟩
  | cons range rest ih =>
    rw [markKnown, markAfter]
    unfold PathsRead
    rw [forall_mem_cons]
    cases hcannot : range.cannotEXCL with
    | true =>
      rw [if_pos rfl, replacedAfter_cannot hcannot]
      rcases ih (h.unregistered hcannot) with ⟨hpaths, known'', hrun⟩ | ⟨hpaths, hrun⟩
      · rw [hrun]
        exact Or.inl ⟨⟨by simp, hpaths⟩, known'', rfl⟩
      · rw [hrun]
        exact Or.inr ⟨fun hall => hpaths hall.2, rfl⟩
    | false =>
      cases hpath : range.path with
      | none => exact Or.inr ⟨fun hall => hall.1 rfl rfl, rfl⟩
      | some header =>
        have hreplaced := replacedAfter_eq h hcannot hpath
        simp only
        by_cases hsum : range.sum ∈ known' header
        · rw [if_pos hsum, if_pos (hreplaced.mpr hsum)]
          rcases ih (h.again hpath hsum) with ⟨hpaths, known'', hrun⟩ | ⟨hpaths, hrun⟩
          · rw [hrun]
            exact Or.inl ⟨⟨by simp, hpaths⟩, known'', rfl⟩
          · rw [hrun]
            exact Or.inr ⟨fun hall => hpaths hall.2, rfl⟩
        · rw [if_neg hsum, if_neg fun hr => hsum (hreplaced.mp hr)]
          rcases ih (h.first hcannot hpath) with ⟨hpaths, known'', hrun⟩ | ⟨hpaths, hrun⟩
          · rw [hrun]
            exact Or.inl ⟨⟨by simp, hpaths⟩, known'', rfl⟩
          · rw [hrun]
            exact Or.inr ⟨fun hall => hpaths hall.2, rfl⟩

theorem registers_nil : Registers known [] known := by
  intro path sum
  simp

theorem getElem?_markAfter (k : Nat) : (markAfter known earlier hs)[k]? = hs[k]?.map fun range =>
    if replacedAfter known (earlier ++ hs.take k) range then { range with useEXCL := true }
    else range := by
  induction hs generalizing earlier k with
  | nil => rfl
  | cons range rest ih =>
    rw [markAfter]
    cases k with
    | zero => rw [getElem?_cons_zero, getElem?_cons_zero, take_zero, append_nil,
        Option.map_some]
    | succ k => rw [getElem?_cons_succ, getElem?_cons_succ, ih, append_assoc,
        singleton_append, take_succ_cons]

theorem useEXCL_markAfter (hfresh : ∀ range ∈ hs, range.useEXCL = false) (k : Nat) :
    useEXCL (markAfter known [] hs) (some k) = replaced known hs k := by
  unfold useEXCL replaced
  rw [Option.bind_some, getElem?_markAfter, nil_append]
  cases hk : hs[k]? with
  | none => rfl
  | some range =>
    have hno := hfresh range (mem_of_getElem? hk)
    rw [Option.map_some, Option.any_some, Option.any_some]
    cases replacedAfter known (hs.take k) range with
    | true => rfl
    | false => exact hno

theorem sum_markAfter (k : Nat) :
    (markAfter known [] hs)[k]?.map HeaderRange.sum = hs[k]?.map HeaderRange.sum := by
  rw [getElem?_markAfter, Option.map_map]
  congr 1
  funext range
  simp only [Function.comp_apply]
  split <;> rfl

def HeaderRange.shape (range : HeaderRange) : Nat × Option Nat := (range.begin, range.parentRangeIndex)

theorem shape_markAfter (k : Nat) :
    (markAfter known [] hs)[k]?.map HeaderRange.shape = hs[k]?.map HeaderRange.shape := by
  rw [getElem?_markAfter, Option.map_map]
  congr 1
  funext range
  simp only [Function.comp_apply]
  split <;> rfl

end Marking
end Toolwhip.Ld64.Stabs
