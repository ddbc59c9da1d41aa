import Toolwhip.Ld64.CollectStabsRight

/-! # The SO ranges of the kept stabs

There is an SO range for every SO that ends a source, and one is used up by every such SO that
is kept. -/

namespace Toolwhip.Ld64.Stabs
set_option autoImplicit false

open Lib.NestedRanges List

section Paired
variable {Atom : Type} {known : PathToSums} {hs : List HeaderRange} {stabs : List (Stab Atom)}
  {t : Stab Atom × Option Nat} {l a b : List (Stab Atom × Option Nat)} {n i : Nat}
  {atomOrdinals : Option Atom → Option Nat}

def kept (known : PathToSums) (hs : List HeaderRange) (range : Option Nat) : Bool :=
  !range.any (replaced known hs)

def keptEnd (known : PathToSums) (hs : List HeaderRange) (t : Stab Atom × Option Nat) : Bool :=
  endsSource t.1 && kept known hs t.2

theorem keep_any {p : Stab Atom → Bool} (hp : ∀ it, p it = true → it.type = .N_SO) :
    (keep known hs t).any p = (p t.1 && kept known hs t.2) := by
  obtain ⟨it, range⟩ := t
  have hother : ∀ it : Stab Atom, it.type ≠ .N_SO → p it = false := by
    intro it htype
    rw [Bool.eq_false_iff]
    exact fun h => htype (hp it h)
  cases hmark : stabMark it with
  | opens =>
    have hno : p it = false := hother it (by rw [stabMark_opens.mp hmark]; decide)
    rw [hno, Bool.false_and]
    cases range with
    | none =>
      unfold keep
      simp only [hmark, Option.map_none, Option.any_none]
    | some k =>
      rw [keep_opens hmark, Option.any_some]
      apply hother
      simp only
      split <;> decide
  | closes =>
    have hno : p it = false := hother it (by rw [stabMark_closes.mp hmark]; decide)
    rw [hno, Bool.false_and, keep_closes hmark]
    cases range with
    | none => rfl
    | some k =>
      rw [Option.bind_some]
      split
      · rfl
      · exact hno
  | inside =>
    rw [keep_inside hmark]
    unfold kept
    cases range.any (replaced known hs) with
    | true => rw [if_pos rfl, Option.any_none, Bool.not_true, Bool.and_false]
    | false => rw [if_neg (by decide), Option.any_some, Bool.not_false, Bool.and_true]

theorem beginsSource_type (it : Stab Atom) (h : beginsSource it = true) : it.type = .N_SO := by
  exact (of_decide_eq_true h).1

theorem endsSource_type (it : Stab Atom) (h : endsSource it = true) : it.type = .N_SO := by
  exact (of_decide_eq_true h).1

theorem not_ends_of_begins {it : Stab Atom} (h : beginsSource it = true) : endsSource it = false := by
  unfold endsSource
  rw [decide_eq_false_iff_not]
  exact fun hends => hends.2 (of_decide_eq_true h).2

theorem countP_kept : (l.filterMap (keep known hs)).countP endsSource = l.countP (keptEnd known hs) := by
  induction l with
  | nil => rfl
  | cons t rest ih =>
    have hany := @keep_any Atom known hs t endsSource endsSource_type
    rw [countP_cons]
    unfold keptEnd
    rw [← hany]
    cases hkeep : keep known hs t with
    | none =>
      rw [filterMap_cons_none hkeep, ih]
      rfl
    | some b =>
      rw [filterMap_cons_some hkeep, countP_cons, ih]
      rfl

theorem not_pairsFit_iff : ¬ PairsFit n i (l.filterMap (keep known hs)) ↔
    ∃ a t b, l = a ++ t :: b ∧ beginsSource t.1 = true ∧ kept known hs t.2 = true ∧
      n ≤ i + a.countP (keptEnd known hs) := by
  induction l generalizing i with
  | nil =>
    refine iff_of_false (fun h => h trivial) ?_
    rintro ⟨a, t, b, hl, _⟩
    simp at hl
  | cons s rest ih =>
    have hbegin := @keep_any Atom known hs s beginsSource beginsSource_type
    have hend := @keep_any Atom known hs s endsSource endsSource_type
    have hstep : ¬ PairsFit n i ((s :: rest).filterMap (keep known hs)) ↔
        (beginsSource s.1 && kept known hs s.2) = true ∧ n ≤ i ∨
          ¬ PairsFit n (i + [s].countP (keptEnd known hs)) (rest.filterMap (keep known hs)) := by
      have hcount : [s].countP (keptEnd known hs) =
          if (keep known hs s).any endsSource = true then 1 else 0 := by
        rw [countP_singleton, hend]
        rfl
      rw [hcount, ← hbegin]
      cases hkeep : keep known hs s with
      | none =>
        rw [filterMap_cons_none hkeep]
        simp
      | some b =>
        rw [filterMap_cons_some hkeep, PairsFit, countP_singleton, not_and_or,
          Classical.not_imp, Nat.not_lt]
        rfl
    rw [hstep, ih]
    constructor
    · rintro (⟨hfirst, hn⟩ | ⟨a, t, b, hrest, hbegins, hkept, hn⟩)
      · obtain ⟨hbegins, hkept⟩ := (Bool.and_eq_true _ _).mp hfirst
        exact ⟨[], s, rest, rfl, hbegins, hkept, by simpa using hn⟩
      · refine ⟨s :: a, t, b, by rw [hrest, cons_append], hbegins, hkept, ?_⟩
        rw [← singleton_append, countP_append, ← Nat.add_assoc]
        exact hn
    · rintro ⟨a, t, b, hl, hbegins, hkept, hn⟩
      cases a with
      | nil =>
        obtain ⟨rfl, rfl⟩ := List.cons.inj hl
        left
        exact ⟨by rw [hbegins, hkept]; rfl, by simpa using hn⟩
      | cons s' a =>
        obtain ⟨rfl, rfl⟩ := List.cons.inj hl
        right
        refine ⟨a, t, b, rfl, hbegins, hkept, ?_⟩
        rw [← singleton_append, countP_append, ← Nat.add_assoc] at hn
        exact hn

theorem countP_le_kept : a.countP (fun t => endsSource t.1) ≤ a.countP (keptEnd known hs) ↔
    ∀ t ∈ a, endsSource t.1 = true → kept known hs t.2 = true := by
  induction a with
  | nil => simp
  | cons s rest ih =>
    have hle : rest.countP (keptEnd known hs) ≤ rest.countP fun t => endsSource t.1 := by
      apply countP_mono_left
      intro t _ ht
      exact ((Bool.and_eq_true _ _).mp ht).1
    rw [forall_mem_cons, countP_cons, countP_cons, ← ih]
    unfold keptEnd
    cases hends : endsSource s.1 with
    | false => simp
    | true =>
      cases hkept : kept known hs s.2 with
      | true => simp
      | false =>
        simp
        unfold keptEnd at hle
        omega

/-- An SO that begins a source is kept when all SO ranges are used up: no SO ends a source
behind it, and no such SO before it is in a replaced range. -/
def PastEnds (known : PathToSums) (stabs : List (Stab Atom)) : Prop :=
  ∃ a t b, tagged stabs = a ++ t :: b ∧ beginsSource t.1 = true ∧
    kept known (headerRanges stabs) t.2 = true ∧
    (∀ s ∈ a, endsSource s.1 = true → kept known (headerRanges stabs) s.2 = true) ∧
    ∀ s ∈ b, endsSource s.1 = false

theorem countP_tagged : stabs.countP endsSource = (tagged stabs).countP fun t => endsSource t.1 := by
  have hmap := @tags_map_fst (Stab Atom) stabMark 0 [] stabs
  conv_lhs => rw [← hmap, countP_map]
  rfl

theorem countP_kept_le :
    ((tagged stabs).filterMap (keep known hs)).countP endsSource ≤ stabs.countP endsSource := by
  rw [countP_kept, @countP_tagged _ stabs]
  apply countP_mono_left
  intro t _ ht
  exact ((Bool.and_eq_true _ _).mp ht).1

theorem not_pairsFit_tagged :
    ¬ PairsFit (stabs.countP endsSource) 0 ((tagged stabs).filterMap (keep known (headerRanges stabs))) ↔
      PastEnds known stabs := by
  rw [not_pairsFit_iff, countP_tagged]
  constructor
  · rintro ⟨a, t, b, hl, hbegins, hkept, hn⟩
    have hle : a.countP (keptEnd known (headerRanges stabs)) ≤ a.countP fun t => endsSource t.1 := by
      apply countP_mono_left
      intro t _ ht
      exact ((Bool.and_eq_true _ _).mp ht).1
    rw [hl, countP_append, countP_cons, Nat.zero_add] at hn
    refine ⟨a, t, b, hl, hbegins, hkept, countP_le_kept.mp (by omega), ?_⟩
    have hzero : b.countP (fun t => endsSource t.1) = 0 := by omega
    intro s hs
    exact Bool.eq_false_iff.mpr (List.countP_eq_zero.mp hzero s hs)
  · rintro ⟨a, t, b, hl, hbegins, hkept, hbefore, hafter⟩
    refine ⟨a, t, b, hl, hbegins, hkept, ?_⟩
    have hzero : b.countP (fun t => endsSource t.1) = 0 := by
      rw [countP_eq_zero]
      intro s hs
      rw [hafter s hs]
      decide
    have hle := countP_le_kept.mpr hbefore
    rw [hl, countP_append, countP_cons, hzero, not_ends_of_begins hbegins, Nat.zero_add]
    simpa using hle

theorem openRanges_fresh {pos next : Nat} {stack : List Nat} :
    ∀ range ∈ openRanges pos next stack stabs, range.useEXCL = false := by
  induction stabs generalizing pos next stack with
  | nil =>
    intro range h
    cases h
  | cons it rest ih =>
    cases hmark : stabMark it with
    | opens =>
      rw [openRanges_opens hmark, forall_mem_cons]
      exact ⟨rfl, ih⟩
    | closes =>
      rw [openRanges_closes hmark]
      exact ih
    | inside =>
      rw [openRanges_inside hmark]
      exact ih

theorem getElem?_headerRanges (k : Nat) : (headerRanges stabs)[k]? =
    (openRanges 0 0 [] stabs)[k]?.map fun range => closeRange range (members k (tagged stabs)) :=
  getElem?_mapIdx

theorem headerRanges_fresh : ∀ range ∈ headerRanges stabs, range.useEXCL = false := by
  intro range h
  obtain ⟨k, hk⟩ := mem_iff_getElem?.mp h
  rw [getElem?_headerRanges] at hk
  obtain ⟨r, hr, rfl⟩ := Option.map_eq_some_iff.mp hk
  exact openRanges_fresh r (mem_of_getElem? hr)

theorem placed_headerRanges : Placed (markAfter known [] (headerRanges stabs)) 0 0 [] stabs where
  ahead := by
    intro k
    rw [Nat.zero_add, shape_markAfter, getElem?_headerRanges, Option.map_map]
    rfl
  before := by
    omega
  chain := trivial
  below := by
    intro i hi
    cases hi

def ReachesRanges (stabs : List (Stab Atom)) : Prop :=
  headerRanges stabs ≠ [] ∧ AllRead (openRanges 0 0 [] stabs) (tagged stabs) ∧
    PathsRead (headerRanges stabs)

theorem collectStabs_copies (h : headerRanges stabs = []) :
    (∃ fStabs, collectStabs false atomOrdinals known stabs = .ok (fStabs, known) ∧
        fStabs.map Stab.forgetAtom = stabs.map Stab.forgetAtom) ∨
      collectStabs false atomOrdinals known stabs = .error .nullString := by
  unfold collectStabs
  rcases @firstPass_finds Atom atomOrdinals stabs with ⟨_, soRanges, _, hrun⟩ | ⟨_, hrun⟩
  · left
    obtain ⟨out, hout, hforget⟩ := @pairAll_guarded Atom stabs soRanges 0
    refine ⟨out, ?_, hforget⟩
    rw [hrun]
    show (if headerRanges stabs = [] then _ else _) = _
    rw [if_pos h, copyStabs_eq, hout]
    rfl
  · right
    rw [hrun]
    rfl

theorem collectStabs_pairs (h : ReachesRanges stabs) :
    ∃ (soRanges : List (Option Atom × Option Atom)) (known' : PathToSums),
      soRanges.length = stabs.countP endsSource ∧
        collectStabs false atomOrdinals known stabs =
          (pairAll soRanges false 0 ((tagged stabs).filterMap (keep known (headerRanges stabs)))).map
            fun fStabs => (fStabs, known') := by
  obtain ⟨hranges, hread, hpaths⟩ := h
  rcases @firstPass_finds Atom atomOrdinals stabs with ⟨_, soRanges, hlength, hrun⟩ | ⟨hall, _⟩
  · rcases @markKnown_marks known known [] (headerRanges stabs) registers_nil with
      ⟨_, known', hmark⟩ | ⟨hno, _⟩
    · refine ⟨soRanges, known', hlength, ?_⟩
      have hsecond := @secondPass_eq Atom known (headerRanges stabs)
        (markAfter known [] (headerRanges stabs)) stabs soRanges 0 0 0 [] placed_headerRanges
        (useEXCL_markAfter headerRanges_fresh) sum_markAfter
      unfold collectStabs
      rw [hrun]
      show (if headerRanges stabs = [] then _ else _) = _
      rw [if_neg hranges, hmark]
      show (secondPass false soRanges (markAfter known [] (headerRanges stabs)) 0 none 0 stabs >>=
        fun fStabs => .ok (fStabs, known')) = _
      rw [head?_nil] at hsecond
      rw [hsecond]
      unfold tagged
      cases pairAll soRanges false 0
        ((tags stabMark 0 [] stabs).filterMap (keep known (headerRanges stabs))) <;> rfl
    · exact absurd hpaths hno
  · exact absurd hread hall

theorem collectStabs_stops (hranges : headerRanges stabs ≠ []) (h : ¬ ReachesRanges stabs) :
    collectStabs false atomOrdinals known stabs = .error .nullString := by
  unfold collectStabs
  rcases @firstPass_finds Atom atomOrdinals stabs with ⟨hread, soRanges, hlength, hrun⟩ | ⟨_, hrun⟩
  · rcases @markKnown_marks known known [] (headerRanges stabs) registers_nil with
      ⟨hpaths, _⟩ | ⟨_, hmark⟩
    · exact absurd ⟨hranges, hread, hpaths⟩ h
    rw [hrun]
    show (if headerRanges stabs = [] then _ else _) = _
    rw [if_neg hranges, hmark]
    rfl
  · rw [hrun]
    rfl

/-! ## Nesting -/

def Nested (stabs : List (Stab Atom)) : Prop := Balanced stabMark 0 stabs

def emittedTags (known : PathToSums) (stabs : List (Stab Atom)) : List (Stab Atom × Option Nat) :=
  leftTags (keep known (headerRanges stabs)) (tagged stabs)

/-- The SO ranges are indexed in bounds. From nested ranges the kept stabs are emitted, every
EINCL closes the BINCL of its range, and what is emitted is nested. -/
structure CollectsRight (atomOrdinals : Option Atom → Option Nat) (known : PathToSums)
    (stabs : List (Stab Atom)) : Prop where
  bounds : ∀ index, collectStabs false atomOrdinals known stabs ≠ .error (.soRanges index)
  emits : Nested stabs → ∀ fStabs known',
    collectStabs false atomOrdinals known stabs = .ok (fStabs, known') →
      fStabs.map Stab.forgetAtom = (emittedTags known stabs).map fun t => t.1.forgetAtom
  closes : Nested stabs → Closes stabMark [] (emittedTags known stabs)
  nests : Nested stabs → ∀ fStabs known',
    collectStabs false atomOrdinals known stabs = .ok (fStabs, known') → Nested fStabs

theorem emittedTags_map : (emittedTags known stabs).map (fun t => t.1.forgetAtom) =
    ((tagged stabs).filterMap (keep known (headerRanges stabs))).map Stab.forgetAtom := by
  rw [← leftTags_map_fst, map_map]
  rfl

theorem closes_emittedTags (h : Nested stabs) : Closes stabMark [] (emittedTags known stabs) := by
  have hbalanced : Balanced stabMark ([] : List Nat).length stabs := h
  exact closes_leftTags keep_removes hbalanced

theorem filterMap_keep_of_nil {pos next : Nat} (h : Balanced stabMark 0 stabs)
    (hnone : openRanges pos next [] stabs = []) :
    (tags stabMark next [] stabs).filterMap (keep known hs) = stabs := by
  induction stabs generalizing pos next with
  | nil => rfl
  | cons it rest ih =>
    cases hmark : stabMark it with
    | opens =>
      rw [openRanges_opens hmark] at hnone
      cases hnone
    | closes => exact absurd ((balanced_closes hmark).mp h).1 (Nat.lt_irrefl 0)
    | inside =>
      rw [openRanges_inside hmark] at hnone
      rw [tags_inside hmark, filterMap_cons_some, ih ((balanced_inside hmark).mp h) hnone]
      rw [head?_nil, keep_inside hmark, Option.any_none, if_neg (by decide)]

theorem openRanges_nil_of_headerRanges (h : headerRanges stabs = []) :
    openRanges 0 0 [] stabs = [] := by
  exact List.mapIdx_eq_nil_iff.mp h

section
variable (h : Nested stabs) {fStabs : List (Stab Atom)} {known' : PathToSums}
    (hrun : collectStabs false atomOrdinals known stabs = .ok (fStabs, known'))
include h hrun

theorem collectStabs_emits :
    fStabs.map Stab.forgetAtom = (emittedTags known stabs).map fun t => t.1.forgetAtom := by
  rw [emittedTags_map]
  by_cases hranges : headerRanges stabs = []
  · rcases @collectStabs_copies Atom known stabs atomOrdinals hranges with ⟨out, hout, hforget⟩ | hstop
    · rw [hout] at hrun
      cases hrun
      have hall := @filterMap_keep_of_nil Atom known (headerRanges stabs) stabs 0 0 h
        (openRanges_nil_of_headerRanges hranges)
      unfold tagged
      rw [hforget, hall]
    · rw [hstop] at hrun
      cases hrun
  · by_cases hreaches : ReachesRanges stabs
    · obtain ⟨soRanges, known'', hlength, hpairs⟩ :=
        @collectStabs_pairs Atom known stabs atomOrdinals hreaches
      have hends : 0 + ((tagged stabs).filterMap (keep known (headerRanges stabs))).countP endsSource ≤
          soRanges.length := by
        rw [hlength, Nat.zero_add]
        exact countP_kept_le
      rcases pairAll_fits hends with ⟨_, out, hout, hforget⟩ | ⟨_, index, hstop⟩
      · rw [hpairs, hout] at hrun
        cases hrun
        exact hforget
      · rw [hpairs, hstop] at hrun
        cases hrun
    · rw [collectStabs_stops hranges hreaches] at hrun
      cases hrun

theorem collectStabs_nests : Nested fStabs := by
  have hforget : ∀ it : Stab Atom, stabMark it.forgetAtom = stabMark it := fun _ => rfl
  have hclosed := balanced_of_closes (@closes_emittedTags Atom known stabs h)
  have hmapped := (balanced_map hforget).mpr hclosed
  rw [map_map] at hmapped
  unfold Nested
  rw [← balanced_map hforget, collectStabs_emits h hrun]
  exact hmapped

end

theorem collectStabs_outOfBounds_iff :
    (∃ index, collectStabs false atomOrdinals known stabs = .error (.soRanges index)) ↔
      ReachesRanges stabs ∧ PastEnds known stabs := by
  by_cases hranges : headerRanges stabs = []
  · refine iff_of_false ?_ fun h => h.1.1 hranges
    rintro ⟨index, hindex⟩
    rcases @collectStabs_copies Atom known stabs atomOrdinals hranges with ⟨out, hout, _⟩ | hstop
    · rw [hout] at hindex
      cases hindex
    · rw [hstop] at hindex
      cases hindex
  · by_cases hreaches : ReachesRanges stabs
    · obtain ⟨soRanges, known', hlength, hpairs⟩ :=
        @collectStabs_pairs Atom known stabs atomOrdinals hreaches
      have hends : 0 + ((tagged stabs).filterMap (keep known (headerRanges stabs))).countP endsSource ≤
          soRanges.length := by
        rw [hlength, Nat.zero_add]
        exact countP_kept_le
      rw [hpairs, ← not_pairsFit_tagged, ← hlength]
      rcases pairAll_fits hends with ⟨hfit, out, hout, _⟩ | ⟨hfit, index, hstop⟩
      · refine iff_of_false ?_ fun h => h.2 hfit
        rintro ⟨index, hindex⟩
        rw [hout] at hindex
        cases hindex
      · refine iff_of_true ⟨index, ?_⟩ ⟨hreaches, hfit⟩
        rw [hstop]
        rfl
    · refine iff_of_false ?_ fun h => hreaches h.1
      rintro ⟨index, hindex⟩
      rw [collectStabs_stops hranges hreaches] at hindex
      cases hindex

/-- Everything is right exactly when no SO is emitted past the last SO range. -/
theorem collectStabs_right_iff :
    CollectsRight atomOrdinals known stabs ↔ ¬ (ReachesRanges stabs ∧ PastEnds known stabs) := by
  rw [← @collectStabs_outOfBounds_iff Atom known stabs atomOrdinals]
  constructor
  · rintro hright ⟨index, hindex⟩
    exact hright.bounds index hindex
  · intro hno
    exact ⟨fun index hindex => hno ⟨index, hindex⟩, fun h _ _ hrun => collectStabs_emits h hrun,
      closes_emittedTags, fun h _ _ hrun => collectStabs_nests h hrun⟩

def unendedSource : List (Stab Nat) :=
  [⟨none, .N_BINCL, 0, 0, 7, some [104]⟩, ⟨none, .N_EINCL, 0, 0, 0, some []⟩,
    ⟨none, .N_SO, 0, 0, 0, some [97]⟩]

/-- An SO without a range. -/
theorem collectStabs_right_unended : ¬ ∀ atomOrdinals known (stabs : List (Stab Nat)),
    CollectsRight atomOrdinals known stabs := by
  intro hclaim
  exact (hclaim (fun _ => none) (fun _ => []) unendedSource).bounds 0 rfl

end Paired
end Toolwhip.Ld64.Stabs
