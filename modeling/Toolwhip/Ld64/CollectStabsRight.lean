import Toolwhip.Ld64.CollectStabsRanges

/-! # What collectStabs emits

The stabs that are kept do not depend on the SO ranges; the SO ranges only give the kept SOs
their atoms. -/

namespace Toolwhip.Ld64.Stabs
set_option autoImplicit false

open Lib.NestedRanges List

section Right
variable {Atom : Type}

/-- What is left of a stab, without the atom of an SO. -/
def keep (known : PathToSums) (hs : List HeaderRange) (t : Stab Atom × Option Nat) :
    Option (Stab Atom) :=
  match stabMark t.1 with
  | .opens => t.2.map fun k =>
    { t.1 with
      value := hs[k]?.elim t.1.value HeaderRange.sum
      type := if replaced known hs k then .N_EXCL else .N_BINCL }
  | .closes => t.2.bind fun k => if replaced known hs k then none else some t.1
  | .inside => if t.2.any (replaced known hs) then none else some t.1

variable {known : PathToSums} {hs ranges : List HeaderRange} {it : Stab Atom} {rest : List (Stab Atom)}
  {soRanges : List (Option Atom × Option Atom)} {soIndex pos next k : Nat} {stack : List Nat}
  {range : Option Nat} {guarded : Bool}

theorem keep_opens (h : stabMark it = .opens) : keep known hs (it, some k) =
    some { it with
      value := hs[k]?.elim it.value HeaderRange.sum
      type := if replaced known hs k then .N_EXCL else .N_BINCL } := by
  unfold keep
  simp only [h, Option.map_some]

theorem keep_closes (h : stabMark it = .closes) : keep known hs (it, range) =
    range.bind fun k => if replaced known hs k then none else some it := by
  unfold keep
  simp only [h]

theorem keep_inside (h : stabMark it = .inside) : keep known hs (it, range) =
    if range.any (replaced known hs) then none else some it := by
  unfold keep
  simp only [h]

theorem keep_removes :
    Removes stabMark (fun k => replaced known hs k = true) (@keep Atom known hs) where
  opens_kept := by
    intro it k hmark hkept
    refine ⟨_, keep_opens hmark, ?_⟩
    rw [stabMark_opens, if_neg hkept]
  opens_gone := by
    intro it k b hmark hgone hb
    rw [keep_opens hmark, if_pos hgone] at hb
    cases hb
    rfl
  closes_kept := by
    intro it k hmark hkept
    refine ⟨it, ?_, hmark⟩
    rw [keep_closes hmark, Option.bind_some, if_neg hkept]
  closes_gone := by
    intro it k hmark hgone
    rw [keep_closes hmark, Option.bind_some, if_pos hgone]
  inside := by
    intro it range b hmark hb
    rw [keep_inside hmark] at hb
    split at hb
    · cases hb
    cases hb
    exact hmark

def pairAll (soRanges : List (Option Atom × Option Atom)) (guarded : Bool) :
    Nat → List (Stab Atom) → Except Stop (List (Stab Atom))
  | _, [] => .ok []
  | soIndex, it :: rest => do
    let r ← pairSo soRanges guarded soIndex it
    let stabs ← pairAll soRanges guarded r.2 rest
    .ok (r.1 :: stabs)

theorem pairSo_other (h : it.type ≠ .N_SO) : pairSo soRanges guarded soIndex it = .ok (it, soIndex) := by
  unfold pairSo
  rw [if_neg h]

theorem pairAll_cons_other (h : it.type ≠ .N_SO) : pairAll soRanges guarded soIndex (it :: rest) =
    (pairAll soRanges guarded soIndex rest).map (it :: ·) := by
  rw [pairAll, pairSo_other h]
  show (pairAll soRanges guarded soIndex rest >>= fun stabs => .ok (it :: stabs)) = _
  cases pairAll soRanges guarded soIndex rest <;> rfl

theorem copyStabs_eq : copyStabs false soRanges soIndex rest = pairAll soRanges true soIndex rest := by
  induction rest generalizing soIndex with
  | nil => rfl
  | cons it rest ih =>
    rw [copyStabs, pairAll]
    show (pairSo soRanges true soIndex it >>= fun r =>
      copyStabs false soRanges r.2 rest >>= fun stabs => .ok (r.1 :: stabs)) = _
    simp only [ih]

/-! ## The second pass -/

/-- The ranges are those of the stabs before `pos` and of the stabs from there on. -/
structure Placed (ranges : List HeaderRange) (pos next : Nat) (stack : List Nat)
    (rest : List (Stab Atom)) : Prop where
  ahead : ∀ k, ranges[next + k]?.map HeaderRange.shape =
    (openRanges pos next stack rest)[k]?.map HeaderRange.shape
  before : ∀ i r, i < next → ranges[i]? = some r → r.begin < pos
  chain : Chained ranges stack
  below : ∀ i ∈ stack, i < next

section
variable (h : Placed ranges pos next stack (it :: rest))
include h

theorem Placed.head (hmark : stabMark it = .opens) :
    ∃ r, ranges[next]? = some r ∧ r.begin = pos ∧ r.parentRangeIndex = stack.head? := by
  have hahead := h.ahead 0
  rw [openRanges_opens hmark, getElem?_cons_zero, Option.map_some, Nat.add_zero] at hahead
  obtain ⟨r, hr, hshape⟩ := Option.map_eq_some_iff.mp hahead
  exact ⟨r, hr, congrArg Prod.fst hshape, congrArg Prod.snd hshape⟩

theorem Placed.opens (hmark : stabMark it = .opens) :
    Placed ranges (pos + 1) (next + 1) (next :: stack) rest := by
  obtain ⟨r, hr, hbegin, hparent⟩ := h.head hmark
  refine ⟨?_, ?_, ⟨(List.getElem?_eq_some_iff.mp hr).1, ?_, h.chain⟩, ?_⟩
  · intro k
    have hahead := h.ahead (k + 1)
    rw [openRanges_opens hmark, getElem?_cons_succ] at hahead
    rw [← hahead, Nat.add_assoc, Nat.add_comm 1 k]
  · intro i s hi hs
    by_cases heq : i = next
    · subst heq
      rw [hr] at hs
      cases hs
      omega
    · have hlt := h.before i s (by omega) hs
      omega
  · unfold parentOf
    rw [hr, Option.bind_some, hparent]
  · intro i hi
    rcases List.mem_cons.mp hi with rfl | hi
    · exact Nat.lt_succ_self i
    · exact Nat.lt_succ_of_lt (h.below i hi)

theorem Placed.closes (hmark : stabMark it = .closes) :
    Placed ranges (pos + 1) next stack.tail rest := by
  refine ⟨?_, ?_, h.chain.tail, ?_⟩
  · intro k
    rw [h.ahead k, openRanges_closes hmark]
  · intro i r hi hr
    exact Nat.lt_succ_of_lt (h.before i r hi hr)
  · intro i hi
    exact h.below i (mem_of_mem_tail hi)

theorem Placed.inside (hmark : stabMark it = .inside) :
    Placed ranges (pos + 1) next stack rest := by
  refine ⟨?_, ?_, h.chain, h.below⟩
  · intro k
    rw [h.ahead k, openRanges_inside hmark]
  · intro i r hi hr
    exact Nat.lt_succ_of_lt (h.before i r hi hr)

theorem Placed.findRange
    (hmark : stabMark it = .opens) : findRange ranges stack.head? pos = some next := by
  obtain ⟨r, hr, hbegin, _⟩ := h.head hmark
  unfold Stabs.findRange
  rw [find?_range_eq_some]
  refine ⟨?_, List.mem_range.mpr (List.getElem?_eq_some_iff.mp hr).1, ?_⟩
  · rw [decide_eq_true_eq, hr]
    constructor
    · cases hstack : stack with
      | nil => rfl
      | cons i below =>
        have hlt := h.below i (by rw [hstack]; exact mem_cons_self)
        simpa using hlt
    · simpa using hbegin
  · intro i hi
    rw [Bool.not_eq_true', decide_eq_false_iff_not]
    intro hfound
    obtain ⟨s, hs, hpos⟩ := (Option.any_eq_true _ _).mp hfound.2
    have hlt := h.before i s hi hs
    have heq : s.begin = pos := by simpa using hpos
    omega

end

theorem useEXCL_some {r : HeaderRange} (hr : ranges[k]? = some r) :
    useEXCL ranges (some k) = r.useEXCL := by
  unfold useEXCL
  rw [Option.bind_some, hr, Option.any_some]

theorem secondPass_opens (hmark : stabMark it = .opens) {cur : Option Nat} {r : HeaderRange}
    (hfind : findRange ranges cur pos = some k) (hr : ranges[k]? = some r) :
    secondPass false soRanges ranges pos cur soIndex (it :: rest) =
      (secondPass false soRanges ranges (pos + 1) (some k) soIndex rest).map
        (headerStab r it :: ·) := by
  rw [secondPass.eq_def]
  simp only [stabMark_opens.mp hmark]
  simp only [hfind, hr]
  cases secondPass false soRanges ranges (pos + 1) (some k) soIndex rest <;> rfl

theorem secondPass_closes (hmark : stabMark it = .closes) {cur : Option Nat} :
    secondPass false soRanges ranges pos cur soIndex (it :: rest) =
      (secondPass false soRanges ranges (pos + 1) (cur.bind (parentOf ranges)) soIndex rest).map
        fun stabs => if cur = none ∨ useEXCL ranges cur = true then stabs else it :: stabs := by
  rw [secondPass.eq_def]
  simp only [stabMark_closes.mp hmark]
  cases cur with
  | none =>
    simp only [Option.bind_none, true_or, if_true]
    cases secondPass false soRanges ranges (pos + 1) none soIndex rest <;> rfl
  | some i =>
    simp only [Option.bind_some]
    cases secondPass false soRanges ranges (pos + 1) (parentOf ranges i) soIndex rest with
    | error stop => rfl
    | ok stabs => simp [bind, Except.bind, Except.map]

theorem secondPass_inside (hmark : stabMark it = .inside) {cur : Option Nat} :
    secondPass false soRanges ranges pos cur soIndex (it :: rest) =
      if useEXCL ranges cur then secondPass false soRanges ranges (pos + 1) cur soIndex rest
      else pairSo soRanges false soIndex it >>= fun r =>
        secondPass false soRanges ranges (pos + 1) cur r.2 rest >>= fun stabs =>
          .ok (r.1 :: stabs) := by
  rw [secondPass.eq_def]
  simp only
  split
  · rename_i htype
    rw [stabMark_opens.mpr htype] at hmark
    cases hmark
  · rename_i htype
    rw [stabMark_closes.mpr htype] at hmark
    cases hmark
  · rfl

theorem secondPass_eq (hplaced : Placed ranges pos next stack rest)
    (hexcl : ∀ k, useEXCL ranges (some k) = replaced known hs k)
    (hsum : ∀ k : Nat, ranges[k]?.map HeaderRange.sum = hs[k]?.map HeaderRange.sum) :
    secondPass false soRanges ranges pos stack.head? soIndex rest =
      pairAll soRanges false soIndex ((tags stabMark next stack rest).filterMap (keep known hs)) := by
  induction rest generalizing pos next stack soIndex with
  | nil => rfl
  | cons it rest ih =>
    cases hmark : stabMark it with
    | opens =>
      obtain ⟨r, hr, _, _⟩ := hplaced.head hmark
      have htype := stabMark_opens.mp hmark
      have hrest := @ih soIndex (pos + 1) (next + 1) (next :: stack) (hplaced.opens hmark)
      have hheader : headerStab r it = { it with
          value := hs[next]?.elim it.value HeaderRange.sum
          type := if replaced known hs next then .N_EXCL else .N_BINCL } := by
        have hvalue := hsum next
        rw [hr, Option.map_some] at hvalue
        obtain ⟨s, hs', hsame⟩ := Option.map_eq_some_iff.mp hvalue.symm
        unfold headerStab
        rw [← hexcl next, useEXCL_some hr, hs', Option.elim_some, hsame, htype]
      rw [secondPass_opens hmark (hplaced.findRange hmark) hr, tags_opens hmark,
        filterMap_cons_some (keep_opens hmark), pairAll_cons_other, ← hrest, hheader]
      · rfl
      · split <;> simp
    | closes =>
      have htype := stabMark_closes.mp hmark
      have hno : it.type ≠ .N_SO := by
        rw [htype]
        decide
      have hrest := @ih soIndex (pos + 1) next stack.tail (hplaced.closes hmark)
      rw [secondPass_closes hmark, tags_closes hmark, hplaced.chain.parent, hrest]
      cases stack with
      | nil =>
        rw [filterMap_cons_none (keep_closes hmark)]
        exact congrFun Except.map_id _
      | cons k below =>
        rw [head?_cons, tail_cons, hexcl k]
        cases hreplaced : replaced known hs k with
        | true =>
          have hkeep : keep known hs (it, some k) = none := by
            rw [keep_closes hmark, Option.bind_some, if_pos hreplaced]
          rw [filterMap_cons_none hkeep]
          exact congrFun Except.map_id _
        | false =>
          have hkeep : keep known hs (it, some k) = some it := by
            rw [keep_closes hmark, Option.bind_some, if_neg (by simp [hreplaced])]
          rw [filterMap_cons_some hkeep, pairAll_cons_other hno]
          simp
    | inside =>
      have hrest := fun i => @ih i (pos + 1) next stack (hplaced.inside hmark)
      have hsame : useEXCL ranges stack.head? = stack.head?.any (replaced known hs) := by
        cases stack with
        | nil => rfl
        | cons k below => exact hexcl k
      rw [secondPass_inside hmark, tags_inside hmark, hsame]
      by_cases hreplaced : stack.head?.any (replaced known hs) = true
      · have hkeep : keep known hs (it, stack.head?) = none := by
          rw [keep_inside hmark, if_pos hreplaced]
        rw [if_pos hreplaced, filterMap_cons_none hkeep, hrest]
      have hkeep : keep known hs (it, stack.head?) = some it := by
        rw [keep_inside hmark, if_neg hreplaced]
      rw [if_neg hreplaced, filterMap_cons_some hkeep, pairAll]
      simp only [hrest]

def beginsSource (it : Stab Atom) : Bool := it.type = .N_SO ∧ it.startsSource

def Stab.forgetAtom (it : Stab Atom) : Stab Atom := { it with atom := none }

/-- Every SO that begins a source has an SO range, when `n` are there. -/
def PairsFit (n : Nat) : Nat → List (Stab Atom) → Prop
  | _, [] => True
  | soIndex, it :: rest =>
    (beginsSource it = true → soIndex < n) ∧ PairsFit n (soIndex + [it].countP endsSource) rest

theorem pairSo_there (h : it.type = .N_SO → soIndex < soRanges.length) :
    ∃ stab, pairSo soRanges guarded soIndex it = .ok (stab, soIndex + [it].countP endsSource) ∧
      stab.forgetAtom = it.forgetAtom := by
  by_cases htype : it.type = .N_SO
  · have hlt := h htype
    unfold pairSo
    rw [if_pos htype, getElem?_eq_getElem hlt, countP_singleton]
    by_cases hstarts : it.startsSource = true
    · refine ⟨{ it with atom := soRanges[soIndex].1 }, ?_, rfl⟩
      simp [hstarts, endsSource]
    · refine ⟨{ it with atom := soRanges[soIndex].2 }, ?_, rfl⟩
      simp [hstarts, endsSource, htype]
  · have hno : endsSource it = false := by
      unfold endsSource
      rw [decide_eq_false_iff_not]
      exact fun h => htype h.1
    rw [pairSo_other htype, countP_singleton, hno]
    exact ⟨it, rfl, rfl⟩

theorem type_cases (htype : it.type = .N_SO) : beginsSource it = true ∨ endsSource it = true := by
  unfold beginsSource endsSource
  simp only [htype, decide_eq_true_eq]
  cases it.startsSource <;> simp

/-- The pairing goes through exactly when every SO that begins a source has a range. -/
theorem pairAll_fits (hends : soIndex + rest.countP endsSource ≤ soRanges.length) :
    PairsFit soRanges.length soIndex rest ∧ (∃ out, pairAll soRanges false soIndex rest = .ok out ∧
        out.map Stab.forgetAtom = rest.map Stab.forgetAtom) ∨
      ¬ PairsFit soRanges.length soIndex rest ∧
        ∃ i, pairAll soRanges false soIndex rest = .error (.soRanges i) := by
  induction rest generalizing soIndex with
  | nil => exact Or.inl ⟨trivial, [], rfl, rfl⟩
  | cons it rest ih =>
    have hcount : (it :: rest).countP endsSource = [it].countP endsSource + rest.countP endsSource := by
      rw [← countP_append, singleton_append]
    rw [hcount, ← Nat.add_assoc] at hends
    rw [PairsFit, pairAll]
    by_cases hthere : beginsSource it = true → soIndex < soRanges.length
    · have hso : it.type = .N_SO → soIndex < soRanges.length := by
        intro htype
        rcases type_cases htype with hbegins | hends'
        · exact hthere hbegins
        have hone : [it].countP endsSource = 1 := by rw [countP_singleton, if_pos hends']
        omega
      obtain ⟨stab, hpair, hforget⟩ := @pairSo_there _ it soRanges soIndex false hso
      rw [hpair]
      rcases ih hends with ⟨hfit, out, hrun, hout⟩ | ⟨hfit, i, hrun⟩
      · left
        refine ⟨⟨hthere, hfit⟩, stab :: out, ?_, ?_⟩
        · show (pairAll soRanges false (soIndex + [it].countP endsSource) rest >>= fun stabs =>
            .ok (stab :: stabs)) = _
          rw [hrun]
          rfl
        · rw [map_cons, map_cons, hforget, hout]
      · right
        refine ⟨fun h => hfit h.2, i, ?_⟩
        show (pairAll soRanges false (soIndex + [it].countP endsSource) rest >>= fun stabs =>
          .ok (stab :: stabs)) = _
        rw [hrun]
        rfl
    · right
      refine ⟨fun h => hthere h.1, soIndex, ?_⟩
      rw [Classical.not_imp] at hthere
      have htype : it.type = .N_SO := by
        have hbegins := hthere.1
        exact (of_decide_eq_true hbegins).1
      unfold pairSo
      rw [if_pos htype, getElem?_eq_none (by omega)]
      rfl

/-- With the guard of the case without ranges, the pairing always goes through. -/
theorem pairAll_guarded : ∃ out, pairAll soRanges true soIndex rest = .ok out ∧
    out.map Stab.forgetAtom = rest.map Stab.forgetAtom := by
  induction rest generalizing soIndex with
  | nil => exact ⟨[], rfl, rfl⟩
  | cons it rest ih =>
    have hpair : ∃ r : Stab Atom × Nat, pairSo soRanges true soIndex it = .ok r ∧
        r.1.forgetAtom = it.forgetAtom := by
      by_cases hthere : it.type = .N_SO → soIndex < soRanges.length
      · obtain ⟨stab, hpair, hforget⟩ := @pairSo_there _ it soRanges soIndex true hthere
        exact ⟨_, hpair, hforget⟩
      rw [Classical.not_imp] at hthere
      refine ⟨(it, soIndex), ?_, rfl⟩
      unfold pairSo
      rw [if_pos hthere.1, getElem?_eq_none (by omega)]
      rfl
    obtain ⟨r, hr, hforget⟩ := hpair
    obtain ⟨out, hrun, hout⟩ := @ih r.2
    refine ⟨r.1 :: out, ?_, ?_⟩
    · rw [pairAll, hr]
      show (pairAll soRanges true r.2 rest >>= fun stabs => .ok (r.1 :: stabs)) = _
      rw [hrun]
      rfl
    · rw [map_cons, map_cons, hforget, hout]

end Right
end Toolwhip.Ld64.Stabs
