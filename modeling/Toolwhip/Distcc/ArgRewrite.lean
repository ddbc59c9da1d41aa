import Toolwhip.Distcc.ArgScan

/-! # Changing the names in a scanned command line

`dcc_set_output` and `dcc_set_input` look for the names by rules of their own. They
change what the scan has found if and only if no other word comes first that looks to
them like it. -/

namespace Toolwhip.Distcc
open Lib.CNumber Lib.ThrowingFold List
set_option autoImplicit false

section First
variable (remote : RemoteAssemble)

def noOption (a : Arg) : Bool := !str_startswith (ascii "-o") a

def noSource (a : Arg) : Bool := !dcc_is_source remote a

/-- The output is given by `-o`, and no argument of another option starts like that before
it. -/
def outputFirst : List Arg → Bool
  | [] => true
  | a :: rest =>
    match kind remote a with
    | .opt_o | .joined => true
    | .object => false
    | .withArgument | .opt_x =>
      match rest with
      | [] => true
      | x :: rest => noOption x && outputFirst rest
    | _ => outputFirst rest

/-- No option, argument of an option or output before the input has the name of a source
file. -/
def inputFirst : List Arg → Bool
  | [] => true
  | a :: rest =>
    match kind remote a with
    | .source => true
    | .withArgument | .opt_x | .opt_o =>
      match rest with
      | [] => noSource remote a
      | x :: rest => noSource remote a && noSource remote x && inputFirst rest
    | _ => noSource remote a && inputFirst rest

end First

section Prefix
variable {remote : RemoteAssemble} {i : Nat} {a : Arg} {seen before : Seen}
  {pre arg rest : List Arg}
variable {l : List Arg}

theorem arity_zero (h : (kind remote a).takesNext = false)
    (harity : arg.length = (kind remote a).arity) : arg = [] := by
  rw [Kind.arity, h] at harity
  exact List.length_eq_zero_iff.mp harity

theorem arity_one (h : (kind remote a).takesNext = true)
    (harity : arg.length = (kind remote a).arity) : ∃ x, arg = [x] := by
  rw [Kind.arity, h] at harity
  exact List.length_eq_one_iff.mp harity

theorem outputFirst_word (hgives : (kind remote a).givesOutput = false)
    (harity : arg.length = (kind remote a).arity) :
    outputFirst remote (a :: (arg ++ rest)) = (arg.all noOption && outputFirst remote rest) := by
  cases htakes : (kind remote a).takesNext with
  | false =>
    obtain rfl := arity_zero htakes harity
    rw [outputFirst.eq_def]
    cases hkind : kind remote a <;> simp_all [Kind.givesOutput, Kind.takesNext]
  | true =>
    obtain ⟨x, rfl⟩ := arity_one htakes harity
    rw [outputFirst.eq_def]
    cases hkind : kind remote a <;> simp_all [Kind.givesOutput, Kind.takesNext]

theorem inputFirst_word (hsource : kind remote a ≠ .source)
    (harity : arg.length = (kind remote a).arity) : inputFirst remote (a :: (arg ++ rest)) =
      ((a :: arg).all (noSource remote) && inputFirst remote rest) := by
  cases htakes : (kind remote a).takesNext with
  | false =>
    obtain rfl := arity_zero htakes harity
    rw [inputFirst.eq_def]
    cases hkind : kind remote a <;> simp_all [Kind.takesNext]
  | true =>
    obtain ⟨x, rfl⟩ := arity_one htakes harity
    rw [inputFirst.eq_def]
    cases hkind : kind remote a <;> simp_all [Kind.takesNext, Bool.and_assoc]

theorem noOption_of_gives (h : (kind remote a).givesOutput = false) : noOption a = true := by
  unfold noOption
  rw [Bool.not_eq_true', ← Bool.not_eq_true]
  intro hstarts
  rcases kind_of_startswith remote hstarts with ⟨_, hkind⟩ | ⟨_, hkind⟩
  · rw [hkind] at h
    cases h
  · rw [hkind] at h
    cases h

theorem output_none (h : scanWords remote i pre seen = .ok before)
    (hnone : before.output = none) : seen.output = none := by
  apply Classical.byContradiction
  intro hsome
  refine run_invariant (P := fun _ seen => seen.output ≠ none) ?_ h hsome hnone
  intro _ _ _ _ _ _ hlook _ _ hsome
  rcases lookAt_output hlook with ⟨_, _, rfl⟩ | ⟨_, hsame⟩
  · simp
  rw [hsame]
  exact hsome

theorem input_none (h : scanWords remote i pre seen = .ok before)
    (hnone : before.input = none) : seen.input = none := by
  apply Classical.byContradiction
  intro hsome
  refine run_invariant (P := fun _ seen => seen.input ≠ none) ?_ h hsome hnone
  intro _ _ _ _ _ _ hlook _ _ hsome
  rcases lookAt_input hlook with ⟨_, _, rfl⟩ | ⟨_, hsame⟩
  · simp
  rw [hsame]
  exact hsome

theorem input_kept {q : Nat} (h : scanWords remote i l before = .ok seen)
    (hq : before.input = some q) : seen.input = some q := by
  refine run_invariant (P := fun _ seen => seen.input = some q) ?_ h hq
  intro _ _ _ _ _ _ hlook _ _ hsome
  rcases lookAt_input hlook with ⟨_, hnone, _⟩ | ⟨_, hsame⟩
  · rw [hnone] at hsome
    cases hsome
  · rw [hsame, hsome]

theorem output_kept {place : Place}
    (h : scanWords remote i l before = .ok seen) (hplace : before.output = some place) :
    seen.output = some place := by
  refine run_invariant (P := fun _ seen => seen.output = some place) ?_ h hplace
  intro _ _ _ _ _ _ hlook _ _ hsome
  rcases lookAt_output hlook with ⟨_, hnone, _⟩ | ⟨_, hsame⟩
  · rw [hnone] at hsome
    cases hsome
  · rw [hsame, hsome]

theorem outputFirst_append (h : scanWords remote i pre seen = .ok before)
    (hnone : before.output = none) :
    outputFirst remote (pre ++ rest) = (pre.all noOption && outputFirst remote rest) := by
  revert h hnone
  apply run_induction remote (motive := fun _ pre _ before => before.output = none →
    outputFirst remote (pre ++ rest) = (pre.all noOption && outputFirst remote rest))
  · intro _ _ _
    simp
  · intro i a arg later seen seen₁ before harity hlook hrest ih hnone
    have hgives : (kind remote a).givesOutput = false := by
      rcases lookAt_output hlook with ⟨_, _, rfl⟩ | ⟨hgives, _⟩
      · cases output_none hrest hnone
      · exact hgives
    rw [cons_append, append_assoc, outputFirst_word hgives harity, ih hnone,
      all_cons, all_append, noOption_of_gives hgives, Bool.true_and, Bool.and_assoc]

theorem inputFirst_append (h : scanWords remote i pre seen = .ok before)
    (hnone : before.input = none) : inputFirst remote (pre ++ rest) =
      (pre.all (noSource remote) && inputFirst remote rest) := by
  revert h hnone
  apply run_induction remote (motive := fun _ pre _ before => before.input = none →
    inputFirst remote (pre ++ rest) = (pre.all (noSource remote) && inputFirst remote rest))
  · intro _ _ _
    simp
  · intro i a arg later seen seen₁ before harity hlook hrest ih hnone
    have hsource : kind remote a ≠ .source := by
      rcases lookAt_input hlook with ⟨_, _, rfl⟩ | ⟨hsource, _⟩
      · cases input_none hrest hnone
      · exact hsource
    rw [cons_append, append_assoc, inputFirst_word hsource harity, ih hnone,
      all_cons, all_cons, all_append]
    simp only [Bool.and_assoc]

theorem outputFirst_congr {b : Arg} (h : scanWords remote i pre seen = .ok before)
    (ha : kind remote a = .source) (hb : kind remote b = .source) :
    outputFirst remote (pre ++ a :: rest) = outputFirst remote (pre ++ b :: rest) := by
  revert h
  apply run_induction remote (motive := fun _ pre _ _ =>
    outputFirst remote (pre ++ a :: rest) = outputFirst remote (pre ++ b :: rest))
  · intro _ _
    rw [nil_append, nil_append, outputFirst.eq_def, outputFirst.eq_def]
    simp only [ha, hb]
  · intro i c arg later seen seen₁ before harity hlook hrest ih
    cases hgives : (kind remote c).givesOutput with
    | false =>
      simp only [cons_append, append_assoc, outputFirst_word hgives harity, ih]
    | true =>
      rw [cons_append, cons_append, outputFirst.eq_def, outputFirst.eq_def]
      cases hkind : kind remote c <;> simp_all [Kind.givesOutput]

end Prefix

section Set
variable {remote : RemoteAssemble} {name : Arg} {pre rest : List Arg} {k : Nat} {l : List Arg}

theorem noOption_iff {a : Arg} : noOption a = true ↔
    a ≠ ascii "-o" ∧ str_startswith (ascii "-o") a = false := by
  unfold noOption
  rw [Bool.not_eq_true']
  constructor
  · intro h
    refine ⟨?_, h⟩
    intro heq
    rw [heq] at h
    exact absurd h (by decide)
  · intro h
    exact h.2

theorem set_output_skip (h : pre.all noOption = true) : dcc_set_output name (pre ++ rest) =
    (dcc_set_output name rest).map (pre ++ ·) := by
  induction pre with
  | nil =>
    rw [nil_append]
    cases dcc_set_output name rest <;> rfl
  | cons a pre ih =>
    rw [all_cons, Bool.and_eq_true] at h
    obtain ⟨hne, hstarts⟩ := noOption_iff.mp h.1
    rw [cons_append, dcc_set_output, if_neg (by simp [hne]), if_neg (by simp [hstarts]),
      ih h.2]
    cases dcc_set_output name rest <;> rfl

theorem set_input_skip (h : pre.all (noSource remote) = true) :
    dcc_set_input remote name (pre ++ rest) =
      (dcc_set_input remote name rest).map (pre ++ ·) := by
  induction pre with
  | nil =>
    rw [nil_append]
    cases dcc_set_input remote name rest <;> rfl
  | cons a pre ih =>
    rw [all_cons, Bool.and_eq_true] at h
    have ha : dcc_is_source remote a = false := by simpa [noSource] using h.1
    rw [cons_append, dcc_set_input, if_neg (by simp [ha]), ih h.2]
    cases dcc_set_input remote name rest <;> rfl

theorem set_output_early (h : pre.all noOption = false)
    (hset : dcc_set_output name (pre ++ rest) = .ok l) :
    ∃ k, k < pre.length ∧ l[k]? = some (ascii "-o" ++ name) ∨
      k ≤ pre.length ∧ l[k]? = some name := by
  induction pre generalizing l with
  | nil => cases h
  | cons a pre ih =>
    rw [cons_append, dcc_set_output] at hset
    split_ifs at hset with hoption hjoined
    · rw [← Except.ok.inj hset]
      exact ⟨1, Or.inr ⟨by simp, rfl⟩⟩
    · rw [← Except.ok.inj hset]
      exact ⟨0, Or.inl ⟨by simp, rfl⟩⟩
    · obtain ⟨l', hlater, rfl⟩ := map_eq_ok.mp hset
      have hpre : pre.all noOption = false := by
        simpa [all_cons, noOption, hjoined] using h
      obtain ⟨k, hk⟩ := ih hpre hlater
      refine ⟨k + 1, ?_⟩
      simpa using hk

theorem set_input_early (h : pre.all (noSource remote) = false)
    (hset : dcc_set_input remote name (pre ++ rest) = .ok l) :
    ∃ k, k < pre.length ∧ l[k]? = some name := by
  induction pre generalizing l with
  | nil => cases h
  | cons a pre ih =>
    rw [cons_append, dcc_set_input] at hset
    split_ifs at hset with hsource
    · rw [← Except.ok.inj hset]
      exact ⟨0, by simp, rfl⟩
    · obtain ⟨l', hlater, rfl⟩ := map_eq_ok.mp hset
      have hpre : pre.all (noSource remote) = false := by
        simpa [all_cons, noSource, hsource] using h
      obtain ⟨k, hk, hname⟩ := ih hpre hlater
      exact ⟨k + 1, by simpa using hk, by simpa using hname⟩

end Set

section Found
variable {remote : RemoteAssemble} {argv : List Arg} {seen : Seen} {p : Nat} {place : Place}
  {name : Arg}

theorem found_input (h : scanWords remote 0 argv {} = .ok seen) (hinput : seen.input = some p) :
    ∃ pre a rest before, argv = pre ++ a :: rest ∧ p = pre.length ∧
      scanWords remote 0 pre {} = .ok before ∧ before.input = none ∧ kind remote a = .source ∧
      scanWords remote (p + 1) rest { before with input := some p } = .ok seen := by
  obtain ⟨pre, a, arg, rest, before, after, rfl, hpre, hbefore, harity, hlook, hafter, hrest⟩ :=
    run_first (P := fun seen => seen.input ≠ none) h (by simp) (by simp [hinput])
  rcases lookAt_input hlook with ⟨hsource, hnone, rfl⟩ | ⟨_, hsame⟩
  · have harg : arg = [] := arity_zero (by rw [hsource]; rfl) harity
    subst harg
    have hp : p = pre.length := by
      have hkept := input_kept hrest rfl
      rw [hinput, Nat.zero_add] at hkept
      exact Option.some.inj hkept
    subst hp
    rw [Nat.zero_add] at hrest
    exact ⟨pre, a, rest, before, rfl, rfl, hpre, hnone, hsource, hrest⟩
  · rw [hsame] at hafter
    exact absurd hafter hbefore

theorem found_output (h : scanWords remote 0 argv {} = .ok seen)
    (houtput : seen.output = some place) :
    ∃ pre a arg rest before, argv = pre ++ a :: (arg ++ rest) ∧
      arg.length = (kind remote a).arity ∧ place = placeOf pre.length (kind remote a) ∧
      scanWords remote 0 pre {} = .ok before ∧ before.output = none ∧
      (kind remote a).givesOutput = true ∧
      scanWords remote (pre.length + 1 + arg.length) rest
        { before with output := some place } = .ok seen := by
  obtain ⟨pre, a, arg, rest, before, after, rfl, hpre, hbefore, harity, hlook, hafter, hrest⟩ :=
    run_first (P := fun seen => seen.output ≠ none) h (by simp) (by simp [houtput])
  rcases lookAt_output hlook with ⟨hgives, hnone, rfl⟩ | ⟨_, hsame⟩
  · have hplace : place = placeOf pre.length (kind remote a) := by
      have hkept := output_kept hrest rfl
      rw [houtput, Nat.zero_add] at hkept
      exact Option.some.inj hkept
    subst hplace
    rw [Nat.zero_add] at hrest
    exact ⟨pre, a, arg, rest, before, rfl, harity, rfl, hpre, hnone, hgives, hrest⟩
  · rw [hsame] at hafter
    exact absurd hafter hbefore

theorem set_length (pre : List Arg) (a b : Arg) (rest : List Arg) :
    (pre ++ a :: rest).set pre.length b = pre ++ b :: rest := by
  simp

theorem rescan_input (h : scanWords remote 0 argv {} = .ok seen) (hinput : seen.input = some p)
    (hname : kind remote name = .source) : scanWords remote 0 (argv.set p name) {} = .ok seen ∧
      outputFirst remote (argv.set p name) = outputFirst remote argv := by
  obtain ⟨pre, a, rest, before, rfl, rfl, hpre, hnone, hsource, hrest⟩ := found_input h hinput
  rw [set_length]
  refine ⟨?_, outputFirst_congr hpre hname hsource⟩
  have hlook : lookAt (0 + pre.length) (kind remote name) ([] : List Arg).head? before =
      .ok { before with input := some pre.length } := by
    rw [hname, Nat.zero_add]
    exact lookAt_source.mpr ⟨hnone, rfl⟩
  have hword := scanWords_word [] (by rw [hname]; rfl) hlook rest
  rw [nil_append] at hword
  rw [scanWords_append hpre, hword, Nat.zero_add]
  exact hrest

theorem set_input_found (h : scanWords remote 0 argv {} = .ok seen)
    (hinput : seen.input = some p) (hfirst : inputFirst remote argv = true) :
    dcc_set_input remote name argv = .ok (argv.set p name) := by
  obtain ⟨pre, a, rest, before, rfl, rfl, hpre, hnone, hsource, _⟩ := found_input h hinput
  rw [inputFirst_append hpre hnone, Bool.and_eq_true] at hfirst
  rw [set_length, set_input_skip hfirst.1, dcc_set_input, if_pos (source_iff.mp hsource).2]
  rfl

/-- The output that comes first is where the name goes, and is found there again. -/
theorem set_output_found (h : scanWords remote 0 argv {} = .ok seen)
    (houtput : seen.output = some place) (hfirst : outputFirst remote argv = true) :
    dcc_set_output name argv = .ok (place.write argv name) ∧
      (name ≠ [] → scanWords remote 0 (place.write argv name) {} = .ok seen) := by
  obtain ⟨pre, a, arg, rest, before, rfl, harity, rfl, hpre, hnone, hgives, hrest⟩ :=
    found_output h houtput
  rw [outputFirst_append hpre hnone, Bool.and_eq_true] at hfirst
  obtain ⟨hskip, hfirst⟩ := hfirst
  cases hkind : kind remote a with
  | opt_o =>
    have ha := eq_of_opt_o hkind
    obtain ⟨x, rfl⟩ := arity_one (by rw [hkind]; rfl) harity
    have hwrite : (placeOf pre.length .opt_o).write (pre ++ a :: ([x] ++ rest)) name =
        pre ++ a :: ([name] ++ rest) := by
      simp [placeOf, Place.write]
    rw [hkind] at hrest
    rw [hwrite]
    constructor
    · rw [set_output_skip hskip, dcc_set_output, if_pos (by simp [ha])]
      rfl
    · intro _
      rw [scanWords_append hpre, scanWords_word [name] (by rw [hkind]; rfl)
        (by rw [hkind]; exact (lookAt_gives rfl).mpr ⟨hnone, rfl⟩), Nat.zero_add]
      exact hrest
  | joined =>
    obtain rfl := arity_zero (by rw [hkind]; rfl) harity
    have hstarts := startswith_of_joined hkind
    have hne : a ≠ ascii "-o" := by
      intro heq
      rw [heq, kind_opt_o] at hkind
      cases hkind
    have hwrite : (placeOf pre.length .joined).write (pre ++ a :: ([] ++ rest)) name =
        pre ++ (ascii "-o" ++ name) :: ([] ++ rest) := by
      simp [placeOf, Place.write]
    rw [hkind] at hrest
    rw [hwrite]
    constructor
    · rw [set_output_skip hskip, dcc_set_output, if_neg (by simp [hne]), if_pos hstarts]
      rfl
    · intro hname
      obtain ⟨c, t, rfl⟩ := exists_cons_of_ne_nil hname
      have hjoined : kind remote (ascii "-o" ++ c :: t) = .joined := kind_joined c t
      rw [scanWords_append hpre, scanWords_word [] (by rw [hjoined]; rfl)
        (by rw [hjoined]; exact (lookAt_gives rfl).mpr ⟨hnone, rfl⟩), Nat.zero_add]
      exact hrest
  | object =>
    rw [outputFirst.eq_def] at hfirst
    simp only [hkind, Bool.false_eq_true] at hfirst
  | _ =>
    rw [hkind] at hgives
    cases hgives

def Placed (i : Nat) (seen : Seen) : Prop :=
  (∀ p, seen.input = some p → p < i) ∧ (∀ place, seen.output = some place → place.index < i) ∧
    ∀ p place, seen.input = some p → seen.output = some place → p ≠ place.index

theorem scanWords_placed (h : scanWords remote 0 argv {} = .ok seen) : Placed argv.length seen := by
  rw [← Nat.zero_add argv.length]
  refine run_invariant (P := Placed) ?_ h ⟨by simp, by simp, by simp⟩
  intro i a next seen seen₁ j hlook hlt harity ⟨hin, hout, hdiffer⟩
  rcases lookAt_input hlook with ⟨hsource, _, rfl⟩ | ⟨hsource, hsame⟩
  · refine ⟨?_, ?_, ?_⟩
    · intro p hp
      rw [← Option.some.inj hp]
      exact hlt
    · intro place hplace
      have := hout place hplace
      omega
    · intro p place hp hplace
      have := hout place hplace
      rw [← Option.some.inj hp]
      omega
  · rcases lookAt_output hlook with ⟨hgives, _, rfl⟩ | ⟨_, hsameOut⟩
    · have hindex : i ≤ (placeOf i (kind remote a)).index ∧
          (placeOf i (kind remote a)).index ≤ i + (kind remote a).arity := by
        cases hkind : kind remote a <;> simp [placeOf, Place.index, Kind.arity, Kind.takesNext]
      refine ⟨?_, ?_, ?_⟩
      · intro p hp
        have := hin p hp
        omega
      · intro place hplace
        rw [← Option.some.inj hplace]
        omega
      · intro p place hp hplace
        have := hin p hp
        rw [← Option.some.inj hplace]
        omega
    · rw [Placed, hsame, hsameOut]
      refine ⟨?_, ?_, hdiffer⟩
      · intro p hp
        have := hin p hp
        omega
      · intro place hplace
        have := hout place hplace
        omega

end Found

section Whole
variable {remote : RemoteAssemble} {argv : List Arg} {s : Scan} {seen : Seen}
variable {name : Arg} {ext : Option Arg} {before : Seen}

/-- What a command line is whose scan has come to its end. -/
structure Accepted (remote : RemoteAssemble) (argv : List Arg) (seen : Seen) (p : Nat)
    (place : Place) : Prop where
  compiler : (argv.headD []).head? ≠ some 45
  words : scanWords remote 0 argv {} = .ok seen
  compiles : (seen.opt_c || seen.opt_s) = true
  seesInput : seen.input = some p
  distributed : dcc_source_needs_local (argv.getD p []) = false
  seesOutput : seen.output = some place
  named : place.read argv ≠ ascii "-"

theorem Accepted.scan {p : Nat} {place : Place} (h : Accepted remote argv seen p place) :
    dcc_scan_args remote argv = .ok ⟨argv, p, place, seen.optx_ext⟩ := by
  have hcompiles : (!seen.opt_c && !seen.opt_s) = false := by
    have := h.compiles
    cases hc : seen.opt_c <;> simp_all
  have hlocal : ¬ dcc_source_needs_local (argv.getD p []) = true := by
    rw [h.distributed]
    simp
  unfold dcc_scan_args addOutput
  rw [if_neg h.compiler, h.words]
  simp only [bind, Except.bind, hcompiles, h.seesInput, h.seesOutput, Bool.false_eq_true, if_false]
  rw [if_neg hlocal, if_neg h.named]

theorem scanWords_added {ofile : Arg} (h : scanWords remote 0 argv {} = .ok seen)
    (hnone : seen.output = none) : scanWords remote 0 (argv ++ [ascii "-o", ofile]) {} =
      .ok { seen with output := some (.element (argv.length + 1)) } := by
  have hlook : lookAt (0 + argv.length) (kind remote (ascii "-o")) [ofile].head? seen =
      .ok { seen with output := some (.element (argv.length + 1)) } := by
    rw [kind_opt_o, Nat.zero_add]
    exact (lookAt_gives rfl).mpr ⟨hnone, rfl⟩
  have hword := scanWords_word [ofile] (by rw [kind_opt_o]; rfl) hlook []
  rw [scanWords_append h]
  exact hword.trans (by rw [scanWords])

theorem scan_args_ok (h : dcc_scan_args remote argv = .ok s) :
    ∃ seen, Accepted remote s.argv seen s.input s.output ∧ s.forced_cpp_ext = seen.optx_ext ∧
      (s.argv = argv ∨ ∃ seen₁ ofile, s.argv = argv ++ [ascii "-o", ofile] ∧
        scanWords remote 0 argv {} = .ok seen₁ ∧ seen₁.output = none ∧
        seen₁.input = some s.input) := by
  unfold dcc_scan_args at h
  split_ifs at h with hcompiler
  obtain ⟨seen, hwords, h⟩ := bind_eq_ok.mp h
  split_ifs at h with hcompiles
  · cases h
  have hcompiles : (seen.opt_c || seen.opt_s) = true := by
    cases hc : seen.opt_c <;> simp_all
  cases hinput : seen.input with
  | none =>
    rw [hinput] at h
    cases h
  | some p =>
    rw [hinput] at h
    dsimp only at h
    split_ifs at h with hlocal
    · cases h
    have hlocal : dcc_source_needs_local (argv.getD p []) = false := by
      simpa using hlocal
    obtain ⟨added, hadded, h⟩ := bind_eq_ok.mp h
    split_ifs at h with hnamed
    · cases h
    obtain rfl := Except.ok.inj h
    unfold addOutput at hadded
    cases houtput : seen.output with
    | some place =>
      rw [houtput] at hadded
      obtain rfl := Except.ok.inj hadded
      exact ⟨seen, ⟨hcompiler, hwords, hcompiles, hinput, hlocal, houtput, hnamed⟩, rfl,
        Or.inl rfl⟩
    | none =>
      rw [houtput] at hadded
      dsimp only at hadded
      split at hadded
      · rename_i ofile _
        obtain rfl := Except.ok.inj hadded
        have hlt := (scanWords_placed hwords).1 p hinput
        have hhead : (argv ++ [ascii "-o", ofile]).headD [] = argv.headD [] := by
          cases argv with
          | nil => simp at hlt
          | cons a rest => rfl
        have hget : (argv ++ [ascii "-o", ofile]).getD p [] = argv.getD p [] := by
          rw [getD_eq_getElem?_getD, getD_eq_getElem?_getD, getElem?_append_left hlt]
        refine ⟨{ seen with output := some (.element (argv.length + 1)) },
          ⟨?_, scanWords_added hwords houtput, hcompiles, hinput, ?_, rfl, hnamed⟩, rfl,
          Or.inr ⟨seen, ofile, rfl, hwords, houtput, hinput⟩⟩
        · rw [hhead]
          exact hcompiler
        · rw [hget]
          exact hlocal
      · cases hadded

theorem first_of_scan (h : dcc_scan_args remote argv = .ok s) :
    outputFirst remote s.argv = outputFirst remote argv ∧
      inputFirst remote s.argv = inputFirst remote argv := by
  obtain ⟨seen, _, _, heq | ⟨seen₁, ofile, heq, hwords, hnone, hinput⟩⟩ := scan_args_ok h
  · rw [heq]
    exact ⟨rfl, rfl⟩
  rw [heq]
  constructor
  · have hadded : outputFirst remote [ascii "-o", ofile] = true := by
      rw [outputFirst.eq_def]
      simp only [kind_opt_o]
    have hempty : outputFirst remote (argv ++ []) = _ := outputFirst_append hwords hnone
    rw [append_nil] at hempty
    rw [outputFirst_append hwords hnone, hadded, hempty]
    rfl
  · obtain ⟨pre, a, rest, before, rfl, _, hpre, hnoInput, hsource, _⟩ :=
      found_input hwords hinput
    have hthere : ∀ rest, inputFirst remote (a :: rest) = true := by
      intro rest
      rw [inputFirst.eq_def]
      simp only [hsource]
    rw [append_assoc, cons_append, inputFirst_append hpre hnoInput,
      inputFirst_append hpre hnoInput, hthere, hthere]

/-! ## Names that are given -/

/-- A name that the scan takes for an input. -/
structure InputName (remote : RemoteAssemble) (name : Arg) : Prop where
  source : dcc_is_source remote name = true
  noDash : name.head? ≠ some 45
  distributed : dcc_source_needs_local name = false

theorem InputName.kind (h : InputName remote name) : kind remote name = .source :=
  source_iff.mpr ⟨h.noDash, h.source⟩

/-- A name that the scan takes after `-o`, in the same word or in the next one. -/
structure OutputName (name : Arg) : Prop where
  nonempty : name ≠ []
  file : name ≠ ascii "-"

/-- The two functions change what was found, and the scan finds the new names. -/
structure Rewrites (remote : RemoteAssemble) (s : Scan) (i' o' : Arg) : Prop where
  output : dcc_set_output o' s.argv = .ok (s.output.write s.argv o')
  input : dcc_set_input remote i' s.argv = .ok (s.argv.set s.input i')
  both : dcc_set_output o' (s.argv.set s.input i') =
    .ok (s.output.write (s.argv.set s.input i') o')
  again : ∃ s', dcc_scan_args remote (s.output.write (s.argv.set s.input i') o') = .ok s' ∧
    s'.argv = s.output.write (s.argv.set s.input i') o' ∧ s'.input_file = i' ∧
    s'.output_file = o'

theorem write_getD {place : Place} {k : Nat} (hne : k ≠ place.index) :
    (place.write argv name).getD k [] = argv.getD k [] := by
  cases place <;> simp_all [Place.write, Place.index, getD_eq_getElem?_getD, eq_comm]

theorem write_read {place : Place} (hlt : place.index < argv.length) :
    place.read (place.write argv name) = name := by
  cases place with
  | element i => simp_all [Place.read, Place.write, Place.index, getD_eq_getElem?_getD]
  | suffix i =>
    simp only [Place.index] at hlt
    simp [Place.read, Place.write, getD_eq_getElem?_getD, hlt]
    rfl

variable {p : Nat} {place : Place} {i' o' : Arg}

theorem headD_eq_getD (l : List Arg) : l.headD [] = l.getD 0 [] := by
  cases l <;> rfl

theorem Accepted.place_ne_zero (h : Accepted remote argv seen p place)
    (hfirst : outputFirst remote argv = true) : place.index ≠ 0 := by
  obtain ⟨pre, a, arg, rest, before, rfl, harity, rfl, hpre, hnone, hgives, _⟩ :=
    found_output h.words h.seesOutput
  intro hzero
  cases hkind : kind remote a with
  | opt_o =>
    rw [hkind] at hzero
    cases hzero
  | joined =>
    rw [hkind] at hzero
    obtain rfl := List.length_eq_zero_iff.mp hzero
    obtain ⟨t, rfl⟩ := startswith_o.mp (startswith_of_joined hkind)
    exact h.compiler rfl
  | object =>
    rw [outputFirst_append hpre hnone, Bool.and_eq_true] at hfirst
    have hhere := hfirst.2
    rw [outputFirst.eq_def] at hhere
    simp only [hkind, Bool.false_eq_true] at hhere
  | _ =>
    rw [hkind] at hgives
    cases hgives

theorem Accepted.rewritten (h : Accepted remote argv seen p place)
    (hfirst : outputFirst remote argv = true) (hi : InputName remote i') (ho : OutputName o') :
    Accepted remote (place.write (argv.set p i') o') seen p place := by
  obtain ⟨hwords, hfirst'⟩ := rescan_input h.words h.seesInput hi.kind
  obtain ⟨hp, hplace, hdiffer⟩ := scanWords_placed h.words
  have hp := hp p h.seesInput
  have hplace := hplace place h.seesOutput
  have hdiffer := hdiffer p place h.seesInput h.seesOutput
  have hget : (argv.set p i').getD p [] = i' := by
    simp [getD_eq_getElem?_getD, hp]
  constructor
  · rw [headD_eq_getD, write_getD (h.place_ne_zero hfirst).symm]
    by_cases hzero : p = 0
    · subst hzero
      rw [hget]
      exact hi.noDash
    have hhead : (argv.set p i').getD 0 [] = argv.headD [] := by
      rw [headD_eq_getD]
      simp [getD_eq_getElem?_getD, hzero]
    rw [hhead]
    exact h.compiler
  · rw [← hfirst'] at hfirst
    exact (set_output_found hwords h.seesOutput hfirst).2 ho.nonempty
  · exact h.compiles
  · exact h.seesInput
  · rw [write_getD hdiffer, hget]
    exact hi.distributed
  · exact h.seesOutput
  · rw [write_read (by simpa using hplace)]
    exact ho.file

theorem rewrites_of_first (h : Accepted remote argv seen p place)
    (hout : outputFirst remote argv = true) (hin : inputFirst remote argv = true)
    (hi : InputName remote i') (ho : OutputName o') :
    Rewrites remote ⟨argv, p, place, ext⟩ i' o' := by
  obtain ⟨hwords, hfirst'⟩ := rescan_input h.words h.seesInput hi.kind
  have hrewritten := h.rewritten hout hi ho
  obtain ⟨hp, hplace, hdiffer⟩ := scanWords_placed h.words
  have hp := hp p h.seesInput
  have hplace := hplace place h.seesOutput
  have hdiffer := hdiffer p place h.seesInput h.seesOutput
  refine ⟨(set_output_found h.words h.seesOutput hout).1, set_input_found h.words h.seesInput hin,
    ?_, _, hrewritten.scan, rfl, ?_, ?_⟩
  · rw [← hfirst'] at hout
    exact (set_output_found hwords h.seesOutput hout).1
  · change (place.write (argv.set p i') o').getD p [] = i'
    rw [write_getD hdiffer]
    simp [getD_eq_getElem?_getD, hp]
  · exact write_read (by simpa using hplace)

/-! ## Names that are longer than all words

With them a place that was changed can be told from the others. The output looks like an
option that is refused where the scan looks at it. -/

def longName (argv : List Arg) : Arg := List.replicate (argv.flatten.length + 1) 120

def longSource (argv : List Arg) : Arg := longName argv ++ ascii ".c"

def longOutput (argv : List Arg) : Arg := ascii "-M" ++ longName argv

theorem length_lt_longName {a : Arg} (h : a ∈ argv) : a.length < (longName argv).length := by
  have hle := (sublist_flatten_of_mem h).length_le
  rw [longName, length_replicate]
  omega

theorem strrchr_replicate (c b : UInt8) (hne : b ≠ c) (n : Nat) (t : Arg) :
    strrchr c (List.replicate n b ++ t) = strrchr c t := by
  induction n with
  | zero => rfl
  | succ n ih =>
    rw [replicate_succ, cons_append, strrchr, ih]
    cases strrchr c t with
    | none => simp [hne]
    | some found => rfl

theorem longSource_input (argv : List Arg) : InputName remote (longSource argv) := by
  have hdot : dcc_find_extension (longSource argv) = some (ascii ".c") := by
    unfold dcc_find_extension longSource longName
    rw [strrchr_replicate 46 120 (by decide)]
    rfl
  have hslash : dcc_find_basename (longSource argv) = longSource argv := by
    unfold dcc_find_basename longSource longName
    rw [strrchr_replicate 47 120 (by decide)]
    rfl
  constructor
  · unfold dcc_is_source
    rw [hdot]
    cases remote <;> decide
  · simp [longSource, longName, replicate_succ]
  · unfold dcc_source_needs_local
    rw [hslash]
    rfl

theorem longOutput_output (argv : List Arg) : OutputName (longOutput argv) := by
  constructor
  · simp [longOutput, longName, replicate_succ]
  · intro heq
    cases (List.cons.inj heq).2

theorem longOutput_refused (argv : List Arg) : kind remote (longOutput argv) = .refused :=
  kind_dash_M _

theorem longSource_not_mem (argv : List Arg) : longSource argv ∉ argv := by
  intro h
  have hlt := length_lt_longName h
  rw [longSource, length_append] at hlt
  omega

theorem longOutput_not_mem (argv : List Arg) (t : Arg) : t ++ longOutput argv ∉ argv := by
  intro h
  have hlt := length_lt_longName h
  rw [longOutput, length_append, length_append] at hlt
  omega

theorem input_ge {i : Nat} {l : List Arg}
    (h : scanWords remote i l before = .ok seen) (hnone : before.input = none)
    (hinput : seen.input = some p) : i ≤ p := by
  refine (run_invariant (P := fun j seen => i ≤ j ∧ ∀ q, seen.input = some q → i ≤ q) ?_ h
    ⟨Nat.le_refl i, by simp [hnone]⟩).2 p hinput
  intro j a next seen seen₁ j' hlook hlt _ ⟨hle, hq⟩
  rcases lookAt_input hlook with ⟨_, _, rfl⟩ | ⟨_, hsame⟩
  · refine ⟨by omega, ?_⟩
    intro q heq
    rw [← Option.some.inj heq]
    exact hle
  · rw [hsame]
    exact ⟨by omega, hq⟩

/-- An object file is not looked for: a name that is refused is refused in its place. -/
theorem Accepted.object_lost {pre rest : List Arg} {a : Arg}
    (h : Accepted remote (pre ++ a :: rest) seen p (.element pre.length))
    (hpre : scanWords remote 0 pre {} = .ok before) (hkind : kind remote i' = .source)
    (hrefused : kind remote o' = .refused) : ∃ e, dcc_scan_args remote
      ((Place.element pre.length).write ((pre ++ a :: rest).set p i') o') = .error e := by
  have hother : p ≠ pre.length := (scanWords_placed h.words).2.2 p _ h.seesInput h.seesOutput
  have hrest := h.words
  rw [scanWords_append hpre, Nat.zero_add] at hrest
  have hsame : ∃ pre' rest', pre'.length = pre.length ∧
      (Place.element pre.length).write ((pre ++ a :: rest).set p i') o' = pre' ++ o' :: rest' ∧
      scanWords remote 0 pre' {} = .ok before := by
    cases hinput : before.input with
    | none =>
      have hge := input_ge hrest hinput h.seesInput
      refine ⟨pre, rest.set (p - pre.length - 1) i', rfl, ?_, hpre⟩
      obtain ⟨k, rfl⟩ : ∃ k, p = pre.length + (k + 1) := ⟨p - pre.length - 1, by omega⟩
      have hk : pre.length + (k + 1) - pre.length - 1 = k := by omega
      simp [Place.write]
    | some q =>
      have hq := input_kept hrest hinput
      rw [h.seesInput] at hq
      obtain rfl := Option.some.inj hq
      have hlt := (scanWords_placed hpre).1 p hinput
      refine ⟨pre.set p i', rest, by simp, ?_, (rescan_input hpre hinput hkind).1⟩
      simp [Place.write, hlt]
  obtain ⟨pre', rest', _, heq, hpre'⟩ := hsame
  rw [heq]
  unfold dcc_scan_args
  split_ifs
  · exact ⟨_, rfl⟩
  · have hwords : scanWords remote 0 (pre' ++ o' :: rest') {} = giveUp := by
      rw [scanWords_append hpre', scanWords, hrefused]
      rfl
    rw [hwords]
    exact ⟨_, rfl⟩

theorem getElem?_write {k : Nat} (hlt : k < place.index) :
    (place.write argv name)[k]? = argv[k]? := by
  cases place <;> simp_all [Place.write, Place.index, Nat.ne_of_gt]

theorem first_of_rewrites (h : Accepted remote argv seen p place)
    (hall : ∀ i' o', InputName remote i' → OutputName o' →
      Rewrites remote ⟨argv, p, place, ext⟩ i' o') :
    outputFirst remote argv = true ∧ inputFirst remote argv = true := by
  have hrewrites := hall _ _ (longSource_input argv) (longOutput_output argv)
  constructor
  · obtain ⟨pre, a, arg, rest, before, heq, harity, hplace, hpre, hnone, hgives, _⟩ :=
      found_output h.words h.seesOutput
    have hobject : kind remote a ≠ .object := by
      intro hobject
      obtain ⟨s', hagain, _⟩ := hrewrites.again
      rw [hobject] at hplace
      have hplace : place = .element pre.length := hplace
      rw [heq, hplace] at h
      obtain ⟨e, herror⟩ := h.object_lost hpre (longSource_input argv).kind (longOutput_refused argv)
      simp only [← heq, ← hplace] at herror
      rw [herror] at hagain
      cases hagain
    have hhere : outputFirst remote (a :: (arg ++ rest)) = true := by
      rw [outputFirst.eq_def]
      cases hkind : kind remote a <;> simp_all [Kind.givesOutput]
    have hskip : pre.all noOption = true := by
      rw [← Bool.not_eq_false]
      intro hearly
      have hset : dcc_set_output (longOutput argv) (pre ++ a :: (arg ++ rest)) =
          .ok (place.write argv (longOutput argv)) := by
        rw [← heq]
        exact hrewrites.output
      have hindex : pre.length ≤ place.index := by
        rw [hplace]
        cases kind remote a <;> simp [placeOf, Place.index]
      obtain ⟨k, ⟨hlt, hname⟩ | ⟨hle, hname⟩⟩ := set_output_early hearly hset
      · rw [getElem?_write (by omega)] at hname
        exact longOutput_not_mem _ _ (mem_of_getElem? hname)
      by_cases hlt : k < place.index
      · rw [getElem?_write hlt] at hname
        exact longOutput_not_mem argv [] (mem_of_getElem? hname)
      have hjoined : place = .suffix k := by
        cases hkind : kind remote a
        all_goals simp_all [placeOf, Place.index, Kind.givesOutput]
        all_goals omega
      rw [hjoined] at hname
      have hname : (argv.set k (ascii "-o" ++ longOutput argv))[k]? =
          some (longOutput argv) := hname
      rw [getElem?_set, if_pos rfl] at hname
      split at hname
      · have hlen := congrArg List.length (Option.some.inj hname)
        rw [length_append] at hlen
        have : (ascii "-o").length = 2 := by decide
        omega
      · cases hname
    rw [heq, outputFirst_append hpre hnone, hskip, hhere]
    rfl
  · obtain ⟨pre, a, rest, before, rfl, rfl, hpre, hnone, hsource, _⟩ :=
      found_input h.words h.seesInput
    have hhere : inputFirst remote (a :: rest) = true := by
      rw [inputFirst.eq_def]
      simp only [hsource]
    have hskip : pre.all (noSource remote) = true := by
      rw [← Bool.not_eq_false]
      intro hearly
      obtain ⟨k, hlt, hname⟩ := set_input_early hearly hrewrites.input
      have hne : pre.length ≠ k := by omega
      rw [getElem?_set_ne hne] at hname
      exact longSource_not_mem _ (mem_of_getElem? hname)
    rw [inputFirst_append hpre hnone, hskip, hhere]
    rfl

/-- The names are changed where the scan has found them, and found again, if and only if
no other word that looks like them comes first. -/
theorem set_names_iff (remote : RemoteAssemble) (argv : List Arg) (s : Scan)
    (h : dcc_scan_args remote argv = .ok s) :
    (∀ i' o', InputName remote i' → OutputName o' → Rewrites remote s i' o') ↔
      outputFirst remote argv = true ∧ inputFirst remote argv = true := by
  obtain ⟨seen, haccepted, _⟩ := scan_args_ok h
  obtain ⟨hout, hin⟩ := first_of_scan h
  rw [← hout, ← hin]
  constructor
  · intro hall
    exact first_of_rewrites haccepted hall
  · intro ⟨hout, hin⟩ i' o' hi ho
    exact rewrites_of_first haccepted hout hin hi ho

end Whole

theorem set_names_hello : ∃ s, dcc_scan_args false (["cc", "-c", "hello.c"].map ascii) = .ok s ∧
      ((∀ i' o', InputName false i' → OutputName o' → Rewrites false s i' o') ↔
        outputFirst false (["cc", "-c", "hello.c"].map ascii) = true ∧
          inputFirst false (["cc", "-c", "hello.c"].map ascii) = true) :=
  ⟨_, rfl, set_names_iff false _ _ rfl⟩

/-- An object file without `-o`. -/
theorem bare_object_not_set :
    ∃ s, dcc_scan_args false (["cc", "-c", "hello.c", "hello.o"].map ascii) = .ok s ∧
      s.output_file = ascii "hello.o" ∧
      dcc_set_output (ascii "/tmp/distccd_1.o") s.argv = .error .EXIT_DISTCC_FAILED ∧
      ¬ ∀ i' o', InputName false i' → OutputName o' → Rewrites false s i' o' := by
  refine ⟨_, rfl, rfl, rfl, ?_⟩
  intro hall
  have hrewrites := hall (ascii "/tmp/distccd_1.i") (ascii "/tmp/distccd_1.o")
    ⟨by decide, by decide, by decide⟩ ⟨by decide, by decide⟩
  cases hrewrites.output

end Toolwhip.Distcc
