import Toolwhip.Distcc.ArgvWalks
import Toolwhip.Distcc.ArgRewrite
import Toolwhip.Distcc.FileSet

/-! # The name of the dependency file

`dcc_get_dotd_info` for a command line that `dcc_scan_args` takes, without DEPENDENCIES_OUTPUT. Its own
loop knows three options with an argument; the scan knows `-o` and `-x` as well. -/

namespace Toolwhip.Distcc.DotdName
open Lib.CNumber Lib.OptionWalk List
set_option autoImplicit false

/-! ## Names -/

def lastComponent (name : Arg) : Arg :=
  match strrchr 47 name with
  | some slash => slash.tail
  | none => name

def withoutExtension (name : Arg) : Arg :=
  match strrchr 46 (lastComponent name) with
  | some dot => name.take (name.length - dot.length)
  | none => name

def dependencies (name : Arg) : Arg := withoutExtension name ++ ascii ".d"

section Names
variable {name s t : Arg} {c : UInt8}

theorem last_place (c : UInt8) (name : Arg) : c ∉ name ∨ ∃ s t, name = s ++ c :: t ∧ c ∉ t := by
  induction name with
  | nil => exact Or.inl not_mem_nil
  | cons b name ih =>
    rcases ih with hnone | ⟨s, t, rfl, ht⟩
    · by_cases heq : b = c
      · subst heq
        exact Or.inr ⟨[], name, rfl, hnone⟩
      left
      rw [mem_cons, not_or]
      exact ⟨fun h => heq h.symm, hnone⟩
    · exact Or.inr ⟨b :: s, t, rfl, ht⟩

theorem lastComponent_none (h : 47 ∉ name) : lastComponent name = name := by
  rw [lastComponent, strrchr_none h]

theorem lastComponent_slash (h : 47 ∉ t) : lastComponent (s ++ 47 :: t) = t := by
  rw [lastComponent, strrchr_append t h]
  rfl

theorem lastComponent_eq (name : Arg) : ∃ dir, name = dir ++ lastComponent name ∧
    (47 ∈ name → dir ≠ []) ∧ 47 ∉ lastComponent name := by
  rcases last_place 47 name with hnone | ⟨s, t, rfl, ht⟩
  · rw [lastComponent_none hnone]
    exact ⟨[], rfl, fun h => absurd h hnone, hnone⟩
  · rw [lastComponent_slash ht]
    exact ⟨s ++ [47], by simp, by simp, ht⟩

theorem lastComponent_append (h : 47 ∉ t) : lastComponent (s ++ t) = lastComponent s ++ t := by
  rcases last_place 47 s with hnone | ⟨s', t', rfl, ht'⟩
  · rw [lastComponent_none hnone, lastComponent_none]
    rw [mem_append, not_or]
    exact ⟨hnone, h⟩
  · rw [lastComponent_slash ht', append_assoc, cons_append, lastComponent_slash]
    rw [mem_append, not_or]
    exact ⟨ht', h⟩

theorem withoutExtension_none (h : 46 ∉ lastComponent name) : withoutExtension name = name := by
  rw [withoutExtension, strrchr_none h]

theorem withoutExtension_dot (hdot : 46 ∉ t) (hslash : 47 ∉ t) :
    withoutExtension (s ++ 46 :: t) = s := by
  have hslash' : 47 ∉ 46 :: t := by
    rw [mem_cons, not_or]
    exact ⟨by decide, hslash⟩
  rw [withoutExtension, lastComponent_append hslash', strrchr_append t hdot]
  change (s ++ 46 :: t).take ((s ++ 46 :: t).length - (46 :: t).length) = s
  rw [length_append, Nat.add_sub_cancel, take_left]

theorem dots (name : Arg) : 46 ∉ name ∨
    (∃ s t, name = s ++ 46 :: t ∧ 46 ∉ t ∧ 47 ∉ t ∧ 46 ∈ lastComponent name) ∨
      ∃ s t, name = s ++ 46 :: t ∧ 46 ∉ t ∧ 47 ∈ t ∧ 46 ∉ lastComponent name := by
  rcases last_place 46 name with hnone | ⟨s, t, rfl, ht⟩
  · exact Or.inl hnone
  right
  rcases last_place 47 t with hnone | ⟨u, v, rfl, hv⟩
  · left
    refine ⟨s, t, rfl, ht, hnone, ?_⟩
    rw [lastComponent_append (by simp [hnone])]
    simp
  right
  refine ⟨s, u ++ 47 :: v, rfl, ht, by simp, ?_⟩
  have hsplit : s ++ 46 :: (u ++ 47 :: v) = (s ++ 46 :: u) ++ 47 :: v := by simp
  rw [hsplit, lastComponent_slash hv]
  simp only [mem_append, mem_cons, not_or] at ht
  exact ht.2.2

/-- A name that the code changes as is meant: it is not empty, and its last dot is in its last
component. -/
theorem dotdName_eq_iff (name : Arg) :
    dotdName name = .ok (dependencies name) ↔ name ≠ [] ∧ (46 ∈ name → 46 ∈ lastComponent name) := by
  rcases dots name with hnone | ⟨s, t, rfl, hdot, hslash, hlast⟩ | ⟨s, t, rfl, hdot, hslash, hlast⟩
  · have hlast : 46 ∉ lastComponent name := by
      obtain ⟨dir, hname, _⟩ := lastComponent_eq name
      intro hmem
      apply hnone
      rw [hname]
      exact mem_append_right dir hmem
    rw [dotdName, dcc_find_extension, strrchr_none hnone, dependencies, withoutExtension_none hlast]
    simp only [hnone, false_imp_iff, and_true]
    cases hend : name.getLast? with
    | none =>
      rw [getLast?_eq_none_iff] at hend
      simp [hend]
    | some c =>
      have hne : name ≠ [] := by
        rintro rfl
        cases hend
      have hc : c ≠ 46 := by
        rintro rfl
        exact hnone (mem_of_getLast? hend)
      simp [hc, hne]
  · have hne : s ++ 46 :: t ≠ [] := by simp
    apply iff_of_true _ ⟨hne, fun _ => hlast⟩
    rw [dependencies, withoutExtension_dot hdot hslash]
    by_cases ht : t = []
    · subst ht
      rw [dotdName, dcc_find_extension, strrchr_append [] hdot]
      simp [ascii]
    · rw [dotdName, find_extension_append ht hdot]
      simp
  · apply iff_of_false _ fun h => hlast (h.2 (by simp))
    have ht : t ≠ [] := by
      rintro rfl
      cases hslash
    rw [dotdName, find_extension_append ht hdot, dependencies, withoutExtension_none hlast]
    intro heq
    have hlen := congrArg List.length (Except.ok.inj heq)
    simp only [length_append, length_take, length_cons] at hlen
    omega

end Names
/-! ## Options -/

def argumentOfMF (u : OptionWord) : Option Arg :=
  if u.1 = ascii "-MF" then u.2
  else if str_startswith (ascii "-MF") u.1 then some (u.1.drop 3)
  else none

def lastMF (us : List OptionWord) : Option Arg := (us.filterMap argumentOfMF).getLast?

/-- What `dcc_get_dotd_info` takes for an option that needs dependencies. -/
def countsForDotd (a : Arg) : Prop :=
  str_startswith (ascii "-M") a = true ∧ a ≠ ascii "-MT" ∧ a ≠ ascii "-MQ"

def asksForDotd (a : Arg) : Prop :=
  str_startswith (ascii "-M") a = true ∧ ¬ str_startswith (ascii "-MT") a = true ∧
    ¬ str_startswith (ascii "-MQ") a = true

section Loop
variable {u : OptionWord} {us vs : List OptionWord} {a : Arg} {next : Option Arg} {seen : DotdSeen}
  {argv : List Arg}

theorem lastMF_append : lastMF (us ++ vs) = (lastMF vs).or (lastMF us) := by
  rw [lastMF, filterMap_append, getLast?_append]
  rfl

theorem lastMF_cons : lastMF (u :: us) = (lastMF us).or (argumentOfMF u) := by
  have happend : lastMF ([u] ++ us) = (lastMF us).or (lastMF [u]) := lastMF_append
  have hone : lastMF [u] = argumentOfMF u := by
    rw [lastMF, filterMap_cons]
    split
    · rename_i hnone
      exact hnone.symm
    rename_i x hsome
    rw [hsome]
    rfl
  rw [← hone, ← happend]
  rfl

theorem dotdTakes_iff : dotdTakes a = true ↔ a = ascii "-MT" ∨ a = ascii "-MQ" ∨ a = ascii "-MF" := by
  simp only [dotdTakes, Bool.or_eq_true, beq_iff_eq, or_assoc]

theorem not_takes (h : dotdTakes a = false) :
    a ≠ ascii "-MT" ∧ a ≠ ascii "-MQ" ∧ a ≠ ascii "-MF" := by
  rw [← Bool.not_eq_true, dotdTakes_iff, not_or, not_or] at h
  exact h

/-- What a word changes, of what is used. -/
structure Changes (u : OptionWord) (seen seen' : DotdSeen) : Prop where
  deps : seen'.deps_output = (argumentOfMF u).or seen.deps_output
  needs : seen'.needs_dotd = true ↔ seen.needs_dotd = true ∨ countsForDotd u.1
  dash_o : seen'.has_dash_o = true ↔ seen.has_dash_o = true ∨ u.1 = ascii "-o"

structure ChangesAll (us : List OptionWord) (seen seen' : DotdSeen) : Prop where
  deps : seen'.deps_output = (lastMF us).or seen.deps_output
  needs : seen'.needs_dotd = true ↔ seen.needs_dotd = true ∨ ∃ u ∈ us, countsForDotd u.1
  dash_o : seen'.has_dash_o = true ↔ seen.has_dash_o = true ∨ ∃ u ∈ us, u.1 = ascii "-o"

theorem changesAll_nil : ChangesAll [] seen seen := by
  constructor <;> simp [lastMF]

theorem changesAll_cons {seen₁ seen₂ : DotdSeen} (h : Changes u seen seen₁)
    (hrest : ChangesAll us seen₁ seen₂) : ChangesAll (u :: us) seen seen₂ := by
  constructor
  · rw [hrest.deps, h.deps, lastMF_cons, Option.or_assoc]
  · rw [hrest.needs, h.needs, exists_mem_cons_iff, or_assoc]
  · rw [hrest.dash_o, h.dash_o, exists_mem_cons_iff, or_assoc]

theorem dotdWord_taking {x : Arg} (h : dotdTakes a = true) :
    Changes (a, some x) seen (dotdWord a (some x) seen) := by
  rw [dotdTakes_iff] at h
  rcases h with rfl | rfl | rfl
  · have hnot : ¬ countsForDotd (ascii "-MT") := fun hcounts => hcounts.2.1 rfl
    have hdash_o : ascii "-MT" ≠ ascii "-o" := by decide
    exact ⟨rfl, (or_iff_left hnot).symm, (or_iff_left hdash_o).symm⟩
  · have hnot : ¬ countsForDotd (ascii "-MQ") := fun hcounts => hcounts.2.2 rfl
    have hdash_o : ascii "-MQ" ≠ ascii "-o" := by decide
    exact ⟨rfl, (or_iff_left hnot).symm, (or_iff_left hdash_o).symm⟩
  have hcounts : countsForDotd (ascii "-MF") := by
    unfold countsForDotd
    decide
  have hdash_o : ascii "-MF" ≠ ascii "-o" := by decide
  exact ⟨rfl, iff_of_true rfl (Or.inr hcounts), (or_iff_left hdash_o).symm⟩

theorem dotdWord_word (h : dotdTakes a = false) : Changes (a, none) seen (dotdWord a next seen) := by
  obtain ⟨hMT, hMQ, hMF⟩ := not_takes h
  have hcounts : countsForDotd a ↔ str_startswith (ascii "-M") a = true := by
    unfold countsForDotd
    simp only [hMT, hMQ, ne_eq, not_false_eq_true, and_true]
  unfold dotdWord
  rw [if_neg (not_or.mpr ⟨hMT, hMQ⟩)]
  constructor
  · simp only [argumentOfMF, hMF, if_false]
    by_cases hstarts : str_startswith (ascii "-MF") a = true
    · simp [hstarts]
    · split_ifs <;> rfl
  · rw [hcounts]
    by_cases hM : str_startswith (ascii "-M") a = true
    · split_ifs <;> simp [hM]
    · split_ifs <;> simp_all
  · by_cases ho : a = ascii "-o"
    · subst ho
      exact iff_of_true rfl (Or.inr rfl)
    · split_ifs <;> simp_all

theorem dotdWalk_ok (seen : DotdSeen) (h : ¬ Dangles dotdTakes argv) :
    ∃ seen', dotdWalk argv seen = .ok seen' ∧ ChangesAll (units dotdTakes argv) seen seen' := by
  induction argv using walk_induction dotdTakes generalizing seen with
  | nil => exact ⟨seen, rfl, changesAll_nil⟩
  | word a rest htakes ih =>
    rw [dangles_word htakes] at h
    obtain ⟨seen', hwalk, hseen⟩ := ih _ h
    refine ⟨seen', ?_, ?_⟩
    · rw [dotdWalk.eq_def]
      simp only [htakes, Bool.false_eq_true, if_false]
      exact hwalk
    · rw [units_word htakes]
      exact changesAll_cons (dotdWord_word htakes) hseen
  | taking a x rest htakes ih =>
    rw [dangles_taking htakes] at h
    obtain ⟨seen', hwalk, hseen⟩ := ih _ h
    refine ⟨seen', ?_, ?_⟩
    · rw [dotdWalk.eq_def]
      simp only [htakes, if_true]
      exact hwalk
    · rw [units_taking htakes]
      exact changesAll_cons (dotdWord_taking htakes) hseen
  | last a htakes => exact absurd (dangles_last htakes) h

end Loop
section Accepted
variable {remote : RemoteAssemble} {argv arg rest : List Arg} {a x : Arg} {scan : Scan}
  {seen seen' : Seen} {before : List OptionWord} {i : Nat}

theorem units_arity (rest : List Arg) (h : arg.length = (kind remote a).arity) :
    units (scanTakes remote) (a :: (arg ++ rest)) =
        (a, arg.head?) :: units (scanTakes remote) rest ∧
      (Dangles (scanTakes remote) (a :: (arg ++ rest)) ↔ Dangles (scanTakes remote) rest) := by
  cases htakes : (kind remote a).takesNext with
  | false =>
    obtain rfl := arity_zero htakes h
    exact ⟨units_word htakes, dangles_word htakes⟩
  | true =>
    obtain ⟨x, rfl⟩ := arity_one htakes h
    exact ⟨units_taking htakes, dangles_taking htakes⟩

structure Scanned (remote : RemoteAssemble) (before us : List OptionWord) (seen' : Seen) : Prop where
  tracks : Tracks remote (before ++ us) seen'
  goes : ∀ pre w post, us = pre ++ w :: post → ¬ Refuses remote (before ++ pre) w

theorem scanWords_scanned (htracks : Tracks remote before seen)
    (h : scanWords remote i argv seen = .ok seen') : ¬ Dangles (scanTakes remote) argv ∧
      Scanned remote before (units (scanTakes remote) argv) seen' := by
  revert before
  apply run_induction remote (motive := fun _ l seen seen' => ∀ before, Tracks remote before seen →
    ¬ Dangles (scanTakes remote) l ∧ Scanned remote before (units (scanTakes remote) l) seen')
    _ _ argv i seen seen' h
  · intro i seen before htracks
    refine ⟨not_dangles_nil, ?_, ?_⟩
    · rw [units, append_nil]
      exact htracks
    · intro pre w post h
      simp [units] at h
  · intro i a arg rest seen seen₁ seen₂ harity hlook _ ih before htracks
    obtain ⟨hunits, hdangles⟩ := units_arity rest harity
    obtain ⟨hend, hrest⟩ := ih _ (lookAt_tracks htracks hlook)
    rw [hunits, hdangles]
    refine ⟨hend, ?_, ?_⟩
    · rw [append_cons]
      exact hrest.tracks
    · intro pre w post heq
      cases pre with
      | nil =>
        obtain ⟨rfl, _⟩ := List.cons.inj heq
        rw [append_nil, ← lookAt_refuses (i := i) htracks, hlook]
        rintro ⟨e, he⟩
        cases he
      | cons v pre =>
        obtain ⟨rfl, htail⟩ := List.cons.inj heq
        rw [append_cons]
        exact hrest.goes pre w post htail

theorem scanChecked_ok (h : scanChecked remote argv = .ok (.ok scan)) :
    dcc_scan_args remote argv = .ok scan := by
  unfold scanChecked at h
  split at h
  · exact Except.ok.inj h
  split at h
  · cases h
  · exact Except.ok.inj h

theorem one_output {us pre post : List OptionWord} {w : OptionWord}
    (h : Scanned remote [] us seen') (hsplit : us = pre ++ w :: post)
    (hw : (kind remote w.1).givesOutput = true) :
    ∀ v ∈ pre ++ post, (kind remote v.1).givesOutput = false := by
  have hrefuses : ∀ {before : List OptionWord} {v : OptionWord},
      (kind remote v.1).givesOutput = true → HasOutput remote before → Refuses remote before v := by
    intro before v hv hbefore
    unfold Refuses
    cases hkind : kind remote v.1 with
    | opt_o | joined | object => exact hbefore
    | _ =>
      rw [hkind] at hv
      cases hv
  intro v hv
  rw [← Bool.not_eq_true]
  intro hgives
  rw [mem_append] at hv
  rcases hv with hv | hv
  · exact h.goes pre w post hsplit (hrefuses hw ⟨v, hv, hgives⟩)
  obtain ⟨mid, tail, rfl⟩ := append_of_mem hv
  apply h.goes (pre ++ w :: mid) v tail (by rw [hsplit]; simp)
  exact hrefuses hgives ⟨w, by simp, hw⟩

structure Taken (remote : RemoteAssemble) (argv : List Arg) (scan : Scan) : Prop where
  ends : ¬ Dangles (scanTakes remote) argv
  scanned : ∃ seen, Scanned remote [] (units (scanTakes remote) argv) seen
  input : dcc_is_source remote scan.input_file = true
  output : ∀ f, (ascii "-o", some f) ∈ units (scanTakes remote) argv → scan.output_file = f

theorem output_file_eq (h : scanWords remote 0 argv {} = .ok seen)
    (hplace : seen.output = some scan.output)
    (hargv : scan.argv = argv) {f : Arg} (hf : (ascii "-o", some f) ∈ units (scanTakes remote) argv) :
    scan.output_file = f := by
  obtain ⟨pre, a, arg, rest, before, rfl, harity, hat, hpre, _, hgives, _⟩ := found_output h hplace
  obtain ⟨hend, _⟩ := scanWords_scanned tracks_nil hpre
  obtain ⟨_, hscanned⟩ := scanWords_scanned tracks_nil h
  have hsplit : units (scanTakes remote) (pre ++ a :: (arg ++ rest)) = _ := units_append hend
  rw [(units_arity rest harity).1] at hsplit
  have hothers := one_output hscanned hsplit hgives
  have hword : (ascii "-o", some f) = (a, arg.head?) := by
    rw [hsplit, mem_append, mem_cons] at hf
    rcases hf with hf | hf | hf
    · have hnot := hothers _ (mem_append_left _ hf)
      cases hnot
    · exact hf
    · have hnot := hothers _ (mem_append_right _ hf)
      cases hnot
  obtain ⟨rfl, harg⟩ := Prod.mk.inj hword
  rw [Scan.output_file, hargv, hat, kind_opt_o]
  cases arg with
  | nil => cases harg
  | cons y arg =>
    obtain rfl := Option.some_inj.mp harg
    simp [placeOf, Place.read]

theorem taken_of_scan (hscan : scanChecked remote argv = .ok (.ok scan)) : Taken remote argv scan := by
  obtain ⟨seen, haccepted, _, hargv⟩ := scan_args_ok (scanChecked_ok hscan)
  have hinput : dcc_is_source remote scan.input_file = true := by
    obtain ⟨pre, a, rest, before, heq, hp, _, _, hsource, _⟩ :=
      found_input haccepted.words haccepted.seesInput
    rw [Scan.input_file, heq, hp]
    simp [(source_iff.mp hsource).2]
  rcases hargv with hargv | ⟨seen₁, ofile, _, hwords, hnone, _⟩
  · have hwords := haccepted.words
    rw [hargv] at hwords
    obtain ⟨hend, hscanned⟩ := scanWords_scanned tracks_nil hwords
    exact ⟨hend, ⟨seen, hscanned⟩, hinput, fun f => output_file_eq hwords haccepted.seesOutput hargv⟩
  obtain ⟨hend, hscanned⟩ := scanWords_scanned tracks_nil hwords
  refine ⟨hend, ⟨seen₁, hscanned⟩, hinput, ?_⟩
  intro f hf
  have houtput := hscanned.tracks.output
  rw [hnone] at houtput
  have hhas : HasOutput remote ([] ++ units (scanTakes remote) argv) := by
    refine ⟨_, hf, ?_⟩
    rfl
  cases houtput.mpr hhas

end Accepted
section Readings
variable {remote : RemoteAssemble} {argv : List Arg} {a x : Arg} {us : List OptionWord}
  {seen : Seen} {scan : Scan}

theorem kind_of_dotdTakes (h : dotdTakes a = true) : kind remote a = .withArgument := by
  rw [dotdTakes_iff] at h
  rcases h with rfl | rfl | rfl <;> cases remote <;> decide

theorem scanTakes_of_dotdTakes (h : dotdTakes a = true) : scanTakes remote a = true := by
  rw [scanTakes, kind_of_dotdTakes h]
  rfl

theorem dotdTakes_of_kind (h : kind remote a = .withArgument) : dotdTakes a = true := by
  by_cases hMF : a = ascii "-MF" ∨ a = ascii "-MT" ∨ a = ascii "-MQ"
  · rcases hMF with rfl | rfl | rfl <;> rfl
  by_cases hdash : a.head? = some 45
  · have hother : kind remote a ≠ .withArgument := by
      unfold kind
      rw [if_pos hdash, if_neg hMF]
      repeat' apply of_ite (P := fun k => k ≠ .withArgument)
      all_goals decide
    exact absurd h hother
  · rcases kind_no_dash_ne remote hdash with hkind | hkind | hkind <;>
      · rw [hkind] at h
        cases h

theorem kind_of_split (h : scanTakes remote a = true) (hnot : dotdTakes a = false) :
    a = ascii "-o" ∨ kind remote a = .opt_x := by
  unfold scanTakes at h
  cases hkind : kind remote a with
  | withArgument =>
    rw [dotdTakes_of_kind hkind] at hnot
    cases hnot
  | opt_o => exact Or.inl (eq_of_opt_o hkind)
  | opt_x => exact Or.inr rfl
  | _ =>
    rw [hkind] at h
    cases h

theorem language_head (h : dcc_optx_ext_lookup x ≠ none) : x.head? ≠ some 45 := by
  intro hhead
  cases x with
  | nil => cases hhead
  | cons c t =>
    obtain rfl := Option.some_inj.mp hhead
    exact h rfl

theorem head_of_startswith {o : Arg} (h : str_startswith (45 :: o) a = true) : a.head? = some 45 := by
  obtain ⟨t, rfl⟩ := List.isPrefixOf_iff_prefix.mp h
  rfl

theorem head_of_counts (h : countsForDotd a) : a.head? = some 45 := head_of_startswith h.1

theorem language_of_opt_x (h : Scanned remote [] us seen) (hmem : (a, some x) ∈ us)
    (hkind : kind remote a = .opt_x) : x.head? ≠ some 45 := by
  obtain ⟨pre, post, hsplit⟩ := append_of_mem hmem
  have hgoes := h.goes pre _ post hsplit
  rw [Refuses, hkind] at hgoes
  exact language_head fun hnone => hgoes (Or.inl hnone)

theorem argument_read (h : Taken remote argv scan) (hmem : (a, some x) ∈ units (scanTakes remote) argv)
    (hnot : dotdTakes a = false) :
    a = ascii "-o" ∨ (kind remote a = .opt_x ∧ x.head? ≠ some 45) := by
  obtain ⟨seen, hscanned⟩ := h.scanned
  rcases unit_argument h.ends hmem with ⟨htakes, _⟩ | ⟨_, hnone⟩
  · rcases kind_of_split htakes hnot with heq | hkind
    · exact Or.inl heq
    · exact Or.inr ⟨hkind, language_of_opt_x hscanned hmem hkind⟩
  · cases hnone

end Readings
def outputOption (u : OptionWord) : Option Arg :=
  if u.1 = ascii "-o" then u.2
  else if str_startswith (ascii "-o") u.1 then some (u.1.drop 2)
  else none

def meantFile (us : List OptionWord) (input : Arg) : Arg :=
  match us.findSome? outputOption with
  | some f => dependencies f
  | none => dependencies (lastComponent input)

def meantName (us : List OptionWord) (input : Arg) : Arg := (lastMF us).getD (meantFile us input)

def chosenFile (us : List OptionWord) (scan : Scan) : Except Failure Arg :=
  dotdName (if us.any (·.1 == ascii "-o") then scan.output_file else scan.input_file)

def chosenName (us : List OptionWord) (scan : Scan) : Except Failure Arg :=
  match lastMF us with
  | some x => .ok x
  | none => chosenFile us scan

section Right
variable {remote : RemoteAssemble} {argv : List Arg} {scan : Scan} {u : OptionWord} {seen : Seen}

/-- The name is the one that is meant, and dependencies are needed when an option asks for them. -/
def DepsRight (remote : RemoteAssemble) (argv : List Arg) (scan : Scan) : Prop :=
  ∃ info, dcc_get_dotd_info remote none argv = .ok (.ok info) ∧
    info.dotd_fname = meantName (units (scanTakes remote) argv) scan.input_file ∧
    (info.needs_dotd = true ↔ ∃ u ∈ units (scanTakes remote) argv, asksForDotd u.1)

theorem dotd_info_eq (hscan : scanChecked remote argv = .ok (.ok scan)) {seen : DotdSeen}
    (hwalk : dotdWalk argv { needs_dotd := false } = .ok seen)
    (hchanges : ChangesAll (units dotdTakes argv) { needs_dotd := false } seen) :
    dcc_get_dotd_info remote none argv = .ok ((chosenName (units dotdTakes argv) scan).map fun fname =>
      ⟨fname, seen.needs_dotd, seen.sets_dotd_target, none⟩) := by
  have hany : (units dotdTakes argv).any (·.1 == ascii "-o") = seen.has_dash_o := by
    rw [Bool.eq_iff_iff, hchanges.dash_o]
    simp
  have hdeps := hchanges.deps
  simp only [Option.or_none] at hdeps
  unfold dcc_get_dotd_info chosenName chosenFile
  rw [← hdeps, hany]
  change (dotdWalk argv { needs_dotd := false }).bind _ = _
  rw [hwalk]
  simp only [Except.bind, hscan]
  cases seen.deps_output with
  | none => rfl
  | some x => rfl

theorem depsRight_iff (hscan : scanChecked remote argv = .ok (.ok scan)) :
    DepsRight remote argv scan ↔ ¬ Dangles dotdTakes argv ∧
      ((∃ u ∈ units dotdTakes argv, countsForDotd u.1) ↔
        ∃ u ∈ units (scanTakes remote) argv, asksForDotd u.1) ∧
      chosenName (units dotdTakes argv) scan =
        .ok (meantName (units (scanTakes remote) argv) scan.input_file) := by
  by_cases hdangles : Dangles dotdTakes argv
  · apply iff_of_false _ fun h => h.1 hdangles
    rintro ⟨info, hinfo, _⟩
    obtain ⟨fault, hfault⟩ : ∃ fault, dcc_get_dotd_info remote none argv = .error fault :=
      dotd_faults_of_dangles hdangles
    rw [hfault] at hinfo
    cases hinfo
  · obtain ⟨seen, hwalk, hchanges⟩ := dotdWalk_ok { needs_dotd := false } hdangles
    have hneeds := hchanges.needs
    simp only [Bool.false_eq_true, false_or] at hneeds
    rw [DepsRight, dotd_info_eq hscan hwalk hchanges]
    cases chosenName (units dotdTakes argv) scan with
    | error e => simp [Except.map]
    | ok fname =>
      simp only [Except.map, Except.ok.injEq, exists_eq_left', hneeds, hdangles, not_false_eq_true,
        true_and]
      exact and_comm

end Right
/-! ## An output that takes no word -/

def Swallows (us : List OptionWord) : Prop := ∃ f, (ascii "-o", some f) ∈ us ∧ dotdTakes f = true

section Plain
variable {remote : RemoteAssemble} {argv : List Arg} {scan : Scan} {u : OptionWord}
  {a f : Arg} {arg : Option Arg}

theorem head_of_dotdTakes (h : dotdTakes a = true) : a.head? = some 45 := by
  rw [dotdTakes_iff] at h
  rcases h with rfl | rfl | rfl <;> rfl

theorem eq_of_opt_x (h : kind remote a = .opt_x) : a = ascii "-x" := by
  by_contra hne
  by_cases hdash : a.head? = some 45
  · have hother : kind remote a ≠ .opt_x := by
      unfold kind
      rw [if_pos hdash, if_neg hne]
      repeat' apply of_ite (P := fun k => k ≠ .opt_x)
      all_goals decide
    exact hother h
  · rcases kind_no_dash_ne remote hdash with hkind | hkind | hkind <;>
      · rw [hkind] at h
        cases h

theorem argumentOfMF_none (h : ¬ str_startswith (ascii "-MF") a = true) :
    argumentOfMF (a, arg) = none := by
  have hne : a ≠ ascii "-MF" := by
    rintro rfl
    exact h (by decide)
  simp [argumentOfMF, hne, h]

theorem argumentOfMF_dash_o : argumentOfMF (ascii "-o", arg) = none := argumentOfMF_none (by decide)

variable (h : Taken remote argv scan)
include h

theorem dash_o_argument (hmem : (ascii "-o", arg) ∈ units (scanTakes remote) argv) :
    ∃ f, arg = some f := by
  rcases unit_argument h.ends hmem with ⟨_, hsome⟩ | ⟨hnot, _⟩
  · exact hsome
  · cases hnot

theorem split_lastMF {vs : List OptionWord} (hsub : ∀ u ∈ vs, u ∈ units (scanTakes remote) argv)
    (hplain : ∀ f, (ascii "-o", some f) ∈ vs → ¬ str_startswith (ascii "-MF") f = true) :
    lastMF (vs.flatMap (splitUnit dotdTakes)) = lastMF vs := by
  induction vs with
  | nil => rfl
  | cons u vs ih =>
    have hrest := ih (fun v hv => hsub v (mem_cons_of_mem _ hv)) fun f hf =>
      hplain f (mem_cons_of_mem _ hf)
    have hword : lastMF (splitUnit dotdTakes u) = argumentOfMF u := by
      obtain ⟨a, arg⟩ := u
      cases arg with
      | none => exact lastMF_cons
      | some x =>
        cases htakes : dotdTakes a with
        | true =>
          rw [splitUnit, if_pos htakes]
          exact lastMF_cons
        | false =>
          rw [splitUnit_some htakes, lastMF_cons, lastMF_cons]
          rcases argument_read h (hsub _ mem_cons_self) htakes with rfl | ⟨hkind, hhead⟩
          · rw [argumentOfMF_none (hplain x mem_cons_self), argumentOfMF_dash_o,
              argumentOfMF_dash_o]
            rfl
          have hx : ¬ str_startswith (ascii "-MF") x = true :=
            fun hstarts => hhead (head_of_startswith hstarts)
          obtain rfl := eq_of_opt_x hkind
          rw [argumentOfMF_none hx, argumentOfMF_none (by decide), argumentOfMF_none (by decide)]
          rfl
    rw [flatMap_cons, lastMF_append, lastMF_cons, hrest, hword]

variable (hplain : ¬ Swallows (units (scanTakes remote) argv))
include hplain

theorem plain_units : ¬ Dangles dotdTakes argv ∧ units dotdTakes argv =
    (units (scanTakes remote) argv).flatMap (splitUnit dotdTakes) := by
  apply units_finer (fun a => scanTakes_of_dotdTakes) h.ends
  intro a x hmem hnot
  rw [← Bool.not_eq_true]
  intro htakes
  rcases argument_read h hmem hnot with rfl | ⟨_, hhead⟩
  · exact hplain ⟨x, hmem, htakes⟩
  · exact hhead (head_of_dotdTakes htakes)

theorem plain_counts : (∃ u ∈ units dotdTakes argv, countsForDotd u.1) ↔
    (∃ u ∈ units (scanTakes remote) argv, countsForDotd u.1) ∨
      ∃ f, (ascii "-o", some f) ∈ units (scanTakes remote) argv ∧
        str_startswith (ascii "-M") f = true := by
  rw [(plain_units h hplain).2]
  simp only [mem_flatMap]
  constructor
  · rintro ⟨v, ⟨⟨a, arg⟩, hu, hv⟩, hcounts⟩
    rcases mem_splitUnit hv with heq | ⟨hnot, rfl⟩
    · rw [heq] at hcounts
      exact Or.inl ⟨_, hu, hcounts⟩
    rcases argument_read h hu hnot with rfl | ⟨_, hhead⟩
    · exact Or.inr ⟨v.1, hu, hcounts.1⟩
    · exact absurd (head_of_counts hcounts) hhead
  · rintro (⟨u, hu, hcounts⟩ | ⟨f, hf, hstarts⟩)
    · obtain ⟨v, hv, heq⟩ := first_mem_splitUnit dotdTakes u
      rw [← heq] at hcounts
      exact ⟨v, ⟨u, hu, hv⟩, hcounts⟩
    · refine ⟨(f, none), ⟨_, hf, ?_⟩, hstarts, ?_, ?_⟩
      · exact mem_cons_of_mem _ mem_cons_self
      · rintro rfl
        exact hplain ⟨_, hf, rfl⟩
      · rintro rfl
        exact hplain ⟨_, hf, rfl⟩

theorem plain_dash_o : (units dotdTakes argv).any (·.1 == ascii "-o") = true ↔
    ∃ f, (ascii "-o", some f) ∈ units (scanTakes remote) argv := by
  rw [(plain_units h hplain).2, any_eq_true]
  simp only [mem_flatMap, beq_iff_eq]
  constructor
  · rintro ⟨v, ⟨⟨a, arg⟩, hu, hv⟩, hdash_o⟩
    rcases mem_splitUnit hv with heq | ⟨hnot, rfl⟩
    · rw [hdash_o] at heq
      obtain rfl : ascii "-o" = a := heq
      obtain ⟨f, rfl⟩ := dash_o_argument h hu
      exact ⟨f, hu⟩
    · rcases argument_read h hu hnot with rfl | ⟨_, hhead⟩
      · exact ⟨_, hu⟩
      rw [hdash_o] at hhead
      exact absurd rfl hhead
  · rintro ⟨f, hf⟩
    obtain ⟨v, hv, heq⟩ := first_mem_splitUnit dotdTakes (ascii "-o", some f)
    exact ⟨v, ⟨_, hf, hv⟩, heq⟩

end Plain
section Condition
variable {remote : RemoteAssemble} {argv : List Arg} {scan : Scan} {us us' : List OptionWord}
  {u : OptionWord} {a f input : Arg} {seen : Seen}

def JoinedTarget (a : Arg) : Prop :=
  (str_startswith (ascii "-MT") a = true ∨ str_startswith (ascii "-MQ") a = true) ∧
    a ≠ ascii "-MT" ∧ a ≠ ascii "-MQ"

def NeedsRight (us : List OptionWord) : Prop :=
  ((∃ u ∈ us, JoinedTarget u.1) ∨
    ∃ f, (ascii "-o", some f) ∈ us ∧ str_startswith (ascii "-M") f = true) →
      ∃ u ∈ us, asksForDotd u.1

/-- The name can be made from the file. -/
structure FileRight (remote : RemoteAssemble) (us : List OptionWord) (input : Arg) : Prop where
  /-- the name after `-o` is not empty, and has no dot only in its directories -/
  dash_o : ∀ f, (ascii "-o", some f) ∈ us → f ≠ [] ∧ (46 ∈ f → 46 ∈ lastComponent f)
  /-- a name joined with `-o` differs from that of the input in the extension only -/
  joined : ∀ u ∈ us, kind remote u.1 = .joined →
    withoutExtension (u.1.drop 2) = withoutExtension input
  /-- without `-o` the input has no directory -/
  neither : (∀ u ∈ us, kind remote u.1 ≠ .opt_o ∧ kind remote u.1 ≠ .joined) → 47 ∉ input

/-- An output that starts with -MF is taken for one: a later -MF makes up for it, or an earlier one with
the same name. -/
def NameRight (remote : RemoteAssemble) (us : List OptionWord) (input : Arg) : Prop :=
  (∃ before f after, us = before ++ (ascii "-o", some f) :: after ∧
    str_startswith (ascii "-MF") f = true ∧
      (lastMF after ≠ none ∨ lastMF before = some (f.drop 3))) ∨
  ((∀ f, (ascii "-o", some f) ∈ us → ¬ str_startswith (ascii "-MF") f = true) ∧
    (lastMF us ≠ none ∨ FileRight remote us input))

theorem counts_iff : countsForDotd a ↔ asksForDotd a ∨ JoinedTarget a := by
  unfold countsForDotd asksForDotd JoinedTarget
  have hMT : str_startswith (ascii "-MT") a = true → str_startswith (ascii "-M") a = true := by
    intro h
    obtain ⟨t, rfl⟩ := List.isPrefixOf_iff_prefix.mp h
    rfl
  have hMQ : str_startswith (ascii "-MQ") a = true → str_startswith (ascii "-M") a = true := by
    intro h
    obtain ⟨t, rfl⟩ := List.isPrefixOf_iff_prefix.mp h
    rfl
  have hself : a = ascii "-MT" → str_startswith (ascii "-MT") a = true := by
    rintro rfl
    decide
  have hself' : a = ascii "-MQ" → str_startswith (ascii "-MQ") a = true := by
    rintro rfl
    decide
  tauto

theorem needs_iff (h : Taken remote argv scan) (hplain : ¬ Swallows (units (scanTakes remote) argv)) :
    ((∃ u ∈ units dotdTakes argv, countsForDotd u.1) ↔
      ∃ u ∈ units (scanTakes remote) argv, asksForDotd u.1) ↔
        NeedsRight (units (scanTakes remote) argv) := by
  rw [plain_counts h hplain]
  simp only [counts_iff, and_or_left, exists_or, NeedsRight]
  rw [or_assoc, or_iff_left_iff_imp]

variable (remote) in
theorem outputOption_none (h : kind remote u.1 ≠ .opt_o) (h' : kind remote u.1 ≠ .joined) :
    outputOption u = none := by
  have hnot : ¬ str_startswith (ascii "-o") u.1 = true := by
    intro hstarts
    rcases kind_of_startswith remote hstarts with ⟨_, hkind⟩ | ⟨_, hkind⟩
    · exact h hkind
    · exact h' hkind
  have hne : u.1 ≠ ascii "-o" := by
    intro heq
    rw [heq] at hnot
    exact hnot (by decide)
  simp [outputOption, hne, hnot]

theorem outputOption_other (h : (kind remote u.1).givesOutput = false) : outputOption u = none := by
  apply outputOption_none remote
  · intro hkind
    rw [hkind] at h
    cases h
  · intro hkind
    rw [hkind] at h
    cases h

theorem findSome_output (h : Scanned remote [] us seen) (hu : u ∈ us)
    (hgives : (kind remote u.1).givesOutput = true) : us.findSome? outputOption = outputOption u := by
  obtain ⟨pre, post, hsplit⟩ := append_of_mem hu
  have hothers := one_output h hsplit hgives
  have hpre : pre.findSome? outputOption = none := by
    rw [findSome?_eq_none_iff]
    intro v hv
    exact outputOption_other (hothers v (mem_append_left _ hv))
  have hpost : post.findSome? outputOption = none := by
    rw [findSome?_eq_none_iff]
    intro v hv
    exact outputOption_other (hothers v (mem_append_right _ hv))
  rw [hsplit, findSome?_append, hpre, Option.none_or, findSome?_cons, hpost]
  cases outputOption u <;> rfl

theorem name_of_same (hsame : lastMF us' = lastMF us) :
    chosenName us' scan = .ok (meantName us input) ↔
      lastMF us ≠ none ∨ chosenFile us' scan = .ok (meantFile us input) := by
  rw [chosenName, meantName, hsame]
  cases lastMF us with
  | none => simp
  | some x => simp

theorem source_name (h : dcc_is_source remote input = true) :
    ∃ s t, input = s ++ 46 :: t ∧ 46 ∉ t ∧ 47 ∉ t := by
  unfold dcc_is_source at h
  rcases dots input with hnone | ⟨s, t, rfl, hdot, hslash, _⟩ | ⟨s, t, rfl, hdot, hslash, _⟩
  · rw [dcc_find_extension, strrchr_none hnone] at h
    cases h
  · exact ⟨s, t, rfl, hdot, hslash⟩
  have ht : t ≠ [] := by
    rintro rfl
    cases hslash
  rw [find_extension_append ht hdot] at h
  have hlist : ∀ e ∈ sourceExtensions remote, 47 ∉ e := by
    cases remote <;> decide
  exact absurd hslash (hlist t (List.contains_iff_mem.mp h))

theorem dotdName_source (h : dcc_is_source remote input = true) :
    dotdName input = .ok (dependencies input) := by
  rw [dotdName_eq_iff]
  obtain ⟨s, t, rfl, hdot, hslash⟩ := source_name h
  refine ⟨by simp, fun _ => ?_⟩
  rw [lastComponent_append (by simp [hslash])]
  simp

theorem dependencies_inj {name name' : Arg} :
    dependencies name = dependencies name' ↔ withoutExtension name = withoutExtension name' :=
  append_left_inj _

theorem directory_iff (h : dcc_is_source remote input = true) :
    dependencies input = dependencies (lastComponent input) ↔ 47 ∉ input := by
  obtain ⟨s, t, rfl, hdot, hslash⟩ := source_name h
  have hslash' : 47 ∉ 46 :: t := by simp [hslash]
  rw [dependencies_inj, lastComponent_append hslash', withoutExtension_dot hdot hslash,
    withoutExtension_dot hdot hslash, mem_append, or_iff_left hslash']
  obtain ⟨dir, hs, hdir, hlast⟩ := lastComponent_eq s
  constructor
  · intro heq
    rw [heq]
    exact hlast
  · intro hnone
    exact (lastComponent_none hnone).symm

theorem drop_ne_dependencies (hstarts : str_startswith (ascii "-MF") f = true) :
    f.drop 3 ≠ dependencies f := by
  obtain ⟨t, rfl⟩ := List.isPrefixOf_iff_prefix.mp hstarts
  intro heq
  have ht : t = withoutExtension (ascii "-MF" ++ t) ++ ascii ".d" := heq
  have hwhole : withoutExtension (ascii "-MF" ++ t) =
      ascii "-MF" ++ withoutExtension (ascii "-MF" ++ t) := by
    conv_lhs => rw [ht, ← append_assoc]
    exact withoutExtension_dot (by decide) (by decide)
  have hlen := congrArg List.length hwhole
  simp only [length_append] at hlen
  have hthree : (ascii "-MF").length = 3 := rfl
  omega

theorem joined_output (h : kind remote u.1 = .joined) : outputOption u = some (u.1.drop 2) := by
  have hne : u.1 ≠ ascii "-o" := by
    intro heq
    rw [heq, kind_opt_o] at h
    cases h
  rw [outputOption, if_neg hne, if_pos (startswith_of_joined h)]

variable (h : Taken remote argv scan)
include h

theorem meantFile_dash_o (input : Arg) (hf : (ascii "-o", some f) ∈ units (scanTakes remote) argv) :
    meantFile (units (scanTakes remote) argv) input = dependencies f ∧
      ∀ u ∈ units (scanTakes remote) argv, kind remote u.1 ≠ .joined := by
  obtain ⟨seen, hscanned⟩ := h.scanned
  have hgives : (kind remote (ascii "-o")).givesOutput = true := by
    rfl
  constructor
  · have hfound : (units (scanTakes remote) argv).findSome? outputOption = some f :=
      findSome_output hscanned hf hgives
    rw [meantFile, hfound]
  · intro u hu hkind
    obtain ⟨pre, post, hsplit⟩ := append_of_mem hu
    have hothers := one_output hscanned hsplit (by rw [hkind]; rfl)
    rw [hsplit, mem_append, mem_cons] at hf
    rcases hf with hf | rfl | hf
    · have hnot := hothers _ (mem_append_left _ hf)
      cases hnot
    · cases hkind
    · have hnot := hothers _ (mem_append_right _ hf)
      cases hnot

theorem dash_o_unique {f' : Arg} (hf : (ascii "-o", some f) ∈ units (scanTakes remote) argv)
    (hf' : (ascii "-o", some f') ∈ units (scanTakes remote) argv) : f = f' :=
  (h.output f hf).symm.trans (h.output f' hf')

variable (hplain : ¬ Swallows (units (scanTakes remote) argv))
include hplain

theorem plain_file_iff (hMF : ∀ f, (ascii "-o", some f) ∈ units (scanTakes remote) argv →
      ¬ str_startswith (ascii "-MF") f = true) : chosenName (units dotdTakes argv) scan =
        .ok (meantName (units (scanTakes remote) argv) scan.input_file) ↔
      lastMF (units (scanTakes remote) argv) ≠ none ∨
        chosenFile (units dotdTakes argv) scan =
          .ok (meantFile (units (scanTakes remote) argv) scan.input_file) := by
  apply name_of_same
  rw [(plain_units h hplain).2]
  exact split_lastMF h (fun _ hu => hu) hMF

theorem chosenFile_iff : chosenFile (units dotdTakes argv) scan =
      .ok (meantFile (units (scanTakes remote) argv) scan.input_file) ↔
    FileRight remote (units (scanTakes remote) argv) scan.input_file := by
  obtain ⟨seen, hscanned⟩ := h.scanned
  by_cases hdash_o : ∃ f, (ascii "-o", some f) ∈ units (scanTakes remote) argv
  · have hany := (plain_dash_o h hplain).mpr hdash_o
    obtain ⟨f, hf⟩ := hdash_o
    obtain ⟨hfile, hjoined⟩ := meantFile_dash_o h scan.input_file hf
    rw [chosenFile, hany, if_pos rfl, h.output f hf, hfile, dotdName_eq_iff]
    constructor
    · intro hname
      refine ⟨?_, fun u hu hkind => absurd hkind (hjoined u hu), ?_⟩
      · intro f' hf'
        rw [← dash_o_unique h hf hf']
        exact hname
      · intro hneither
        exact absurd kind_opt_o (hneither _ hf).1
    · intro hright
      exact hright.dash_o f hf
  · have hany : ¬ (units dotdTakes argv).any (·.1 == ascii "-o") = true :=
      fun hany => hdash_o ((plain_dash_o h hplain).mp hany)
    rw [chosenFile, if_neg hany, dotdName_source h.input]
    by_cases hjoined : ∃ u ∈ units (scanTakes remote) argv, kind remote u.1 = .joined
    · obtain ⟨u, hu, hkind⟩ := hjoined
      have hfound : (units (scanTakes remote) argv).findSome? outputOption = some (u.1.drop 2) := by
        rw [findSome_output hscanned hu (by rw [hkind]; rfl), joined_output hkind]
      rw [meantFile, hfound, Except.ok.injEq, dependencies_inj]
      constructor
      · intro heq
        refine ⟨fun f hf => absurd ⟨f, hf⟩ hdash_o, ?_, fun hneither => absurd hkind (hneither u hu).2⟩
        intro v hv hkind'
        have hfound' := findSome_output hscanned hv (by rw [hkind']; rfl)
        rw [hfound, joined_output hkind', Option.some_inj] at hfound'
        rw [← hfound', heq]
      · intro hright
        exact (hright.joined u hu hkind).symm
    · have hneither : ∀ u ∈ units (scanTakes remote) argv,
          kind remote u.1 ≠ .opt_o ∧ kind remote u.1 ≠ .joined := by
        rintro ⟨a, arg⟩ hu
        constructor
        · intro hkind
          obtain rfl := eq_of_opt_o hkind
          obtain ⟨f, rfl⟩ := dash_o_argument h hu
          exact hdash_o ⟨f, hu⟩
        · intro hkind
          exact hjoined ⟨_, hu, hkind⟩
      have hnone : (units (scanTakes remote) argv).findSome? outputOption = none := by
        rw [findSome?_eq_none_iff]
        intro u hu
        exact outputOption_none remote (hneither u hu).1 (hneither u hu).2
      rw [meantFile, hnone, Except.ok.injEq, directory_iff h.input]
      constructor
      · intro hdir
        exact ⟨fun f hf => absurd ⟨f, hf⟩ hdash_o, fun u hu hkind => absurd ⟨u, hu, hkind⟩ hjoined,
          fun _ => hdir⟩
      · intro hright
        exact hright.neither hneither

theorem plain_MF_iff {before after : List OptionWord}
    (hsplit : units (scanTakes remote) argv = before ++ (ascii "-o", some f) :: after)
    (hMF : str_startswith (ascii "-MF") f = true) : chosenName (units dotdTakes argv) scan =
        .ok (meantName (units (scanTakes remote) argv) scan.input_file) ↔
      lastMF after ≠ none ∨ lastMF before = some (f.drop 3) := by
  have hf : (ascii "-o", some f) ∈ units (scanTakes remote) argv := by
    rw [hsplit]
    simp
  obtain ⟨hfile, _⟩ := meantFile_dash_o h scan.input_file hf
  obtain ⟨seen, hscanned⟩ := h.scanned
  have hothers := one_output hscanned hsplit (by rw [kind_opt_o]; rfl)
  have hpart : ∀ vs : List OptionWord, (∀ v ∈ vs, v ∈ before ++ after) →
      lastMF (vs.flatMap (splitUnit dotdTakes)) = lastMF vs := by
    intro vs hvs
    apply split_lastMF h
    · intro v hv
      have hmem := hvs v hv
      rw [hsplit, mem_append, mem_cons]
      rw [mem_append] at hmem
      tauto
    · intro f' hf'
      have hnot := hothers _ (hvs _ hf')
      cases hnot
  have hword : lastMF (splitUnit dotdTakes (ascii "-o", some f)) = some (f.drop 3) := by
    have hne : f ≠ ascii "-MF" := by
      rintro rfl
      exact hplain ⟨_, hf, rfl⟩
    rw [splitUnit_some (by decide), lastMF_cons, lastMF_cons, argumentOfMF_dash_o, argumentOfMF,
      if_neg hne, if_pos hMF]
    rfl
  have hloop : lastMF (units dotdTakes argv) = (lastMF after).or (some (f.drop 3)) := by
    rw [(plain_units h hplain).2, hsplit, flatMap_append, flatMap_cons, lastMF_append,
      lastMF_append, hpart before (fun v hv => mem_append_left _ hv),
      hpart after (fun v hv => mem_append_right _ hv), hword, Option.or_assoc]
    rfl
  have hmeant : lastMF (units (scanTakes remote) argv) = (lastMF after).or (lastMF before) := by
    rw [hsplit, lastMF_append, lastMF_cons, argumentOfMF_dash_o, Option.or_none]
  rw [chosenName, meantName, hloop, hmeant, hfile]
  cases lastMF after with
  | some x => simp
  | none =>
    have hne := drop_ne_dependencies hMF
    cases lastMF before with
    | none => simp [hne]
    | some y => simp [eq_comm]

theorem plain_name_iff : chosenName (units dotdTakes argv) scan =
      .ok (meantName (units (scanTakes remote) argv) scan.input_file) ↔
    NameRight remote (units (scanTakes remote) argv) scan.input_file := by
  by_cases hMF : ∃ f, (ascii "-o", some f) ∈ units (scanTakes remote) argv ∧
      str_startswith (ascii "-MF") f = true
  · obtain ⟨f, hf, hstarts⟩ := hMF
    obtain ⟨before, after, hsplit⟩ := append_of_mem hf
    constructor
    · intro hname
      exact Or.inl ⟨before, f, after, hsplit, hstarts, (plain_MF_iff h hplain hsplit hstarts).mp hname⟩
    · rintro (⟨before, f, after, hsplit, hstarts, hmakesUp⟩ | ⟨hnone, _⟩)
      · exact (plain_MF_iff h hplain hsplit hstarts).mpr hmakesUp
      · exact absurd hstarts (hnone f hf)
  · have hnone : ∀ f, (ascii "-o", some f) ∈ units (scanTakes remote) argv →
        ¬ str_startswith (ascii "-MF") f = true := fun f hf hstarts => hMF ⟨f, hf, hstarts⟩
    rw [plain_file_iff h hplain hnone, chosenFile_iff h hplain]
    constructor
    · intro hright
      exact Or.inr ⟨hnone, hright⟩
    · rintro (⟨before, f, after, hsplit, hstarts, _⟩ | ⟨_, hright⟩)
      · exact absurd hstarts (hnone f (by rw [hsplit]; simp))
      · exact hright

end Condition
section All
variable {remote : RemoteAssemble} {argv : List Arg} {scan : Scan} {f : Arg}

/-- What is left when the loop takes the word behind the output `f` for an argument: the readings of the
loop and of the scan have the same -MF at the end, and agree on whether an option asks. -/
structure SwallowedRight (remote : RemoteAssemble) (argv : List Arg) (f : Arg) : Prop where
  ends : ¬ Dangles dotdTakes argv
  needs : (∃ u ∈ units dotdTakes argv, countsForDotd u.1) ↔
    ∃ u ∈ units (scanTakes remote) argv, asksForDotd u.1
  name : (lastMF (units dotdTakes argv)).getD (dependencies f) =
    (lastMF (units (scanTakes remote) argv)).getD (dependencies f)

theorem swallowing_file (h : dotdTakes f = true) : dotdName f = .ok (dependencies f) := by
  rw [dotdTakes_iff] at h
  rw [dotdName_eq_iff]
  rcases h with rfl | rfl | rfl <;> exact ⟨by decide, by decide⟩

theorem comes_to_dash_o (h : Taken remote argv scan)
    (hf : (ascii "-o", some f) ∈ units (scanTakes remote) argv) :
    (units dotdTakes argv).any (·.1 == ascii "-o") = true := by
  obtain ⟨seen, hscanned⟩ := h.scanned
  obtain ⟨before, after, heq, hends, hunits⟩ := units_split hf
  have hothers := one_output hscanned hunits (by rw [kind_opt_o]; rfl)
  have hfiner : ¬ Dangles dotdTakes before ∧ units dotdTakes before =
      (units (scanTakes remote) before).flatMap (splitUnit dotdTakes) := by
    apply units_finer (fun a => scanTakes_of_dotdTakes) hends
    intro a x hmem hnot
    have hall : (a, some x) ∈ units (scanTakes remote) argv := by
      rw [hunits]
      exact mem_append_left _ hmem
    rw [← Bool.not_eq_true]
    intro htakes
    rcases argument_read h hall hnot with rfl | ⟨_, hhead⟩
    · have hgives := hothers _ (mem_append_left _ hmem)
      cases hgives
    · exact hhead (head_of_dotdTakes htakes)
  have hdash_o : dotdTakes (ascii "-o") = false := by decide
  rw [heq, units_append hfiner.1, units_word hdash_o]
  simp

theorem swallowed_name_iff (h : Taken remote argv scan)
    (hf : (ascii "-o", some f) ∈ units (scanTakes remote) argv) (htakes : dotdTakes f = true) :
    chosenName (units dotdTakes argv) scan =
        .ok (meantName (units (scanTakes remote) argv) scan.input_file) ↔
      (lastMF (units dotdTakes argv)).getD (dependencies f) =
        (lastMF (units (scanTakes remote) argv)).getD (dependencies f) := by
  have hchosen : chosenFile (units dotdTakes argv) scan = .ok (dependencies f) := by
    rw [chosenFile, comes_to_dash_o h hf, if_pos rfl, h.output f hf, swallowing_file htakes]
  rw [chosenName, meantName, hchosen, (meantFile_dash_o h _ hf).1]
  cases lastMF (units dotdTakes argv) <;> simp

/-- The name and the need of dependencies, for every command line that the scan takes. -/
theorem depsRight_iff_condition (remote : RemoteAssemble) (argv : List Arg) (scan : Scan)
    (hscan : scanChecked remote argv = .ok (.ok scan)) : DepsRight remote argv scan ↔
      (¬ Swallows (units (scanTakes remote) argv) ∧ NeedsRight (units (scanTakes remote) argv) ∧
        NameRight remote (units (scanTakes remote) argv) scan.input_file) ∨
      ∃ f, (ascii "-o", some f) ∈ units (scanTakes remote) argv ∧ dotdTakes f = true ∧
        SwallowedRight remote argv f := by
  have h := taken_of_scan hscan
  rw [depsRight_iff hscan]
  by_cases hswallows : Swallows (units (scanTakes remote) argv)
  · obtain ⟨f, hf, htakes⟩ := hswallows
    rw [swallowed_name_iff h hf htakes]
    constructor
    · rintro ⟨hends, hneeds, hname⟩
      exact Or.inr ⟨f, hf, htakes, hends, hneeds, hname⟩
    · rintro (⟨hnot, _⟩ | ⟨f', hf', _, hright⟩)
      · exact absurd ⟨f, hf, htakes⟩ hnot
      · obtain rfl := dash_o_unique h hf hf'
        exact ⟨hright.ends, hright.needs, hright.name⟩
  · rw [needs_iff h hswallows, plain_name_iff h hswallows]
    constructor
    · rintro ⟨_, hneeds, hname⟩
      exact Or.inl ⟨hswallows, hneeds, hname⟩
    · rintro (⟨_, hneeds, hname⟩ | ⟨f, hf, htakes, _⟩)
      · exact ⟨(plain_units h hswallows).1, hneeds, hname⟩
      · exact absurd ⟨f, hf, htakes⟩ hswallows

/-- `gcc -c a.c` -/
theorem depsRight_hello : DepsRight true [ascii "gcc", ascii "-c", ascii "a.c"]
    ⟨[ascii "gcc", ascii "-c", ascii "a.c", ascii "-o", ascii "a.o"], 2, .element 4, none⟩ := by
  apply (depsRight_iff_condition true _ _ rfl).mpr
  have hunits : units (scanTakes true) [ascii "gcc", ascii "-c", ascii "a.c"] =
      [(ascii "gcc", none), (ascii "-c", none), (ascii "a.c", none)] := by
    decide
  have hdash_o : ∀ f, (ascii "-o", some f) ∉
      [((ascii "gcc", none) : OptionWord), (ascii "-c", none), (ascii "a.c", none)] := by
    intro f hf
    simp at hf
  left
  rw [hunits]
  refine ⟨?_, ?_, Or.inr ⟨fun f hf => absurd hf (hdash_o f), Or.inr ?_⟩⟩
  · rintro ⟨f, hf, _⟩
    exact hdash_o f hf
  · rintro (⟨u, hu, hjoined⟩ | ⟨f, hf, _⟩)
    · simp only [mem_cons, not_mem_nil, or_false] at hu
      rcases hu with rfl | rfl | rfl <;> exact absurd hjoined.1 (by decide)
    · exact absurd hf (hdash_o f)
  · refine ⟨fun f hf => absurd hf (hdash_o f), ?_, fun _ => by decide⟩
    intro u hu hkind
    simp only [mem_cons, not_mem_nil, or_false] at hu
    rcases hu with rfl | rfl | rfl <;> exact absurd hkind (by decide)

/-- `gcc -c a.c -ofoo.o` -/
theorem depsRight_joined : ¬ ∀ remote argv scan,
    scanChecked remote argv = .ok (.ok scan) → DepsRight remote argv scan := by
  intro hclaim
  obtain ⟨info, hinfo, hname, _⟩ := hclaim true
    [ascii "gcc", ascii "-c", ascii "a.c", ascii "-ofoo.o"]
    ⟨[ascii "gcc", ascii "-c", ascii "a.c", ascii "-ofoo.o"], 2, .suffix 3, none⟩ rfl
  have hcode : dcc_get_dotd_info true none
      [ascii "gcc", ascii "-c", ascii "a.c", ascii "-ofoo.o"] =
      .ok (.ok ⟨ascii "a.d", false, false, none⟩) := rfl
  obtain rfl := Except.ok.inj (Except.ok.inj hinfo)
  exact absurd hname (by decide)

end All
end Toolwhip.Distcc.DotdName
