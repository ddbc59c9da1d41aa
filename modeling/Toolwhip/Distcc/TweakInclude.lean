import Mathlib.Data.List.MinMax
import Toolwhip.Distcc.ArgvWalks

/-! # Include directories below the root of the server

`tweak_include_arguments_for_server` takes the first option of its table that a word starts with; meant is
the longest one. -/

namespace Toolwhip.Distcc.TweakInclude
open Lib.CNumber Lib.OptionWalk List
set_option autoImplicit false

section Meant

def longestOption (a : Arg) : Option Arg :=
  (include_options.filter fun o => str_startswith o a).argmax List.length

variable (option : Arg → Option Arg)

def takesWith (a : Arg) : Bool := option a == some a

def changeWith (root_dir : Arg) : Role → Arg → Arg
  | .argument, x => rehomed root_dir [] x
  | .own, a =>
    match option a with
    | none => a
    | some o => if a = o then a else rehomed root_dir o (a.drop o.length)

def rehomedWords (root_dir : Arg) (argv : List Arg) : List Arg :=
  byRole (takesWith option) (changeWith option root_dir) argv

def Touched : Role → Arg → Prop
  | .argument, x => x.head? = some 47
  | .own, a => ∃ o, option a = some o ∧ (a.drop o.length).head? = some 47

end Meant

section Table
variable {a o : Arg}

def withprefixOnly : Arg := ascii "-iwithprefix"
def withprefixbefore : Arg := ascii "-iwithprefixbefore"

theorem comparable_options : ∀ o ∈ include_options, ∀ o' ∈ include_options,
    str_startswith o o' = true → o = o' ∨ o = withprefixOnly ∧ o' = withprefixbefore := by
  decide

theorem startswith_iff : str_startswith o a = true ↔ o <+: a := isPrefixOf_iff_prefix

theorem includeOption_some (h : includeOption a = some o) : o ∈ include_options ∧ o <+: a := by
  refine ⟨mem_of_find?_eq_some h, ?_⟩
  have hstarts := find?_some (p := fun o => str_startswith o a) h
  exact startswith_iff.mp hstarts

theorem longestOption_some (h : longestOption a = some o) : o ∈ include_options ∧ o <+: a := by
  have hmem := argmax_mem h
  rw [mem_filter, startswith_iff] at hmem
  exact hmem

theorem options_of_word {o' : Arg} (ho : o ∈ include_options) (ho' : o' ∈ include_options)
    (h : o <+: a) (h' : o' <+: a) :
    o = o' ∨ o = withprefixOnly ∧ o' = withprefixbefore ∨ o = withprefixbefore ∧ o' = withprefixOnly := by
  rcases prefix_or_prefix_of_prefix h h' with hstarts | hstarts
  · rcases comparable_options o ho o' ho' (startswith_iff.mpr hstarts) with heq | hpair
    · exact Or.inl heq
    · exact Or.inr (Or.inl hpair)
  · rcases comparable_options o' ho' o ho (startswith_iff.mpr hstarts) with heq | hpair
    · exact Or.inl heq.symm
    · exact Or.inr (Or.inr hpair.symm)

theorem includeOption_eq (a : Arg) :
    includeOption a = (include_options.filter fun o => str_startswith o a).head? :=
  List.head?_filter.symm

theorem filter_before (h : withprefixbefore <+: a) :
    (include_options.filter fun o => str_startswith o a) = [withprefixOnly, withprefixbefore] := by
  have hother : ∀ o ∈ include_options, o ≠ withprefixOnly → o ≠ withprefixbefore →
      str_startswith o a = false := by
    intro o ho hne hne'
    rw [← Bool.not_eq_true, startswith_iff]
    intro hstarts
    rcases options_of_word ho (by decide) hstarts h with heq | ⟨heq, _⟩ | ⟨heq, _⟩
    · exact hne' heq
    · exact hne heq
    · exact hne' heq
  have hnone : ∀ l ⊆ include_options, withprefixOnly ∉ l → withprefixbefore ∉ l →
      (l.filter fun o => str_startswith o a) = [] := by
    intro l hl hnot hnot'
    rw [filter_eq_nil_iff]
    intro o ho
    have hfalse := hother o (hl ho) (fun heq => hnot (heq ▸ ho)) fun heq => hnot' (heq ▸ ho)
    rw [hfalse]
    exact Bool.false_ne_true
  have hshort : withprefixOnly <+: a := (by decide : withprefixOnly <+: withprefixbefore).trans h
  have hsplit : include_options = (include_options.take 7 ++ [withprefixOnly, withprefixbefore]) ++
      include_options.drop 9 := by
    decide
  rw [hsplit, filter_append, filter_append, hnone _ (take_subset _ _) (by decide)
    (by decide), hnone _ (drop_subset _ _) (by decide) (by decide)]
  simp [startswith_iff.mpr hshort, startswith_iff.mpr h]

theorem includeOption_before (h : withprefixbefore <+: a) : includeOption a = some withprefixOnly := by
  rw [includeOption_eq, filter_before h]
  rfl

theorem longestOption_before (h : withprefixbefore <+: a) :
    longestOption a = some withprefixbefore := by
  rw [longestOption, filter_before h]
  decide

theorem longestOption_other (h : ¬ withprefixbefore <+: a) : longestOption a = includeOption a := by
  rw [includeOption_eq, longestOption]
  have hnodup : (include_options.filter fun o => str_startswith o a).Nodup :=
    (by decide : include_options.Nodup).sublist filter_sublist
  have hmem : ∀ o ∈ include_options.filter fun o => str_startswith o a,
      o ∈ include_options ∧ o <+: a := by
    intro o ho
    rw [mem_filter, startswith_iff] at ho
    exact ho
  match hfound : include_options.filter fun o => str_startswith o a with
  | [] => rfl
  | [o] => rfl
  | o :: o' :: rest =>
    rw [hfound] at hnodup hmem
    obtain ⟨ho, hstarts⟩ := hmem o mem_cons_self
    obtain ⟨ho', hstarts'⟩ := hmem o' (mem_cons_of_mem _ mem_cons_self)
    rcases options_of_word ho ho' hstarts hstarts' with rfl | ⟨_, rfl⟩ | ⟨rfl, _⟩
    · exact absurd mem_cons_self (List.nodup_cons.mp hnodup).1
    · exact absurd hstarts' h
    · exact absurd hstarts h

end Table

section Walk
variable {option : Arg → Option Arg} {root_dir : Arg} {argv : List Arg} {a : Arg} {role : Role}

theorem takesWith_includeOption : takesWith includeOption = tweakTakes := rfl

theorem tweak_eq (h : ¬ Dangles tweakTakes argv) :
    tweak_include_arguments_for_server root_dir argv =
      .ok (rehomedWords includeOption root_dir argv) := by
  induction argv using walk_induction tweakTakes with
  | nil => rfl
  | word a rest htakes ih =>
    rw [dangles_word htakes] at h
    rw [tweak_include_arguments_for_server.eq_def, rehomedWords, takesWith_includeOption,
      byRole_word htakes]
    simp only [ih h]
    cases ho : includeOption a with
    | none => simp [changeWith, ho, Except.map, rehomedWords, takesWith_includeOption]
    | some o =>
      have hne : a ≠ o := by
        rintro rfl
        rw [tweakTakes_eq_true.mpr ho] at htakes
        cases htakes
      simp [changeWith, ho, hne, Except.map, rehomedWords, takesWith_includeOption]
  | taking a x rest htakes ih =>
    rw [dangles_taking htakes] at h
    rw [tweak_include_arguments_for_server.eq_def, rehomedWords, takesWith_includeOption,
      byRole_taking htakes]
    simp only [ih h, tweakTakes_eq_true.mp htakes]
    simp [changeWith, tweakTakes_eq_true.mp htakes, Except.map, rehomedWords, takesWith_includeOption]
  | last a htakes => exact absurd (dangles_last htakes) h

theorem rehomed_eq_iff {o name : Arg} (hroot : root_dir ≠ []) :
    rehomed root_dir o name = o ++ name ↔ name.head? ≠ some 47 := by
  unfold rehomed
  split
  · rename_i hslash
    refine iff_of_false ?_ (fun hne => hne hslash)
    intro heq
    have hlen := congrArg List.length heq
    have hpos := List.length_pos_iff.mpr hroot
    simp only [length_append] at hlen
    omega
  · rename_i hslash
    exact iff_of_true rfl hslash

def Starts (option : Arg → Option Arg) : Prop := ∀ a o, option a = some o → o <+: a

theorem append_drop {o : Arg} (h : o <+: a) : o ++ a.drop o.length = a := by
  obtain ⟨name, rfl⟩ := h
  rw [drop_left]

theorem changeWith_eq_self_iff (hoption : Starts option) (hroot : root_dir ≠ []) :
    changeWith option root_dir role a = a ↔ ¬ Touched option role a := by
  cases role with
  | argument => exact rehomed_eq_iff (o := []) hroot
  | own =>
    simp only [changeWith, Touched]
    cases ho : option a with
    | none => simp
    | some o =>
      have happend := append_drop (hoption a o ho)
      simp only [Option.some.injEq, exists_eq_left']
      by_cases heq : a = o
      · rw [if_pos heq, heq]
        simp
      rw [if_neg heq]
      have hiff : rehomed root_dir o (a.drop o.length) = o ++ a.drop o.length ↔
          (a.drop o.length).head? ≠ some 47 :=
        rehomed_eq_iff hroot
      rwa [happend] at hiff

theorem changeWith_nil (hoption : Starts option) : changeWith option [] role a = a := by
  have hrehomed : ∀ o name : Arg, rehomed [] o name = o ++ name := by
    intro o name
    unfold rehomed
    split <;> simp
  cases role with
  | argument => exact hrehomed [] a
  | own =>
    simp only [changeWith]
    split
    · rfl
    rename_i o ho
    rw [hrehomed, append_drop (hoption a o ho)]
    split <;> rfl

theorem starts_includeOption : Starts includeOption := fun _ _ h => (includeOption_some h).2

theorem starts_longestOption : Starts longestOption := fun _ _ h => (longestOption_some h).2

/-! ## Where the two readings agree -/

theorem not_touched_before (h : withprefixbefore <+: a) : ¬ Touched includeOption .own a := by
  rintro ⟨o, ho, hslash⟩
  rw [includeOption_before h, Option.some_inj] at ho
  subst ho
  obtain ⟨name, rfl⟩ := h
  cases hslash

theorem touched_before_iff (h : withprefixbefore <+: a) :
    Touched longestOption .own a ↔ withprefixbefore ++ [47] <+: a := by
  simp only [Touched, longestOption_before h, Option.some_inj, exists_eq_left']
  obtain ⟨name, rfl⟩ := h
  rw [drop_left, prefix_append_right_inj]
  cases name with
  | nil => simp
  | cons c name => simp [cons_prefix_cons, eq_comm]

theorem not_touched_both {option' : Arg → Option Arg} (hoption : Starts option)
    (hmem : ∀ a o, option a = some o → o ∈ include_options) (h : Touched option .own a) :
    ¬ Touched option' .argument a := by
  obtain ⟨o, ho, _⟩ := h
  have hdash : ∀ o ∈ include_options, ∃ tail, o = 45 :: tail := by
    intro o ho
    have hhead := (by decide : ∀ o ∈ include_options, o.head? = some 45) o ho
    cases o with
    | nil => cases hhead
    | cons c tail => exact ⟨tail, by rw [Option.some_inj.mp hhead]⟩
  obtain ⟨tail, rfl⟩ := hdash o (hmem a o ho)
  obtain ⟨name, rfl⟩ := hoption a _ ho
  exact nofun

def ReadAlike (a : Arg) : Role → Role → Prop
  | .own, .own => ¬ withprefixbefore ++ [47] <+: a
  | .argument, .argument => True
  | role, role' => ¬ Touched includeOption role a ∧ ¬ Touched longestOption role' a

theorem changeWith_own_eq_iff (hroot : root_dir ≠ []) :
    changeWith includeOption root_dir .own a = changeWith longestOption root_dir .own a ↔
      ¬ withprefixbefore ++ [47] <+: a := by
  by_cases h : withprefixbefore <+: a
  · rw [(changeWith_eq_self_iff starts_includeOption hroot).mpr (not_touched_before h), eq_comm,
      changeWith_eq_self_iff starts_longestOption hroot, touched_before_iff h]
  · have hnot : ¬ withprefixbefore ++ [47] <+: a := fun hlong => h ((prefix_append _ _).trans hlong)
    simp only [changeWith, longestOption_other h, hnot, not_false_eq_true]

theorem eq_iff_of_changed {x y : Arg} {c d : Prop} (hx : x = a ↔ ¬ c) (hy : y = a ↔ ¬ d)
    (hone : c → ¬ d) : x = y ↔ ¬ c ∧ ¬ d := by
  constructor
  · intro heq
    subst heq
    by_cases hc : c
    · exact absurd hc (hx.mp (hy.mpr (hone hc)))
    · exact ⟨hc, hy.mp (hx.mpr hc)⟩
  · rintro ⟨hc, hd⟩
    rw [hx.mpr hc, hy.mpr hd]

theorem changeWith_eq_iff (hroot : root_dir ≠ []) {role' : Role} :
    changeWith includeOption root_dir role a = changeWith longestOption root_dir role' a ↔
      ReadAlike a role role' := by
  have hcode : changeWith includeOption root_dir role a = a ↔ ¬ Touched includeOption role a :=
    changeWith_eq_self_iff starts_includeOption hroot
  have hmeant : changeWith longestOption root_dir role' a = a ↔ ¬ Touched longestOption role' a :=
    changeWith_eq_self_iff starts_longestOption hroot
  cases role with
  | own =>
    cases role' with
    | own => exact changeWith_own_eq_iff hroot
    | argument =>
      apply eq_iff_of_changed hcode hmeant
      exact not_touched_both starts_includeOption fun _ _ h => (includeOption_some h).1
  | argument =>
    cases role' with
    | own =>
      apply eq_iff_of_changed hcode hmeant
      intro habs hjoined
      exact not_touched_both starts_longestOption (fun _ _ h => (longestOption_some h).1) hjoined habs
    | argument => exact iff_of_true rfl trivial

/-- The arguments of the include options are changed, with the longest option of each word, and no other
word is. -/
def Rehomes (root_dir : Arg) (argv : List Arg) : Prop :=
  tweak_include_arguments_for_server root_dir argv = .ok (rehomedWords longestOption root_dir argv)

/-- No option lacks its argument, and each word is read alike by the code and with the longest options:
the second is no matter for an empty root. -/
theorem rehomes_iff (root_dir : Arg) (argv : List Arg) : Rehomes root_dir argv ↔
    ¬ Dangles tweakTakes argv ∧ (root_dir = [] ∨
      ∀ (p : Nat) (a : Arg) (role role' : Role), argv[p]? = some a →
        (roles (takesWith includeOption) .own argv)[p]? = some role →
        (roles (takesWith longestOption) .own argv)[p]? = some role' → ReadAlike a role role') := by
  by_cases hdangles : Dangles tweakTakes argv
  · apply iff_of_false _ fun h => h.1 hdangles
    intro hclaim
    obtain ⟨fault, hfault⟩ := (tweak_faults_iff root_dir argv).mpr hdangles
    rw [Rehomes, hfault] at hclaim
    cases hclaim
  simp only [Rehomes, tweak_eq hdangles, hdangles, not_false_eq_true, true_and, Except.ok.injEq]
  rw [rehomedWords, rehomedWords, byRole_eq_iff]
  by_cases hroot : root_dir = []
  · subst hroot
    simp only [changeWith_nil starts_includeOption, changeWith_nil starts_longestOption, true_or,
      implies_true]
  · simp only [changeWith_eq_iff hroot, hroot, false_or]

/-- `gcc -iwithprefixbefore /x` -/
theorem rehomes_iwithprefixbefore : ¬ ∀ root_dir argv, Rehomes root_dir argv := by
  intro hclaim
  have h := hclaim (ascii "/tmp") [ascii "gcc", withprefixbefore, ascii "/x"]
  have hcode : tweak_include_arguments_for_server (ascii "/tmp")
      [ascii "gcc", withprefixbefore, ascii "/x"] =
      .ok [ascii "gcc", withprefixbefore, ascii "/x"] := rfl
  have hmeant : rehomedWords longestOption (ascii "/tmp") [ascii "gcc", withprefixbefore, ascii "/x"] =
      [ascii "gcc", withprefixbefore, ascii "/tmp/x"] := by
    decide
  cases h

end Walk
end Toolwhip.Distcc.TweakInclude
