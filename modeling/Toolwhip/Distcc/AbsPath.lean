import Mathlib.Data.List.DropRight
import Toolwhip.Lib.StepsBack
import Toolwhip.Lib.Substring

/-! # Absolute paths

`dcc_abspath` of util.c takes each `/../` out of its buffer together with the component before it,
whatever that is, and goes on from there. A name is the list of its bytes before the NUL. -/

namespace Toolwhip.Distcc.AbsPath
open Lib.StepsBack Lib.Substring List
set_option autoImplicit false

abbrev Text := List UInt8

def dotDot : Text := [46, 46]

/-- The component of a path that the claim counts: neither empty nor `.` nor `..` -/
def named (c : Text) : Bool := c ≠ [] && c ≠ [46] && c ≠ dotDot

def render (cs : List Text) : Text := cs.flatMap (47 :: ·)

/-- What is between the slashes of a path that begins with one -/
def components (path : Text) : List Text := (path.drop 1).splitOn 47

/-- The directory `getcwd` names. -/
structure WorkingDir where
  names : List Text
  all_named : ∀ c ∈ names, named c = true ∧ 47 ∉ c

/-- The root is the one path that ends in a slash. -/
def WorkingDir.components (cwd : WorkingDir) : List Text := if cwd.names = [] then [[]] else cwd.names

def WorkingDir.text (cwd : WorkingDir) : Text := render cwd.components

/-! ## The source -/

/-- What is before `strrchr(s, '/')` -/
def beforeLastSlash (s : Text) : Option Text :=
  if 47 ∈ s then some (s.rdropWhile (· ≠ 47)).dropLast else none

/-- The loop over `strstr(p, "/../")`; `p` is behind `before`, and stays where there is no slash to
cut at. -/
def dropDotDots (before rest : Text) : Text :=
  match _h : splitFirst [47, 46, 46, 47] rest with
  | none => before ++ rest
  | some (between, after) =>
    let cut := before ++ between
    dropDotDots ((beforeLastSlash cut).getD cut) (47 :: after)
termination_by rest.length
decreasing_by
  all_goals
    have heq := congrArg length (splitFirst_eq _h)
    simp only [length_append, length_cons, length_nil] at heq ⊢
    omega

/-- `path_len` as it is used, and whether a leading `./` is left out -/
def lengthOf (path : Text) (path_len : Int) : Nat :=
  if path_len ≤ 0 then path.length else path_len.toNat

def leadsHere (path : Text) (path_len : Int) : Bool :=
  2 ≤ lengthOf path path_len && path.take 2 == [46, 47]

/-- What `strncpy` copies. -/
def copied (path : Text) (path_len : Int) : Text :=
  if leadsHere path path_len then (path.drop 2).take (lengthOf path path_len - 2)
  else path.take (lengthOf path path_len)

def copiedLength (path : Text) (path_len : Int) : Nat :=
  if leadsHere path path_len then lengthOf path path_len - 2 else lengthOf path path_len

/-- `size` is MAXPATHLEN, and `none` is the exit when the name does not fit. -/
def dcc_abspath (size : Nat) (cwd : WorkingDir) (path : Text) (path_len : Int) : Option Text :=
  if path.head? = some 47 then
    if size ≤ copiedLength path path_len then none else some (dropDotDots [] (copied path path_len))
  else
    if size ≤ cwd.text.length + 1 + copiedLength path path_len then none
    else some (dropDotDots cwd.text (47 :: copied path path_len))

/-! ## What is meant -/

/-- The part of the path that is asked for, behind the working directory -/
def joined (cwd : WorkingDir) (path : Text) (path_len : Int) : Text :=
  let used := path.take (lengthOf path path_len)
  if path.head? = some 47 then used else cwd.text ++ 47 :: used

/-- Each `..` cancels the nearest component before it that is neither `.` nor empty. -/
def location (path : Text) : List Text := namedWalk dotDot named (components path)

/-- An absolute path for the same place, in which no `..` has a component to cancel. -/
structure Normal (path buf : Text) : Prop where
  absolute : buf.head? = some 47
  noPair : ∀ p q, components buf = p ++ dotDot :: q → namedWalk dotDot named p = []
  same : location buf = location path

def Resolves (size : Nat) (cwd : WorkingDir) (path : Text) (path_len : Int) : Prop :=
  ∃ buf, dcc_abspath size cwd path path_len = some buf ∧ Normal (joined cwd path path_len) buf

def filled (cwd : WorkingDir) (path : Text) (path_len : Int) : List Text :=
  if path.head? = some 47 then components (copied path path_len)
  else cwd.components ++ (copied path path_len).splitOn 47

def filledLength (cwd : WorkingDir) (path : Text) (path_len : Int) : Nat :=
  (if path.head? = some 47 then 0 else cwd.text.length + 1) + copiedLength path path_len

/-! ## Components -/

section Components
variable {c : Text} {cs S L : List Text}

@[simp] theorem render_nil : render [] = [] := rfl

@[simp] theorem render_cons : render (c :: cs) = 47 :: c ++ render cs := rfl

@[simp] theorem render_append : render (S ++ L) = render S ++ render L := flatMap_append

theorem render_components (t : Text) : render (t.splitOn 47) = 47 :: t := by
  have hjoin : ∀ l : List Text, l ≠ [] → render l = 47 :: [47].intercalate l := by
    intro l hl
    induction l with
    | nil => exact absurd rfl hl
    | cons c l ih =>
      cases l with
      | nil => simp
      | cons d l => rw [render_cons, ih (cons_ne_nil d l), intercalate_cons_cons]; simp
  rw [hjoin _ (splitOn_ne_nil 47 t), intercalate_splitOn]

theorem not_mem_splitOn {t : Text} (h : c ∈ t.splitOn 47) : 47 ∉ c := by
  induction t generalizing c with
  | nil =>
    rw [splitOn_nil, mem_singleton] at h
    simp [h]
  | cons b t ih =>
    rw [splitOn_cons_eq_if_modifyHead] at h
    split at h
    · rcases List.mem_cons.mp h with rfl | h
      · simp
      · exact ih h
    rename_i hb
    obtain ⟨d, l, hd⟩ := exists_cons_of_ne_nil (splitOn_ne_nil 47 t)
    rw [hd, modifyHead_cons] at h
    rcases List.mem_cons.mp h with rfl | h
    · have hd' := ih (hd ▸ mem_cons_self)
      simp only [List.mem_cons, not_or]
      exact ⟨fun heq => hb (by simp [heq]), hd'⟩
    · exact ih (hd ▸ mem_cons_of_mem d h)

theorem splitOn_render (hc : 47 ∉ c) (hL : ∀ c ∈ L, 47 ∉ c) :
    (c ++ render L).splitOn 47 = c :: L := by
  induction L generalizing c with
  | nil => simpa using splitOn_eq_singleton hc
  | cons d L ih =>
    obtain ⟨hd, hL⟩ := List.forall_mem_cons.mp hL
    rw [render_cons, cons_append, splitOn_append_cons_self, splitOn_eq_singleton hc, ih hd hL]
    rfl

theorem components_render (hne : L ≠ []) (hL : ∀ c ∈ L, 47 ∉ c) : components (render L) = L := by
  obtain ⟨c, L, rfl⟩ := exists_cons_of_ne_nil hne
  obtain ⟨hc, hL⟩ := List.forall_mem_cons.mp hL
  exact splitOn_render hc hL

theorem components_cons (t : Text) : components (47 :: t) = t.splitOn 47 := rfl

theorem named_iff : named c = true ↔ c ≠ [] ∧ c ≠ [46] ∧ c ≠ dotDot := by
  simp [named, and_assoc]

theorem WorkingDir.component (cwd : WorkingDir) (hc : c ∈ cwd.components) :
    47 ∉ c ∧ (c = [] ∨ named c = true) := by
  unfold components at hc
  split at hc
  · rw [mem_singleton.mp hc]
    exact ⟨not_mem_nil, Or.inl rfl⟩
  · exact ⟨(cwd.all_named c hc).2, Or.inr (cwd.all_named c hc).1⟩

theorem WorkingDir.dotDot_not_mem (cwd : WorkingDir) : dotDot ∉ cwd.components := by
  intro h
  rcases (cwd.component h).2 with hnil | hnamed
  · cases hnil
  · exact absurd rfl (named_iff.mp hnamed).2.2

/-! ## The loop, by components -/

theorem beforeLastSlash_render (hS : ∀ c ∈ S, 47 ∉ c) :
    (beforeLastSlash (render S)).getD (render S) = render S.dropLast := by
  rcases eq_nil_or_concat S with rfl | ⟨T, c, rfl⟩
  · rfl
  rw [concat_eq_append] at hS ⊢
  have hc : 47 ∉ c := hS c (by simp)
  have hlast : ((render T ++ [47]) ++ c).rdropWhile (· ≠ 47) = render T ++ [47] := by
    rw [rdropWhile, reverse_append, dropWhile_append_of_pos, reverse_append]
    · simp
    · intro b hb
      have hne : b ≠ 47 := by
        rintro rfl
        exact hc (mem_reverse.mp hb)
      simpa using hne
  have htext : render (T ++ [c]) = (render T ++ [47]) ++ c := by simp
  rw [beforeLastSlash, htext, if_pos (by simp), hlast, dropLast_concat, dropLast_concat]
  rfl

theorem splitFirst_skip (hc : 47 ∉ c) (rest : Text) : splitFirst [47, 46, 46, 47] (c ++ rest) =
    (splitFirst [47, 46, 46, 47] rest).map fun split => (c ++ split.1, split.2) := by
  induction c with
  | nil => simp
  | cons b c ih =>
    obtain ⟨hb, hc⟩ := not_or.mp (mt List.mem_cons.mpr hc)
    have hno : ([47, 46, 46, 47] : Text).isPrefixOf (b :: (c ++ rest)) = false := by
      simp [List.isPrefixOf, hb]
    rw [cons_append, splitFirst, hno, ih hc, if_neg (by simp), Option.map_map]
    rfl

theorem splitFirst_component (hc : 47 ∉ c) (h : c = dotDot → L = []) :
    splitFirst [47, 46, 46, 47] (render (c :: L)) =
      (splitFirst [47, 46, 46, 47] (render L)).map fun split => (47 :: c ++ split.1, split.2) := by
  have hno : ([47, 46, 46, 47] : Text).isPrefixOf (47 :: (c ++ render L)) = false := by
    rw [← Bool.not_eq_true]
    intro hprefix
    obtain ⟨t, ht⟩ := List.isPrefixOf_iff_prefix.mp hprefix
    have ht' : dotDot ++ 47 :: t = c ++ render L := (List.cons.inj ht).2
    cases L with
    | nil =>
      rw [render_nil, append_nil] at ht'
      exact hc (ht' ▸ by simp)
    | cons d L =>
      have hsplit := congrArg (List.splitOn 47) ht'
      rw [render_cons, cons_append, splitOn_append_cons_self, splitOn_append_cons_self,
        splitOn_eq_singleton hc, splitOn_eq_singleton (show 47 ∉ dotDot by decide)] at hsplit
      exact absurd (h (List.cons.inj hsplit).1.symm) (cons_ne_nil d L)
  rw [render_cons, cons_append, splitFirst, hno, splitFirst_skip hc, if_neg (by simp), Option.map_map]
  rfl

theorem splitFirst_dotDot (hne : L ≠ []) : ∃ after, render L = 47 :: after ∧
    splitFirst [47, 46, 46, 47] (render (dotDot :: L)) = some ([], after) := by
  obtain ⟨d, L, rfl⟩ := exists_cons_of_ne_nil hne
  exact ⟨d ++ render L, rfl, by simp [dotDot, splitFirst]⟩

theorem dropDotDots_none {before rest : Text} (h : splitFirst [47, 46, 46, 47] rest = none) :
    dropDotDots before rest = before ++ rest := by
  rw [dropDotDots]
  split
  · rfl
  · simp_all

theorem dropDotDots_some {before rest between after : Text}
    (h : splitFirst [47, 46, 46, 47] rest = some (between, after)) : dropDotDots before rest =
      dropDotDots ((beforeLastSlash (before ++ between)).getD (before ++ between)) (47 :: after) := by
  conv => lhs; rw [dropDotDots]
  split
  · simp_all
  rename_i heq
  rw [h] at heq
  cases heq
  rfl

theorem dropDotDots_skip {before between rest : Text} (h : splitFirst [47, 46, 46, 47] (between ++ rest) =
    (splitFirst [47, 46, 46, 47] rest).map fun split => (between ++ split.1, split.2)) :
    dropDotDots before (between ++ rest) = dropDotDots (before ++ between) rest := by
  cases hsplit : splitFirst [47, 46, 46, 47] rest with
  | none =>
    rw [hsplit] at h
    rw [dropDotDots_none hsplit, dropDotDots_none h, append_assoc]
  | some split =>
    rw [hsplit] at h
    rw [dropDotDots_some hsplit, dropDotDots_some h, append_assoc]

theorem dropDotDots_render (hne : L ≠ []) (hS : ∀ c ∈ S, 47 ∉ c) (hL : ∀ c ∈ L, 47 ∉ c) :
    dropDotDots (render S) (render L) =
      render (L.dropLast.foldl (advance dotDot) S ++ L.getLast?.toList) := by
  induction L generalizing S with
  | nil => exact absurd rfl hne
  | cons c L ih =>
    obtain ⟨hc, hrest⟩ := List.forall_mem_cons.mp hL
    by_cases hend : L = []
    · subst hend
      have hnone : splitFirst [47, 46, 46, 47] (render [c]) = none := by
        rw [splitFirst_component hc fun _ => rfl]
        rfl
      rw [dropDotDots_none hnone]
      simp
    · rw [dropLast_cons_of_ne_nil hend, foldl_cons, getLast?_cons_of_ne_nil hend]
      by_cases hback : c = dotDot
      · subst hback
        obtain ⟨after, hafter, hsplit⟩ := splitFirst_dotDot hend
        rw [dropDotDots_some hsplit, append_nil, beforeLastSlash_render hS, ← hafter, advance, if_pos rfl]
        exact ih hend (fun d hd => hS d (mem_of_mem_dropLast hd)) hrest
      have hS' : ∀ d ∈ S ++ [c], 47 ∉ d := by
        intro d hd
        rcases List.mem_append.mp hd with hd | hd
        · exact hS d hd
        · exact mem_singleton.mp hd ▸ hc
      have hskip : dropDotDots (render S) (render (c :: L)) =
          dropDotDots (render S ++ 47 :: c) (render L) :=
        dropDotDots_skip (splitFirst_component hc fun heq => absurd heq hback)
      have hpushed : render S ++ 47 :: c = render (S ++ [c]) := by simp
      rw [hskip, hpushed, advance, if_neg hback]
      exact ih hend hS' hrest

end Components

/-! ## The result -/

section Result
variable {size : Nat} {cwd : WorkingDir} {path buf : Text} {path_len : Int}

theorem take_absolute (path_len : Int) (h : path.head? = some 47) :
    ∃ t, path.take (lengthOf path path_len) = 47 :: t ∧ copied path path_len = 47 :: t ∧
      copiedLength path path_len = lengthOf path path_len := by
  obtain ⟨b, t, rfl⟩ : ∃ b t, path = b :: t := by
    cases path with
    | nil => cases h
    | cons b t => exact ⟨b, t, rfl⟩
  have hb : b = 47 := by simpa using h
  subst hb
  have hlead : leadsHere (47 :: t) path_len = false := by simp [leadsHere]
  obtain ⟨n, hn⟩ : ∃ n, lengthOf (47 :: t) path_len = n + 1 := by
    unfold lengthOf
    split
    · exact ⟨t.length, rfl⟩
    · exact ⟨path_len.toNat - 1, by omega⟩
  refine ⟨t.take n, by rw [hn, take_succ_cons], ?_, ?_⟩
  · rw [copied, hlead, if_neg (by simp), hn, take_succ_cons]
  · rw [copiedLength, hlead, if_neg (by simp)]

theorem filled_ne_nil : filled cwd path path_len ≠ [] := by
  unfold filled
  split
  · exact splitOn_ne_nil _ _
  · exact append_ne_nil_of_right_ne_nil _ (splitOn_ne_nil _ _)

theorem filled_component {c : Text} (hc : c ∈ filled cwd path path_len) : 47 ∉ c := by
  unfold filled at hc
  split at hc
  · exact not_mem_splitOn hc
  rcases List.mem_append.mp hc with hc | hc
  · exact (cwd.component hc).1
  · exact not_mem_splitOn hc

/-- What the code makes of the components it begins with. -/
def resolved (cs : List Text) : List Text := trail dotDot cs.dropLast ++ cs.getLast?.toList

theorem dcc_abspath_eq : dcc_abspath size cwd path path_len =
    if filledLength cwd path path_len < size then some (render (resolved (filled cwd path path_len)))
    else none := by
  unfold dcc_abspath filledLength
  by_cases habs : path.head? = some 47
  · obtain ⟨t, -, hcopied, -⟩ := take_absolute path_len habs
    have hloop := dropDotDots_render (S := []) (splitOn_ne_nil 47 t) (by simp) fun c => not_mem_splitOn
    rw [render_components, render_nil, ← hcopied] at hloop
    have hfilled : filled cwd path path_len = t.splitOn 47 := by
      rw [filled, if_pos habs, hcopied, components_cons]
    rw [if_pos habs, if_pos habs, hloop, hfilled, Nat.zero_add, resolved, trail]
    simp only [← Nat.not_lt, ite_not]
  · have hne := splitOn_ne_nil 47 (copied path path_len)
    have hloop := dropDotDots_render hne (fun c hc => (cwd.component hc).1) fun c => not_mem_splitOn
    rw [render_components] at hloop
    have hfilled : filled cwd path path_len = cwd.components ++
        (copied path path_len).splitOn 47 := if_neg habs
    have hwalk : trail dotDot (filled cwd path path_len).dropLast =
        ((copied path path_len).splitOn 47).dropLast.foldl (advance dotDot) cwd.components := by
      rw [hfilled, dropLast_append_of_ne_nil hne, trail_append_foldl, trail_of_not_mem cwd.dotDot_not_mem]
    have hlast : (filled cwd path path_len).getLast? = ((copied path path_len).splitOn 47).getLast? := by
      rw [hfilled, getLast?_append_of_ne_nil _ hne]
    rw [if_neg habs, if_neg habs, resolved, hwalk, hlast, WorkingDir.text, hloop]
    simp only [← Nat.not_lt, ite_not]

theorem namedWalk_copied (S : List Text) :
    namedWalk dotDot named (S ++ (path.take (lengthOf path path_len)).splitOn 47) =
      namedWalk dotDot named (S ++ (copied path path_len).splitOn 47) := by
  cases hlead : leadsHere path path_len with
  | false => rw [copied, hlead, if_neg (by simp)]
  | true =>
    obtain ⟨hlong, hhere⟩ : 2 ≤ lengthOf path path_len ∧ path.take 2 = [46, 47] := by
      simpa [leadsHere] using hlead
    have hpath : path = [46] ++ 47 :: path.drop 2 := by
      conv => lhs; rw [← take_append_drop 2 path, hhere]
      rfl
    obtain ⟨n, hn⟩ : ∃ n, lengthOf path path_len = n + 2 := ⟨_, (Nat.sub_add_cancel hlong).symm⟩
    have htake : path.take (n + 2) = [46] ++ 47 :: (path.drop 2).take n := by
      conv => lhs; rw [hpath]
      rfl
    rw [copied, hlead, if_pos rfl, hn, Nat.add_sub_cancel, htake, splitOn_append_cons_self,
      splitOn_eq_singleton (by decide), namedWalk, namedWalk, filter_append, filter_append, filter_append]
    rfl

theorem location_joined :
    location (joined cwd path path_len) = namedWalk dotDot named (filled cwd path path_len) := by
  unfold location joined filled
  by_cases habs : path.head? = some 47
  · obtain ⟨t, htake, hcopied, -⟩ := take_absolute path_len habs
    simp only [if_pos habs, htake, hcopied]
  simp only [if_neg habs]
  have hjoined : cwd.text ++ 47 :: path.take (lengthOf path path_len) =
      render (cwd.components ++ (path.take (lengthOf path path_len)).splitOn 47) := by
    rw [render_append, render_components]
    rfl
  rw [hjoined, components_render (append_ne_nil_of_right_ne_nil _ (splitOn_ne_nil _ _))]
  · exact namedWalk_copied _
  · intro c hc
    rcases List.mem_append.mp hc with hc | hc
    · exact (cwd.component hc).1
    · exact not_mem_splitOn hc

theorem normal_iff (cs : List Text) (hcs : cs ≠ []) (hslash : ∀ c ∈ cs, 47 ∉ c)
    (hpath : location path = namedWalk dotDot named cs) : Normal path (render (resolved cs)) ↔
      Recovers dotDot named cs.dropLast ∧
        (cs.getLast? = some dotDot → AtRoot dotDot named cs.dropLast) := by
  obtain ⟨c, hc⟩ : ∃ c, cs.getLast? = some c := ⟨_, getLast?_eq_some_getLast hcs⟩
  obtain ⟨p, rfl⟩ := getLast?_eq_some_iff.mp hc
  have hback : named dotDot = false := rfl
  have hnot : dotDot ∉ trail dotDot p := back_not_mem_trail
  have hmem : ∀ d ∈ trail dotDot p, 47 ∉ d := by
    intro d hd
    obtain ⟨s, t, hsplit⟩ := append_of_mem hd
    obtain ⟨a, b, hp, -⟩ := trail_eq_iff.mp hsplit
    exact hslash d (by simp [hp])
  have hcomponents : components (render (trail dotDot p ++ [c])) = trail dotDot p ++ [c] := by
    apply components_render (by simp)
    intro d hd
    rcases List.mem_append.mp hd with hd | hd
    · exact hmem d hd
    · exact hslash d (by simp [mem_singleton.mp hd])
  rw [resolved, hc, dropLast_concat, Option.toList_some, Option.some.injEq]
  have hsame : location (render (trail dotDot p ++ [c])) = location path ↔
      namedWalk dotDot named (trail dotDot p ++ [c]) = namedWalk dotDot named (p ++ [c]) := by
    rw [location, hcomponents, hpath]
  have habsolute : (render (trail dotDot p ++ [c])).head? = some 47 := by
    cases trail dotDot p <;> rfl
  by_cases hdd : c = dotDot
  · subst hdd
    constructor
    · intro h
      have hnil := h.noPair (trail dotDot p) [] hcomponents
      rw [namedWalk_of_not_mem hnot] at hnil
      have hroot := (atRoot_iff hback).mpr hnil
      exact ⟨hroot.recovers hback, fun _ => hroot⟩
    · rintro ⟨-, hroot⟩
      have hnil := (atRoot_iff hback).mp (hroot rfl)
      rw [← namedWalk_of_not_mem hnot] at hnil
      refine ⟨habsolute, ?_, ?_⟩
      · intro p' q' hsplit
        rw [hcomponents] at hsplit
        rcases eq_nil_or_concat q' with rfl | ⟨q, d, rfl⟩
        · rw [← append_cancel_right hsplit, hnil]
        rw [concat_eq_append, ← cons_append, ← append_assoc] at hsplit
        obtain ⟨hwalk, -⟩ := append_inj' hsplit rfl
        exact absurd (by simp [hwalk]) hnot
      · rw [hsame, namedWalk_concat_back, namedWalk_concat_back, hnil, (hroot rfl).namedWalk_eq hback]
  · have hiff : Normal path (render (trail dotDot p ++ [c])) ↔
        location (render (trail dotDot p ++ [c])) = location path := by
      refine ⟨Normal.same, fun h => ⟨habsolute, ?_, h⟩⟩
      intro p' q' hsplit
      rw [hcomponents] at hsplit
      have hin : dotDot ∈ trail dotDot p ++ [c] := by simp [hsplit]
      rcases List.mem_append.mp hin with hin | hin
      · exact absurd hin hnot
      · exact absurd (mem_singleton.mp hin).symm hdd
    rw [hiff, hsame, namedWalk_concat hdd, namedWalk_concat hdd, append_left_inj,
      namedWalk_of_not_mem hnot,
      filter_trail_eq_iff hback]
    simp [hdd]

/-- `dcc_abspath` is right just when the name fits, every misplaced `..` is made good by a return to the
root, and where the name ends in `..` nothing is left before it. -/
theorem dcc_abspath_iff (size : Nat) (cwd : WorkingDir) (path : Text) (path_len : Int) :
    Resolves size cwd path path_len ↔ filledLength cwd path path_len < size ∧
      Recovers dotDot named (filled cwd path path_len).dropLast ∧
      ((filled cwd path path_len).getLast? = some dotDot →
        AtRoot dotDot named (filled cwd path path_len).dropLast) := by
  rw [Resolves, dcc_abspath_eq]
  split
  · rename_i hfits
    simp only [Option.some.injEq, exists_eq_left', hfits, true_and]
    exact normal_iff _ filled_ne_nil (fun c => filled_component) location_joined
  · rename_i hfits
    simp [hfits]

/-- What was resolved stays as it is, from wherever it is resolved again. -/
theorem dcc_abspath_again {size' : Nat} (cwd' : WorkingDir) (hfits : buf.length < size')
    (h : dcc_abspath size cwd path path_len = some buf) : dcc_abspath size' cwd' buf 0 = some buf := by
  rw [dcc_abspath_eq, Option.ite_none_right_eq_some] at h
  obtain ⟨-, ⟨⟩⟩ := h
  obtain ⟨p, c, hcs⟩ := (eq_nil_or_concat' (filled cwd path path_len)).resolve_left filled_ne_nil
  have hslash : ∀ d ∈ p ++ [c], 47 ∉ d := fun d hd => filled_component (hcs ▸ hd)
  rw [hcs, resolved, dropLast_concat, getLast?_concat, Option.toList_some] at hfits ⊢
  have hmem : ∀ d ∈ trail dotDot p ++ [c], 47 ∉ d := by
    intro d hd
    rcases List.mem_append.mp hd with hd | hd
    · obtain ⟨s, t, hsplit⟩ := append_of_mem hd
      obtain ⟨a, b, rfl, -⟩ := trail_eq_iff.mp hsplit
      exact hslash d (by simp)
    · exact hslash d (List.mem_append_right _ hd)
  have habs : (render (trail dotDot p ++ [c])).head? = some 47 := by
    cases trail dotDot p <;> rfl
  have hagain : resolved (trail dotDot p ++ [c]) = trail dotDot p ++ [c] := by
    simp [resolved, trail_of_not_mem back_not_mem_trail]
  have hcomponents := components_render (by simp) hmem
  generalize trail dotDot p ++ [c] = L at *
  obtain ⟨t, htake, hcopied, hlength⟩ := take_absolute 0 habs
  have hwhole : copied (render L) 0 = render L := hcopied.trans (htake.symm.trans take_length)
  rw [dcc_abspath_eq, filled, filledLength, if_pos habs, if_pos habs, hwhole, hcomponents, hagain,
    hlength,
    Nat.zero_add]
  exact if_pos hfits

end Result

def root : WorkingDir := ⟨[], by simp⟩

theorem root_again : dcc_abspath 9 root [47, 97] 0 = some [47, 97] := by
  have h : dcc_abspath 9 root [47, 46, 46, 47, 97] 0 = some [47, 97] := by
    rw [dcc_abspath_eq]
    decide
  exact dcc_abspath_again root (by decide) h

/-- `/a/./../b` becomes `/a/b`, and `/a/..` stays. -/
theorem dot_cancelled : ¬ Resolves 4096 root [47, 97, 47, 46, 47, 46, 46, 47, 98] 0 ∧
    ¬ Resolves 4096 root [47, 97, 47, 46, 46] 0 := by
  constructor
  · rintro ⟨buf, hbuf, hnormal⟩
    rw [dcc_abspath_eq, if_pos (by decide), Option.some.injEq] at hbuf
    exact absurd hnormal.same (by rw [← hbuf]; decide)
  · rintro ⟨buf, hbuf, hnormal⟩
    rw [dcc_abspath_eq, if_pos (by decide), Option.some.injEq] at hbuf
    exact absurd (hnormal.noPair [[97]] [] (by rw [← hbuf]; decide)) (by decide)

end Toolwhip.Distcc.AbsPath
