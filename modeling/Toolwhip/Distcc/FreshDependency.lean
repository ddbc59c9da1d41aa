import Toolwhip.Lib.CNumber

/-! # Dependencies that are too young

`dcc_fresh_dependency_exists` of compile.c reads the names of a `.d` file and stats them one by one. What
fnmatch and stat say is a parameter; memory suffices, and the file does not change while it is read. -/

namespace Toolwhip.Distcc.FreshDependency
open Lib.CNumber List
set_option autoImplicit false

abbrev Text := List UInt8

/-! ## The source -/

inductive Ending where
  | returned (result : Option Text)
  /-- a write past `dep_name` -/
  | overrun
  deriving DecidableEq, Repr

/-- The names that were given to stat, and `*result`. -/
structure Checked where
  stats : List Text
  ending : Ending
  deriving DecidableEq, Repr

def Checked.nothing : Checked := ⟨[], .returned none⟩

def Checked.after (name : Text) (later : Checked) : Checked := ⟨name :: later.stats, later.ending⟩

/-- Skip whitespaces and backslashes. -/
def skipBlanks (s : Text) : Text := s.dropWhile fun c => isspace c || c == 92

/-- `dep_name`, whether the last `c` was EOF, and what has not been read. -/
structure Name where
  dep_name : Text
  ended : Bool
  rest : Text
  deriving DecidableEq, Repr

/-- The loop over the characters of a name, `none` when there is no room for one. After a backslash a
newline is skipped, and anything else is pushed back. -/
def readName (size : Nat) (dep_name : Text) : Text → Option Name
  | [] => some ⟨dep_name, true, []⟩
  | 92 :: 10 :: rest => if size ≤ dep_name.length then none else readName size dep_name rest
  | c :: rest =>
    if isspace c && c != 92 then some ⟨dep_name, false, rest⟩
    else if size ≤ dep_name.length then none
    else readName size (if c = 92 then dep_name else dep_name ++ [c]) rest

theorem readName_length {size : Nat} {dep_name s : Text} {n : Name}
    (h : readName size dep_name s = some n) :
    n.dep_name.length + n.rest.length ≤ dep_name.length + s.length ∧
      (n.ended = false → n.rest.length < s.length) ∧ (n.ended = true → n.rest = []) := by
  fun_induction readName size dep_name s with
  | case1 | case4 =>
    rw [Option.some.injEq] at h
    subst h
    simp
  | case2 | case5 => exact absurd h (by simp)
  | case3 dep_name rest hroom ih =>
    grind
  | case6 dep_name c rest _ hc hroom ih =>
    grind

theorem skipBlanks_length (s : Text) : (skipBlanks s).length ≤ s.length := length_dropWhile_le _ s

def cString (dep_name : Text) : Text := dep_name.takeWhile (· ≠ 0)

section Source
variable (excluded : Text → Bool) (st_ctime : Text → Option Int) (reference_time : Int)

def check (size : Nat) (rest : Text) : Checked :=
  match _h : readName size [] (skipBlanks rest) with
  | none => .nothing
  | some n =>
    let later := if _hn : n.ended then .nothing else check size n.rest
    if n.dep_name = [] then later
    else if size ≤ n.dep_name.length then ⟨[], .overrun⟩
    else if excluded (cString n.dep_name) then later
    else
      match st_ctime (cString n.dep_name) with
      | none => ⟨[cString n.dep_name], .returned none⟩
      | some t =>
        if reference_time ≤ t then ⟨[cString n.dep_name], .returned (some (cString n.dep_name))⟩
        else later.after (cString n.dep_name)
termination_by rest.length
decreasing_by
  have hread := (readName_length _h).2.1 (by simpa using _hn)
  exact hread.trans_le (skipBlanks_length rest)

structure Dotd where
  st_mtime : Int
  content : Text

/-- `none` is a file that cannot be read. -/
def dcc_fresh_dependency_exists (dotd : Option Dotd) : Checked :=
  match dotd with
  | none => .nothing
  | some stat_dotd =>
    if stat_dotd.st_mtime < reference_time then .nothing
    else
      match stat_dotd.content.dropWhile (· ≠ 58) with
      | [] => .nothing
      | _ :: rest => check excluded st_ctime reference_time stat_dotd.content.length rest

end Source

/-! ## The format -/

inductive Gap where
  | space | tab | continued
  deriving DecidableEq, Repr

def Gap.text : Gap → Text
  | space => [32]
  | tab => [9]
  | continued => [92, 10]

def Gap.blank (g : Gap) : Prop := g ≠ continued

def gapsText (gaps : List Gap) : Text := gaps.flatMap Gap.text

/-- A backslash before each blank -/
def escaped (name : Text) : Text := name.flatMap fun c => if c = 32 ∨ c = 9 then [92, c] else [c]

/-- A name with what is behind it -/
structure Dependency where
  name : Text
  gaps : List Gap
  nonempty : name ≠ []
  inLine : ∀ c ∈ name, c ≠ 10 ∧ c ≠ 0

def Dependency.text (d : Dependency) : Text := escaped d.name ++ gapsText d.gaps

/-- What gcc writes -/
structure DotdFormat where
  target : Text
  lead : List Gap
  dependencies : List Dependency
  newline : Bool
  oneColon : 58 ∉ target
  separated : ∀ d ∈ dependencies.dropLast, d.gaps ≠ []

def DotdFormat.text (f : DotdFormat) : Text :=
  f.target ++ 58 :: gapsText f.lead ++ f.dependencies.flatMap Dependency.text ++
    if f.newline then [10] else []

/-! ## Where the source reads it -/

section Reading
variable (excluded : Text → Bool) (st_ctime : Text → Option Int) (reference_time : Int)

def fresh (name : Text) : Bool := !excluded name && (st_ctime name).any (reference_time ≤ ·)

def plain (c : UInt8) : Bool := !isspace c && c != 92

/-- Up to the first fresh one the names are plain and separated by a blank, and what is not excluded can
be stat'ed. -/
def Readable : List Dependency → Prop
  | [] => True
  | d :: ds =>
    d.name.all plain ∧ (ds ≠ [] → ∃ g ∈ d.gaps, g.blank) ∧
      (fresh excluded st_ctime reference_time d.name = false →
        (excluded d.name = true ∨ (st_ctime d.name).isSome) ∧ Readable ds)

end Reading

/-! ## A name -/

section Names
variable {size : Nat} {dep_name name rest : Text} {gaps : List Gap} {c : UInt8}

theorem readName_cons (hc : plain c = true) (hroom : dep_name.length < size) :
    readName size dep_name (c :: rest) = readName size (dep_name ++ [c]) rest := by
  simp only [plain, Bool.and_eq_true, Bool.not_eq_true', bne_iff_ne] at hc
  rw [readName]
  · simp [hc.1, hc.2, hroom.not_ge]
  · rintro _ rfl
    exact absurd rfl hc.2

theorem readName_plain (hname : name.all plain = true) (hroom : dep_name.length + name.length ≤ size) :
    readName size dep_name (name ++ rest) = readName size (dep_name ++ name) rest := by
  induction name generalizing dep_name with
  | nil => simp
  | cons c name ih =>
    simp only [all_cons, Bool.and_eq_true] at hname
    simp only [length_cons] at hroom
    rw [cons_append, readName_cons hname.1 (by omega), ih hname.2 (by simp; omega)]
    simp

@[simp] theorem skipBlanks_gap (g : Gap) (rest : Text) :
    skipBlanks (g.text ++ rest) = skipBlanks rest := by
  cases g <;> simp [skipBlanks, Gap.text, isspace]

@[simp] theorem skipBlanks_gaps (gaps : List Gap) (rest : Text) :
    skipBlanks (gapsText gaps ++ rest) = skipBlanks rest := by
  induction gaps with
  | nil => rfl
  | cons g gaps ih => simpa [gapsText] using ih

theorem skipBlanks_name (hname : name.all plain = true) (hne : name ≠ []) :
    skipBlanks (name ++ rest) = name ++ rest := by
  obtain ⟨c, cs, rfl⟩ := exists_cons_of_ne_nil hne
  simp only [all_cons, plain, Bool.and_eq_true, Bool.not_eq_true', bne_iff_ne] at hname
  simp [skipBlanks, hname.1.1, hname.1.2]

theorem readName_gaps (hend : (∃ g ∈ gaps, g.blank) ∨ rest = [] ∨ rest = [10])
    (hroom : dep_name.length < size) :
    ∃ n, readName size dep_name (gapsText gaps ++ rest) = some n ∧ n.dep_name = dep_name ∧
      skipBlanks n.rest = skipBlanks rest := by
  induction gaps with
  | nil =>
    rcases hend with hblank | rfl | rfl
    · exact absurd hblank (by simp)
    · exact ⟨_, rfl, rfl, rfl⟩
    · exact ⟨_, rfl, rfl, rfl⟩
  | cons g gaps ih =>
    have hread : gapsText (g :: gaps) ++ rest = g.text ++ (gapsText gaps ++ rest) := by simp [gapsText]
    rw [hread]
    cases g with
    | space | tab => exact ⟨_, rfl, rfl, skipBlanks_gaps gaps rest⟩
    | continued =>
      have hlater : (∃ g ∈ gaps, g.blank) ∨ rest = [] ∨ rest = [10] := by
        rcases hend with ⟨g, hg, hb⟩ | hrest
        · rcases List.mem_cons.mp hg with rfl | hg
          · exact absurd rfl hb
          · exact Or.inl ⟨g, hg, hb⟩
        · exact Or.inr hrest
      have hskip : readName size dep_name (Gap.continued.text ++ (gapsText gaps ++ rest)) =
          readName size dep_name (gapsText gaps ++ rest) := by
        simp [Gap.text, readName, hroom.not_ge]
      rw [hskip]
      exact ih hlater

end Names

/-! ## The loop -/

section Check
variable {excluded : Text → Bool} {st_ctime : Text → Option Int} {reference_time : Int}
  {size : Nat} {rest : Text} {n : Name}

def consider (excluded : Text → Bool) (st_ctime : Text → Option Int) (reference_time : Int) (name : Text)
    (later : Checked) : Checked :=
  if excluded name then later
  else
    match st_ctime name with
    | none => ⟨[name], .returned none⟩
    | some t => if reference_time ≤ t then ⟨[name], .returned (some name)⟩ else later.after name

theorem check_read (h : readName size [] (skipBlanks rest) = some n) :
    check excluded st_ctime reference_time size rest =
      let later := if n.ended then .nothing else check excluded st_ctime reference_time size n.rest
      if n.dep_name = [] then later
      else if size ≤ n.dep_name.length then ⟨[], .overrun⟩
      else consider excluded st_ctime reference_time (cString n.dep_name) later := by
  rw [check]
  split
  · rename_i hnone
    rw [h] at hnone
    exact absurd hnone (by simp)
  rename_i m hm
  rw [h, Option.some.injEq] at hm
  subst hm
  simp [consider]

theorem check_none (h : readName size [] (skipBlanks rest) = none) :
    check excluded st_ctime reference_time size rest = .nothing := by
  rw [check]
  split
  · rfl
  rename_i hm
  rw [h] at hm
  exact absurd hm (by simp)

@[simp] theorem check_nil : check excluded st_ctime reference_time size [] = .nothing := by
  rw [check_read (n := ⟨[], true, []⟩) rfl]
  simp

theorem check_eq (h : readName size [] (skipBlanks rest) = some n) :
    check excluded st_ctime reference_time size rest =
      if n.dep_name = [] then check excluded st_ctime reference_time size n.rest
      else if size ≤ n.dep_name.length then ⟨[], .overrun⟩
      else consider excluded st_ctime reference_time (cString n.dep_name)
        (check excluded st_ctime reference_time size n.rest) := by
  have hlater : (if n.ended then .nothing else check excluded st_ctime reference_time size n.rest) =
      check excluded st_ctime reference_time size n.rest := by
    split
    · rename_i hended
      rw [(readName_length h).2.2 hended, check_nil]
    · rfl
  simp only [check_read h, hlater]

theorem check_skipBlanks {rest' : Text} (h : skipBlanks rest = skipBlanks rest') :
    check excluded st_ctime reference_time size rest =
      check excluded st_ctime reference_time size rest' := by
  rcases hread : readName size [] (skipBlanks rest) with - | n
  · rw [check_none hread, check_none (h ▸ hread)]
  have hread' : readName size [] (skipBlanks rest') = some n := h ▸ hread
  rw [check_eq hread, check_eq hread']

theorem consider_ending {name : Text} {later : Checked} (h : later.ending ≠ .overrun) :
    (consider excluded st_ctime reference_time name later).ending ≠ .overrun := by
  rw [consider]
  split
  · exact h
  split
  · simp
  split
  · simp
  · exact h

theorem check_ending (hsize : rest.length < size) :
    (check excluded st_ctime reference_time size rest).ending ≠ .overrun := by
  induction hlen : rest.length using Nat.strong_induction_on generalizing rest with
  | _ k ih =>
    rcases hread : readName size [] (skipBlanks rest) with - | n
    · rw [check_none hread]
      simp [Checked.nothing]
    have hlen := readName_length hread
    have hskip := skipBlanks_length rest
    have hlater : (check excluded st_ctime reference_time size n.rest).ending ≠ .overrun := by
      by_cases hended : n.ended = true
      · simp [hlen.2.2 hended, Checked.nothing]
      have hlt := hlen.2.1 (by simpa using hended)
      exact ih n.rest.length (by omega) (by omega) rfl
    rw [check_eq hread]
    simp only [length_nil] at hlen
    split
    · exact hlater
    rw [if_neg (by omega)]
    exact consider_ending hlater

theorem cString_eq {name : Text} (h : ∀ c ∈ name, c ≠ 10 ∧ c ≠ 0) : cString name = name :=
  takeWhile_eq_self_iff.mpr fun c hc => by simpa using (h c hc).2

theorem escaped_eq {name : Text} (h : name.all plain = true) : escaped name = name := by
  induction name with
  | nil => rfl
  | cons c name ih =>
    simp only [all_cons, Bool.and_eq_true] at h
    have hc : ¬ (c = 32 ∨ c = 9) := by
      rintro (rfl | rfl) <;> exact absurd h.1 (by decide)
    have hsplit : escaped (c :: name) = c :: escaped name := by simp [escaped, hc]
    rw [hsplit, ih h.2]

theorem check_dependency {d : Dependency} (hname : d.name.all plain = true)
    (hend : (∃ g ∈ d.gaps, g.blank) ∨ rest = [] ∨ rest = [10]) (hroom : d.name.length < size) :
    check excluded st_ctime reference_time size (d.text ++ rest) =
      consider excluded st_ctime reference_time d.name
        (check excluded st_ctime reference_time size rest) := by
  obtain ⟨n, hn, hdep, hrest⟩ := readName_gaps hend hroom
  have htext : d.text ++ rest = d.name ++ (gapsText d.gaps ++ rest) := by
    rw [Dependency.text, escaped_eq hname, append_assoc]
  have hread : readName size [] (skipBlanks (d.text ++ rest)) = some n := by
    rw [htext, skipBlanks_name hname d.nonempty, readName_plain hname (by simpa using hroom.le),
      nil_append, hn]
  rw [check_eq hread, hdep, if_neg d.nonempty, if_neg hroom.not_ge, cString_eq d.inLine,
    check_skipBlanks hrest]

theorem check_dependencies {ds : List Dependency} {newline : Bool}
    (hread : Readable excluded st_ctime reference_time ds)
    (hroom : (ds.flatMap Dependency.text).length < size) :
    let r := check excluded st_ctime reference_time size
      (ds.flatMap Dependency.text ++ if newline then [10] else [])
    r.ending = .returned ((ds.map Dependency.name).find? (fresh excluded st_ctime reference_time)) ∧
      ∀ name ∈ r.stats, name ∈ ds.map Dependency.name := by
  induction ds with
  | nil =>
    have hnil : check excluded st_ctime reference_time size (if newline then [10] else []) =
      .nothing := by
      have hskip : skipBlanks (if newline then [10] else []) = skipBlanks [] := by
        cases newline <;> rfl
      rw [check_skipBlanks hskip, check_nil]
    simp [hnil, Checked.nothing]
  | cons d ds ih =>
    obtain ⟨hname, hblank, hlater⟩ := hread
    have hdep : d.name.length < size := by
      simp only [flatMap_cons, length_append, Dependency.text, escaped_eq hname] at hroom
      omega
    have hend : (∃ g ∈ d.gaps, g.blank) ∨ ds.flatMap Dependency.text ++
      (if newline then [10] else []) = [] ∨
        ds.flatMap Dependency.text ++ (if newline then [10] else []) = [10] := by
      by_cases hds : ds = []
      · subst hds
        cases newline <;> simp
      · exact Or.inl (hblank hds)
    simp only [flatMap_cons, append_assoc, check_dependency hname hend hdep, map_cons, find?_cons]
    rw [consider]
    by_cases hfresh : fresh excluded st_ctime reference_time d.name = true
    · obtain ⟨hex, t, ht, hle⟩ : excluded d.name = false ∧ ∃ t, st_ctime d.name = some t ∧
        reference_time ≤ t := by
        simpa [fresh, Option.any_eq_true] using hfresh
      simp [hfresh, hex, ht, hle]
    obtain ⟨hstat, hds⟩ := hlater (by simpa using hfresh)
    have hih := ih hds (by simp only [flatMap_cons, length_append] at hroom; omega)
    by_cases hex : excluded d.name = true
    · simp only [hex, if_true, hfresh]
      exact ⟨hih.1, fun name hname => List.mem_cons_of_mem _ (hih.2 name hname)⟩
    obtain ⟨t, ht⟩ := Option.isSome_iff_exists.mp (hstat.resolve_left hex)
    have hold : ¬ reference_time ≤ t := by simpa [fresh, hex, ht] using hfresh
    simp only [hex, ht, hold, if_false, hfresh, Checked.after]
    refine ⟨hih.1, fun name hname => ?_⟩
    rcases List.mem_cons.mp hname with rfl | hname
    · exact mem_cons_self
    · exact List.mem_cons_of_mem _ (hih.2 name hname)

end Check

/-! ## The file -/

section File
variable (excluded : Text → Bool) (st_ctime : Text → Option Int) (reference_time st_mtime : Int)

theorem dcc_fresh_dependency_exists_ending (content : Text) :
    (dcc_fresh_dependency_exists excluded st_ctime reference_time (some ⟨st_mtime, content⟩)).ending ≠
      .overrun := by
  rw [dcc_fresh_dependency_exists]
  split
  · simp [Checked.nothing]
  split
  · simp [Checked.nothing]
  rename_i c rest hcolon
  -- the colon is in the file and in no name
  have hlen := length_dropWhile_le (fun c : UInt8 => decide (c ≠ 58)) content
  rw [hcolon] at hlen
  exact check_ending (Nat.lt_of_succ_le hlen)

theorem dcc_fresh_dependency_exists_format {f : DotdFormat} (hyoung : reference_time ≤ st_mtime) :
    dcc_fresh_dependency_exists excluded st_ctime reference_time (some ⟨st_mtime, f.text⟩) =
      check excluded st_ctime reference_time f.text.length
        (f.dependencies.flatMap Dependency.text ++ if f.newline then [10] else []) := by
  have htext : f.text = f.target ++ 58 :: (gapsText f.lead ++
      (f.dependencies.flatMap Dependency.text ++ if f.newline then [10] else [])) := by
    simp [DotdFormat.text]
  have hcolon : f.text.dropWhile (· ≠ 58) = 58 :: (gapsText f.lead ++
      (f.dependencies.flatMap Dependency.text ++ if f.newline then [10] else [])) := by
    rw [htext, dropWhile_append_of_pos]
    · simp
    · intro c hc
      have hne : c ≠ 58 := fun heq => f.oneColon (heq ▸ hc)
      simpa using hne
  simp only [dcc_fresh_dependency_exists, Int.not_lt.mpr hyoung, if_false, hcolon]
  exact check_skipBlanks (skipBlanks_gaps _ _)

/-- A `.d` file that is older than the reference time is not trusted. Otherwise the result is the first
dependency that is not excluded and not older. -/
theorem dcc_fresh_dependency_exists_finds :
    (∀ content, (dcc_fresh_dependency_exists excluded st_ctime reference_time
      (some ⟨st_mtime, content⟩)).ending ≠ .overrun) ∧
    (∀ content, st_mtime < reference_time →
      dcc_fresh_dependency_exists excluded st_ctime reference_time (some ⟨st_mtime, content⟩) =
        .nothing) ∧
    ∀ f : DotdFormat, reference_time ≤ st_mtime → Readable excluded st_ctime reference_time
      f.dependencies →
      let r := dcc_fresh_dependency_exists excluded st_ctime reference_time (some ⟨st_mtime, f.text⟩)
      r.ending = .returned ((f.dependencies.map Dependency.name).find?
        (fresh excluded st_ctime reference_time)) ∧
      ∀ name ∈ r.stats, name ∈ f.dependencies.map Dependency.name := by
  refine ⟨dcc_fresh_dependency_exists_ending _ _ _ _, fun content hold => ?_, fun f hyoung hread => ?_⟩
  · simp [dcc_fresh_dependency_exists, hold]
  · have hroom : (f.dependencies.flatMap Dependency.text).length < f.text.length := by
      simp only [DotdFormat.text, length_append, length_cons]
      omega
    rw [dcc_fresh_dependency_exists_format excluded st_ctime reference_time st_mtime hyoung]
    exact check_dependencies hread hroom

end File

def twoHeaders : DotdFormat where
  target := ascii "a.o"
  lead := [.space]
  dependencies :=
    [⟨ascii "b.h", [.space, .continued], by simp [ascii], by simp [ascii]⟩,
     ⟨ascii "c.h", [], by simp [ascii], by simp [ascii]⟩]
  newline := true
  oneColon := by decide
  separated := by decide

theorem twoHeaders_second :
    (dcc_fresh_dependency_exists (fun _ => false)
    (fun name => some (if name = ascii "c.h" then 9 else 1)) 5
      (some ⟨6, twoHeaders.text⟩)).ending = .returned (some (ascii "c.h")) := by
  have hread : Readable (fun _ => false) (fun name => some (if name = ascii "c.h" then 9 else 1)) 5
      twoHeaders.dependencies := by
    refine ⟨by decide, fun _ => ⟨.space, by decide, Gap.noConfusion⟩, fun _ =>
      ⟨Or.inr rfl, by decide, ?_, ?_⟩⟩
    · exact fun h => absurd rfl h
    · exact fun h => absurd h (by decide)
  exact ((dcc_fresh_dependency_exists_finds _ _ 5 6).2.2 twoHeaders (by decide) hread).1

/-- A dependency is younger than the reference time, and so is not found. -/
theorem old_dotd :
    (∃ d ∈ twoHeaders.dependencies, fresh (fun _ => false) (fun _ => some 7) 5 d.name = true) ∧
      dcc_fresh_dependency_exists (fun _ => false) (fun _ => some 7) 5 (some ⟨3, twoHeaders.text⟩) =
        .nothing := by
  refine ⟨⟨_, mem_cons_self, by decide⟩, ?_⟩
  simp [dcc_fresh_dependency_exists]

end Toolwhip.Distcc.FreshDependency
