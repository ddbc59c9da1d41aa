import Toolwhip.Distcc.ArgScan
import Toolwhip.Lib.OptionWalk

/-! # Walks over an argument vector

Three loops go over a vector up to its null pointer, and step over the argument of an option: the scan,
the search for the name of the dependency file, and the one that puts include directories below the
root of the server. Here with what they read of the vector. -/

namespace Toolwhip.Distcc
open Lib.CNumber Lib.OptionWalk List
set_option autoImplicit false

inductive WalkFault where
  | pastEnd
  | nullString
  deriving DecidableEq, Repr

section Scan
variable (remote : RemoteAssemble)

/-- `scanWords` with its faults. The trace after GOT_OUTPUT prints the string. -/
def scanWalk (i : Nat) (argv : List Arg) (seen : Seen) : Except WalkFault (Except Failure Seen) :=
  match argv with
  | [] => .ok (.ok seen)
  | a :: rest =>
    if kind remote a = .opt_o ∧ rest = [] then .error .nullString
    else
      match lookAt i (kind remote a) rest.head? seen with
      | .error e => .ok (.error e)
      | .ok seen =>
        if (kind remote a).takesNext then
          match rest with
          | [] => .error .pastEnd
          | _ :: rest => scanWalk (i + 2) rest seen
        else scanWalk (i + 1) rest seen

/-- `dcc_scan_args` reads nothing of the vector after the loop. -/
def scanChecked (argv : List Arg) : Except WalkFault (Except Failure Scan) :=
  if (argv.headD []).head? = some 45 then .ok (dcc_scan_args remote argv)
  else
    match scanWalk remote 0 argv {} with
    | .error fault => .error fault
    | .ok _ => .ok (dcc_scan_args remote argv)

end Scan

section Dotd

structure DotdSeen where
  deps_output : Option Arg := none
  needs_dotd : Bool := false
  sets_dotd_target : Bool := false
  has_dash_o : Bool := false
  deriving DecidableEq, Repr

def dotdTakes (a : Arg) : Bool := a == ascii "-MT" || a == ascii "-MQ" || a == ascii "-MF"

/-- What a word changes; `next` is the word after it. -/
def dotdWord (a : Arg) (next : Option Arg) (seen : DotdSeen) : DotdSeen :=
  if a = ascii "-MT" ∨ a = ascii "-MQ" then { seen with sets_dotd_target := true }
  else
    let seen := if str_startswith (ascii "-M") a then { seen with needs_dotd := true } else seen
    if a = ascii "-MF" then { seen with deps_output := next }
    else if str_startswith (ascii "-MF") a then { seen with deps_output := some (a.drop 3) }
    else if a = ascii "-o" then { seen with has_dash_o := true }
    else seen

def dotdWalk : List Arg → DotdSeen → Except WalkFault DotdSeen
  | [], seen => .ok seen
  | a :: rest, seen =>
    if dotdTakes a then
      match rest with
      | [] => .error .pastEnd
      | next :: rest => dotdWalk rest (dotdWord a (some next) seen)
    else dotdWalk rest (dotdWord a rest.head? seen)

structure DotdInfo where
  dotd_fname : Arg
  needs_dotd : Bool
  sets_dotd_target : Bool
  dotd_target : Option Arg
  deriving DecidableEq, Repr

/-- The name with the suffix of a dependency file. The last character of an empty one is read from
before its start. -/
def dotdName (fname : Arg) : Except Failure Arg :=
  match dcc_find_extension fname with
  | some dot => .ok (fname.take (fname.length - dot.length) ++ ascii ".d")
  | none =>
    match fname.getLast? with
    | none => .error .undefined
    | some c => .ok (if c = 46 then fname ++ ascii "d" else fname ++ ascii ".d")

variable (remote : RemoteAssemble)

/-- `env_var` is DEPENDENCIES_OUTPUT. -/
def dcc_get_dotd_info (env_var : Option Arg) (argv : List Arg) :
    Except WalkFault (Except Failure DotdInfo) := do
  let seen ← dotdWalk argv { needs_dotd := env_var.isSome }
  match seen.deps_output with
  | some deps_output =>
    .ok (.ok ⟨deps_output, seen.needs_dotd, seen.sets_dotd_target, none⟩)
  | none =>
    match env_var with
    | some deps_output =>
      let fname := deps_output.takeWhile (· ≠ 32)
      let target := if deps_output.contains 32 then some (deps_output.drop (fname.length + 1)) else none
      .ok (.ok ⟨fname, seen.needs_dotd, seen.sets_dotd_target, target⟩)
    | none =>
      match scanChecked remote argv with
      | .error fault => .error fault
      | .ok (.error e) => .ok (.error e)
      | .ok (.ok scan) =>
        .ok ((dotdName (if seen.has_dash_o then scan.output_file else scan.input_file)).map fun fname =>
          ⟨fname, seen.needs_dotd, seen.sets_dotd_target, none⟩)

end Dotd

section Tweak

def include_options : List Arg :=
  ["-I", "-F", "-include", "-imacros", "-idirafter", "-iframework", "-iprefix", "-iwithprefix",
    "-iwithprefixbefore", "-isystem", "-iquote"].map ascii

def includeOption (a : Arg) : Option Arg := include_options.find? fun o => str_startswith o a

def rehomed (root_dir include_option name : Arg) : Arg :=
  if name.head? = some 47 then include_option ++ root_dir ++ name else include_option ++ name

def tweak_include_arguments_for_server (root_dir : Arg) : List Arg → Except WalkFault (List Arg)
  | [] => .ok []
  | a :: rest =>
    match includeOption a with
    | none => (tweak_include_arguments_for_server root_dir rest).map (a :: ·)
    | some o =>
      if a = o then
        match rest with
        | [] => .error .pastEnd
        | x :: rest =>
          (tweak_include_arguments_for_server root_dir rest).map fun tail =>
            a :: rehomed root_dir [] x :: tail
      else
        (tweak_include_arguments_for_server root_dir rest).map
          (rehomed root_dir o (a.drop o.length) :: ·)

def tweakTakes (a : Arg) : Bool := includeOption a == some a

end Tweak

section Faults
variable {remote : RemoteAssemble}

theorem dotdWalk_faults_iff (argv : List Arg) (seen : DotdSeen) :
    (∃ fault, dotdWalk argv seen = .error fault) ↔ Dangles dotdTakes argv := by
  induction argv using walk_induction dotdTakes generalizing seen with
  | nil => exact iff_of_false nofun not_dangles_nil
  | word a rest h ih =>
    rw [dangles_word h, dotdWalk.eq_def]
    simp only [h, Bool.false_eq_true, if_false]
    exact ih _
  | taking a x rest h ih =>
    rw [dangles_taking h, dotdWalk.eq_def]
    simp only [h, if_true]
    exact ih _
  | last a h =>
    refine iff_of_true ⟨.pastEnd, ?_⟩ (dangles_last h)
    rw [dotdWalk.eq_def]
    simp only [h, if_true]

theorem exists_map_error_iff {ε α β : Type} {x : Except ε α} {f : α → β} :
    (∃ e, x.map f = .error e) ↔ ∃ e, x = .error e := by
  cases x with
  | error e => simp [Except.map]
  | ok a => simp [Except.map]

theorem tweakTakes_eq_true {a : Arg} : tweakTakes a = true ↔ includeOption a = some a := by
  rw [tweakTakes, beq_iff_eq]

theorem tweak_faults_iff (root_dir : Arg) (argv : List Arg) :
    (∃ fault, tweak_include_arguments_for_server root_dir argv = .error fault) ↔
      Dangles tweakTakes argv := by
  induction argv using walk_induction tweakTakes with
  | nil => exact iff_of_false nofun not_dangles_nil
  | word a rest h ih =>
    rw [dangles_word h, ← ih, tweak_include_arguments_for_server.eq_def]
    simp only
    split
    · exact exists_map_error_iff
    rename_i o ho
    have hne : a ≠ o := by
      rintro rfl
      rw [tweakTakes_eq_true.mpr ho] at h
      cases h
    rw [if_neg hne]
    exact exists_map_error_iff
  | taking a x rest h ih =>
    rw [dangles_taking h, ← ih, tweak_include_arguments_for_server.eq_def]
    simp only [tweakTakes_eq_true.mp h, if_true]
    exact exists_map_error_iff
  | last a h =>
    refine iff_of_true ⟨.pastEnd, ?_⟩ (dangles_last h)
    rw [tweak_include_arguments_for_server.eq_def]
    simp only [tweakTakes_eq_true.mp h, if_true]

/-! ### The scan gives up -/

abbrev OptionWord := Arg × Option Arg

def scanTakes (remote : RemoteAssemble) (a : Arg) : Bool := (kind remote a).takesNext

def HasKind (remote : RemoteAssemble) (words : List OptionWord) (k : Kind) : Prop :=
  ∃ w ∈ words, kind remote w.1 = k

def HasOutput (remote : RemoteAssemble) (words : List OptionWord) : Prop :=
  ∃ w ∈ words, (kind remote w.1).givesOutput = true

/-- The scan gives up at a word, for itself or for what is before it. -/
def Refuses (remote : RemoteAssemble) (before : List OptionWord) (w : OptionWord) : Prop :=
  match kind remote w.1 with
  | .refused => True
  | .opt_x =>
    w.2.bind dcc_optx_ext_lookup = none ∨ HasKind remote before .source ∨ HasKind remote before .opt_x
  | .opt_o | .joined | .object => HasOutput remote before
  | .source => HasKind remote before .source
  | _ => False

/-- What the scan has seen is in the words. -/
structure Tracks (remote : RemoteAssemble) (before : List OptionWord) (seen : Seen) : Prop where
  input : seen.input.isSome = true ↔ HasKind remote before .source
  output : seen.output.isSome = true ↔ HasOutput remote before
  optx_ext : seen.optx_ext.isSome = true ↔ HasKind remote before .opt_x

theorem tracks_nil : Tracks remote [] {} := by
  constructor <;> simp [HasKind, HasOutput]

variable {w : OptionWord} {k : Kind}

theorem hasKind_concat {before : List OptionWord} :
    HasKind remote (before ++ [w]) k ↔ HasKind remote before k ∨ kind remote w.1 = k := by
  simp only [HasKind, mem_append, mem_singleton, or_and_right, exists_or, exists_eq_left]

theorem hasOutput_concat {before : List OptionWord} : HasOutput remote (before ++ [w]) ↔
      HasOutput remote before ∨ (kind remote w.1).givesOutput = true := by
  simp only [HasOutput, mem_append, mem_singleton, or_and_right, exists_or, exists_eq_left]

variable {before : List OptionWord} {seen seen' : Seen} {a : Arg} {x : Option Arg} {i : Nat}

theorem giveUp_if_iff {α : Type} {c : Prop} [Decidable c] {r : Except Failure α} :
    (∃ e, (if c then giveUp else r) = .error e) ↔ c ∨ ∃ e, r = .error e := by
  split
  · rename_i hc
    exact iff_of_true ⟨_, rfl⟩ (Or.inl hc)
  · rename_i hc
    exact (or_iff_right hc).symm

theorem gotOutput_refuses {place : Place} (h : Tracks remote before seen) :
    (∃ e, gotOutput place seen = .error e) ↔ HasOutput remote before := by
  rw [gotOutput, giveUp_if_iff, h.output]
  simp

theorem lookAt_refuses (h : Tracks remote before seen) :
    (∃ e, lookAt i (kind remote a) x seen = .error e) ↔ Refuses remote before (a, x) := by
  unfold Refuses
  cases hk : kind remote a with
  | refused => exact iff_of_true ⟨_, rfl⟩ trivial
  | plain | withArgument | opt_c | opt_S => exact iff_of_false nofun id
  | opt_o | joined | object => exact gotOutput_refuses h
  | source =>
    simp only [lookAt]
    rw [giveUp_if_iff, h.input]
    simp
  | opt_x =>
    cases x with
    | none => exact iff_of_true ⟨_, rfl⟩ (Or.inl rfl)
    | some lang =>
      have hnone : lang = [] → dcc_optx_ext_lookup lang = none := by
        rintro rfl
        rfl
      simp only [lookAt, Option.bind_some]
      rw [giveUp_if_iff, giveUp_if_iff, giveUp_if_iff, h.input, h.optx_ext]
      cases hlookup : dcc_optx_ext_lookup lang with
      | none => simp [giveUp]
      | some ext =>
        have hne : lang ≠ [] := by
          intro hlang
          rw [hnone hlang] at hlookup
          cases hlookup
        simp [hne]

theorem lookAt_optx_ext (h : lookAt i k x seen = .ok seen') :
    (k = .opt_x ∧ seen'.optx_ext.isSome = true) ∨ (k ≠ .opt_x ∧ seen'.optx_ext = seen.optx_ext) := by
  cases k with
  | opt_x =>
    obtain ⟨ext, rfl⟩ := lookAt_opt_x h
    exact Or.inl ⟨rfl, rfl⟩
  | refused => cases h
  | opt_o | joined | object =>
    obtain ⟨_, rfl⟩ := gotOutput_ok.mp h
    exact Or.inr ⟨by simp, rfl⟩
  | source =>
    obtain ⟨_, rfl⟩ := lookAt_source.mp h
    exact Or.inr ⟨by simp, rfl⟩
  | plain | withArgument | opt_c | opt_S =>
    rw [← Except.ok.inj h]
    exact Or.inr ⟨by simp, rfl⟩

theorem lookAt_tracks (h : Tracks remote before seen)
    (hlook : lookAt i (kind remote a) x seen = .ok seen') :
    Tracks remote (before ++ [(a, x)]) seen' := by
  constructor
  · rw [hasKind_concat]
    rcases lookAt_input hlook with ⟨hk, _, rfl⟩ | ⟨hk, heq⟩
    · exact iff_of_true rfl (Or.inr hk)
    rw [heq, h.input]
    exact (or_iff_left hk).symm
  · rw [hasOutput_concat]
    rcases lookAt_output hlook with ⟨hk, _, rfl⟩ | ⟨hk, heq⟩
    · exact iff_of_true rfl (Or.inr hk)
    rw [heq, h.output]
    simp [hk]
  · rw [hasKind_concat]
    rcases lookAt_optx_ext hlook with ⟨hk, hsome⟩ | ⟨hk, heq⟩
    · exact iff_of_true hsome (Or.inr hk)
    rw [heq, h.optx_ext]
    exact (or_iff_left hk).symm

/-! ### The scan faults -/

def Kind.trusting : Kind → Prop
  | .withArgument | .opt_o => True
  | _ => False

def FaultsAfter (remote : RemoteAssemble) (before words : List OptionWord) : Prop :=
  ∃ mid a, words = mid ++ [(a, none)] ∧ (kind remote a).trusting ∧
    ∀ pre w post, mid = pre ++ w :: post → ¬ Refuses remote (before ++ pre) w

theorem faultsAfter_nil : ¬ FaultsAfter remote before [] := by
  rintro ⟨mid, a, h, _⟩
  simp at h

theorem faultsAfter_cons {words : List OptionWord} : FaultsAfter remote before (w :: words) ↔
      (words = [] ∧ w.2 = none ∧ (kind remote w.1).trusting) ∨
        ¬ Refuses remote before w ∧ FaultsAfter remote (before ++ [w]) words := by
  constructor
  · rintro ⟨mid, a, heq, hk, hgoes⟩
    cases mid with
    | nil =>
      cases heq
      exact Or.inl ⟨rfl, rfl, hk⟩
    | cons v mid =>
      cases heq
      refine Or.inr ⟨?_, mid, a, rfl, hk, ?_⟩
      · have := hgoes [] _ mid rfl
        rwa [append_nil] at this
      · intro pre u post hmid
        rw [append_assoc]
        exact hgoes (_ :: pre) u post (by rw [hmid]; rfl)
  · rintro (⟨rfl, hnone, hk⟩ | ⟨hrefuses, mid, a, rfl, hk, hgoes⟩)
    · refine ⟨[], w.1, ?_, hk, ?_⟩
      · rw [← hnone]
        rfl
      · intro pre v post h
        simp at h
    · refine ⟨w :: mid, a, rfl, hk, ?_⟩
      intro pre v post heq
      cases pre with
      | nil =>
        cases heq
        rwa [append_nil]
      | cons u pre =>
        cases heq
        have := hgoes pre v post rfl
        rwa [append_assoc] at this

theorem trusting_takesNext (h : k.trusting) : k.takesNext = true := by
  cases k <;> first | rfl | cases h

theorem scanWalk_faults_iff (argv : List Arg) (h : Tracks remote before seen) :
    (∃ fault, scanWalk remote i argv seen = .error fault) ↔
      FaultsAfter remote before (units (scanTakes remote) argv) := by
  induction argv using walk_induction (scanTakes remote) generalizing i seen before with
  | nil => exact iff_of_false nofun faultsAfter_nil
  | word a rest htakes ih =>
    have hnot : ¬ (kind remote a).trusting := by
      intro hk
      have := trusting_takesNext hk
      rw [scanTakes, this] at htakes
      cases htakes
    have hopt : ¬ (kind remote a = .opt_o ∧ rest = []) := by
      rintro ⟨hk, _⟩
      rw [hk] at hnot
      exact hnot trivial
    rw [units_word htakes, faultsAfter_cons, scanWalk.eq_def]
    simp only [hnot, and_false, false_or]
    rw [if_neg hopt, lookAt_next htakes none, ← lookAt_refuses (i := i) (x := none) h]
    unfold scanTakes at htakes
    cases hlook : lookAt i (kind remote a) none seen with
    | error e => simp
    | ok seen' =>
      simp only [htakes, Bool.false_eq_true, if_false]
      rw [ih (lookAt_tracks h hlook)]
      simp
  | taking a x rest htakes ih =>
    rw [units_taking htakes, faultsAfter_cons, scanWalk.eq_def]
    simp only [reduceCtorEq, false_and, and_false, false_or, if_false]
    rw [← lookAt_refuses (i := i) (x := some x) h]
    unfold scanTakes at htakes
    simp only [head?_cons]
    cases hlook : lookAt i (kind remote a) (some x) seen with
    | error e => simp
    | ok seen' =>
      simp only [htakes, if_true]
      rw [ih (lookAt_tracks h hlook)]
      simp
  | last a htakes =>
    unfold scanTakes at htakes
    have hunits : units (scanTakes remote) [a] = [(a, none)] := rfl
    rw [hunits, faultsAfter_cons, scanWalk.eq_def]
    have hend : ¬ FaultsAfter remote (before ++ [(a, none)]) [] := faultsAfter_nil
    simp only [hend, and_false, or_false]
    cases hk : kind remote a with
    | opt_o =>
      simp [Kind.trusting]
    | withArgument =>
      simp [Kind.trusting, lookAt, Kind.takesNext]
    | opt_x => simp [Kind.trusting, lookAt, giveUp]
    | _ =>
      rw [hk] at htakes
      cases htakes

end Faults

section Walks
variable {remote : RemoteAssemble} {env_var : Option Arg} {argv : List Arg}

def ScanFaults (remote : RemoteAssemble) (argv : List Arg) : Prop :=
  (argv.headD []).head? ≠ some 45 ∧ FaultsAfter remote [] (units (scanTakes remote) argv)

theorem scanChecked_faults_iff :
    (∃ fault, scanChecked remote argv = .error fault) ↔ ScanFaults remote argv := by
  unfold scanChecked ScanFaults
  rw [← scanWalk_faults_iff (i := 0) argv tracks_nil]
  split
  · rename_i hdash
    exact iff_of_false nofun fun h => h.1 hdash
  rename_i hdash
  cases scanWalk remote 0 argv {} with
  | error fault => exact iff_of_true ⟨fault, rfl⟩ ⟨hdash, fault, rfl⟩
  | ok r => exact iff_of_false nofun fun h => nomatch h.2

theorem dotd_faults (h : ∃ fault, dcc_get_dotd_info remote env_var argv = .error fault) :
    Dangles dotdTakes argv ∨ ScanFaults remote argv := by
  rw [← dotdWalk_faults_iff argv { needs_dotd := env_var.isSome }, ← scanChecked_faults_iff]
  obtain ⟨fault, h⟩ := h
  unfold dcc_get_dotd_info at h
  cases hwalk : dotdWalk argv { needs_dotd := env_var.isSome } with
  | error f => exact Or.inl ⟨f, rfl⟩
  | ok seen =>
    right
    rw [hwalk] at h
    change (match seen.deps_output with | some _ => _ | none => _) = _ at h
    split at h
    · cases h
    split at h
    · cases h
    split at h
    · rename_i f hscan
      exact ⟨f, hscan⟩
    · cases h
    · cases h

theorem dotd_faults_of_dangles (h : Dangles dotdTakes argv) :
    ∃ fault, dcc_get_dotd_info remote env_var argv = .error fault := by
  rw [← dotdWalk_faults_iff argv { needs_dotd := env_var.isSome }] at h
  obtain ⟨fault, h⟩ := h
  refine ⟨fault, ?_⟩
  unfold dcc_get_dotd_info
  rw [h]
  rfl

/-- None of the walks reads behind the null pointer or uses it as a string. -/
def WalksInside (remote : RemoteAssemble) (env_var : Option Arg) (root_dir : Arg) (argv : List Arg) :
    Prop :=
  (∀ fault, scanChecked remote argv ≠ .error fault) ∧
    (∀ fault, dcc_get_dotd_info remote env_var argv ≠ .error fault) ∧
    ∀ fault, tweak_include_arguments_for_server root_dir argv ≠ .error fault

/-- As long as no walk comes to a last word whose argument it steps over. -/
theorem walksInside_iff (remote : RemoteAssemble) (env_var : Option Arg) (root_dir : Arg)
    (argv : List Arg) : WalksInside remote env_var root_dir argv ↔
      ¬ ScanFaults remote argv ∧ ¬ Dangles dotdTakes argv ∧ ¬ Dangles tweakTakes argv := by
  rw [← scanChecked_faults_iff, ← tweak_faults_iff root_dir]
  simp only [not_exists]
  constructor
  · rintro ⟨hscan, hdotd, htweak⟩
    refine ⟨hscan, ?_, htweak⟩
    intro hdangles
    obtain ⟨fault, hfault⟩ := dotd_faults_of_dangles hdangles
    exact hdotd fault hfault
  · rintro ⟨hscan, hdotd, htweak⟩
    refine ⟨hscan, ?_, htweak⟩
    intro fault hfault
    rcases dotd_faults ⟨fault, hfault⟩ with hdangles | hfaults
    · exact hdotd hdangles
    obtain ⟨f, hf⟩ := scanChecked_faults_iff.mpr hfaults
    exact hscan f hf

/-- `gcc -c a.c -MF` -/
theorem walksInside_dangling : ¬ ∀ remote env_var root_dir argv,
    WalksInside remote env_var root_dir argv := by
  intro hclaim
  have h := hclaim true none (ascii "/tmp") [ascii "gcc", ascii "-c", ascii "a.c", ascii "-MF"]
  have hscan : scanChecked true [ascii "gcc", ascii "-c", ascii "a.c", ascii "-MF"] =
      .error .pastEnd := rfl
  exact h.1 _ hscan

end Walks
end Toolwhip.Distcc
