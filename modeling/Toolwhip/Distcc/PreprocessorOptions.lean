import Toolwhip.Distcc.Arg

/-! # -Wp options

`dcc_expand_preprocessor_options` puts the pieces of every `-Wp,` option in its place. An array is the
list of its elements, a null pointer is `none`; memory is not exhausted. -/

namespace Toolwhip.Distcc.PreprocessorOptions
open Lib.CNumber Lib.ThrowingFold List
set_option autoImplicit false

inductive Fault where
  | undefined
  | assertion
  deriving DecidableEq, Repr

abbrev Argv := List (Option Arg)

def comma : UInt8 := 44

def piece (opt : Arg) : Arg := opt.takeWhile (· ≠ comma)

def afterComma (opt : Arg) : Option Arg :=
  match opt.dropWhile (· ≠ comma) with
  | [] => none
  | _ :: rest => some rest

def ahead (opt : Option Arg) : Nat := opt.elim 0 fun opt => opt.length + 1

theorem ahead_afterComma (opt : Arg) : ahead (afterComma opt) ≤ opt.length := by
  have hsuffix := (dropWhile_suffix (fun b : UInt8 => decide (b ≠ comma)) (l := opt)).length_le
  unfold afterComma
  split
  · exact Nat.zero_le _
  rename_i heq
  rw [heq] at hsuffix
  exact hsuffix

theorem ahead_file {opt filename : Arg} (h : afterComma opt = some filename) :
    ahead (afterComma filename) < ahead (some opt) := by
  have hopt := ahead_afterComma opt
  have hfile := ahead_afterComma filename
  rw [h] at hopt
  simp only [ahead, Option.elim_some] at hopt ⊢
  simp only [ahead] at hfile
  omega

section Scanners

def isDependency (opt : Arg) : Bool := opt == ascii "-MD" || opt == ascii "-MMD"

def countFrom : Option Arg → Nat
  | none => 0
  | some opt =>
    if str_startswith (ascii "-MD,") opt || str_startswith (ascii "-MMD,") opt then
      match h : afterComma opt with
      | none => 3
      | some filename => 3 + countFrom (afterComma filename)
    else 1 + countFrom (afterComma opt)
termination_by comma => ahead comma
decreasing_by
  · exact ahead_file h
  · exact Nat.lt_succ_of_le (ahead_afterComma opt)

def count_extra_args (dash_Wp_option : Arg) : Nat := countFrom (some (dash_Wp_option.drop 4))

/-- The entries in the order in which they are stored. -/
def copyFrom : Option Arg → List Arg
  | none => []
  | some opt =>
    if isDependency (piece opt) then
      match _h : afterComma opt with
      | none => [piece opt]
      | some filename => piece opt :: ascii "-MF" :: piece filename :: copyFrom (afterComma filename)
    else piece opt :: copyFrom (afterComma opt)
termination_by comma => ahead comma
decreasing_by
  · exact ahead_file _h
  · exact Nat.lt_succ_of_le (ahead_afterComma opt)

end Scanners

section Arrays

def load (argv : Argv) (i : Nat) : Except Fault (Option Arg) :=
  match argv[i]? with
  | some entry => .ok entry
  | none => .error .undefined

def store (argv : Argv) (i : Nat) (entry : Option Arg) : Except Fault Argv :=
  if i < argv.length then .ok (argv.set i entry) else .error .undefined

/-- `count` elements from `argv[j]` on are put into `new_argv[k]` and behind it. -/
def moveLoop (argv : Argv) : Nat → Nat → Nat → Argv → Except Fault Argv
  | 0, _, _, new_argv => .ok new_argv
  | count + 1, j, k, new_argv => do
    let entry ← load argv j
    let new_argv ← store new_argv k entry
    moveLoop argv count (j + 1) (k + 1) new_argv

def storeLoop : List Arg → Nat → Argv → Except Fault Argv
  | [], _, new_argv => .ok new_argv
  | a :: entries, i, new_argv => do
    let new_argv ← store new_argv i (some a)
    storeLoop entries (i + 1) new_argv

def copy_extra_args (new_argv : Argv) (i : Nat) (dash_Wp_option : Arg) (extra_args : Nat) :
    Except Fault Argv := do
  let entries := copyFrom (some (dash_Wp_option.drop 4))
  let new_argv ← storeLoop entries i new_argv
  if entries.length = extra_args then .ok new_argv else .error .assertion

def expandAt (argc : Nat) (argv : Argv) (i : Nat) (a : Arg) : Except Fault Argv := do
  let extra_args := count_extra_args a
  if extra_args < 1 then .error .assertion
  else
    let new_argv := List.replicate (argc + extra_args) none
    let new_argv ← moveLoop argv i 0 0 new_argv
    let new_argv ← copy_extra_args new_argv i a extra_args
    moveLoop argv (argc - i) (i + 1) (i + extra_args) new_argv

/-- `argc` is what it was at the start. Without fuel the loop has not come to its end. -/
def expandLoop (argc : Nat) : Nat → Argv → Nat → Option (Except Fault Argv)
  | 0, _, _ => none
  | fuel + 1, argv, i =>
    match load argv i with
    | .error e => some (.error e)
    | .ok none => some (.ok argv)
    | .ok (some a) =>
      if str_startswith (ascii "-Wp,") a then
        match expandAt argc argv i a with
        | .error e => some (.error e)
        | .ok argv => expandLoop argc fuel argv (i + 1)
      else expandLoop argc fuel argv (i + 1)

def argvLen (argv : Argv) : Nat := (argv.takeWhile (·.isSome)).length

def dcc_expand_preprocessor_options (fuel : Nat) (argv : Argv) : Option (Except Fault Argv) :=
  expandLoop (argvLen argv) fuel argv 0

end Arrays

section Purpose

/-- Every dependency option that is followed by a piece gets an `-MF` before it. -/
def withFiles : List Arg → List Arg
  | [] => []
  | [p] => [p]
  | p :: f :: rest =>
    if isDependency p then p :: ascii "-MF" :: f :: withFiles rest else p :: withFiles (f :: rest)

def expanded (a : Arg) : List Arg := withFiles ((a.drop 4).splitOn comma)

def isWp (a : Arg) : Bool := str_startswith (ascii "-Wp,") a

def expandedAll (args : List Arg) : List Arg :=
  args.flatMap fun a => if isWp a then expanded a else [a]

end Purpose

section Agree
variable {opt : Arg}

theorem opt_eq (opt : Arg) : opt = piece opt ++ (afterComma opt).elim [] (comma :: ·) := by
  have hsplit := takeWhile_append_dropWhile (p := fun b : UInt8 => decide (b ≠ comma)) (l := opt)
  have hhead := head?_dropWhile_not (fun b : UInt8 => decide (b ≠ comma)) opt
  unfold afterComma piece
  split
  · rename_i heq
    rw [heq, append_nil] at hsplit
    simpa using hsplit.symm
  rename_i c rest heq
  rw [heq] at hhead hsplit
  simp only [head?_cons, ne_eq, decide_not, Bool.not_eq_false', decide_eq_true_eq] at hhead
  rw [hhead] at hsplit
  exact hsplit.symm

theorem not_comma_of_mem_piece {b : UInt8} (h : b ∈ piece opt) : (b == comma) = false := by
  have := mem_takeWhile_imp h
  simpa using this

theorem splitOn_eq (opt : Arg) :
    opt.splitOn comma = piece opt :: (afterComma opt).elim [] (List.splitOn comma) := by
  have hopt := opt_eq opt
  rw [splitOn_eq_splitOnP]
  cases hafter : afterComma opt with
  | none =>
    rw [hafter, Option.elim_none, append_nil] at hopt
    rw [Option.elim_none, ← hopt]
    apply splitOnP_eq_singleton
    intro b hb
    rw [hopt] at hb
    exact not_comma_of_mem_piece hb
  | some rest =>
    rw [hafter, Option.elim_some] at hopt
    conv_lhs => rw [hopt]
    rw [splitOnP_append_cons_of_forall_mem (fun b hb => not_comma_of_mem_piece hb) comma
      (beq_self_eq_true comma), Option.elim_some, splitOn_eq_splitOnP]

theorem startswith_word (w opt : Arg) (hw : w.all (· ≠ comma) = true) :
    str_startswith (w ++ [comma]) opt = true ↔ piece opt = w ∧ (afterComma opt).isSome = true := by
  rw [str_startswith, isPrefixOf_iff_prefix]
  rw [all_eq_true] at hw
  constructor
  · rintro ⟨rest, rfl⟩
    have hcomma : ¬ (decide (comma ≠ comma)) = true := by simp
    have hpiece : piece (w ++ [comma] ++ rest) = w := by
      rw [piece, append_assoc, takeWhile_append_of_pos hw, singleton_append,
        takeWhile_cons_of_neg (p := fun b : UInt8 => decide (b ≠ comma)) hcomma, append_nil]
    refine ⟨hpiece, ?_⟩
    rw [afterComma, append_assoc, dropWhile_append_of_pos hw, singleton_append,
      dropWhile_cons_of_neg (p := fun b : UInt8 => decide (b ≠ comma)) hcomma]
    rfl
  · rintro ⟨rfl, hafter⟩
    obtain ⟨rest, hrest⟩ := Option.isSome_iff_exists.mp hafter
    refine ⟨rest, ?_⟩
    conv_rhs => rw [opt_eq opt, hrest]
    simp

theorem startswith_eq (opt : Arg) :
    (str_startswith (ascii "-MD,") opt || str_startswith (ascii "-MMD,") opt) =
      (isDependency (piece opt) && (afterComma opt).isSome) := by
  have hMD := startswith_word (ascii "-MD") opt (by decide)
  have hMMD := startswith_word (ascii "-MMD") opt (by decide)
  rw [Bool.eq_iff_iff, Bool.or_eq_true, Bool.and_eq_true, isDependency, Bool.or_eq_true, beq_iff_eq,
    beq_iff_eq, or_and_right]
  exact or_congr hMD hMMD

/-! ### The steps of the second scanner -/

theorem copyFrom_missing (hdep : isDependency (piece opt) = true) (hnone : afterComma opt = none) :
    copyFrom (some opt) = [piece opt] := by
  rw [copyFrom, if_pos hdep]
  split
  · rfl
  rename_i hsome
  rw [hnone] at hsome
  cases hsome

theorem copyFrom_file {filename : Arg} (hdep : isDependency (piece opt) = true)
    (hsome : afterComma opt = some filename) : copyFrom (some opt) =
      piece opt :: ascii "-MF" :: piece filename :: copyFrom (afterComma filename) := by
  rw [copyFrom, if_pos hdep]
  split
  · rename_i hnone
    rw [hsome] at hnone
    cases hnone
  rename_i hsome'
  rw [hsome] at hsome'
  cases hsome'
  rfl

theorem copyFrom_other (hdep : ¬ isDependency (piece opt) = true) :
    copyFrom (some opt) = piece opt :: copyFrom (afterComma opt) := by
  rw [copyFrom, if_neg hdep]

theorem countFrom_file {filename : Arg} (hdep : isDependency (piece opt) = true)
    (hsome : afterComma opt = some filename) :
    countFrom (some opt) = 3 + countFrom (afterComma filename) := by
  have htest : (str_startswith (ascii "-MD,") opt || str_startswith (ascii "-MMD,") opt) = true := by
    rw [startswith_eq, hdep, hsome]
    rfl
  rw [countFrom, if_pos htest]
  split
  · rename_i hnone
    rw [hsome] at hnone
    cases hnone
  rename_i hsome'
  rw [hsome] at hsome'
  cases hsome'
  rfl

theorem countFrom_other (h : (isDependency (piece opt) && (afterComma opt).isSome) = false) :
    countFrom (some opt) = 1 + countFrom (afterComma opt) := by
  rw [countFrom, startswith_eq, h, if_neg Bool.false_ne_true]

theorem countFrom_eq (opt : Option Arg) : countFrom opt = (copyFrom opt).length := by
  induction opt using copyFrom.induct with
  | case1 => simp [countFrom, copyFrom]
  | case2 opt hdep hnone =>
    rw [copyFrom_missing hdep hnone, countFrom_other (by simp [hnone]), hnone, countFrom]
    rfl
  | case3 opt hdep filename hsome ih =>
    rw [copyFrom_file hdep hsome, countFrom_file hdep hsome, ih]
    simp only [length_cons]
    omega
  | case4 opt hdep ih =>
    rw [copyFrom_other hdep, countFrom_other (by simp [hdep]), ih, length_cons, Nat.add_comm]

theorem copyFrom_eq (opt : Option Arg) :
    copyFrom opt = opt.elim [] fun opt => withFiles (opt.splitOn comma) := by
  induction opt using copyFrom.induct with
  | case1 => simp [copyFrom]
  | case2 opt hdep hnone =>
    rw [copyFrom_missing hdep hnone, Option.elim_some, splitOn_eq, hnone]
    rfl
  | case3 opt hdep filename hsome ih =>
    rw [copyFrom_file hdep hsome, Option.elim_some, splitOn_eq, hsome, Option.elim_some, splitOn_eq,
      withFiles, if_pos hdep, ih]
    cases afterComma filename <;> rfl
  | case4 opt hdep ih =>
    rw [copyFrom_other hdep, Option.elim_some, splitOn_eq, ih]
    cases hafter : afterComma opt with
    | none => rfl
    | some rest =>
      simp only [Option.elim_some]
      rw [splitOn_eq rest, withFiles, if_neg hdep]

theorem count_eq_expanded (a : Arg) : count_extra_args a = (expanded a).length := by
  rw [count_extra_args, countFrom_eq, copyFrom_eq]
  rfl

theorem withFiles_eq_nil_iff {ps : List Arg} : withFiles ps = [] ↔ ps = [] := by
  cases ps with
  | nil => simp [withFiles]
  | cons p ps =>
    cases ps with
    | nil => simp [withFiles]
    | cons f rest =>
      rw [withFiles]
      split <;> simp

theorem expanded_length_pos (a : Arg) : 0 < (expanded a).length := by
  rw [length_pos_iff, expanded, ne_eq, withFiles_eq_nil_iff]
  exact splitOn_ne_nil _ _

theorem copyFrom_no_comma (opt : Option Arg) :
    ∀ p ∈ copyFrom opt, ∀ b ∈ p, (b == comma) = false := by
  have hMF : ∀ b ∈ ascii "-MF", (b == comma) = false := by decide +kernel
  induction opt using copyFrom.induct with
  | case1 => simp [copyFrom]
  | case2 opt hdep hnone =>
    rw [copyFrom_missing hdep hnone, forall_mem_singleton]
    intro b hb
    exact not_comma_of_mem_piece hb
  | case3 opt hdep filename hsome ih =>
    rw [copyFrom_file hdep hsome, forall_mem_cons, forall_mem_cons, forall_mem_cons]
    exact ⟨fun b hb => not_comma_of_mem_piece hb, hMF, fun b hb => not_comma_of_mem_piece hb, ih⟩
  | case4 opt hdep ih =>
    rw [copyFrom_other hdep, forall_mem_cons]
    exact ⟨fun b hb => not_comma_of_mem_piece hb, ih⟩

theorem copyFrom_drop (a : Arg) : copyFrom (some (a.drop 4)) = expanded a := by
  rw [copyFrom_eq]
  rfl

theorem not_isWp_of_mem_expanded {a p : Arg} (h : p ∈ expanded a) : isWp p = false := by
  rw [← copyFrom_drop] at h
  rw [← Bool.not_eq_true]
  intro hwp
  rw [isWp, str_startswith, isPrefixOf_iff_prefix] at hwp
  have hcomma : comma ∈ p := hwp.subset (by decide)
  have := copyFrom_no_comma _ p h comma hcomma
  cases this

end Agree

section Replacement
variable {argc i j k m count : Nat} {argv argv' new_argv written : Argv} {a : Arg} {entries : List Arg}
  {entry : Option Arg}

theorem store_next : store (written ++ List.replicate (m + 1) none) written.length entry =
    .ok (written ++ [entry] ++ List.replicate m none) := by
  unfold store
  rw [if_pos (by simp), set_append_right _ _ (Nat.le_refl _), Nat.sub_self, replicate_succ,
    set_cons_zero, append_assoc]
  rfl

theorem store_length (h : store new_argv k entry = .ok argv') :
    argv'.length = new_argv.length ∧ k < new_argv.length := by
  unfold store at h
  split at h
  · cases h
    exact ⟨length_set, by assumption⟩
  · cases h

theorem moveLoop_eq (argv written : Argv) (j count m : Nat) (hj : j + count ≤ argv.length)
    (hm : count ≤ m) :
    moveLoop argv count j written.length (written ++ List.replicate m none) =
      .ok (written ++ (argv.drop j).take count ++ List.replicate (m - count) none) := by
  induction count generalizing j m written with
  | zero => simp [moveLoop]
  | succ count ih =>
    obtain ⟨m, rfl⟩ : ∃ m', m = m' + 1 := ⟨m - 1, by omega⟩
    have hlt : j < argv.length := by omega
    have hload : load argv j = .ok argv[j] := by
      unfold load
      rw [getElem?_eq_getElem hlt]
    have hnext := ih (written ++ [argv[j]]) (j + 1) m (by omega) (by omega)
    rw [length_append, length_singleton] at hnext
    rw [moveLoop, hload]
    change (store _ _ _ >>= _) = _
    rw [store_next]
    change moveLoop _ _ _ _ _ = _
    rw [hnext, ← getElem_cons_drop hlt, take_succ_cons]
    simp

theorem moveLoop_length (h : moveLoop argv count j k new_argv = .ok argv') :
    argv'.length = new_argv.length := by
  induction count generalizing j k new_argv with
  | zero =>
    cases h
    rfl
  | succ count ih =>
    obtain ⟨entry, _, hrest⟩ := bind_eq_ok.mp h
    obtain ⟨next, hstore, hloop⟩ := bind_eq_ok.mp hrest
    rw [ih hloop, (store_length hstore).1]

theorem storeLoop_eq (entries : List Arg) (written : Argv) (m : Nat) (hm : entries.length ≤ m) :
    storeLoop entries written.length (written ++ List.replicate m none) =
      .ok (written ++ entries.map some ++ List.replicate (m - entries.length) none) := by
  induction entries generalizing m written with
  | nil => simp [storeLoop]
  | cons a entries ih =>
    rw [length_cons] at hm
    obtain ⟨m, rfl⟩ : ∃ m', m = m' + 1 := ⟨m - 1, by omega⟩
    have hnext := ih (written ++ [some a]) m (by omega)
    rw [length_append, length_singleton] at hnext
    rw [storeLoop, store_next]
    change storeLoop _ _ _ = _
    rw [hnext]
    simp

theorem storeLoop_length (h : storeLoop entries k new_argv = .ok argv') (hne : entries ≠ []) :
    k + entries.length ≤ new_argv.length := by
  induction entries generalizing k new_argv with
  | nil => exact absurd rfl hne
  | cons a entries ih =>
    obtain ⟨next, hstore, hloop⟩ := bind_eq_ok.mp h
    obtain ⟨hsame, hlt⟩ := store_length hstore
    by_cases hrest : entries = []
    · subst entries
      exact hlt
    have := ih hloop hrest
    rw [length_cons]
    omega

theorem copy_extra_args_eq : copy_extra_args new_argv i a (expanded a).length =
    storeLoop (expanded a) i new_argv := by
  unfold copy_extra_args
  simp only [copyFrom_drop, if_true]
  cases storeLoop (expanded a) i new_argv with
  | error e => rfl
  | ok stored => rfl

theorem expandAt_steps : expandAt argc argv i a =
    moveLoop argv i 0 0 (List.replicate (argc + (expanded a).length) none) >>= fun new_argv =>
      storeLoop (expanded a) i new_argv >>= fun new_argv =>
        moveLoop argv (argc - i) (i + 1) (i + (expanded a).length) new_argv := by
  have hpos := expanded_length_pos a
  unfold expandAt
  simp only [count_eq_expanded, copy_extra_args_eq]
  rw [if_neg (by omega)]

theorem expandAt_eq (hargc : argc < argv.length) (hi : i ≤ argc) : expandAt argc argv i a =
    .ok (argv.take i ++ (expanded a).map some ++ (argv.drop (i + 1)).take (argc - i)) := by
  have hbefore := moveLoop_eq argv [] 0 i (argc + (expanded a).length) (by omega) (by omega)
  rw [nil_append, drop_zero, nil_append, length_nil] at hbefore
  have hlen : (argv.take i).length = i := by
    rw [length_take]
    omega
  have hcopy := storeLoop_eq (expanded a) (argv.take i) (argc + (expanded a).length - i) (by omega)
  rw [hlen] at hcopy
  have hafter := moveLoop_eq argv (argv.take i ++ (expanded a).map some) (i + 1) (argc - i)
    (argc + (expanded a).length - i - (expanded a).length) (by omega) (by omega)
  rw [length_append, hlen, length_map] at hafter
  have hfull : argc + (expanded a).length - i - (expanded a).length - (argc - i) = 0 := by omega
  rw [hfull, replicate_zero, append_nil] at hafter
  rw [expandAt_steps, hbefore]
  change (storeLoop _ _ _ >>= _) = _
  rw [hcopy]
  exact hafter

theorem expandAt_beyond (hi : argc < i) : expandAt argc argv i a ≠ .ok argv' := by
  intro h
  rw [expandAt_steps] at h
  obtain ⟨new_argv, hmove, hrest⟩ := bind_eq_ok.mp h
  obtain ⟨stored, hstore, _⟩ := bind_eq_ok.mp hrest
  have hlen := storeLoop_length hstore (ne_nil_of_length_pos (expanded_length_pos a))
  rw [moveLoop_length hmove, length_replicate] at hlen
  omega

end Replacement

section Loop
variable {argc fuel i : Nat} {argv result slack : Argv} {before rest : List Arg} {a : Arg}

theorem take_words : ((before ++ a :: rest).map some ++ none :: slack).take before.length =
    before.map some := by
  simp

theorem drop_words : ((before ++ a :: rest).map some ++ none :: slack).drop (before.length + 1) =
    rest.map some ++ none :: slack := by
  have hsplit : (before ++ a :: rest).map some ++ none :: slack =
      (before ++ [a]).map some ++ (rest.map some ++ none :: slack) := by
    simp
  rw [hsplit, drop_left' (by simp)]

theorem load_word : load ((before ++ a :: rest).map some ++ none :: slack) before.length =
    .ok (some a) := by
  unfold load
  simp

theorem load_end : load (before.map some ++ none :: slack) before.length = .ok none := by
  unfold load
  simp

theorem expandLoop_end :
    expandLoop argc (fuel + 1) (before.map some ++ none :: slack) before.length =
      some (.ok (before.map some ++ none :: slack)) := by
  rw [expandLoop, load_end]

theorem expandLoop_other (h : isWp a = false) :
    expandLoop argc (fuel + 1) ((before ++ a :: rest).map some ++ none :: slack) before.length =
      expandLoop argc fuel ((before ++ a :: rest).map some ++ none :: slack) (before.length + 1) := by
  rw [expandLoop, load_word]
  simp only
  rw [if_neg]
  rw [← isWp, h]
  exact Bool.false_ne_true

theorem expandLoop_wp {next : Argv} (h : isWp a = true)
    (hexpand : expandAt argc ((before ++ a :: rest).map some ++ none :: slack) before.length a =
      .ok next) :
    expandLoop argc (fuel + 1) ((before ++ a :: rest).map some ++ none :: slack) before.length =
      expandLoop argc fuel next (before.length + 1) := by
  unfold isWp at h
  rw [expandLoop, load_word]
  simp only
  rw [if_pos h, hexpand]

theorem expandLoop_wp_fails (h : isWp a = true)
    (hexpand : ∀ next, expandAt argc ((before ++ a :: rest).map some ++ none :: slack) before.length a ≠
      .ok next) :
    expandLoop argc fuel ((before ++ a :: rest).map some ++ none :: slack) before.length ≠
      some (.ok result) := by
  cases fuel with
  | zero => exact nofun
  | succ fuel =>
    unfold isWp at h
    rw [expandLoop, load_word]
    simp only
    rw [if_pos h]
    split
    · exact nofun
    rename_i next heq
    exact absurd heq (hexpand next)

theorem expandLoop_plain (argc : Nat) (before rest : List Arg) (slack : Argv)
    (h : ∀ a ∈ rest, isWp a = false) :
    expandLoop argc (rest.length + 1) ((before ++ rest).map some ++ none :: slack) before.length =
      some (.ok ((before ++ rest).map some ++ none :: slack)) := by
  induction rest generalizing before with
  | nil =>
    rw [append_nil]
    exact expandLoop_end
  | cons a rest ih =>
    rw [length_cons, expandLoop_other (h a mem_cons_self)]
    have hnext := ih (before ++ [a]) fun b hb => h b (mem_cons_of_mem a hb)
    rw [length_append, append_assoc] at hnext
    exact hnext

theorem expandLoop_lost (hargc : argc < argv.length) (hsome : ∀ entry ∈ argv, entry ≠ none) :
    expandLoop argc fuel argv i ≠ some (.ok result) := by
  induction fuel generalizing argv i with
  | zero => exact nofun
  | succ fuel ih =>
    intro h
    rw [expandLoop] at h
    split at h
    · cases h
    · rename_i hload
      unfold load at hload
      split at hload
      · rename_i hget
        cases hload
        exact hsome none (mem_of_getElem? hget) rfl
      · cases hload
    · rename_i a hload
      split at h
      · split at h
        · cases h
        rename_i next hexpand
        by_cases hi : argc < i
        · exact expandAt_beyond hi hexpand
        rw [expandAt_eq hargc (Nat.le_of_not_lt hi), Except.ok.injEq] at hexpand
        subst hexpand
        refine ih ?_ ?_ h
        · have hpos := expanded_length_pos a
          simp only [length_append, length_take, length_map, length_drop]
          omega
        · intro entry hmem
          rw [mem_append, mem_append] at hmem
          rcases hmem with (hmem | hmem) | hmem
          · exact hsome entry (mem_of_mem_take hmem)
          · obtain ⟨p, _, rfl⟩ := List.mem_map.mp hmem
            exact Option.some_ne_none p
          · exact hsome entry (mem_of_mem_drop (mem_of_mem_take hmem))
      · exact ih hargc hsome h

theorem expandLoop_stale (fuel : Nat) (before rest : List Arg) (slack : Argv)
    (hargc : argc < (before ++ rest).length)
    (hwp : ∃ a ∈ rest, isWp a = true) :
    expandLoop argc fuel ((before ++ rest).map some ++ none :: slack) before.length ≠
      some (.ok result) := by
  induction rest generalizing before fuel with
  | nil =>
    obtain ⟨a, ha, _⟩ := hwp
    cases ha
  | cons a rest ih =>
    cases h : isWp a with
    | false =>
      cases fuel with
      | zero => exact nofun
      | succ fuel =>
        rw [expandLoop_other h]
        have hrest : ∃ b ∈ rest, isWp b = true := by
          obtain ⟨b, hb, hbwp⟩ := hwp
          rcases List.mem_cons.mp hb with rfl | hb
          · rw [h] at hbwp
            cases hbwp
          · exact ⟨b, hb, hbwp⟩
        have hnext := ih fuel (before ++ [a]) (by simpa using hargc) hrest
        rw [append_assoc, length_append] at hnext
        exact hnext
    | true =>
      have hlong : argc < ((before ++ a :: rest).map some ++ none :: slack).length := by
        rw [length_append, length_map]
        omega
      by_cases hi : argc < before.length
      · exact expandLoop_wp_fails h fun next => expandAt_beyond hi
      have hexpand := expandAt_eq (a := a) hlong (Nat.le_of_not_lt hi)
      cases fuel with
      | zero => exact nofun
      | succ fuel =>
        rw [expandLoop_wp h hexpand]
        have hpos := expanded_length_pos a
        rw [length_append, length_cons] at hargc
        have hfull : (rest.map some ++ none :: slack).take (argc - before.length) =
            (rest.take (argc - before.length)).map some := by
          rw [take_append_of_le_length (by rw [length_map]; omega), map_take]
        rw [take_words, drop_words, hfull]
        apply expandLoop_lost
        · simp only [length_append, length_map, length_take]
          omega
        · intro entry hmem
          rw [← map_append, ← map_append] at hmem
          obtain ⟨p, _, rfl⟩ := List.mem_map.mp hmem
          exact Option.some_ne_none p

end Loop

section Expanded

/-- Only the last `-Wp,` option stands for more than one argument. -/
def OnlyLastGrows (args : List Arg) : Prop :=
  ∀ before a rest, args = before ++ a :: rest → isWp a = true → (∃ b ∈ rest, isWp b = true) →
    (expanded a).length = 1

variable {rest : List Arg} {a : Arg}

theorem onlyLastGrows_nil : OnlyLastGrows [] := by
  intro before a rest h
  simp at h

theorem onlyLastGrows_cons_iff : OnlyLastGrows (a :: rest) ↔
    (isWp a = true → (∃ b ∈ rest, isWp b = true) → (expanded a).length = 1) ∧ OnlyLastGrows rest := by
  constructor
  · intro h
    refine ⟨h [] a rest rfl, ?_⟩
    intro before b after heq
    exact h (a :: before) b after (by rw [heq]; rfl)
  · rintro ⟨hfirst, hrest⟩ before b after heq
    cases before with
    | nil =>
      cases heq
      exact hfirst
    | cons c before =>
      cases heq
      exact hrest before b after rfl

theorem expandedAll_cons : expandedAll (a :: rest) =
    (if isWp a then expanded a else [a]) ++ expandedAll rest := rfl

theorem expandedAll_plain (h : ∀ a ∈ rest, isWp a = false) : expandedAll rest = rest := by
  induction rest with
  | nil => rfl
  | cons a rest ih =>
    rw [expandedAll_cons, h a mem_cons_self, ih fun b hb => h b (mem_cons_of_mem a hb)]
    rfl

def Expands (argc : Nat) (argv : Argv) (i : Nat) (words : List Arg) : Prop :=
  ∃ fuel result, expandLoop argc fuel argv i = some (.ok result) ∧
    words.map some ++ [none] <+: result

theorem expands_of_step {argc i i' : Nat} {argv argv' : Argv} {words : List Arg}
    (h : ∀ fuel, expandLoop argc (fuel + 1) argv i = expandLoop argc fuel argv' i') :
    Expands argc argv i words ↔ Expands argc argv' i' words := by
  constructor
  · rintro ⟨fuel, result, hrun, hwords⟩
    cases fuel with
    | zero => cases hrun
    | succ fuel => exact ⟨fuel, result, (h fuel).symm.trans hrun, hwords⟩
  · rintro ⟨fuel, result, hrun, hwords⟩
    exact ⟨fuel + 1, result, (h fuel).trans hrun, hwords⟩

theorem expands_plain (argc : Nat) (before rest : List Arg) (slack : Argv)
    (h : ∀ a ∈ rest, isWp a = false) :
    Expands argc ((before ++ rest).map some ++ none :: slack) before.length (before ++ rest) := by
  refine ⟨rest.length + 1, _, expandLoop_plain argc before rest slack h, slack, ?_⟩
  simp

theorem expandAt_words (before rest : List Arg) (a : Arg) (slack : Argv) :
    expandAt (before ++ a :: rest).length ((before ++ a :: rest).map some ++ none :: slack)
      before.length a = .ok ((before ++ expanded a ++ rest).map some ++ none :: []) := by
  rw [expandAt_eq (by simp) (by simp), take_words, drop_words]
  have hlast : (rest.map some ++ none :: slack).take ((before ++ a :: rest).length - before.length) =
      rest.map some ++ [none] := by
    have hsplit : rest.map some ++ none :: slack = (rest.map some ++ [none]) ++ slack := by
      simp
    rw [hsplit, take_left' (by simp)]
  rw [hlast]
  simp

theorem expands_iff (before rest : List Arg) (slack : Argv) :
    Expands (before ++ rest).length ((before ++ rest).map some ++ none :: slack) before.length
      (before ++ expandedAll rest) ↔ OnlyLastGrows rest := by
  induction rest generalizing before slack with
  | nil => exact iff_of_true (expands_plain _ before [] slack nofun) onlyLastGrows_nil
  | cons a rest ih =>
    rw [onlyLastGrows_cons_iff]
    cases h : isWp a with
    | false =>
      have hnext := ih (before ++ [a]) slack
      rw [expands_of_step fun fuel => expandLoop_other h, expandedAll_cons, h]
      simpa using hnext
    | true =>
      have hexpand := expandAt_words before rest a slack
      by_cases hrest : ∃ b ∈ rest, isWp b = true
      · simp only [hrest, true_imp_iff]
        by_cases hone : (expanded a).length = 1
        · have hnext := ih (before ++ expanded a) []
          rw [expands_of_step fun fuel => expandLoop_wp h hexpand, expandedAll_cons, h]
          simpa [hone, Nat.add_comm 1] using hnext
        refine iff_of_false ?_ fun hboth => hone hboth.1
        rintro ⟨fuel, result, hrun, _⟩
        cases fuel with
        | zero => cases hrun
        | succ fuel =>
          rw [expandLoop_wp h hexpand] at hrun
          obtain ⟨p, ps, hp⟩ := exists_cons_of_length_pos (expanded_length_pos a)
          have hgrown : ps ≠ [] := by
            rintro rfl
            rw [hp] at hone
            exact hone rfl
          have hpos := List.length_pos_iff.mpr hgrown
          obtain ⟨b, hb, hbwp⟩ := hrest
          have hargc : (before ++ a :: rest).length < ((before ++ [p]) ++ (ps ++ rest)).length := by
            simp only [length_append, length_cons, length_nil]
            omega
          apply expandLoop_stale fuel _ _ [] hargc ⟨b, mem_append_right ps hb, hbwp⟩
          simpa [hp] using hrun
      · have hplain : ∀ b ∈ rest, isWp b = false := by
          intro b hb
          rw [← Bool.not_eq_true]
          intro hbwp
          exact hrest ⟨b, hb, hbwp⟩
        refine iff_of_true ?_ ⟨fun _ hsome => absurd hsome hrest, ?_⟩
        · obtain ⟨p, ps, hp⟩ := exists_cons_of_length_pos (expanded_length_pos a)
          have hnext := expands_plain (before ++ a :: rest).length (before ++ [p]) (ps ++ rest) [] ?_
          · rw [expands_of_step fun fuel => expandLoop_wp h hexpand, expandedAll_cons, h,
              expandedAll_plain hplain, if_pos rfl, hp]
            simpa using hnext
          · intro b hb
            rcases List.mem_append.mp hb with hb | hb
            · exact not_isWp_of_mem_expanded (a := a) (by rw [hp]; exact mem_cons_of_mem p hb)
            · exact hplain b hb
        · intro before' b rest' heq hb
          subst heq
          rw [hplain b (by simp)] at hb
          cases hb

theorem argvLen_words (args : List Arg) (slack : Argv) :
    argvLen (args.map some ++ none :: slack) = args.length := by
  have hwords : ∀ e ∈ args.map some, e.isSome = true := by
    intro e he
    obtain ⟨a, _, rfl⟩ := List.mem_map.mp he
    rfl
  unfold argvLen
  simp

end Expanded

def ExpandsRight (args : List Arg) (slack : Argv) : Prop :=
  ∃ fuel result, dcc_expand_preprocessor_options fuel (args.map some ++ none :: slack) =
    some (.ok result) ∧ (expandedAll args).map some ++ [none] <+: result

/-- The scanners agree on every option; the loop is right for one that grows, if it is the last. -/
theorem expand_preprocessor_options_iff (args : List Arg) (slack : Argv) :
    (∀ a : Arg, count_extra_args a = (copyFrom (some (a.drop 4))).length) ∧
      (ExpandsRight args slack ↔ OnlyLastGrows args) := by
  constructor
  · intro a
    exact countFrom_eq _
  · have h := expands_iff [] args slack
    unfold ExpandsRight dcc_expand_preprocessor_options
    rw [argvLen_words]
    exact h

/-- `-Wp,-MD,a.d` before `-Wp,-DX`. -/
theorem expand_preprocessor_options_second : ¬ ∀ args slack, ExpandsRight args slack := by
  intro hclaim
  have h := hclaim [ascii "-Wp,-MD,a.d", ascii "-Wp,-DX"] []
  have hiff := expands_iff [] [ascii "-Wp,-MD,a.d", ascii "-Wp,-DX"] []
  have hgrows : OnlyLastGrows [ascii "-Wp,-MD,a.d", ascii "-Wp,-DX"] := by
    apply hiff.mp
    unfold ExpandsRight dcc_expand_preprocessor_options at h
    exact h
  have hone := hgrows [] _ _ rfl (by decide) ⟨_, mem_singleton_self _, by decide⟩
  have hthree : (expanded (ascii "-Wp,-MD,a.d")).length = 3 := by decide
  cases hone

end Toolwhip.Distcc.PreprocessorOptions
