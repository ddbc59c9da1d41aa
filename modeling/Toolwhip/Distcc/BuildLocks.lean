import Toolwhip.Distcc.BuildSomewhere

/-! # The locks of a build

When a build keeps the order of the locks: label by label, what is held there, and what
decides whether the log at the end is in order. -/

namespace Toolwhip.Distcc
open Lib.CNumber Lib.LockOrder
set_option autoImplicit false

structure HasLocks (p : Process) (r l : Option Nat) : Prop where
  held : holding p.events = some ⟨r, l⟩
  remote : ∀ fd, r = some fd → fd < p.descriptors
  near : ∀ fd, l = some fd → fd < p.descriptors ∧ r ≠ some fd

/-- A build that returns after all attempts of its script has kept the order if and only if `good`. -/
def EndsWell (e : BuildEnd) (good : Prop) : Prop :=
  ∀ ret p, e = .returned ret p → p.attempts = [] → (Disciplined p.events ↔ good)

def NoneLost (p : Process) : Prop := LosesDescriptor false p.attempts = false

section Release
variable {p : Process} {r l : Option Nat} {fd : Nat}

@[simp] theorem unlockIf_attempts (lock_fd : Option Nat) :
    (unlockIf lock_fd p).attempts = p.attempts := by
  cases lock_fd with
  | none => rfl
  | some fd => rfl

theorem unlockIf_appends (lock_fd : Option Nat) :
    ∃ later, (unlockIf lock_fd p).events = p.events ++ later := by
  cases lock_fd with
  | none => exact ⟨[], (List.append_nil _).symm⟩
  | some fd => exact ⟨[.release fd], rfl⟩

theorem HasLocks.unlock_local (h : HasLocks p r l) : HasLocks (unlockIf l p) r none := by
  cases l with
  | none => exact h
  | some fd => exact ⟨release_local h.held, h.remote, by intro fd hfd; cases hfd⟩

theorem HasLocks.unlock_remote (h : HasLocks p r none) : HasLocks (unlockIf r p) none none := by
  cases r with
  | none => exact h
  | some fd =>
    exact ⟨release_remote h.held, (by intro fd hfd; cases hfd), (by intro fd hfd; cases hfd)⟩

theorem HasLocks.unlock_early {r l : Nat} (h : HasLocks p (some r) (some l)) :
    holding (unlockIf (some r) p).events = none := by
  apply release_early h.held
  intro heq
  exact (h.near l rfl).2 (congrArg some heq)

theorem HasLocks.unlock_stale (h : HasLocks p r none) (hfd : r ≠ some fd) :
    holding (unlockIf (some fd) p).events = none :=
  release_stale h.held hfd (by intro heq; cases heq)

theorem HasLocks.disciplined (h : HasLocks p none none) : Disciplined p.events := h.held

theorem broken_append {later : List (Event Nat)} {p' : Process} (h : holding p.events = none)
    (hevents : p'.events = p.events ++ later) : holding p'.events = none := by
  rw [hevents, holding_append, h]
  rfl

theorem broken_unlockIf {lock_fd : Option Nat} (h : holding p.events = none) :
    holding (unlockIf lock_fd p).events = none := by
  obtain ⟨later, hevents⟩ : ∃ later, (unlockIf lock_fd p).events = p.events ++ later :=
    unlockIf_appends lock_fd
  exact broken_append h hevents

end Release

section Take
variable {p p' : Process} {r l : Option Nat} {fd : Nat}

theorem HasLocks.same (h : HasLocks p r l) (hevents : p'.events = p.events)
    (hopen : p.descriptors ≤ p'.descriptors) : HasLocks p' r l := by
  refine ⟨by rw [hevents]; exact h.held, ?_, ?_⟩
  · intro fd hfd
    exact Nat.lt_of_lt_of_le (h.remote fd hfd) hopen
  · intro fd hfd
    exact ⟨Nat.lt_of_lt_of_le (h.near fd hfd).1 hopen, (h.near fd hfd).2⟩

theorem HasLocks.take_local (h : HasLocks p r none) (hbase : p.descriptors ≤ fd)
    (hfd : fd < p'.descriptors) (hevents : p'.events = p.events ++ [.acquire .near fd]) :
    HasLocks p' r (some fd) := by
  refine ⟨by rw [hevents]; exact acquire_local h.held, ?_, ?_⟩
  · intro fd' hr
    have hold := h.remote fd' hr
    omega
  · intro fd' hl
    obtain rfl := Option.some.inj hl
    refine ⟨hfd, ?_⟩
    intro hr
    have hold := h.remote fd hr
    omega

theorem HasLocks.take_remote (h : HasLocks p none none) (hfd : fd < p'.descriptors)
    (hevents : p'.events = p.events ++ [.acquire .remote fd]) : HasLocks p' (some fd) none := by
  refine ⟨by rw [hevents]; exact acquire_remote h.held, ?_, by intro fd hfd; cases hfd⟩
  intro fd' hr
  obtain rfl := Option.some.inj hr
  exact hfd

end Take

section Labels
variable {c : Calls} {rounds : Nat} {p : Process} {e : BuildEnd}
variable {ret : Int} {cpu_lock_fd local_cpu_lock_fd : Option Nat}

theorem endsWell_broken (h : holding p.events = none) : EndsWell (.returned ret p) False := by
  intro ret' p' heq _
  cases heq
  constructor
  · intro hend
    unfold Disciplined at hend
    rw [h] at hend
    cases hend
  · intro hfalse
    exact hfalse.elim

theorem endsWell_done (h : HasLocks p none none) : EndsWell (.returned ret p) (NoneLost p) := by
  intro ret' p' heq hmet
  cases heq
  unfold NoneLost
  rw [hmet]
  exact ⟨fun _ => rfl, fun _ => h.disciplined⟩

theorem EndsWell.congr {good good' : Prop} (h : EndsWell e good) (hiff : good ↔ good') :
    EndsWell e good' := by
  intro ret p heq hmet
  rw [← hiff]
  exact h ret p heq hmet

theorem unlockAndCleanUp_local {lock_fd : Option Nat} (h : HasLocks p none lock_fd) :
    EndsWell (unlockAndCleanUp ret lock_fd none p) (NoneLost p) := by
  have hend : EndsWell (.returned ret (unlockIf lock_fd p)) (NoneLost (unlockIf lock_fd p)) :=
    endsWell_done h.unlock_local
  apply hend.congr
  unfold NoneLost
  rw [unlockIf_attempts]

theorem unlockAndCleanUp_broken (h : holding (unlockIf cpu_lock_fd p).events = none) :
    EndsWell (unlockAndCleanUp ret cpu_lock_fd local_cpu_lock_fd p) False :=
  endsWell_broken (broken_unlockIf h)

theorem lockLocal_ends (h : HasLocks p none none) (hrun : lockLocal c rounds p = some e) :
    EndsWell e (NoneLost p) := by
  unfold lockLocal at hrun
  cases hlock : dcc_lock_local rounds p none with
  | none =>
    rw [hlock] at hrun
    cases hrun
  | some result =>
    obtain ⟨r, p', fd'⟩ := result
    rw [hlock] at hrun
    cases hrun
    unfold NoneLost
    have hcall := dcc_lock_one_call hlock
    cases hcall with
    | locked hbase hfd hevents hscript =>
      rw [lockKind_localHost (dcc_lock_one_mem hlock)] at hevents
      rw [← hscript]
      exact unlockAndCleanUp_local (h.take_local hbase hfd hevents)
    | refused hbase hevents hscript =>
      rw [← hscript]
      exact unlockAndCleanUp_local (h.same hevents hbase)
    | lost hbase hfd hevents hscript =>
      have hsame := h.same hevents (Nat.le_trans hbase (Nat.le_of_lt hfd))
      apply (unlockAndCleanUp_broken (hsame.unlock_stale (by intro heq; cases heq))).congr
      rw [hscript]
      exact ⟨False.elim, fun h => by cases h⟩

theorem lockLocal_appends {p' : Process} (hrun : lockLocal c rounds p = some (.returned ret p')) :
    ∃ later, p'.events = p.events ++ later := by
  unfold lockLocal at hrun
  cases hlock : dcc_lock_local rounds p none with
  | none =>
    rw [hlock] at hrun
    cases hrun
  | some result =>
    obtain ⟨r, p₁, fd₁⟩ := result
    rw [hlock] at hrun
    cases hrun
    obtain ⟨later, hlater⟩ : ∃ later, (unlockIf fd₁ p₁).events = p₁.events ++ later :=
      unlockIf_appends fd₁
    have hcall := dcc_lock_one_call hlock
    cases hcall with
    | locked hbase hfd hevents hscript =>
      rw [hevents, List.append_assoc] at hlater
      exact ⟨_, hlater⟩
    | refused hbase hevents hscript =>
      rw [hevents] at hlater
      exact ⟨_, hlater⟩
    | lost hbase hfd hevents hscript =>
      rw [hevents] at hlater
      exact ⟨_, hlater⟩

section Fallback
variable {ret : Int} {cpu_lock_fd local_cpu_lock_fd : Option Nat}

theorem fallback_ends (h : HasLocks p cpu_lock_fd none)
    (hrun : fallback c rounds ret cpu_lock_fd none p = some e) : EndsWell e (NoneLost p) := by
  have hnone : NoneLost (unlockIf cpu_lock_fd p) ↔ NoneLost p := by
    unfold NoneLost
    rw [unlockIf_attempts]
  unfold fallback at hrun
  split at hrun
  case isTrue => exact (lockLocal_ends h.unlock_remote hrun).congr hnone
  case isFalse =>
    cases hrun
    exact (endsWell_done h.unlock_remote).congr hnone

theorem fallback_broken
    (h : holding (unlockIf local_cpu_lock_fd (unlockIf cpu_lock_fd p)).events = none)
    (hrun : fallback c rounds ret cpu_lock_fd local_cpu_lock_fd p = some e) : EndsWell e False := by
  unfold fallback at hrun
  split at hrun
  case isTrue =>
    intro ret' p' heq hmet
    obtain rfl := heq
    obtain ⟨later, hlater⟩ := lockLocal_appends hrun
    exact endsWell_broken (broken_append h hlater) ret' p' rfl hmet
  case isFalse =>
    cases hrun
    exact endsWell_broken h

end Fallback

theorem dcc_compile_remote_process (r : RemoteCalls) (host : Hostdef) (l : Option Nat) :
    (dcc_compile_remote r host l p).2.2 = unlockIf l p := by
  unfold dcc_compile_remote remoteOut
  repeat' split
  all_goals rfl

theorem compileRemotely_ends {host : Hostdef} (h : HasLocks p cpu_lock_fd local_cpu_lock_fd)
    (hrun : compileRemotely c rounds host cpu_lock_fd local_cpu_lock_fd p = some e) :
    EndsWell e (NoneLost p) := by
  have hprocess : (dcc_compile_remote c.remote host local_cpu_lock_fd p).2.2 =
      unlockIf local_cpu_lock_fd p := dcc_compile_remote_process c.remote host local_cpu_lock_fd
  have hheld := h.unlock_local
  have hnone : NoneLost (unlockIf local_cpu_lock_fd p) ↔ NoneLost p := by
    unfold NoneLost
    rw [unlockIf_attempts]
  have hnone' : NoneLost (unlockIf cpu_lock_fd (unlockIf local_cpu_lock_fd p)) ↔ NoneLost p := by
    unfold NoneLost
    rw [unlockIf_attempts, unlockIf_attempts]
  unfold compileRemotely at hrun
  generalize dcc_compile_remote c.remote host local_cpu_lock_fd p = result at hrun hprocess
  obtain ⟨ret, status, p'⟩ := result
  obtain rfl : p' = unlockIf local_cpu_lock_fd p := hprocess
  simp only at hrun
  split at hrun
  case isTrue => exact (fallback_ends hheld hrun).congr hnone
  case isFalse =>
    split at hrun
    case isTrue =>
      split at hrun
      case isTrue => exact (fallback_ends hheld.unlock_remote hrun).congr hnone'
      case isFalse =>
        cases hrun
        exact (endsWell_done hheld.unlock_remote).congr hnone'
    case isFalse => exact (fallback_ends hheld.unlock_remote hrun).congr hnone'

/-- What follows the scan of the includes fails before `dcc_compile_remote`. -/
def FailsPreparing (c : Calls) (cpp_where : Option CppWhere) : Prop :=
  match cpp_where with
  | some .DCC_CPP_ON_CLIENT => c.cpp_maybe ≠ 0 ∨ c.strip_local_args ≠ 0
  | some .DCC_CPP_ON_SERVER => False
  | none => c.copy_argv ≠ 0

section Prepare
variable {host : Hostdef} {r l : Nat}
variable {fails : Prop}

theorem prepare_server_ends (hwhere : host.cpp_where = some .DCC_CPP_ON_SERVER)
    (h : HasLocks p (some r) none) (hrun : prepare c rounds host (some r) none p = some e) :
    EndsWell e (NoneLost p) := by
  unfold prepare at hrun
  rw [if_neg (by rw [hwhere]; decide)] at hrun
  split at hrun
  case isTrue => exact fallback_ends h hrun
  case isFalse => exact compileRemotely_ends h hrun

theorem broken_iff (hend : EndsWell e False) (hfails : fails) : EndsWell e (¬ fails ∧ NoneLost p) :=
  hend.congr ⟨False.elim, fun hgood => hgood.1 hfails⟩

theorem kept_iff (hend : EndsWell e (NoneLost p)) (hfails : ¬ fails) :
    EndsWell e (¬ fails ∧ NoneLost p) :=
  hend.congr ⟨fun hnone => ⟨hfails, hnone⟩, fun hgood => hgood.2⟩

theorem fallback_early {ret : Int} (h : HasLocks p (some r) (some l))
    (hrun : fallback c rounds ret (some r) (some l) p = some e) : EndsWell e False :=
  fallback_broken (broken_unlockIf h.unlock_early) hrun

theorem prepare_both_ends (hwhere : host.cpp_where ≠ some .DCC_CPP_ON_SERVER)
    (h : HasLocks p (some r) (some l)) (hrun : prepare c rounds host (some r) (some l) p = some e) :
    EndsWell e (¬ FailsPreparing c host.cpp_where ∧ NoneLost p) := by
  unfold prepare at hrun
  rcases hcpp : host.cpp_where with _ | _ | _
  · rw [if_neg (by rw [hcpp]; decide)] at hrun
    split at hrun
    case isTrue hcopy => exact broken_iff (fallback_early h hrun) hcopy
    case isFalse hcopy => exact kept_iff (compileRemotely_ends h hrun) hcopy
  · rw [if_pos hcpp] at hrun
    split at hrun
    case isTrue hmaybe => exact broken_iff (fallback_early h hrun) (Or.inl hmaybe)
    case isFalse hmaybe =>
      split at hrun
      case isTrue hstrip => exact broken_iff (fallback_early h hrun) (Or.inr hstrip)
      case isFalse hstrip =>
        apply kept_iff (compileRemotely_ends h hrun)
        rintro (hfails | hfails)
        · exact hmaybe hfails
        · exact hstrip hfails
  · exact absurd hcpp hwhere

def whereAfterServer (c : Calls) (host : Hostdef) : Option CppWhere :=
  if host.cpp_where = some .DCC_CPP_ON_SERVER ∧ c.talk_to_include_server ≠ 0 then
    some .DCC_CPP_ON_CLIENT
  else host.cpp_where

theorem scanIncludes_ends (h : HasLocks p (some r) (some l))
    (hrun : scanIncludes c rounds host (some r) (some l) p = some e) :
    EndsWell e (¬ FailsPreparing c (whereAfterServer c host) ∧ NoneLost p) := by
  unfold scanIncludes at hrun
  unfold whereAfterServer
  split at hrun
  case isTrue hserver =>
    split at hrun
    case isTrue htalk =>
      rw [if_pos ⟨hserver, htalk⟩]
      split at hrun
      case isTrue =>
        cases hrun
        intro ret p' heq
        cases heq
      case isFalse =>
        have hclient : (cppOnClient host).cpp_where = some .DCC_CPP_ON_CLIENT := rfl
        have hend := prepare_both_ends (by rw [hclient]; decide) h hrun
        exact hend
    case isFalse htalk =>
      rw [if_neg fun hboth => htalk hboth.2, hserver]
      apply kept_iff _ (by intro hfails; exact hfails)
      have hend := prepare_server_ends hserver h.unlock_local hrun
      exact hend
  case isFalse hserver =>
    rw [if_neg fun hboth => hserver hboth.1]
    exact prepare_both_ends hserver h hrun

/-- The host after what `dcc_perhaps_adjust_cpp_where_and_protover` makes of it. -/
def adjusted (c : Calls) (host : Hostdef) : Hostdef :=
  if host.cpp_where = some .DCC_CPP_ON_SERVER then dcc_perhaps_adjust_cpp_where_and_protover c host
  else host

/-- With the lock of this host both locks are held when the build is given up: the includes are
only to be listed, or what follows them fails. -/
def GivesUpWithBoth (c : Calls) (rounds : Nat) (host : Hostdef) (p : Process) : Prop :=
  (∃ near p' fd, dcc_lock_local_cpp rounds p none = some (.ok near, p', fd)) ∧
    (c.dcc_scan_includes = true ∨ FailsPreparing c (whereAfterServer c (adjusted c host)))

theorem buildRemotely_ends (h : HasLocks p (some r) none)
    (hrun : buildRemotely c rounds host (some r) p = some e) :
    EndsWell e (¬ GivesUpWithBoth c rounds host p ∧ NoneLost p) := by
  unfold buildRemotely at hrun
  cases hlock : dcc_lock_local_cpp rounds p none with
  | none =>
    rw [hlock] at hrun
    cases hrun
  | some result =>
    obtain ⟨ret, p', fd'⟩ := result
    rw [hlock] at hrun
    have hcall := dcc_lock_one_call hlock
    have hrefused : (∃ code, ret = .error code) → ¬ GivesUpWithBoth c rounds host p := by
      rintro ⟨code, rfl⟩ ⟨⟨near, p'', fd, hok⟩, _⟩
      rw [hlock] at hok
      cases hok
    cases hcall with
    | locked hbase hfd hevents hscript =>
      rw [lockKind_localHost (dcc_lock_one_mem hlock)] at hevents
      have hboth := h.take_local hbase hfd hevents
      have hgives : GivesUpWithBoth c rounds host p ↔ c.dcc_scan_includes = true ∨
          FailsPreparing c (whereAfterServer c (adjusted c host)) :=
        ⟨fun hgives => hgives.2, fun hfails => ⟨⟨_, _, _, hlock⟩, hfails⟩⟩
      simp only at hrun
      split at hrun
      case isTrue hscan =>
        cases hrun
        exact broken_iff (unlockAndCleanUp_broken hboth.unlock_early) (hgives.mpr (Or.inl hscan))
      case isFalse hscan =>
        have hend : EndsWell e (¬ FailsPreparing c (whereAfterServer c (adjusted c host)) ∧
          NoneLost p') :=
          scanIncludes_ends hboth hrun
        apply hend.congr
        unfold NoneLost
        rw [hgives, hscript, or_iff_right hscan]
    | refused hbase hevents hscript =>
      apply kept_iff _ (hrefused ⟨_, rfl⟩)
      unfold NoneLost
      rw [← hscript]
      exact fallback_ends (h.same hevents hbase) hrun
    | @lost code p' fd hbase hfd hevents hscript =>
      have hsame := (h.same hevents (Nat.le_trans hbase (Nat.le_of_lt hfd))).unlock_remote
      have hstale : holding (unlockIf (some fd) (unlockIf (some r) p')).events = none :=
        hsame.unlock_stale (by intro heq; cases heq)
      apply (fallback_broken hstale hrun).congr
      unfold NoneLost
      rw [hscript]
      exact ⟨False.elim, fun hgood => by cases hgood.2⟩

end Prepare

def PicksAndGivesUp (c : Calls) (rounds : Nat) (p : Process) : Prop :=
  ∃ host p' fd, dcc_pick_host_from_list_and_lock_it rounds c.hosts p none = some (.ok host, p', fd) ∧
    host.mode ≠ some .DCC_MODE_LOCAL ∧ GivesUpWithBoth c rounds host p'

theorem pickHost_ends (h : HasLocks p none none) (hrun : pickHost c rounds p = some e) :
    EndsWell e (¬ PicksAndGivesUp c rounds p ∧ NoneLost p) := by
  unfold pickHost at hrun
  cases hlock : dcc_pick_host_from_list_and_lock_it rounds c.hosts p none with
  | none =>
    rw [hlock] at hrun
    cases hrun
  | some result =>
    obtain ⟨ret, p', fd'⟩ := result
    rw [hlock] at hrun
    have hcall := dcc_pick_host_call hlock
    have hpicked : ∀ host, PicksAndGivesUp c rounds p → ret = .ok host →
        host.mode ≠ some .DCC_MODE_LOCAL ∧ GivesUpWithBoth c rounds host p' := by
      rintro host ⟨host', p'', fd'', hpick, hmode, hgives⟩ rfl
      rw [hlock] at hpick
      cases hpick
      exact ⟨hmode, hgives⟩
    have hrefused : (∃ code, ret = .error code) → ¬ PicksAndGivesUp c rounds p := by
      rintro ⟨code, rfl⟩ ⟨host', p'', fd'', hpick, _⟩
      rw [hlock] at hpick
      cases hpick
    cases hcall with
    | @locked host p' fd hbase hfd hevents hscript =>
      simp only at hrun
      split at hrun
      case isTrue hmode =>
        cases hrun
        have hkind : lockKind host = .near := if_pos hmode
        rw [hkind] at hevents
        apply kept_iff _ fun hgives => (hpicked host hgives rfl).1 hmode
        unfold NoneLost
        rw [← hscript]
        exact unlockAndCleanUp_local (h.take_local hbase hfd hevents)
      case isFalse hmode =>
        have hkind : lockKind host = .remote := if_neg hmode
        rw [hkind] at hevents
        apply (buildRemotely_ends (h.take_remote hfd hevents) hrun).congr
        unfold NoneLost
        rw [hscript]
        refine and_congr_left' (not_congr ⟨fun hgives => ⟨_, _, _, hlock, hmode, hgives⟩, ?_⟩)
        exact fun hgives => (hpicked host hgives rfl).2
    | refused hbase hevents hscript =>
      apply kept_iff _ (hrefused ⟨_, rfl⟩)
      unfold NoneLost
      rw [← hscript]
      exact fallback_ends (h.same hevents hbase) hrun
    | @lost code p' fd hbase hfd hevents hscript =>
      have hsame := h.same hevents (Nat.le_trans hbase (Nat.le_of_lt hfd))
      have hstale : holding (unlockIf (some fd) p').events = none :=
        hsame.unlock_stale (by intro heq; cases heq)
      apply (fallback_broken hstale hrun).congr
      unfold NoneLost
      rw [hscript]
      exact ⟨False.elim, fun hgood => by cases hgood.2⟩

end Labels

def GivesUpHoldingBoth (c : Calls) (rounds : Nat) (sg_level : Int) (p : Process) : Prop :=
  c.expand_preprocessor_options = 0 ∧ c.discrepancy_filename = 0 ∧ sg_level = 0 ∧
    c.scan_args = 0 ∧ c.make_tmpnam = 0 ∧ PicksAndGivesUp c rounds p

section Builds
variable {c : Calls} {rounds : Nat} {sg_level : Int} {p : Process} {e : BuildEnd}

theorem dcc_build_somewhere_ends (h : HasLocks p none none)
    (hrun : dcc_build_somewhere c rounds sg_level p = some e) :
    EndsWell e (¬ GivesUpHoldingBoth c rounds sg_level p ∧ NoneLost p) := by
  unfold dcc_build_somewhere at hrun
  split at hrun
  case isTrue hexpand =>
    cases hrun
    exact kept_iff (endsWell_done h) fun hgives => hexpand hgives.1
  case isFalse hexpand =>
  split at hrun
  case isTrue hname =>
    cases hrun
    exact kept_iff (endsWell_done h) fun hgives => hname hgives.2.1
  case isFalse hname =>
  split at hrun
  case isTrue hlevel =>
    cases hrun
    exact kept_iff (endsWell_done h) fun hgives => hlevel hgives.2.2.1
  case isFalse hlevel =>
  split at hrun
  case isTrue hscan => exact kept_iff (lockLocal_ends h hrun) fun hgives => hscan hgives.2.2.2.1
  case isFalse hscan =>
  split at hrun
  case isTrue htmp => exact kept_iff (fallback_ends h hrun) fun hgives => htmp hgives.2.2.2.2.1
  case isFalse htmp =>
    apply (pickHost_ends h hrun).congr
    refine and_congr_left' (not_congr ⟨fun hgives => ?_, fun hgives => hgives.2.2.2.2.2⟩)
    exact ⟨not_not.mp hexpand, not_not.mp hname, not_not.mp hlevel, not_not.mp hscan,
      not_not.mp htmp, hgives⟩

def Meets (c : Calls) (rounds : Nat) (sg_level : Int) (attempts : List LockAttempt) (ret : Int)
    (p : Process) : Prop :=
  dcc_build_somewhere c rounds sg_level ⟨attempts, 0, []⟩ = some (.returned ret p) ∧ p.attempts = []

/-- A build keeps the discipline unless it gives up with both locks, or an attempt fails with an
error and leaves a descriptor that is already closed. -/
theorem dcc_build_somewhere_disciplined_iff {attempts : List LockAttempt} {ret : Int}
    (h : Meets c rounds sg_level attempts ret p) : Disciplined p.events ↔
      ¬ GivesUpHoldingBoth c rounds sg_level ⟨attempts, 0, []⟩ ∧
        LosesDescriptor false attempts = false := by
  have hstart : HasLocks ⟨attempts, 0, []⟩ none none :=
    ⟨rfl, (by intro fd hfd; cases hfd), (by intro fd hfd; cases hfd)⟩
  exact dcc_build_somewhere_ends hstart h.1 ret p rfl h.2

def plainHost : Hostdef :=
  { newHost (ascii "far") with
    mode := some .DCC_MODE_TCP
    hostname := some (ascii "far")
    port := DISTCC_DEFAULT_PORT
    cpp_where := some .DCC_CPP_ON_CLIENT }

def smooth : Calls where
  expand_preprocessor_options := 0
  discrepancy_filename := 0
  scan_args := 0
  make_tmpnam := 0
  hosts := ⟨0, none, [plainHost]⟩
  too_many_discrepancies := false
  is_preprocessed := false
  cpath_set := false
  dcc_scan_includes := false
  approximate_includes := 0
  talk_to_include_server := 0
  testing_include_server := false
  cpp_maybe := 0
  strip_local_args := 0
  copy_argv := 0
  remote := ⟨0, 0, 0, 0, 0, 0, 0, 0⟩
  critique_status := 0
  copy_stderr := 0
  fallback := true
  compile_local := 0

/-- A remote compilation after a busy slot. -/
theorem smooth_disciplined : ∃ p, Meets smooth 1 0 [.busy, .locked, .locked] 0 p ∧
    p.events = [.acquire .remote 1, .acquire .near 2, .release 2, .release 1] ∧
    Disciplined p.events := by
  have hmeets : Meets smooth 1 0 [.busy, .locked, .locked] 0
      ⟨[], 3, [.acquire .remote 1, .acquire .near 2, .release 2, .release 1]⟩ := ⟨rfl, rfl⟩
  refine ⟨_, hmeets, rfl, ?_⟩
  apply (dcc_build_somewhere_disciplined_iff hmeets).mpr
  refine ⟨?_, rfl⟩
  rintro ⟨_, _, _, _, _, host, p', fd, hpick, _, _, hgives⟩
  cases hpick
  rcases hgives with hscan | hcpp | hstrip
  · cases hscan
  · exact hcpp rfl
  · exact hstrip rfl

/-- The preprocessor cannot be started, and the remote lock is given back before the local
one; the local lock cannot be taken, and a descriptor is closed twice. -/
theorem locks_out_of_order :
    (∃ p, Meets { smooth with cpp_maybe := 1 } 1 0 [.locked, .locked, .locked] 0 p ∧
      p.events = [.acquire .remote 0, .acquire .near 1, .release 0, .release 1,
        .acquire .near 2, .release 2] ∧ ¬ Disciplined p.events) ∧
    ∃ p, Meets smooth 1 0 [.locked, .failed, .locked] 0 p ∧
      p.events = [.acquire .remote 0, .release 0, .release 1, .acquire .near 2, .release 2] ∧
      ¬ Disciplined p.events := by
  constructor
  · exact ⟨⟨[], 3, [.acquire .remote 0, .acquire .near 1, .release 0, .release 1,
      .acquire .near 2, .release 2]⟩, ⟨rfl, rfl⟩, rfl, by decide⟩
  · exact ⟨⟨[], 3, [.acquire .remote 0, .release 0, .release 1, .acquire .near 2, .release 2]⟩,
      ⟨rfl, rfl⟩, rfl, by decide⟩

end Builds
end Toolwhip.Distcc
