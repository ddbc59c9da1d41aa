import Toolwhip.Lib.LockOrder
import Toolwhip.Distcc.Hosts

/-! # Locking a host

lock.c and where.c. What each attempt at a slot meets is given by a script. A descriptor
stands for one `open`, not for its number, and `none` is -1. -/

namespace Toolwhip.Distcc
open Lib.CNumber Lib.LockOrder
set_option autoImplicit false

inductive LockAttempt where
  | noFilename (ret : ExitCode) (other : ret ≠ .EXIT_BUSY)
  /-- `open` fails, and it sets `errno` to EEXIST or not -/
  | noFile (eexist : Bool)
  | busy
  | failed
  | locked

/-- The process as far as locks go, and what its next attempts meet. -/
structure Process where
  attempts : List LockAttempt
  descriptors : Nat
  events : List (Event Nat)

def lockKind (host : Hostdef) : LockKind := if host.mode = some .DCC_MODE_LOCAL then .near else .remote

def dcc_unlock (lock_fd : Nat) (p : Process) : Process :=
  { p with events := p.events ++ [.release lock_fd] }

section LockHost
variable (host : Hostdef)

/-- The return value, the process and `*lock_fd`. -/
abbrev LockResult := Except ExitCode Unit × Process × Option Nat

/-- `*lock_fd` keeps the descriptor of an attempt after `dcc_close`. -/
def tryLock (a : LockAttempt) (p : Process) (lock_fd : Option Nat) : LockResult :=
  let opened := { p with descriptors := p.descriptors + 1 }
  match a with
  | .noFilename ret _ => (.error ret, p, lock_fd)
  | .noFile _ => (.error .EXIT_IO_ERROR, p, none)
  | .busy => (.error .EXIT_BUSY, opened, some p.descriptors)
  | .failed => (.error .EXIT_IO_ERROR, opened, some p.descriptors)
  | .locked =>
    (.ok (), { opened with events := p.events ++ [.acquire (lockKind host) p.descriptors] },
      some p.descriptors)

/-- `none` when it has not returned. -/
def dcc_lock_host (p : Process) (lock_fd : Option Nat) : Option LockResult :=
  if host.is_up then
    match p.attempts with
    | [] => none
    | a :: attempts => some (tryLock host a { p with attempts := attempts } lock_fd)
  else some (.error .EXIT_BUSY, p, lock_fd)

end LockHost

def slots (hostlist : List Hostdef) : List Hostdef :=
  (List.range 50).flatMap fun (i_cpu : Nat) => hostlist.filter fun h => (i_cpu : Int) < h.n_slots

/-- The return value is `none` when every slot was busy. -/
def tryAll : List Hostdef → Process → Option Nat →
    Option (Option (Except ExitCode Hostdef) × Process × Option Nat)
  | [], p, lock_fd => some (none, p, lock_fd)
  | h :: hosts, p, lock_fd =>
    match dcc_lock_host h p lock_fd with
    | none => none
    | some (.ok (), p, lock_fd) => some (some (.ok h), p, lock_fd)
    | some (.error ret, p, lock_fd) =>
      if ret = .EXIT_BUSY then tryAll hosts p lock_fd else some (some (.error ret), p, lock_fd)

def dcc_lock_one (hostlist : List Hostdef) (rounds : Nat) (p : Process) (lock_fd : Option Nat) :
    Option (Except ExitCode Hostdef × Process × Option Nat) :=
  match rounds with
  | 0 => none
  | rounds + 1 =>
    match tryAll (slots hostlist) p lock_fd with
    | none => none
    | some (none, p, lock_fd) => dcc_lock_one hostlist rounds p lock_fd
    | some (some ret, p, lock_fd) => some (ret, p, lock_fd)

def localHost (n_slots : Int) : Hostdef :=
  { newHost (ascii "localhost") with
    mode := some .DCC_MODE_LOCAL
    hostname := some (ascii "localhost")
    n_slots := n_slots
    cpp_where := some .DCC_CPP_ON_CLIENT }

def dcc_hostdef_local : Hostdef := localHost 4
def dcc_hostdef_local_cpp : Hostdef := localHost 8

section Pick
variable (rounds : Nat)

def dcc_lock_local := dcc_lock_one [dcc_hostdef_local] rounds

def dcc_lock_local_cpp := dcc_lock_one [dcc_hostdef_local_cpp] rounds

structure HostSource where
  get_hostlist : Int
  remove_disliked : Option ExitCode
  hostlist : List Hostdef

def dcc_pick_host_from_list_and_lock_it (l : HostSource) (p : Process) (lock_fd : Option Nat) :
    Option (Except ExitCode Hostdef × Process × Option Nat) :=
  if l.get_hostlist ≠ 0 then some (.error .EXIT_NO_HOSTS, p, lock_fd)
  else
    match l.remove_disliked with
    | some ret => some (.error ret, p, lock_fd)
    | none =>
      if l.hostlist = [] then some (.error .EXIT_NO_HOSTS, p, lock_fd)
      else dcc_lock_one l.hostlist rounds p lock_fd

end Pick

/-! ## What a call leaves behind -/

/-- An attempt fails with an error, and the caller is left with a descriptor that is closed. -/
def LosesDescriptor (afterBusy : Bool) : List LockAttempt → Bool
  | [] => false
  | .failed :: _ => true
  | .noFilename _ _ :: attempts => afterBusy || LosesDescriptor false attempts
  | .busy :: attempts => LosesDescriptor true attempts
  | .noFile _ :: attempts => LosesDescriptor false attempts
  | .locked :: attempts => LosesDescriptor false attempts

section Call
variable (base : Nat) (events : List (Event Nat)) (loses : Bool)

/-- A call that has met busy slots only, if any, since `base` descriptors were opened. -/
structure Waiting (afterBusy : Bool) (p : Process) (lock_fd : Option Nat) : Prop where
  opened : base ≤ p.descriptors
  same : p.events = events
  script : LosesDescriptor afterBusy p.attempts = loses
  handed : if afterBusy then ∃ fd, lock_fd = some fd ∧ base ≤ fd ∧ fd < p.descriptors
    else lock_fd = none

/-- What a call returns, and what `*lock_fd` is then. -/
inductive LockCall : Except ExitCode Hostdef → Process → Option Nat → Prop
  | locked {host : Hostdef} {p : Process} {fd : Nat} (hbase : base ≤ fd) (hfd : fd < p.descriptors)
      (hevents : p.events = events ++ [.acquire (lockKind host) fd])
      (hscript : LosesDescriptor false p.attempts = loses) : LockCall (.ok host) p (some fd)
  | refused {ret : ExitCode} {p : Process} (hbase : base ≤ p.descriptors)
      (hevents : p.events = events) (hscript : LosesDescriptor false p.attempts = loses) :
      LockCall (.error ret) p none
  | lost {ret : ExitCode} {p : Process} {fd : Nat} (hbase : base ≤ fd) (hfd : fd < p.descriptors)
      (hevents : p.events = events) (hscript : loses = true) : LockCall (.error ret) p (some fd)

end Call

section Steps
variable {base : Nat} {events : List (Event Nat)} {loses afterBusy : Bool} {p p' : Process}
  {lock_fd lock_fd' : Option Nat} {host : Hostdef}
variable {rounds : Nat} {hosts : List Hostdef}

theorem dcc_lock_host_step (hwait : Waiting base events loses afterBusy p lock_fd)
    {r : Except ExitCode Unit} (h : dcc_lock_host host p lock_fd = some (r, p', lock_fd')) :
    (r = .ok () ∧ LockCall base events loses (.ok host) p' lock_fd') ∨
      (∃ ret, r = .error ret ∧ ret ≠ .EXIT_BUSY ∧
        LockCall base events loses (.error ret) p' lock_fd') ∨
      r = .error .EXIT_BUSY ∧ ∃ afterBusy', Waiting base events loses afterBusy' p' lock_fd' := by
  obtain ⟨hopened, hsame, hscript, hhanded⟩ := hwait
  unfold dcc_lock_host at h
  by_cases hup : host.is_up = true
  · rw [if_pos hup] at h
    cases hattempts : p.attempts with
    | nil =>
      rw [hattempts] at h
      cases h
    | cons a attempts =>
      rw [hattempts] at h hscript
      cases a with
      | noFilename ret hother =>
        cases h
        refine Or.inr (Or.inl ⟨ret, rfl, hother, ?_⟩)
        cases afterBusy with
        | false =>
          obtain rfl : lock_fd = none := by simpa using hhanded
          exact LockCall.refused hopened hsame (by simpa [LosesDescriptor] using hscript)
        | true =>
          obtain ⟨fd, rfl, hbase, hfd⟩ := by simpa using hhanded
          exact LockCall.lost hbase hfd hsame (by simpa [LosesDescriptor] using hscript.symm)
      | noFile eexist =>
        cases h
        refine Or.inr (Or.inl ⟨_, rfl, by decide, ?_⟩)
        exact LockCall.refused hopened hsame hscript
      | busy =>
        cases h
        refine Or.inr (Or.inr ⟨rfl, true, Nat.le_succ_of_le hopened, hsame, hscript, ?_⟩)
        exact ⟨p.descriptors, rfl, hopened, Nat.lt_succ_self _⟩
      | failed =>
        cases h
        refine Or.inr (Or.inl ⟨_, rfl, by decide, ?_⟩)
        exact LockCall.lost hopened (Nat.lt_succ_self _) hsame hscript.symm
      | locked =>
        cases h
        refine Or.inl ⟨rfl, LockCall.locked hopened (Nat.lt_succ_self _) ?_ hscript⟩
        simp [hsame]
  · rw [if_neg hup] at h
    cases h
    exact Or.inr (Or.inr ⟨rfl, afterBusy, hopened, hsame, hscript, hhanded⟩)

theorem tryAll_steps {r : Option (Except ExitCode Hostdef)}
    (hwait : Waiting base events loses afterBusy p lock_fd)
    (h : tryAll hosts p lock_fd = some (r, p', lock_fd')) :
    (∃ ret, r = some ret ∧ LockCall base events loses ret p' lock_fd') ∨
      r = none ∧ ∃ afterBusy', Waiting base events loses afterBusy' p' lock_fd' := by
  induction hosts generalizing p lock_fd afterBusy with
  | nil =>
    cases h
    exact Or.inr ⟨rfl, afterBusy, hwait⟩
  | cons host hosts ih =>
    unfold tryAll at h
    cases hlock : dcc_lock_host host p lock_fd with
    | none =>
      rw [hlock] at h
      cases h
    | some result =>
      obtain ⟨got, p₁, fd₁⟩ := result
      rw [hlock] at h
      rcases dcc_lock_host_step hwait hlock with
        ⟨rfl, hcall⟩ | ⟨ret, rfl, hother, hcall⟩ | ⟨rfl, afterBusy', hnext⟩
      · cases h
        exact Or.inl ⟨_, rfl, hcall⟩
      · simp only [if_neg hother] at h
        cases h
        exact Or.inl ⟨_, rfl, hcall⟩
      · exact ih hnext h

variable {hostlist : List Hostdef} {r : Except ExitCode Hostdef}

theorem dcc_lock_one_waits (hwait : Waiting base events loses afterBusy p lock_fd)
    (h : dcc_lock_one hostlist rounds p lock_fd = some (r, p', lock_fd')) :
    LockCall base events loses r p' lock_fd' := by
  induction rounds generalizing p lock_fd afterBusy with
  | zero => cases h
  | succ rounds ih =>
    unfold dcc_lock_one at h
    cases hall : tryAll (slots hostlist) p lock_fd with
    | none =>
      rw [hall] at h
      cases h
    | some result =>
      obtain ⟨got, p₁, fd₁⟩ := result
      rw [hall] at h
      rcases tryAll_steps hwait hall with ⟨ret, rfl, hcall⟩ | ⟨rfl, afterBusy', hnext⟩
      · cases h
        exact hcall
      · exact ih hnext h

theorem dcc_lock_one_call (h : dcc_lock_one hostlist rounds p none = some (r, p', lock_fd')) :
    LockCall p.descriptors p.events (LosesDescriptor false p.attempts) r p' lock_fd' := by
  have hstart : Waiting p.descriptors p.events (LosesDescriptor false p.attempts) false p none :=
    ⟨Nat.le_refl _, rfl, rfl, rfl⟩
  exact dcc_lock_one_waits hstart h

theorem dcc_pick_host_call {l : HostSource}
    (h : dcc_pick_host_from_list_and_lock_it rounds l p none = some (r, p', lock_fd')) :
    LockCall p.descriptors p.events (LosesDescriptor false p.attempts) r p' lock_fd' := by
  unfold dcc_pick_host_from_list_and_lock_it at h
  split at h
  case isTrue =>
    cases h
    exact LockCall.refused (Nat.le_refl _) rfl rfl
  case isFalse =>
    split at h
    · cases h
      exact LockCall.refused (Nat.le_refl _) rfl rfl
    split at h
    case isTrue =>
      cases h
      exact LockCall.refused (Nat.le_refl _) rfl rfl
    case isFalse => exact dcc_lock_one_call h

theorem tryAll_mem
    (h : tryAll hosts p lock_fd = some (some (.ok host), p', lock_fd')) : host ∈ hosts := by
  induction hosts generalizing p lock_fd with
  | nil => cases h
  | cons first hosts ih =>
    unfold tryAll at h
    split at h
    · cases h
    · cases h
      exact List.mem_cons_self
    split at h
    · exact List.mem_cons_of_mem _ (ih h)
    · cases h

theorem dcc_lock_one_mem
    (h : dcc_lock_one hostlist rounds p lock_fd = some (.ok host, p', lock_fd')) :
    host ∈ hostlist := by
  induction rounds generalizing p lock_fd with
  | zero => cases h
  | succ rounds ih =>
    unfold dcc_lock_one at h
    split at h
    · cases h
    · exact ih h
    rename_i hall
    cases h
    obtain ⟨i_cpu, _, hmem⟩ := List.mem_flatMap.mp (tryAll_mem hall)
    exact List.mem_of_mem_filter hmem

theorem lockKind_localHost {n_slots : Int} (h : host ∈ [localHost n_slots]) :
    lockKind host = .near := by
  obtain rfl := List.mem_singleton.mp h
  rfl

end Steps

end Toolwhip.Distcc
