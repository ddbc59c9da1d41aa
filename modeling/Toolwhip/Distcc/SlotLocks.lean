import Toolwhip.Distcc.Lock

/-! # Which slot is locked

One scan of `dcc_lock_one` against the lock files that other processes hold. Files can be opened, and
locking fails for no other reason. -/

namespace Toolwhip.Distcc.SlotLocks
open Lib.CNumber List
set_option autoImplicit false

abbrev Text := List UInt8

local instance text_lawful : LawfulBEq Text := List.instLawfulBEq

def decimal (n : Int) : Text :=
  (if n < 0 then [45] else []) ++ (Nat.toDigits 10 n.natAbs).map fun c => c.toNat.toUInt8

def hostname (host : Hostdef) : Text := host.hostname.getD (ascii "(null)")

section Scan
variable (lockdir : Text)

def dcc_make_lock_filename (lockname : Text) (host : Hostdef) (iter : Nat) : Except ExitCode Text :=
  match host.mode with
  | some .DCC_MODE_LOCAL =>
    .ok (lockdir ++ ascii "/" ++ lockname ++ ascii "_localhost" ++ ascii "_" ++ decimal iter)
  | some .DCC_MODE_TCP =>
    .ok (lockdir ++ ascii "/" ++ lockname ++
      (ascii "_tcp_" ++ hostname host ++ ascii "_" ++ decimal host.port)
      ++ ascii "_" ++ decimal iter)
  | some .DCC_MODE_SSH =>
    .ok (lockdir ++ ascii "/" ++ lockname ++ (ascii "_ssh_" ++ hostname host) ++ ascii "_" ++
      decimal iter)
  | none => .error .EXIT_PROTOCOL_ERROR

/-- Not blocking; what is locked afterwards -/
def dcc_lock_host (lockname : Text) (host : Hostdef) (slot : Nat) (locked : List Text) :
    Except ExitCode (List Text) :=
  if host.is_up = false then .error .EXIT_BUSY
  else
    match dcc_make_lock_filename lockdir lockname host slot with
    | .error ret => .error ret
    | .ok fname => if fname ∈ locked then .error .EXIT_BUSY else .ok (fname :: locked)

/-- `*buildhost` and `i_cpu`, and what is locked then -/
abbrev Chosen := Hostdef × Nat × List Text

/-- `none` at the end of the list -/
def scanHosts (i_cpu : Nat) (locked : List Text) : List Hostdef → Option (Except ExitCode Chosen)
  | [] => none
  | h :: next =>
    if (i_cpu : Int) ≥ h.n_slots then scanHosts i_cpu locked next
    else
      match dcc_lock_host lockdir (ascii "cpu") h i_cpu locked with
      | .ok locked' => some (.ok (h, i_cpu, locked'))
      | .error .EXIT_BUSY => scanHosts i_cpu locked next
      | .error ret => some (.error ret)

/-- `rounds` more values of `i_cpu` -/
def scanSlots (hostlist : List Hostdef) (locked : List Text) : Nat → Nat → Option (Except ExitCode Chosen)
  | 0, _ => none
  | rounds + 1, i_cpu =>
    match scanHosts lockdir i_cpu locked hostlist with
    | some result => some result
    | none => scanSlots hostlist locked rounds (i_cpu + 1)

/-- One turn of the loop of `dcc_lock_one`, which pauses if it is `none` -/
def scan (hostlist : List Hostdef) (locked : List Text) : Option (Except ExitCode Chosen) :=
  scanSlots lockdir hostlist locked 50 0

structure Free (locked : List Text) (host : Hostdef) (slot : Nat) : Prop where
  up : host.is_up = true
  within : (slot : Int) < host.n_slots
  unlocked : ∀ fname, dcc_make_lock_filename lockdir (ascii "cpu") host slot = .ok fname → fname ∉ locked

/-- The least slot that is free, of the first host that has it free, is locked, and nothing else. -/
structure Picks (hostlist : List Hostdef) (locked : List Text) (chosen : Chosen) : Prop where
  free : Free lockdir locked chosen.1 chosen.2.1
  least : ∀ slot, slot < chosen.2.1 → ∀ host ∈ hostlist, ¬ Free lockdir locked host slot
  earliest : ∃ before after, hostlist = before ++ chosen.1 :: after ∧
    ∀ host ∈ before, ¬ Free lockdir locked host chosen.2.1
  locks : ∃ fname, dcc_make_lock_filename lockdir (ascii "cpu") chosen.1 chosen.2.1 = .ok fname ∧
    chosen.2.2 = fname :: locked

def SomeFree (hostlist : List Hostdef) (locked : List Text) (bound : Nat → Prop) : Prop :=
  ∃ host ∈ hostlist, ∃ slot, bound slot ∧ Free lockdir locked host slot

structure ScansRight (hostlist : List Hostdef) (locked : List Text) : Prop where
  picks : SomeFree lockdir hostlist locked (fun _ => True) →
    ∃ chosen, scan lockdir hostlist locked = some (.ok chosen) ∧ Picks lockdir hostlist locked chosen
  pauses : ¬ SomeFree lockdir hostlist locked (fun _ => True) → scan lockdir hostlist locked = none

variable {lockdir} {hostlist : List Hostdef} {locked : List Text} {i_cpu : Nat}

theorem lock_free {h : Hostdef} (hmode : h.mode ≠ none) (hfree : Free lockdir locked h i_cpu) :
    ∃ fname, dcc_make_lock_filename lockdir (ascii "cpu") h i_cpu = .ok fname ∧
      dcc_lock_host lockdir (ascii "cpu") h i_cpu locked = .ok (fname :: locked) := by
  obtain ⟨fname, hname⟩ : ∃ fname, dcc_make_lock_filename lockdir (ascii "cpu") h i_cpu = .ok fname := by
    unfold dcc_make_lock_filename
    cases hm : h.mode with
    | none => exact absurd hm hmode
    | some mode => cases mode <;> exact ⟨_, rfl⟩
  refine ⟨fname, hname, ?_⟩
  simp [dcc_lock_host, hfree.up, hname, hfree.unlocked fname hname]

theorem lock_busy {h : Hostdef} (hmode : h.mode ≠ none) (hslot : (i_cpu : Int) < h.n_slots)
    (hbusy : ¬ Free lockdir locked h i_cpu) :
    dcc_lock_host lockdir (ascii "cpu") h i_cpu locked = .error .EXIT_BUSY := by
  unfold dcc_lock_host
  split
  · rfl
  rename_i hup
  cases hname : dcc_make_lock_filename lockdir (ascii "cpu") h i_cpu with
  | error ret =>
    unfold dcc_make_lock_filename at hname
    cases hm : h.mode with
    | none => exact absurd hm hmode
    | some mode => cases mode <;> simp [hm] at hname
  | ok fname =>
    by_cases hmem : fname ∈ locked
    · simp [hmem]
    refine absurd ⟨by simpa using hup, hslot, ?_⟩ hbusy
    intro fname' hname'
    rw [hname] at hname'
    exact Except.ok.inj hname' ▸ hmem

theorem scanHosts_append {before : List Hostdef} (hmode : ∀ h ∈ before, h.mode ≠ none)
    (hbusy : ∀ h ∈ before, ¬ Free lockdir locked h i_cpu) (after : List Hostdef) :
    scanHosts lockdir i_cpu locked (before ++ after) = scanHosts lockdir i_cpu locked after := by
  induction before with
  | nil => rfl
  | cons h next ih =>
    obtain ⟨hm, hmnext⟩ := List.forall_mem_cons.mp hmode
    obtain ⟨hb, hbnext⟩ := List.forall_mem_cons.mp hbusy
    rw [cons_append, scanHosts]
    split
    · exact ih hmnext hbnext
    rw [lock_busy hm (by omega) hb]
    exact ih hmnext hbnext

theorem exists_first {P : Hostdef → Prop} (h : ∃ host ∈ hostlist, P host) :
    ∃ before host after, hostlist = before ++ host :: after ∧ P host ∧ ∀ b ∈ before, ¬ P b := by
  induction hostlist with
  | nil => simp at h
  | cons head next ih =>
    by_cases hhead : P head
    · exact ⟨[], head, next, rfl, hhead, by simp⟩
    obtain ⟨before, host, after, rfl, hhost, hbefore⟩ := ih (by simpa [hhead] using h)
    exact ⟨head :: before, host, after, rfl, hhost, List.forall_mem_cons.mpr ⟨hhead, hbefore⟩⟩

theorem scanSlots_eq_none (i_cpu rounds : Nat) (hmode : ∀ h ∈ hostlist, h.mode ≠ none)
    (hbusy : ∀ slot, slot < i_cpu + rounds → ∀ h ∈ hostlist, ¬ Free lockdir locked h slot) :
    scanSlots lockdir hostlist locked rounds i_cpu = none := by
  induction rounds generalizing i_cpu with
  | zero => rfl
  | succ rounds ih =>
    have hnone := scanHosts_append hmode (hbusy i_cpu (by omega)) []
    rw [append_nil] at hnone
    rw [scanSlots, hnone]
    exact ih (i_cpu + 1) fun slot hlt => hbusy slot (by omega)

theorem scanSlots_picks {rounds slot : Nat} (hmode : ∀ h ∈ hostlist, h.mode ≠ none) (hle : i_cpu ≤ slot)
    (hlt : slot < i_cpu + rounds) (hfree : ∃ h ∈ hostlist, Free lockdir locked h slot)
    (hleast : ∀ j, j < slot → ∀ h ∈ hostlist, ¬ Free lockdir locked h j) :
    ∃ chosen, scanSlots lockdir hostlist locked rounds i_cpu = some (.ok chosen) ∧
      Picks lockdir hostlist locked chosen := by
  induction rounds generalizing i_cpu with
  | zero => omega
  | succ rounds ih =>
    rw [scanSlots]
    rcases Nat.lt_or_eq_of_le hle with hbefore | rfl
    · have hnone := scanHosts_append hmode (hleast i_cpu hbefore) []
      rw [append_nil] at hnone
      rw [hnone]
      exact ih hbefore (by omega)
    obtain ⟨before, host, after, rfl, hhost, hbusy⟩ := exists_first hfree
    obtain ⟨hmbefore, hmafter⟩ := List.forall_mem_append.mp hmode
    obtain ⟨fname, hname, hlock⟩ := lock_free (hmafter host mem_cons_self) hhost
    have hslot : ¬ (i_cpu : Int) ≥ host.n_slots := not_le.mpr hhost.within
    refine ⟨(host, i_cpu, fname :: locked), ?_, hhost, hleast, ⟨before, after, rfl, hbusy⟩, fname,
      hname, rfl⟩
    rw [scanHosts_append hmbefore hbusy, scanHosts, if_neg hslot, hlock]

theorem scansRight_iff (hmode : ∀ h ∈ hostlist, h.mode ≠ none) : ScansRight lockdir hostlist locked ↔
    (SomeFree lockdir hostlist locked (fun _ => True) → SomeFree lockdir hostlist locked (· < 50)) := by
  classical
  constructor
  · intro h hsome
    obtain ⟨chosen, hscan, hpicks⟩ := h.picks hsome
    by_contra hnone
    have := scanSlots_eq_none 0 50 hmode fun slot hlt host hmem hfree =>
      hnone ⟨host, hmem, slot, by omega, hfree⟩
    rw [scan, this] at hscan
    simp at hscan
  · intro himp
    refine ⟨?_, ?_⟩
    · intro hsome
      obtain ⟨host, hmem, slot, hlt, hfree⟩ := himp hsome
      have hex : ∃ slot, ∃ h ∈ hostlist, Free lockdir locked h slot := ⟨slot, host, hmem, hfree⟩
      have hmin := Nat.find_min' hex ⟨host, hmem, hfree⟩
      refine scanSlots_picks hmode (Nat.zero_le _) (by omega) (Nat.find_spec hex) ?_
      intro j hj h hh hfree'
      exact Nat.find_min hex hj ⟨h, hh, hfree'⟩
    · intro hnone
      exact scanSlots_eq_none _ _ hmode fun slot _ host hmem hfree =>
        hnone ⟨host, hmem, slot, trivial, hfree⟩

end Scan

/-! ## The scan and its attempts

The attempts of `Distcc.dcc_lock_one` meet what the lock files of the slots decide. -/

section Attempts
variable (lockdir : Text) (locked : List Text)

def slotsFrom (hostlist : List Hostdef) (i_cpu rounds : Nat) : List (Hostdef × Nat) :=
  (List.range' i_cpu rounds).flatMap fun (i : Nat) =>
    (hostlist.filter fun h => (i : Int) < h.n_slots).map fun h => (h, i)

def meets (slot : Hostdef × Nat) : LockAttempt :=
  match dcc_make_lock_filename lockdir (ascii "cpu") slot.1 slot.2 with
  | .error _ => .noFilename .EXIT_PROTOCOL_ERROR (by decide)
  | .ok fname => if fname ∈ locked then .busy else .locked

def attemptsAt (l : List (Hostdef × Nat)) : List LockAttempt :=
  (l.filter fun slot => slot.1.is_up).map (meets lockdir locked)

/-- The scan, slot after slot -/
def scanList : List (Hostdef × Nat) → Option (Except ExitCode Chosen)
  | [] => none
  | slot :: rest =>
    match dcc_lock_host lockdir (ascii "cpu") slot.1 slot.2 locked with
    | .ok locked' => some (.ok (slot.1, slot.2, locked'))
    | .error .EXIT_BUSY => scanList rest
    | .error ret => some (.error ret)

variable {lockdir locked} {hostlist : List Hostdef} {p : Process} {lock_fd : Option Nat}

theorem scanList_append (l m : List (Hostdef × Nat)) : scanList lockdir locked (l ++ m) =
    (scanList lockdir locked l).or (scanList lockdir locked m) := by
  induction l with
  | nil => rfl
  | cons slot l ih =>
    rw [cons_append, scanList, scanList]
    split
    · rfl
    · exact ih
    · rfl

theorem scanHosts_eq (i_cpu : Nat) : scanHosts lockdir i_cpu locked hostlist =
    scanList lockdir locked ((hostlist.filter fun h => (i_cpu : Int) < h.n_slots).map fun h =>
      (h, i_cpu)) := by
  induction hostlist with
  | nil => rfl
  | cons h next ih =>
    rw [scanHosts]
    by_cases hslot : (i_cpu : Int) < h.n_slots
    · rw [if_neg (not_le.mpr hslot), filter_cons_of_pos (by simpa using hslot), map_cons, scanList, ih]
    · rw [if_pos (not_lt.mp hslot), filter_cons_of_neg (by simpa using hslot), ih]

theorem scanSlots_eq (i_cpu rounds : Nat) : scanSlots lockdir hostlist locked rounds i_cpu =
    scanList lockdir locked (slotsFrom hostlist i_cpu rounds) := by
  induction rounds generalizing i_cpu with
  | zero => rfl
  | succ rounds ih =>
    have hsplit : slotsFrom hostlist i_cpu (rounds + 1) =
        ((hostlist.filter fun h => (i_cpu : Int) < h.n_slots).map fun h => (h, i_cpu)) ++
          slotsFrom hostlist (i_cpu + 1) rounds := by
      rw [slotsFrom, range'_succ, flatMap_cons]
      rfl
    rw [scanSlots, ih, scanHosts_eq, hsplit, scanList_append]
    cases scanList lockdir locked
      ((hostlist.filter fun h => (i_cpu : Int) < h.n_slots).map fun h => (h, i_cpu)) with
    | none => rfl
    | some result => rfl

theorem slots_eq (hostlist : List Hostdef) : slots hostlist = (slotsFrom hostlist 0 50).map Prod.fst := by
  unfold slots slotsFrom
  rw [map_flatMap, range_eq_range']
  simp [Function.comp_def]

theorem filename_error {lockname : Text} {host : Hostdef} {iter : Nat} {ret : ExitCode}
    (h : dcc_make_lock_filename lockdir lockname host iter = .error ret) :
    ret = .EXIT_PROTOCOL_ERROR := by
  unfold dcc_make_lock_filename at h
  split at h
  all_goals cases h
  rfl

theorem tryAll_scanList (l : List (Hostdef × Nat)) (more : List LockAttempt)
    (h : p.attempts = attemptsAt lockdir locked l ++ more) :
    ∃ p' lock_fd', tryAll (l.map Prod.fst) p lock_fd =
      some ((scanList lockdir locked l).map (Except.map Prod.fst), p', lock_fd') := by
  induction l generalizing p lock_fd with
  | nil => exact ⟨p, lock_fd, rfl⟩
  | cons slot l ih =>
    obtain ⟨host, i_cpu⟩ := slot
    rw [map_cons, tryAll, scanList, Distcc.dcc_lock_host, dcc_lock_host]
    cases hup : host.is_up with
    | false =>
      have hrest : attemptsAt lockdir locked ((host, i_cpu) :: l) = attemptsAt lockdir locked l := by
        simp [attemptsAt, hup]
      exact ih (hrest ▸ h)
    | true =>
      have hfirst : attemptsAt lockdir locked ((host, i_cpu) :: l) =
          meets lockdir locked (host, i_cpu) :: attemptsAt lockdir locked l := by
        simp [attemptsAt, hup]
      rw [hfirst, cons_append] at h
      rw [if_pos rfl, h, if_neg (by decide)]
      unfold meets
      cases hname : dcc_make_lock_filename lockdir (ascii "cpu") host i_cpu with
      | error ret =>
        obtain rfl := filename_error hname
        exact ⟨_, _, rfl⟩
      | ok fname =>
        by_cases hbusy : fname ∈ locked
        · simp only [hbusy, if_true]
          exact ih rfl
        · simp only [hbusy, if_false]
          exact ⟨_, _, rfl⟩

/-- One turn of the loop is the scan. -/
theorem tryAll_scan (more : List LockAttempt)
    (h : p.attempts = attemptsAt lockdir locked (slotsFrom hostlist 0 50) ++ more) :
    ∃ p' lock_fd', tryAll (slots hostlist) p lock_fd =
      some ((scan lockdir hostlist locked).map (Except.map Prod.fst), p', lock_fd') := by
  rw [slots_eq, scan, scanSlots_eq]
  exact tryAll_scanList _ more h

theorem dcc_lock_one_scan (rounds : Nat) (more : List LockAttempt) {result : Except ExitCode Chosen}
    (h : p.attempts = attemptsAt lockdir locked (slotsFrom hostlist 0 50) ++ more)
    (hscan : scan lockdir hostlist locked = some result) :
    ∃ p' lock_fd', Distcc.dcc_lock_one hostlist (rounds + 1) p lock_fd =
      some (result.map Prod.fst, p', lock_fd') := by
  obtain ⟨p', lock_fd', htry⟩ : ∃ p' lock_fd', tryAll (slots hostlist) p lock_fd =
      some ((scan lockdir hostlist locked).map (Except.map Prod.fst), p', lock_fd') :=
    tryAll_scan more h
  rw [Distcc.dcc_lock_one, htry, hscan]
  exact ⟨p', lock_fd', rfl⟩

end Attempts

/-! ## The names of the lock files -/

theorem last_split {s : UInt8} {x x' d d' : Text} (h : x ++ s :: d = x' ++ s :: d') (hd : s ∉ d)
    (hd' : s ∉ d') : x = x' ∧ d = d' := by
  rcases List.append_eq_append_iff.mp h with ⟨a, rfl, htail⟩ | ⟨a, rfl, htail⟩
  · cases a with
    | nil => simpa using htail
    | cons b a =>
      obtain ⟨-, rfl⟩ := List.cons.inj htail
      simp at hd
  · cases a with
    | nil => simpa using htail.symm
    | cons b a =>
      obtain ⟨-, rfl⟩ := List.cons.inj htail
      simp at hd'

theorem digit_toNat {n : Nat} {c : Char} (h : c ∈ Nat.toDigits 10 n) : 48 ≤ c.toNat ∧ c.toNat ≤ 57 := by
  have := Nat.isDigit_of_mem_toDigits (by decide) (by decide) h
  simpa [Char.isDigit, UInt32.le_iff_toNat_le] using this

theorem digits_inj {n m : Nat} (h : (Nat.toDigits 10 n).map (fun c => c.toNat.toUInt8) =
    (Nat.toDigits 10 m).map fun c => c.toNat.toUInt8) : n = m := by
  have hback : ∀ k, ((Nat.toDigits 10 k).map fun c => c.toNat.toUInt8).map (fun b => Char.ofNat b.toNat) =
      Nat.toDigits 10 k := by
    intro k
    rw [map_map]
    conv => rhs; rw [← map_id (Nat.toDigits 10 k)]
    apply map_congr_left
    intro c hc
    have hsmall : c.toNat.toUInt8.toNat = c.toNat := by
      have := digit_toNat hc
      simp
      omega
    simp [hsmall]
  have hsame : Nat.toDigits 10 n = Nat.toDigits 10 m := by rw [← hback n, h, hback m]
  rw [← Nat.ofDigitChars_ten_toDigits (n := n), hsame, Nat.ofDigitChars_ten_toDigits]

theorem decimal_inj {n m : Int} (h : decimal n = decimal m) : n = m := by
  have hsign : ∀ k j : Nat, (45 :: (Nat.toDigits 10 k).map fun c => c.toNat.toUInt8) ≠
      (Nat.toDigits 10 j).map fun c => c.toNat.toUInt8 := by
    intro k j heq
    obtain ⟨c, hc, hdash⟩ := List.mem_map.mp (heq ▸ mem_cons_self)
    have := digit_toNat hc
    have := congrArg UInt8.toNat hdash
    simp at this
    omega
  simp only [decimal] at h
  split at h <;> split at h
  · have := digits_inj (append_cancel_left h)
    omega
  · exact absurd h (hsign _ _)
  · exact absurd h.symm (hsign _ _)
  · have := digits_inj (append_cancel_left h)
    omega

/-- What a lock file stands for; the name of the host counts if it is not `localhost`, its port for
TCP. -/
def lockOf (host : Hostdef) (slot : Nat) : Option Mode × Option (Text × Option Int) × Nat :=
  (host.mode, if host.mode = some .DCC_MODE_LOCAL then none
    else some (hostname host, if host.mode = some .DCC_MODE_TCP then some host.port else none), slot)

/-- The name without what is the same for all and the slot -/
def coreOf (host : Hostdef) : Text :=
  match host.mode with
  | some .DCC_MODE_LOCAL => ascii "_localhost"
  | some .DCC_MODE_TCP => ascii "_tcp_" ++ (hostname host ++ 95 :: decimal host.port)
  | some .DCC_MODE_SSH => ascii "_ssh_" ++ hostname host
  | none => []

theorem filename_core {lockdir lockname fname : Text} {host : Hostdef} {slot : Nat}
    (h : dcc_make_lock_filename lockdir lockname host slot = .ok fname) :
    host.mode ≠ none ∧
      fname = (lockdir ++ ascii "/" ++ lockname) ++ coreOf host ++ 95 :: decimal slot := by
  have hbar : ascii "_" = [95] := rfl
  unfold dcc_make_lock_filename at h
  unfold coreOf
  cases hmode : host.mode with
  | none => simp [hmode] at h
  | some mode => cases mode <;> simp [hmode, hbar] at h ⊢ <;> exact h.symm

theorem not_mem_decimal (n : Int) : (95 : UInt8) ∉ decimal n := by
  intro hmem
  rcases List.mem_append.mp hmem with hsign | hdigit
  · split at hsign <;> simp at hsign
  obtain ⟨c, hc, hbar⟩ := List.mem_map.mp hdigit
  have := digit_toNat hc
  have := congrArg UInt8.toNat hbar
  simp at this
  omega

theorem filename_inj {lockdir lockname fname : Text} {host host' : Hostdef} {slot slot' : Nat}
    (h : dcc_make_lock_filename lockdir lockname host slot = .ok fname)
    (h' : dcc_make_lock_filename lockdir lockname host' slot' = .ok fname) :
    lockOf host slot = lockOf host' slot' := by
  obtain ⟨hmode, hname⟩ := filename_core h
  obtain ⟨hmode', hname'⟩ := filename_core h'
  obtain ⟨hfront, hslot⟩ := last_split (hname.symm.trans hname') (not_mem_decimal _) (not_mem_decimal _)
  have hcore := append_cancel_left hfront
  obtain rfl : slot = slot' := by exact_mod_cast decimal_inj hslot
  have htcp : ascii "_tcp_" = [95, 116, 99, 112, 95] := rfl
  have hssh : ascii "_ssh_" = [95, 115, 115, 104, 95] := rfl
  have hlocal : ascii "_localhost" = [95, 108, 111, 99, 97, 108, 104, 111, 115, 116] := rfl
  rcases hm : host.mode with _ | _ | _ | _
  · exact absurd hm hmode
  all_goals
    rcases hm' : host'.mode with _ | _ | _ | _
    · exact absurd hm' hmode'
    all_goals
      simp only [coreOf, lockOf, hm, hm', htcp, hssh, hlocal] at hcore ⊢
      simp at hcore ⊢
  · obtain ⟨hhost, hport⟩ := last_split hcore (not_mem_decimal _) (not_mem_decimal _)
    exact ⟨hhost, decimal_inj hport⟩
  · exact hcore

/-- A scan does what it should unless the only slots that are free come behind the first fifty; and no
lock file is shared. -/
theorem dcc_lock_one_right (lockdir : Text) (hostlist : List Hostdef) (locked : List Text)
    (hmode : ∀ h ∈ hostlist, h.mode ≠ none) : (ScansRight lockdir hostlist locked ↔
      (SomeFree lockdir hostlist locked (fun _ => True) → SomeFree lockdir hostlist locked (· < 50))) ∧
    ∀ lockname fname host host' slot slot',
      dcc_make_lock_filename lockdir lockname host slot = .ok fname →
      dcc_make_lock_filename lockdir lockname host' slot' = .ok fname →
        lockOf host slot = lockOf host' slot' :=
  ⟨scansRight_iff hmode, fun _ _ _ _ _ _ => filename_inj⟩

def oneHost (n_slots : Int) : Hostdef :=
  { newHost (ascii "a") with mode := some .DCC_MODE_LOCAL, n_slots := n_slots }

theorem dcc_lock_one_four : ScansRight [] [oneHost 4] [] :=
  (dcc_lock_one_right [] [oneHost 4] [] (by decide)).1.mpr fun _ =>
    ⟨oneHost 4, by simp, 0, by decide, by decide, by decide, by simp⟩

def fiftyLocked : List Text := (List.range 50).map fun slot => ascii "/cpu_localhost_" ++ decimal slot

theorem fifty_slots : ¬ ScansRight [] [oneHost 51] fiftyLocked := by
  intro h
  have hfree : Free [] fiftyLocked (oneHost 51) 50 := by
    refine ⟨rfl, by decide, ?_⟩
    intro fname hname
    obtain rfl := Except.ok.inj hname
    decide +kernel
  obtain ⟨chosen, hscan, -⟩ := h.picks ⟨oneHost 51, by simp, 50, trivial, hfree⟩
  have hnone : scan [] [oneHost 51] fiftyLocked = none := by decide +kernel
  rw [hnone] at hscan
  simp at hscan

end Toolwhip.Distcc.SlotLocks
