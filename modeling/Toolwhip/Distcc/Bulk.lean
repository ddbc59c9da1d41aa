import Toolwhip.Distcc.Rpc

/-! # Sending a file

bulk.c, with what it calls of pump.c, sendfile.c, io.c and compress.c. What the system calls return is
given with the run: the answers to all `read`s, to all `write`s and to all `sendfile`s, in the order in
which they are made. A run that makes a call for which there is no answer has not come back. -/

namespace Toolwhip.Distcc.Bulk
open Lib.CNumber List
set_option autoImplicit false

/-- What `select` returns, and with a positive result what `FD_ISSET` says. -/
inductive SelectAnswer where
  | interrupted
  | failed
  | timeout
  | ready (isset : Bool)
  deriving DecidableEq

/-- What `read`, `write` or `sendfile` returns: a count, or -1 with `EINTR`, with `EAGAIN` (and then
come the calls of `select`), or with another error. -/
inductive Answer where
  | count (n : Nat)
  | interrupted
  | again (selects : List SelectAnswer)
  | failed
  deriving DecidableEq

abbrev Ret := Except ExitCode Unit

structure Io where
  reads : List Answer
  writes : List Answer
  sendfiles : List Answer
  file : List UInt8
  sent : List UInt8

section Calls

def selectLoop (checksSet : Bool) : List SelectAnswer → Option Ret
  | [] => none
  | .interrupted :: rest => selectLoop checksSet rest
  | .failed :: _ => some (.error .EXIT_IO_ERROR)
  | .timeout :: _ => some (.error .EXIT_IO_ERROR)
  | .ready isset :: rest => if checksSet && !isset then selectLoop checksSet rest else some (.ok ())

/-- "how did fd not get set?" -/
def dcc_select_for_read : List SelectAnswer → Option Ret := selectLoop true

def dcc_select_for_write : List SelectAnswer → Option Ret := selectLoop false

/-- `if ((ret = dcc_select_for_…)) return ret; else continue;` -/
def afterSelect {α : Type} (selected : Option Ret) (give : ExitCode → α) (continue_ : Option α) :
    Option α :=
  match selected with
  | none => none
  | some (.error e) => some (give e)
  | some (.ok ()) => continue_

def readxLoop : List Answer → Nat → List UInt8 → List UInt8 →
    Option (Except ExitCode (List UInt8) × List Answer × List UInt8)
  | reads, 0, file, buf => some (.ok buf, reads, file)
  | [], _ + 1, _, _ => none
  | .again selects :: reads, len + 1, file, buf =>
    afterSelect (dcc_select_for_read selects) (fun e => (.error e, reads, file))
      (readxLoop reads (len + 1) file buf)
  | .interrupted :: reads, len + 1, file, buf => readxLoop reads (len + 1) file buf
  | .failed :: reads, _ + 1, file, _ => some (.error .EXIT_IO_ERROR, reads, file)
  | .count r :: reads, len + 1, file, buf =>
    if r = 0 then some (.error .EXIT_TRUNCATED, reads, file)
    else if r ≤ len + 1 ∧ r ≤ file.length then
      readxLoop reads (len + 1 - r) (file.drop r) (buf ++ file.take r)
    else none

def dcc_readx (len : Nat) (io : Io) : Option (Except ExitCode (List UInt8) × Io) :=
  (readxLoop io.reads len io.file []).map fun (ret, reads, file) =>
    (ret, { io with reads := reads, file := file })

/-- `dcc_writex` goes on after a `write` of no bytes, the pump fails. -/
def writeLoop (zeroFails : Bool) : List Answer → List UInt8 → List UInt8 →
    Option (Ret × List Answer × List UInt8)
  | writes, [], sent => some (.ok (), writes, sent)
  | [], _ :: _, _ => none
  | .again selects :: writes, b :: buf, sent =>
    afterSelect (dcc_select_for_write selects) (fun e => (.error e, writes, sent))
      (writeLoop zeroFails writes (b :: buf) sent)
  | .interrupted :: writes, b :: buf, sent => writeLoop zeroFails writes (b :: buf) sent
  | .failed :: writes, _ :: _, sent => some (.error .EXIT_IO_ERROR, writes, sent)
  | .count r :: writes, b :: buf, sent =>
    if zeroFails && r == 0 then some (.error .EXIT_IO_ERROR, writes, sent)
    else if r ≤ buf.length + 1 then
      writeLoop zeroFails writes ((b :: buf).drop r) (sent ++ (b :: buf).take r)
    else none

def writeAll (zeroFails : Bool) (buf : List UInt8) (io : Io) : Option (Ret × Io) :=
  (writeLoop zeroFails io.writes buf io.sent).map fun (ret, writes, sent) =>
    (ret, { io with writes := writes, sent := sent })

def dcc_writex : List UInt8 → Io → Option (Ret × Io) := writeAll false

end Calls

section Pump

def bufSize : Nat := 262144

def pumpLoop : List Answer → Nat → Io → Option (Ret × Io)
  | reads, 0, io => some (.ok (), { io with reads := reads })
  | [], _ + 1, _ => none
  | .again selects :: reads, n + 1, io =>
    afterSelect (dcc_select_for_read selects) (fun e => (.error e, { io with reads := reads }))
      (pumpLoop reads (n + 1) io)
  | .interrupted :: reads, n + 1, io => pumpLoop reads (n + 1) io
  | .failed :: reads, _ + 1, io => some (.error .EXIT_IO_ERROR, { io with reads := reads })
  | .count r_in :: reads, n + 1, io =>
    if r_in = 0 then some (.error .EXIT_IO_ERROR, { io with reads := reads })
    else if r_in ≤ min bufSize (n + 1) ∧ r_in ≤ io.file.length then
      match writeAll true (io.file.take r_in) { io with file := io.file.drop r_in } with
      | none => none
      | some (.error e, io) => some (.error e, { io with reads := reads })
      | some (.ok (), io) => pumpLoop reads (n + 1 - r_in) io
    else none

def dcc_pump_readwrite (n : Nat) (io : Io) : Option (Ret × Io) := pumpLoop io.reads n io

/-- With the `sendfile` of Linux, which leaves the position of the file alone. -/
def sendfileLoop : List Answer → Nat → Nat → Io → Option (Ret × Io)
  | sendfiles, _, 0, io => some (.ok (), { io with sendfiles := sendfiles })
  | [], _, _ + 1, _ => none
  | .again selects :: sendfiles, offset, size + 1, io =>
    afterSelect (dcc_select_for_write selects)
      (fun e => (.error e, { io with sendfiles := sendfiles }))
      (sendfileLoop sendfiles offset (size + 1) io)
  | .interrupted :: sendfiles, offset, size + 1, io => sendfileLoop sendfiles offset (size + 1) io
  | .failed :: sendfiles, offset, size + 1, io =>
    if offset = 0 then dcc_pump_readwrite (size + 1) { io with sendfiles := sendfiles }
    else some (.error .EXIT_IO_ERROR, { io with sendfiles := sendfiles })
  | .count sent :: sendfiles, offset, size + 1, io =>
    if sent = 0 then some (.error .EXIT_IO_ERROR, { io with sendfiles := sendfiles })
    else if sent ≤ size + 1 ∧ offset + sent ≤ io.file.length then
      if sent ≠ size + 1 then
        sendfileLoop sendfiles (offset + sent) (size + 1 - sent)
          { io with sent := io.sent ++ (io.file.drop offset).take sent }
      else
        some (.ok (), { io with
          sendfiles := sendfiles
          sent := io.sent ++ (io.file.drop offset).take sent })
    else none

def dcc_pump_sendfile (size : Nat) (io : Io) : Option (Ret × Io) := sendfileLoop io.sendfiles 0 size io

end Pump

section File

def dcc_x_token_int (token : CString) (param : BitVec 32) (io : Io) : Option (Ret × Io) :=
  match Distcc.dcc_x_token_int token param with
  | .error e => some (.error e, io)
  | .ok buf => dcc_writex buf io

variable (m : Machine) (lzo1x_1_compress : List UInt8 → Option (List UInt8))

def dcc_compress_lzo1x_alloc (in_buf : List UInt8) : Except ExitCode (List UInt8) :=
  if m.malloc 1 = false then .error .EXIT_OUT_OF_MEMORY
  else
    match lzo1x_1_compress in_buf with
    | none => .error .EXIT_IO_ERROR
    | some out_buf => .ok out_buf

def dcc_compress_file_lzo1x (in_len : Nat) (io : Io) :
    Option (Except ExitCode (List UInt8) × Io) :=
  if m.malloc 0 = false then some (.error .EXIT_OUT_OF_MEMORY, io)
  else
    match dcc_readx in_len io with
    | none => none
    | some (.error e, io) => some (.error e, io)
    | some (.ok in_buf, io) => some (dcc_compress_lzo1x_alloc m lzo1x_1_compress in_buf, io)

def dcc_x_file_lzo1x (token : CString) (in_len : BitVec 32) (io : Io) : Option (Ret × Io) :=
  if in_len = 0 then dcc_x_token_int token 0 io
  else
    match dcc_compress_file_lzo1x m lzo1x_1_compress in_len.toNat io with
    | none => none
    | some (.error e, io) => some (.error e, io)
    | some (.ok out_buf, io) =>
      match dcc_x_token_int token (BitVec.ofNat 32 out_buf.length) io with
      | none => none
      | some (.error e, io) => some (.error e, io)
      | some (.ok (), io) => dcc_writex out_buf io

inductive Opened where
  | enoent
  | failed
  | fstatFailed
  | size (f_size : Nat)
  deriving DecidableEq

inductive Compression where
  | DCC_COMPRESS_NONE
  | DCC_COMPRESS_LZO1X
  | invalid
  deriving DecidableEq

variable (haveSendfile : Bool)

def pumpBody (n : Nat) (io : Io) : Option (Ret × Io) :=
  if haveSendfile then dcc_pump_sendfile n io else dcc_pump_readwrite n io

def dcc_x_file (opened : Opened) (token : CString) (compression : Compression) (io : Io) :
    Option (Ret × Io) :=
  match opened with
  | .size f_size =>
    match compression with
    | .DCC_COMPRESS_NONE =>
      match dcc_x_token_int token (BitVec.ofNat 32 f_size) io with
      | none => none
      | some (.error e, io) => some (.error e, io)
      -- What the pump returns is put into `ret` and left there.
      | some (.ok (), io) =>
        (pumpBody haveSendfile (f_size % 2 ^ m.sizeBits) io).map fun pumped => (.ok (), pumped.2)
    | .DCC_COMPRESS_LZO1X =>
      (dcc_x_file_lzo1x m lzo1x_1_compress token (BitVec.ofNat 32 f_size) io).map fun sent =>
        (.ok (), sent.2)
    | .invalid => some (.error .EXIT_PROTOCOL_ERROR, io)
  | _ => some (.error .EXIT_IO_ERROR, io)

end File

section Answers

def accepted : List Answer → Nat
  | [] => 0
  | .count n :: answers => n + accepted answers
  | _ :: answers => accepted answers

def selectEnds (checksSet : Bool) : SelectAnswer → Bool
  | .interrupted => false
  | .ready isset => !checksSet || isset
  | _ => true

def Answer.waitFails (checksSet : Bool) : Answer → Prop
  | .again selects =>
    ∃ s, selects.find? (selectEnds checksSet) = some s ∧ (s = .failed ∨ s = .timeout)
  | _ => False

def Answer.fails (checksSet : Bool) (a : Answer) : Prop := a = .failed ∨ a.waitFails checksSet

def ReadsFail (reads : List Answer) : Prop := ∃ a ∈ reads, a.fails true ∨ a = .count 0

/-- A `write` of no bytes fails where it is not made again. -/
def WritesFail (writes : List Answer) : Prop :=
  (∃ a ∈ writes, a.fails false) ∨ writes.getLast? = some (.count 0)

/-- An error at the start of the file is none: `read` and `write` take over. -/
def SendfilesFail (offset : Nat) (sendfiles : List Answer) : Prop :=
  (∃ a ∈ sendfiles, a.waitFails false ∨ a = .count 0) ∨
    .failed ∈ sendfiles ∧ 0 < offset + accepted sendfiles

@[simp] theorem accepted_append (l m : List Answer) : accepted (l ++ m) = accepted l + accepted m := by
  induction l with
  | nil => simp [accepted]
  | cons a l ih => cases a <;> simp [accepted, ih, Nat.add_assoc]

theorem selectLoop_eq (checksSet : Bool) (selects : List SelectAnswer) :
    selectLoop checksSet selects = (selects.find? (selectEnds checksSet)).map fun s =>
      if s = .failed ∨ s = .timeout then .error .EXIT_IO_ERROR else .ok () := by
  induction selects with
  | nil => rfl
  | cons s rest ih =>
    cases s with
    | interrupted => simpa [selectLoop, selectEnds] using ih
    | failed => simp [selectLoop, find?_cons, selectEnds]
    | timeout => simp [selectLoop, find?_cons, selectEnds]
    | ready isset => cases checksSet <;> cases isset <;> simp [selectLoop, selectEnds, ih]

variable {checksSet : Bool} {selects : List SelectAnswer}

theorem waitFails_of_error {e : ExitCode} (h : selectLoop checksSet selects = some (.error e)) :
    (Answer.again selects).waitFails checksSet := by
  rw [selectLoop_eq, Option.map_eq_some_iff] at h
  obtain ⟨s, hs, hend⟩ := h
  refine ⟨s, hs, ?_⟩
  split at hend
  · assumption
  · cases hend

theorem not_waitFails_of_ok (h : selectLoop checksSet selects = some (.ok ())) :
    ¬ (Answer.again selects).waitFails checksSet := by
  rw [selectLoop_eq, Option.map_eq_some_iff] at h
  obtain ⟨s, hs, hend⟩ := h
  rintro ⟨s', hs', hfails⟩
  rw [hs] at hs'
  cases hs'
  rw [if_pos hfails] at hend
  cases hend

theorem afterSelect_eq_some {α : Type} {give : ExitCode → α} {continue_ : Option α} {r : α}
    (h : afterSelect (selectLoop checksSet selects) give continue_ = some r) :
    ((Answer.again selects).waitFails checksSet ∧ ∃ e, r = give e) ∨
      ¬ (Answer.again selects).waitFails checksSet ∧ continue_ = some r := by
  cases hselect : selectLoop checksSet selects with
  | none =>
    rw [hselect] at h
    cases h
  | some ret =>
    rw [hselect] at h
    cases ret with
    | error e =>
      cases h
      exact Or.inl ⟨waitFails_of_error hselect, e, rfl⟩
    | ok u => exact Or.inr ⟨not_waitFails_of_ok hselect, h⟩

end Answers

section Writes
variable {l m : List Answer} {e : ExitCode} {a : Answer}

/-- What `write` has answered to a loop that wants `len` bytes to go out. -/
inductive Wrote (zeroFails : Bool) (used : List Answer) (len : Nat) : Ret → Prop
  | all (hall : accepted used = len) (hfine : ∀ a ∈ used, ¬ a.fails false)
      (hlast : (len = 0 ∧ used = []) ∨ ∃ n, used.getLast? = some (.count (n + 1))) :
      Wrote zeroFails used len (.ok ())
  | short (e : ExitCode) (hshort : accepted used < len)
      (hfails : (∃ a ∈ used, a.fails false) ∨ zeroFails = true ∧ used.getLast? = some (.count 0)) :
      Wrote zeroFails used len (.error e)

variable {zeroFails : Bool} {used : List Answer} {len : Nat} {ret : Ret}

theorem getLast?_cons_some {a b : Answer} {l : List Answer} (h : l.getLast? = some b) :
    (a :: l).getLast? = some b := by
  rw [getLast?_cons, h]
  rfl

theorem Wrote.cons {n : Nat} (h : Wrote zeroFails used len ret) (ha : ¬ a.fails false)
    (hacc : accepted [a] = n) (hlast : len = 0 → ∃ k, a = .count (k + 1)) :
    Wrote zeroFails (a :: used) (n + len) ret := by
  have hsum : accepted (a :: used) = n + accepted used := by
    rw [← hacc, ← accepted_append, singleton_append]
  cases h with
  | all hall hfine hlast' =>
    refine Wrote.all (by omega) ?_ ?_
    · intro b hb
      rcases List.mem_cons.mp hb with rfl | hb
      · exact ha
      · exact hfine b hb
    · right
      rcases hlast' with ⟨hlen, rfl⟩ | ⟨k, hk⟩
      · obtain ⟨k, rfl⟩ := hlast hlen
        exact ⟨k, rfl⟩
      · exact ⟨k, getLast?_cons_some hk⟩
  | short e hshort hfails =>
    refine Wrote.short e (by omega) ?_
    rcases hfails with ⟨b, hb, hbfails⟩ | ⟨hz, hlast'⟩
    · exact Or.inl ⟨b, mem_cons_of_mem _ hb, hbfails⟩
    · exact Or.inr ⟨hz, getLast?_cons_some hlast'⟩

theorem Wrote.stop (hlen : 0 < len) (e : ExitCode) (ha : accepted [a] = 0)
    (hfails : a.fails false ∨ zeroFails = true ∧ a = .count 0) :
    Wrote zeroFails [a] len (.error e) := by
  refine Wrote.short e (by omega) ?_
  rcases hfails with hfails | ⟨hz, rfl⟩
  · exact Or.inl ⟨a, mem_singleton_self a, hfails⟩
  · exact Or.inr ⟨hz, rfl⟩

theorem writeLoop_spec {writes rest : List Answer} {buf sent sent' : List UInt8}
    (h : writeLoop zeroFails writes buf sent = some (ret, rest, sent')) :
    ∃ used, writes = used ++ rest ∧ sent' = sent ++ buf.take (accepted used) ∧
      Wrote zeroFails used buf.length ret := by
  induction writes generalizing buf sent with
  | nil =>
    cases buf with
    | nil =>
      cases h
      refine ⟨[], rfl, (append_nil _).symm, Wrote.all rfl nofun ?_⟩
      exact Or.inl ⟨rfl, rfl⟩
    | cons b buf => cases h
  | cons a writes ih =>
    cases buf with
    | nil =>
      obtain ⟨rfl, rfl, rfl⟩ := h
      refine ⟨[], rfl, (append_nil _).symm, Wrote.all rfl nofun ?_⟩
      exact Or.inl ⟨rfl, rfl⟩
    | cons b buf =>
      have hpos : 0 < (b :: buf).length := Nat.succ_pos _
      cases a with
      | interrupted =>
        obtain ⟨used, rfl, rfl, hwrote⟩ := ih h
        refine ⟨_ :: used, rfl, rfl, ?_⟩
        have := hwrote.cons (a := .interrupted) (n := 0) (by simp [Answer.fails, Answer.waitFails])
          rfl (by omega)
        rwa [Nat.zero_add] at this
      | failed =>
        cases h
        refine ⟨[.failed], rfl, (append_nil _).symm, ?_⟩
        exact Wrote.stop hpos _ rfl (Or.inl (Or.inl rfl))
      | again selects =>
        rcases afterSelect_eq_some h with ⟨hfails, e, heq⟩ | ⟨hgoes, hrest⟩
        · cases heq
          refine ⟨[.again selects], rfl, (append_nil _).symm, ?_⟩
          exact Wrote.stop hpos _ rfl (Or.inl (Or.inr hfails))
        obtain ⟨used, rfl, rfl, hwrote⟩ := ih hrest
        refine ⟨_ :: used, rfl, rfl, ?_⟩
        have := hwrote.cons (a := .again selects) (n := 0) (by simp [Answer.fails, hgoes])
          rfl (by omega)
        rwa [Nat.zero_add] at this
      | count r =>
        rw [writeLoop] at h
        split at h
        · rename_i hzero
          simp only [Bool.and_eq_true, beq_iff_eq] at hzero
          cases h
          refine ⟨[.count r], rfl, ?_, ?_⟩
          · rw [hzero.2]
            exact (append_nil _).symm
          · rw [hzero.2]
            exact Wrote.stop hpos _ rfl (Or.inr ⟨hzero.1, rfl⟩)
        · split at h
          · obtain ⟨used, rfl, rfl, hwrote⟩ := ih h
            refine ⟨_ :: used, rfl, ?_, ?_⟩
            · rw [append_assoc, ← take_add]
              rfl
            · have hlen : (b :: buf).length = r + ((b :: buf).drop r).length := by
                rw [length_drop, length_cons]
                omega
              rw [hlen]
              refine hwrote.cons (by simp [Answer.fails, Answer.waitFails]) rfl ?_
              intro hnone
              refine ⟨r - 1, ?_⟩
              rw [Nat.sub_add_cancel (by omega)]
          · cases h

theorem writeAll_spec {buf : List UInt8} {io io' : Io} (h : writeAll zeroFails buf io = some (ret, io')) :
    ∃ used, io.writes = used ++ io'.writes ∧
      io' = { io with writes := io'.writes, sent := io.sent ++ buf.take (accepted used) } ∧
      Wrote zeroFails used buf.length ret := by
  obtain ⟨⟨ret', writes, sent⟩, hloop, heq⟩ := Option.map_eq_some_iff.mp h
  cases heq
  obtain ⟨used, hused, rfl, hwrote⟩ := writeLoop_spec hloop
  exact ⟨used, hused, rfl, hwrote⟩

theorem WritesFail.append (h : WritesFail m) : WritesFail (l ++ m) := by
  rcases h with ⟨a, ha, hfails⟩ | hlast
  · exact Or.inl ⟨a, mem_append_right l ha, hfails⟩
  right
  rw [getLast?_append, hlast]
  rfl

theorem not_writesFail_nil : ¬ WritesFail [] := by
  simp [WritesFail]

theorem not_writesFail_append (hl : ¬ WritesFail l) (hm : ¬ WritesFail m) :
    ¬ WritesFail (l ++ m) := by
  rintro (⟨a, ha, hfails⟩ | hend)
  · rcases List.mem_append.mp ha with ha | ha
    · exact hl (Or.inl ⟨a, ha, hfails⟩)
    · exact hm (Or.inl ⟨a, ha, hfails⟩)
  · rw [getLast?_append] at hend
    cases hlast : m.getLast? with
    | none =>
      rw [hlast] at hend
      exact hl (Or.inr hend)
    | some a =>
      rw [hlast] at hend
      exact hm (Or.inr (hlast.trans hend))

theorem Wrote.accepted_eq (h : Wrote zeroFails used len (.ok ())) : accepted used = len := by
  cases h
  assumption

theorem Wrote.accepted_lt (h : Wrote zeroFails used len (.error e)) : accepted used < len := by
  cases h
  assumption

theorem Wrote.not_writesFail (h : Wrote zeroFails used len (.ok ())) : ¬ WritesFail used := by
  cases h with
  | all hall hfine hlast =>
    rintro (⟨a, ha, hfails⟩ | hend)
    · exact hfine a ha hfails
    · rcases hlast with ⟨_, rfl⟩ | ⟨n, hn⟩
      · cases hend
      rw [hn] at hend
      cases hend

theorem Wrote.writesFail (h : Wrote zeroFails used len (.error e)) : WritesFail used := by
  cases h with
  | short _ _ hfails =>
    rcases hfails with hfails | ⟨_, hlast⟩
    · exact Or.inl hfails
    · exact Or.inr hlast

end Writes

section Bodies
variable {io io' : Io}

/-- What the calls have answered to a pump that wants to copy `n` bytes, from `offset` of the file on. -/
inductive Pumped (reads writes sendfiles : List Answer) (offset n : Nat) : Ret → Prop
  | all (hall : accepted writes + accepted sendfiles = n) (hreads : ¬ ReadsFail reads)
      (hwrites : ¬ WritesFail writes)
      (hsendfiles : ¬ SendfilesFail offset sendfiles) :
      Pumped reads writes sendfiles offset n (.ok ())
  | short (e : ExitCode) (hshort : accepted writes + accepted sendfiles < n)
      (hfails : ReadsFail reads ∨ WritesFail writes ∨ SendfilesFail offset sendfiles) :
      Pumped reads writes sendfiles offset n (.error e)

variable {zeroFails : Bool} {reads writes sendfiles used : List Answer} {offset n k : Nat} {ret : Ret}
  {a : Answer}

theorem readsFail_cons_iff : ReadsFail (a :: reads) ↔
    (a.fails true ∨ a = .count 0) ∨ ReadsFail reads := by
  simp only [ReadsFail, mem_cons, exists_eq_or_imp]

theorem sendfilesFail_cons_iff {k : Nat} (h : accepted [a] = k) (ha : a ≠ .failed) :
    SendfilesFail offset (a :: sendfiles) ↔
      (a.waitFails false ∨ a = .count 0) ∨ SendfilesFail (offset + k) sendfiles := by
  have hsum : accepted (a :: sendfiles) = k + accepted sendfiles := by
    rw [← h, ← accepted_append, singleton_append]
  simp only [SendfilesFail, mem_cons, exists_eq_or_imp, hsum, Ne.symm ha, false_or, or_assoc,
    Nat.add_assoc]

theorem Pumped.cons_read (h : Pumped reads writes sendfiles offset n ret)
    (ha : ¬ (a.fails true ∨ a = .count 0)) : Pumped (a :: reads) writes sendfiles offset n ret := by
  have hiff : ReadsFail (a :: reads) ↔ ReadsFail reads := by
    rw [readsFail_cons_iff]
    exact or_iff_right ha
  cases h with
  | all hall hreads hwrites hsendfiles =>
    exact Pumped.all hall (fun hfail => hreads (hiff.mp hfail)) hwrites hsendfiles
  | short e hshort hfails =>
    refine Pumped.short e hshort ?_
    rw [hiff]
    exact hfails

theorem Pumped.append_writes (h : Pumped reads writes sendfiles offset n ret)
    (hused : Wrote zeroFails used k (.ok ())) :
    Pumped reads (used ++ writes) sendfiles offset (k + n) ret := by
  have hk := hused.accepted_eq
  cases h with
  | all hall hreads hwrites hsendfiles =>
    refine Pumped.all ?_ hreads (not_writesFail_append hused.not_writesFail hwrites) hsendfiles
    rw [accepted_append]
    omega
  | short e hshort hfails =>
    refine Pumped.short e ?_ ?_
    · rw [accepted_append]
      omega
    · rcases hfails with hfails | hfails | hfails
      · exact Or.inl hfails
      · exact Or.inr (Or.inl hfails.append)
      · exact Or.inr (Or.inr hfails)

theorem Pumped.cons_sendfile (h : Pumped reads writes sendfiles (offset + k) n ret)
    (hacc : accepted [a] = k) (hne : a ≠ .failed) (ha : ¬ (a.waitFails false ∨ a = .count 0)) :
    Pumped reads writes (a :: sendfiles) offset (k + n) ret := by
  have hiff : SendfilesFail offset (a :: sendfiles) ↔ SendfilesFail (offset + k) sendfiles := by
    rw [sendfilesFail_cons_iff hacc hne]
    exact or_iff_right ha
  have hsum : accepted (a :: sendfiles) = k + accepted sendfiles := by
    rw [← hacc, ← accepted_append, singleton_append]
  cases h with
  | all hall hreads hwrites hsendfiles =>
    refine Pumped.all (by omega) hreads hwrites ?_
    rw [hiff]
    exact hsendfiles
  | short e hshort hfails =>
    refine Pumped.short e (by omega) ?_
    rw [hiff]
    exact hfails

theorem not_readsFail_nil : ¬ ReadsFail [] := by
  simp [ReadsFail]

theorem not_sendfilesFail_nil : ¬ SendfilesFail offset [] := by
  simp [SendfilesFail]

theorem Pumped.nothing : Pumped [] [] [] offset 0 (.ok ()) :=
  Pumped.all rfl not_readsFail_nil not_writesFail_nil not_sendfilesFail_nil

theorem Pumped.stop_read (e : ExitCode) (ha : a.fails true ∨ a = .count 0) (hn : 0 < n) :
    Pumped [a] [] [] offset n (.error e) :=
  Pumped.short e hn (Or.inl (readsFail_cons_iff.mpr (Or.inl ha)))

theorem Pumped.stop_sendfile (e : ExitCode) (hacc : accepted [a] = 0)
    (ha : SendfilesFail offset [a]) (hn : 0 < n) : Pumped [] [] [a] offset n (.error e) := by
  refine Pumped.short e ?_ (Or.inr (Or.inr ha))
  rw [hacc]
  exact hn

/-- From one state to another the pump has used answers and sent bytes. -/
def BodyRun (io io' : Io) (sendfiles : List Answer) (offset n : Nat) (ret : Ret) : Prop :=
  ∃ reads writes body, io.reads = reads ++ io'.reads ∧ io.writes = writes ++ io'.writes ∧
    io.sendfiles = sendfiles ++ io'.sendfiles ∧ io'.sent = io.sent ++ body ∧
    body.length = accepted writes + accepted sendfiles ∧ Pumped reads writes sendfiles offset n ret

theorem pumpLoop_spec (offset : Nat) (h : pumpLoop reads n io = some (ret, io')) :
    BodyRun { io with reads := reads } io' [] offset n ret := by
  induction reads generalizing n io with
  | nil =>
    cases n with
    | zero =>
      cases h
      exact ⟨[], [], [], rfl, rfl, rfl, (append_nil _).symm, rfl, Pumped.nothing⟩
    | succ n => cases h
  | cons a reads ih =>
    cases n with
    | zero =>
      obtain ⟨rfl, rfl⟩ := h
      exact ⟨[], [], [], rfl, rfl, rfl, (append_nil _).symm, rfl, Pumped.nothing⟩
    | succ n =>
      have hpos : 0 < n + 1 := Nat.succ_pos n
      cases a with
      | interrupted =>
        obtain ⟨ur, uw, body, hr, hw, hs, hsent, hlen, hpumped⟩ := ih h
        simp only at hr
        refine ⟨.interrupted :: ur, uw, body, ?_, hw, hs, hsent, hlen, hpumped.cons_read ?_⟩
        · simp only [hr, cons_append]
        · simp [Answer.fails, Answer.waitFails]
      | failed =>
        cases h
        refine ⟨[.failed], [], [], rfl, rfl, rfl, (append_nil _).symm, rfl, ?_⟩
        exact Pumped.stop_read _ (Or.inl (Or.inl rfl)) hpos
      | again selects =>
        rcases afterSelect_eq_some h with ⟨hfails, e, heq⟩ | ⟨hgoes, hrest⟩
        · cases heq
          refine ⟨[.again selects], [], [], rfl, rfl, rfl, (append_nil _).symm, rfl, ?_⟩
          exact Pumped.stop_read _ (Or.inl (Or.inr hfails)) hpos
        obtain ⟨ur, uw, body, hr, hw, hs, hsent, hlen, hpumped⟩ := ih hrest
        simp only at hr
        refine ⟨.again selects :: ur, uw, body, ?_, hw, hs, hsent, hlen, hpumped.cons_read ?_⟩
        · simp only [hr, cons_append]
        · simp [Answer.fails, hgoes]
      | count r =>
        rw [pumpLoop] at h
        split at h
        · rename_i hr
          cases h
          refine ⟨[.count r], [], [], rfl, rfl, rfl, (append_nil _).symm, rfl, ?_⟩
          exact Pumped.stop_read _ (Or.inr (by rw [hr])) hpos
        rename_i hr
        split at h
        · have hchunk : (io.file.take r).length = r := by
            rw [length_take]
            omega
          split at h
          · cases h
          · rename_i e io₁ hout
            cases h
            obtain ⟨used, hused, hio, hwrote⟩ := writeAll_spec hout
            have hshort := hwrote.accepted_lt
            refine ⟨[.count r], used, (io.file.take r).take (accepted used), rfl, hused, ?_, ?_,
              ?_, ?_⟩
            · rw [hio]
              rfl
            · rw [hio]
            · rw [length_take, hchunk]
              simp only [accepted]
              omega
            · refine Pumped.short e ?_ (Or.inr (Or.inl hwrote.writesFail))
              simp only [accepted]
              omega
          · rename_i io₁ hout
            obtain ⟨used, hused, hio, hwrote⟩ := writeAll_spec hout
            rw [hchunk] at hwrote
            have hall := hwrote.accepted_eq
            obtain ⟨ur, uw, body, hr', hw, hs, hsent, hlen, hpumped⟩ := ih h
            have hn : n + 1 = r + (n + 1 - r) := by omega
            rw [hio] at hs hsent
            refine ⟨.count r :: ur, used ++ uw, io.file.take r ++ body, ?_, ?_, hs, ?_, ?_, ?_⟩
            · simp only at hr'
              simp only [hr', cons_append]
            · rw [append_assoc, ← hw]
              exact hused
            · rw [hsent, hall, take_of_length_le hchunk.le, append_assoc]
            · rw [length_append, hchunk, accepted_append, hlen, hall, Nat.add_assoc]
            · rw [hn]
              refine (hpumped.append_writes hwrote).cons_read ?_
              simp [Answer.fails, Answer.waitFails, hr]
        · cases h

theorem Pumped.cons_failed (h : Pumped reads writes [] 0 n ret) :
    Pumped reads writes [.failed] 0 n ret := by
  have hfine : ¬ SendfilesFail 0 [.failed] := by
    simp [SendfilesFail, Answer.waitFails, accepted]
  cases h with
  | all hall hreads hwrites hsendfiles => exact Pumped.all hall hreads hwrites hfine
  | short e hshort hfails =>
    refine Pumped.short e hshort ?_
    rcases hfails with hfails | hfails | hfails
    · exact Or.inl hfails
    · exact Or.inr (Or.inl hfails)
    · exact absurd hfails not_sendfilesFail_nil

theorem sendfileLoop_spec (h : sendfileLoop sendfiles offset n io = some (ret, io')) :
    ∃ used, BodyRun { io with sendfiles := sendfiles } io' used offset n ret := by
  induction sendfiles generalizing offset n io with
  | nil =>
    cases n with
    | zero =>
      cases h
      exact ⟨[], [], [], [], rfl, rfl, rfl, (append_nil _).symm, rfl, Pumped.nothing⟩
    | succ n => cases h
  | cons a sendfiles ih =>
    cases n with
    | zero =>
      obtain ⟨rfl, rfl⟩ := h
      exact ⟨[], [], [], [], rfl, rfl, rfl, (append_nil _).symm, rfl, Pumped.nothing⟩
    | succ n =>
      have hpos : 0 < n + 1 := Nat.succ_pos n
      cases a with
      | interrupted =>
        obtain ⟨used, ur, uw, body, hr, hw, hs, hsent, hlen, hpumped⟩ := ih h
        refine ⟨.interrupted :: used, ur, uw, body, hr, hw, ?_, hsent, hlen, ?_⟩
        · exact congrArg (_ :: ·) hs
        · have := Pumped.cons_sendfile (k := 0) hpumped (a := .interrupted) rfl nofun
            (by simp [Answer.waitFails])
          rwa [Nat.zero_add] at this
      | again selects =>
        rcases afterSelect_eq_some h with ⟨hfails, e, heq⟩ | ⟨hgoes, hrest⟩
        · cases heq
          refine ⟨[.again selects], [], [], [], rfl, rfl, rfl, (append_nil _).symm, rfl, ?_⟩
          refine Pumped.stop_sendfile _ rfl ?_ hpos
          exact (sendfilesFail_cons_iff (a := .again selects) rfl nofun).mpr (Or.inl (Or.inl hfails))
        obtain ⟨used, ur, uw, body, hr, hw, hs, hsent, hlen, hpumped⟩ := ih hrest
        refine ⟨.again selects :: used, ur, uw, body, hr, hw, ?_, hsent, hlen, ?_⟩
        · exact congrArg (_ :: ·) hs
        · have := Pumped.cons_sendfile (k := 0) hpumped (a := .again selects) rfl nofun
            (by simp [hgoes])
          rwa [Nat.zero_add] at this
      | failed =>
        rw [sendfileLoop] at h
        split at h
        · obtain ⟨ur, uw, body, hr, hw, hs, hsent, hlen, hpumped⟩ := pumpLoop_spec 0 h
          subst offset
          exact ⟨[.failed], ur, uw, body, hr, hw, congrArg (_ :: ·) hs, hsent, hlen,
            hpumped.cons_failed⟩
        · cases h
          refine ⟨[.failed], [], [], [], rfl, rfl, rfl, (append_nil _).symm, rfl, ?_⟩
          refine Pumped.stop_sendfile _ rfl (Or.inr ⟨mem_singleton_self _, ?_⟩) hpos
          omega
      | count k =>
        rw [sendfileLoop] at h
        split at h
        · rename_i hk
          cases h
          refine ⟨[.count k], [], [], [], rfl, rfl, rfl, (append_nil _).symm, ?_, ?_⟩
          · rw [hk]
            rfl
          · rw [hk]
            refine Pumped.stop_sendfile _ rfl ?_ hpos
            exact (sendfilesFail_cons_iff (a := .count 0) rfl nofun).mpr (Or.inl (Or.inr rfl))
        · rename_i hk
          split at h
          · have hchunk : ((io.file.drop offset).take k).length = k := by
              rw [length_take, length_drop]
              omega
            have hfine : ¬ ((Answer.count k).waitFails false ∨ Answer.count k = .count 0) := by
              simp [Answer.waitFails, hk]
            split at h
            · obtain ⟨used, ur, uw, body, hr, hw, hs, hsent, hlen, hpumped⟩ := ih h
              have hn : n + 1 = k + (n + 1 - k) := by omega
              refine ⟨.count k :: used, ur, uw, (io.file.drop offset).take k ++ body, hr, hw,
                congrArg (_ :: ·) hs, ?_, ?_, ?_⟩
              · rw [hsent, append_assoc]
              · simp only [length_append, hchunk, hlen, accepted]
                omega
              · rw [hn]
                exact hpumped.cons_sendfile rfl nofun hfine
            · rename_i hwhole
              cases h
              have hkn : k = n + 1 := Classical.not_not.mp hwhole
              refine ⟨[.count k], [], [], _, rfl, rfl, rfl, rfl, ?_, ?_⟩
              · simp only [hchunk, accepted]
                omega
              · have hone : Pumped [] [] [.count k] offset (k + 0) (.ok ()) :=
                  Pumped.cons_sendfile Pumped.nothing rfl nofun hfine
                rw [← hkn]
                exact hone
          · cases h

theorem pumpBody_spec {haveSendfile : Bool}
    (h : pumpBody haveSendfile n io = some (ret, io')) : ∃ used, BodyRun io io' used 0 n ret := by
  cases haveSendfile with
  | true => exact sendfileLoop_spec h
  | false => exact ⟨[], pumpLoop_spec 0 h⟩

end Bodies

section Frames
variable {result : Except ExitCode (List UInt8)} {len : Nat}

def WholeFrame (token : CString) (sent : List UInt8) : Prop :=
  token.strlen = 4 ∧ ∃ length : BitVec 32, ∃ body,
    sent = token.bytes ++ hexDigits length ++ body ∧ body.length = length.toNat

variable {token : CString} {length : BitVec 32} {io io' : Io} {ret : Ret}

theorem hexDigits_inj {v w : BitVec 32} (h : hexDigits v = hexDigits w) : v = w := by
  apply BitVec.eq_of_toNat_eq
  rw [← hexDigits_number v, ← hexDigits_number w, h]

theorem frame_length (htoken : token.strlen = 4) :
    (token.bytes ++ hexDigits length).length = 12 := by
  rw [length_append, hexDigits_length]
  exact congrArg (· + 8) htoken

theorem wholeFrame_length (h : WholeFrame token io.sent) : 12 ≤ io.sent.length := by
  obtain ⟨htoken, length, body, hsent, _⟩ := h
  rw [hsent, length_append, frame_length htoken]
  omega

theorem wholeFrame_iff (htoken : token.strlen = 4) {body : List UInt8} :
    WholeFrame token (token.bytes ++ hexDigits length ++ body) ↔ body.length = length.toNat := by
  constructor
  · intro h
    obtain ⟨_, length', body', hsent, hlen⟩ := h
    obtain ⟨hframe, hbody⟩ := append_inj hsent (by rw [frame_length htoken, frame_length htoken])
    have hdigits := append_cancel_left hframe
    rw [hbody, hexDigits_inj hdigits]
    exact hlen
  · intro h
    exact ⟨htoken, length, body, rfl, h⟩

theorem x_token_int_spec (htoken : token.strlen = 4)
    (h : dcc_x_token_int token length io = some (ret, io')) :
    ∃ used, io.writes = used ++ io'.writes ∧ io' = { io with
        writes := io'.writes
        sent := io.sent ++ (token.bytes ++ hexDigits length).take (accepted used) } ∧
      Wrote false used 12 ret := by
  unfold dcc_x_token_int at h
  rw [dcc_x_token_int_eq token htoken] at h
  obtain ⟨used, hused, hio, hwrote⟩ := writeAll_spec h
  rw [frame_length htoken] at hwrote
  exact ⟨used, hused, hio, hwrote⟩

inductive ReadAll (used : List Answer) (wanted : List UInt8) : Except ExitCode (List UInt8) → Prop
  | all (hfine : ¬ ReadsFail used) : ReadAll used wanted (.ok wanted)
  | short (e : ExitCode) (hfails : ReadsFail used) : ReadAll used wanted (.error e)

theorem ReadAll.cons {a : Answer} {used : List Answer} {wanted : List UInt8}
    (h : ReadAll used wanted result)
    (ha : ¬ (a.fails true ∨ a = .count 0)) : ReadAll (a :: used) wanted result := by
  have hiff : ReadsFail (a :: used) ↔ ReadsFail used := by
    rw [readsFail_cons_iff]
    exact or_iff_right ha
  cases h with
  | all hfine => exact ReadAll.all fun hfail => hfine (hiff.mp hfail)
  | short e hfails => exact ReadAll.short e (hiff.mpr hfails)

theorem readxLoop_spec {reads rest : List Answer} {file left buf : List UInt8}
    (h : readxLoop reads len file buf = some (result, rest, left)) :
    ∃ used, reads = used ++ rest ∧ ReadAll used (buf ++ file.take len) result := by
  have hnone : ∀ {buf file : List UInt8}, ReadAll [] (buf ++ file.take 0) (.ok buf) := by
    intro buf file
    rw [take_zero, append_nil]
    exact ReadAll.all not_readsFail_nil
  induction reads generalizing len file buf with
  | nil =>
    cases len with
    | zero =>
      cases h
      exact ⟨[], rfl, hnone⟩
    | succ len => cases h
  | cons a reads ih =>
    cases len with
    | zero =>
      obtain ⟨rfl, rfl, rfl⟩ := h
      exact ⟨[], rfl, hnone⟩
    | succ len =>
      cases a with
      | interrupted =>
        obtain ⟨used, rfl, hread⟩ := ih h
        exact ⟨_ :: used, rfl, hread.cons (by simp [Answer.fails, Answer.waitFails])⟩
      | failed =>
        cases h
        exact ⟨[.failed], rfl, ReadAll.short _ ⟨.failed, mem_singleton_self _, Or.inl (Or.inl rfl)⟩⟩
      | again selects =>
        rcases afterSelect_eq_some h with ⟨hfails, e, heq⟩ | ⟨hgoes, hrest⟩
        · cases heq
          exact ⟨[.again selects], rfl,
            ReadAll.short _ ⟨_, mem_singleton_self _, Or.inl (Or.inr hfails)⟩⟩
        · obtain ⟨used, rfl, hread⟩ := ih hrest
          exact ⟨_ :: used, rfl, hread.cons (by simp [Answer.fails, hgoes])⟩
      | count r =>
        rw [readxLoop] at h
        split at h
        · rename_i hr
          cases h
          exact ⟨[.count r], rfl,
            ReadAll.short _ ⟨_, mem_singleton_self _, Or.inr (by rw [hr])⟩⟩
        rename_i hr
        split at h
        · obtain ⟨used, rfl, hread⟩ := ih h
          have hsplit : len + 1 = r + (len + 1 - r) := by omega
          refine ⟨_ :: used, rfl, ?_⟩
          rw [append_assoc, ← take_add, ← hsplit] at hread
          exact hread.cons (by simp [Answer.fails, Answer.waitFails, hr])
        · cases h

theorem readx_spec (h : dcc_readx len io = some (result, io')) :
    ∃ used, io.reads = used ++ io'.reads ∧
      io' = { io with reads := io'.reads, file := io'.file } ∧
      ReadAll used (io.file.take len) result := by
  obtain ⟨⟨result', reads, file⟩, hloop, heq⟩ := Option.map_eq_some_iff.mp h
  cases heq
  obtain ⟨used, hused, hread⟩ := readxLoop_spec hloop
  exact ⟨used, hused, rfl, hread⟩

end Frames

section Promise
variable {length : BitVec 32} {io io' : Io} {uw : List Answer} {pumped : Ret} {e : ExitCode}

def Failed (reads writes sendfiles : List Answer) : Prop :=
  ReadsFail reads ∨ WritesFail writes ∨ SendfilesFail 0 sendfiles

def compressed (m : Machine) (lzo1x_1_compress : List UInt8 → Option (List UInt8))
    (in_len : BitVec 32) (file : List UInt8) : Option (List UInt8) :=
  if in_len = 0 then some []
  else if m.malloc 0 && m.malloc 1 then lzo1x_1_compress (file.take in_len.toNat)
  else none

def BodyAsAnnounced (reads writes sendfiles : List Answer) (n length : Nat) : Prop :=
  ¬ Failed reads writes sendfiles ∧ n = length ∨
    Failed reads writes sendfiles ∧ accepted writes + accepted sendfiles = 12 + length

/-- When the bytes on the socket are as announced, or an error is returned. -/
def Keeps (m : Machine) (lzo1x_1_compress : List UInt8 → Option (List UInt8)) (opened : Opened)
    (token : CString) (compression : Compression) (reads writes sendfiles : List Answer)
    (file : List UInt8) : Prop :=
  ∀ f_size, opened = .size f_size →
    (compression = .DCC_COMPRESS_NONE → token.strlen ≠ 4 ∨ accepted writes < 12 ∨
      BodyAsAnnounced reads writes sendfiles (f_size % 2 ^ m.sizeBits) (f_size % 2 ^ 32)) ∧
    (compression = .DCC_COMPRESS_LZO1X → token.strlen = 4 ∧
      ∃ body, compressed m lzo1x_1_compress (BitVec.ofNat 32 f_size) file = some body ∧
        BodyAsAnnounced reads writes sendfiles body.length (body.length % 2 ^ 32))

variable {m : Machine} {lzo1x_1_compress : List UInt8 → Option (List UInt8)} {haveSendfile : Bool}
  {token : CString} {reads writes sendfiles used : List Answer} {file left sent : List UInt8} {ret : Ret}

theorem x_token_int_bad (htoken : token.strlen ≠ 4) (length : BitVec 32) (io : Io) :
    dcc_x_token_int token length io = some (.error .EXIT_PROTOCOL_ERROR, io) := by
  unfold dcc_x_token_int Distcc.dcc_x_token_int
  rw [if_pos htoken]

theorem bodyAsAnnounced_iff {n length k : Nat}
    (hused : Wrote false used 12 (.ok ())) (hpumped : Pumped reads uw sendfiles 0 n pumped)
    (hk : k = accepted uw + accepted sendfiles) :
    BodyAsAnnounced reads (used ++ uw) sendfiles n length ↔ k = length := by
  have htwelve := hused.accepted_eq
  unfold BodyAsAnnounced
  rw [accepted_append, htwelve]
  cases hpumped with
  | all hall hreads hwrites hsendfiles =>
    have hfine : ¬ Failed reads (used ++ uw) sendfiles := by
      rintro (hfail | hfail | hfail)
      · exact hreads hfail
      · exact not_writesFail_append hused.not_writesFail hwrites hfail
      · exact hsendfiles hfail
    simp only [hfine, not_false_eq_true, true_and, false_and, or_false]
    omega
  | short e hshort hfails =>
    have hfailed : Failed reads (used ++ uw) sendfiles := by
      rcases hfails with hfail | hfail | hfail
      · exact Or.inl hfail
      · exact Or.inr (Or.inl hfail.append)
      · exact Or.inr (Or.inr hfail)
    simp only [hfailed, not_true_eq_false, true_and, false_and, false_or]
    omega

theorem Pumped.of_wrote {zeroFails : Bool} {n : Nat} (hreads : ¬ ReadsFail reads)
    (h : Wrote zeroFails writes n ret) : Pumped reads writes [] 0 n ret := by
  cases ret with
  | ok u => exact Pumped.all h.accepted_eq hreads h.not_writesFail not_sendfilesFail_nil
  | error e => exact Pumped.short e h.accepted_lt (Or.inr (Or.inl h.writesFail))

theorem not_bodyAsAnnounced {n length : Nat} (h : Wrote false writes 12 (.error e)) :
    ¬ BodyAsAnnounced reads writes [] n length := by
  have hshort := h.accepted_lt
  rintro (⟨hfine, _⟩ | ⟨_, hacc⟩)
  · exact hfine (Or.inr (Or.inl h.writesFail))
  · simp only [accepted] at hacc
    omega

theorem sent_frame_iff (body : List UInt8) {n : Nat}
    (htoken : token.strlen = 4) (hframe : dcc_x_token_int token length io = some (.ok (), io'))
    (hstart : io.sent = []) (hw : io'.writes = uw) (hpumped : Pumped reads uw sendfiles 0 n pumped)
    (hlen : body.length = accepted uw + accepted sendfiles) : WholeFrame token (io'.sent ++ body) ↔
      BodyAsAnnounced reads io.writes sendfiles n length.toNat := by
  obtain ⟨used, hused, hio, hwrote⟩ := x_token_int_spec htoken hframe
  have hsent : io'.sent = token.bytes ++ hexDigits length := by
    rw [hio, hstart, hwrote.accepted_eq, take_of_length_le (frame_length htoken).le]
    rfl
  rw [hused, hw, hsent, wholeFrame_iff htoken, bodyAsAnnounced_iff hwrote hpumped hlen]

inductive CompressRun (used : List Answer) (wanted : Option (List UInt8)) :
    Except ExitCode (List UInt8) → Prop
  | all (out_buf : List UInt8) (hreads : ¬ ReadsFail used) (hout : wanted = some out_buf) :
      CompressRun used wanted (.ok out_buf)
  | failed (e : ExitCode) (h : ReadsFail used ∨ wanted = none) : CompressRun used wanted (.error e)

theorem compress_file_spec {in_len : BitVec 32} (hlen : in_len ≠ 0)
    {result : Except ExitCode (List UInt8)}
    (h : dcc_compress_file_lzo1x m lzo1x_1_compress in_len.toNat io = some (result, io')) :
    ∃ used, io.reads = used ++ io'.reads ∧ io' = { io with reads := io'.reads, file := io'.file } ∧
      CompressRun used (compressed m lzo1x_1_compress in_len io.file) result := by
  unfold dcc_compress_file_lzo1x at h
  unfold compressed
  rw [if_neg hlen]
  split at h
  · rename_i hmalloc
    cases h
    refine ⟨[], rfl, rfl, CompressRun.failed _ (Or.inr ?_)⟩
    rw [hmalloc, Bool.false_and, if_neg Bool.false_ne_true]
  rename_i hmalloc
  split at h
  · cases h
  · rename_i e io₁ hread
    cases h
    obtain ⟨used, hused, hio, hall⟩ := readx_spec hread
    cases hall with
    | short _ hfails => exact ⟨used, hused, hio, CompressRun.failed e (Or.inl hfails)⟩
  rename_i in_buf io₁ hread
  cases h
  obtain ⟨used, hused, hio, hall⟩ := readx_spec hread
  refine ⟨used, hused, hio, ?_⟩
  cases hall with
  | all hfine =>
    unfold dcc_compress_lzo1x_alloc
    cases hmalloc' : m.malloc 1 with
    | false => exact CompressRun.failed _ (Or.inr (by simp))
    | true =>
      simp only [hmalloc, Bool.and_self, if_true, Bool.true_eq_false, if_false]
      cases lzo1x_1_compress (io.file.take in_len.toNat) with
      | none => exact CompressRun.failed _ (Or.inr rfl)
      | some out_buf => exact CompressRun.all out_buf hfine rfl

theorem not_wholeFrame_nil : ¬ WholeFrame token [] := by
  rintro ⟨htoken, length, body, hsent, _⟩
  have hlen := congrArg List.length hsent
  rw [length_append, frame_length htoken, length_nil] at hlen
  omega

theorem not_wholeFrame_short (htoken : token.strlen = 4)
    (hframe : dcc_x_token_int token length io = some (.error e, io')) (hstart : io.sent = [])
    (hdone : io'.writes = []) {n announced : Nat} :
    ¬ WholeFrame token io'.sent ∧ ¬ BodyAsAnnounced reads io.writes [] n announced := by
  obtain ⟨used, hused, hio, hwrote⟩ := x_token_int_spec htoken hframe
  rw [hdone, append_nil] at hused
  rw [hused]
  refine ⟨?_, not_bodyAsAnnounced hwrote⟩
  intro hwhole
  have hlong := wholeFrame_length hwhole
  have hshort := hwrote.accepted_lt
  rw [hio, hstart, nil_append, length_take] at hlong
  omega

theorem x_token_int_keeps (h : dcc_x_token_int token length io = some (ret, io')) :
    io'.reads = io.reads ∧ io'.sendfiles = io.sendfiles := by
  by_cases htoken : token.strlen = 4
  · obtain ⟨_, _, hio, _⟩ := x_token_int_spec htoken h
    rw [hio]
    exact ⟨rfl, rfl⟩
  · rw [x_token_int_bad htoken] at h
    cases h
    exact ⟨rfl, rfl⟩

theorem x_file_none_iff (f_size : Nat)
    (hrun : dcc_x_file m lzo1x_1_compress haveSendfile (.size f_size) token .DCC_COMPRESS_NONE
      ⟨reads, writes, sendfiles, file, []⟩ = some (ret, ⟨[], [], [], left, sent⟩)) :
    (ret = .ok () → WholeFrame token sent) ↔ token.strlen ≠ 4 ∨ accepted writes < 12 ∨
      BodyAsAnnounced reads writes sendfiles (f_size % 2 ^ m.sizeBits) (f_size % 2 ^ 32) := by
  by_cases htoken : token.strlen = 4
  · simp only [dcc_x_file] at hrun
    split at hrun
    · cases hrun
    · rename_i e io₁ hframe
      cases hrun
      obtain ⟨used, hused, _, hwrote⟩ := x_token_int_spec htoken hframe
      refine iff_of_true nofun (Or.inr (Or.inl ?_))
      simp only [append_nil] at hused
      rw [hused]
      exact hwrote.accepted_lt
    · rename_i io₁ hframe
      obtain ⟨⟨pumped, io'⟩, hbody, heq⟩ := Option.map_eq_some_iff.mp hrun
      cases heq
      obtain ⟨us, ur, uw, body, hr, hw, hs, hsent, hlen, hpumped⟩ := pumpBody_spec hbody
      obtain ⟨hreads, hsendfiles⟩ := x_token_int_keeps hframe
      simp only [append_nil] at hr hw hs hsent
      rw [hr] at hreads
      rw [hs] at hsendfiles
      subst hreads hsendfiles
      have hiff := sent_frame_iff _ htoken hframe rfl hw hpumped hlen
      rw [← hsent, BitVec.toNat_ofNat] at hiff
      have hlong : ¬ accepted writes < 12 := by
        obtain ⟨used, hused, _, hwrote⟩ := x_token_int_spec htoken hframe
        simp only at hused
        rw [hused, accepted_append, hwrote.accepted_eq]
        omega
      simp only [htoken, ne_eq, not_true_eq_false, hlong, false_or, true_imp_iff]
      exact hiff
  · refine iff_of_true ?_ (Or.inl htoken)
    intro hok
    simp only [dcc_x_file, x_token_int_bad htoken, Option.some.injEq, Prod.mk.injEq] at hrun
    rw [hok] at hrun
    cases hrun.1

/-- Nothing but a whole frame is right once `dcc_x_file_lzo1x` has been called. -/
theorem x_file_lzo1x_iff (in_len : BitVec 32)
    (hrun : dcc_x_file_lzo1x m lzo1x_1_compress token in_len ⟨reads, writes, sendfiles, file, []⟩ =
      some (ret, ⟨[], [], [], left, sent⟩)) : WholeFrame token sent ↔ token.strlen = 4 ∧
      ∃ body, compressed m lzo1x_1_compress in_len file = some body ∧
        BodyAsAnnounced reads writes sendfiles body.length (body.length % 2 ^ 32) := by
  by_cases htoken : token.strlen = 4
  · simp only [htoken, true_and]
    unfold dcc_x_file_lzo1x at hrun
    split at hrun
    · rename_i hzero
      have hcompressed : compressed m lzo1x_1_compress in_len file = some [] := if_pos hzero
      obtain ⟨hreads, hsendfiles⟩ := x_token_int_keeps hrun
      subst hreads hsendfiles
      rw [hcompressed]
      simp only [Option.some.injEq, exists_eq_left', length_nil, Nat.zero_mod]
      cases ret with
      | error e =>
        obtain ⟨hframe, hannounced⟩ := not_wholeFrame_short htoken hrun rfl rfl
        exact iff_of_false hframe hannounced
      | ok u =>
        have hiff := sent_frame_iff [] htoken hrun rfl rfl Pumped.nothing rfl
        rw [append_nil] at hiff
        exact hiff
    · rename_i hlen
      split at hrun
      · cases hrun
      · rename_i e io₁ hcompress
        cases hrun
        obtain ⟨used, hused, hio, hrun⟩ := compress_file_spec hlen hcompress
        simp only [Io.mk.injEq, append_nil, true_and] at hused hio
        obtain ⟨rfl, rfl, rfl⟩ := hio
        refine iff_of_false not_wholeFrame_nil ?_
        rintro ⟨body, hbody, hannounced⟩
        cases hrun with
        | failed _ h =>
          rcases h with hfails | hnone
          · rcases hannounced with ⟨hfine, _⟩ | ⟨_, hacc⟩
            · rw [hused] at hfine
              exact hfine (Or.inl hfails)
            · simp only [accepted] at hacc
              omega
          · rw [hnone] at hbody
            cases hbody
      · rename_i out_buf io₁ hcompress
        obtain ⟨used, hused, hio, hran⟩ := compress_file_spec hlen hcompress
        cases hran with
        | all _ hreads hout =>
          rw [hout]
          simp only [Option.some.injEq, exists_eq_left']
          split at hrun
          · cases hrun
          · rename_i e io₂ hframe
            cases hrun
            obtain ⟨hreads', hsendfiles⟩ := x_token_int_keeps hframe
            rw [hio] at hframe hreads' hsendfiles
            subst hsendfiles
            obtain ⟨hwhole, hannounced⟩ := not_wholeFrame_short htoken hframe rfl rfl
            exact iff_of_false hwhole hannounced
          · rename_i io₂ hframe
            obtain ⟨hreads', hsendfiles⟩ := x_token_int_keeps hframe
            obtain ⟨used₂, hused₂, hio₂, hwrote⟩ := writeAll_spec hrun
            simp only [append_nil] at hused₂
            simp only [Io.mk.injEq, true_and] at hio₂
            obtain ⟨hr, hs, -, hsent⟩ := hio₂
            rw [← hr] at hreads'
            rw [← hs] at hsendfiles
            rw [← hreads', append_nil] at hused
            subst hused
            have hstart : io₁.sent = [] := by rw [hio]
            have hwrites : io₁.writes = writes := by rw [hio]
            have hsendfiles' : sendfiles = [] := by
              rw [hio] at hsendfiles
              exact hsendfiles.symm
            have hiff := sent_frame_iff (out_buf.take (accepted used₂)) htoken hframe hstart hused₂
              (Pumped.of_wrote hreads hwrote) ?_
            · rw [← hsent, hwrites, BitVec.toNat_ofNat] at hiff
              rw [hsendfiles']
              exact hiff
            · simp only [length_take, accepted]
              have hle : accepted used₂ ≤ out_buf.length := by
                cases ret with
                | ok u => exact hwrote.accepted_eq.le
                | error e => exact hwrote.accepted_lt.le
              omega
  · exact iff_of_false (fun h => htoken h.1) (fun h => htoken h.1)

end Promise

/-- For every file, token, mode and pattern of answers. -/
theorem dcc_x_file_whole_iff (m : Machine) (lzo1x_1_compress : List UInt8 → Option (List UInt8))
    (haveSendfile : Bool) (opened : Opened) (token : CString) (compression : Compression)
    (reads writes sendfiles : List Answer) (file left sent : List UInt8) (ret : Ret)
    (hrun : dcc_x_file m lzo1x_1_compress haveSendfile opened token compression
      ⟨reads, writes, sendfiles, file, []⟩ = some (ret, ⟨[], [], [], left, sent⟩)) :
    (ret = .ok () → WholeFrame token sent) ↔
      Keeps m lzo1x_1_compress opened token compression reads writes sendfiles file := by
  cases opened with
  | size f_size =>
    cases compression with
    | DCC_COMPRESS_NONE =>
      rw [x_file_none_iff f_size hrun]
      constructor
      · intro h f hf
        cases hf
        exact ⟨fun _ => h, nofun⟩
      · intro h
        exact (h f_size rfl).1 rfl
    | DCC_COMPRESS_LZO1X =>
      obtain ⟨⟨ret', io⟩, hsend, heq⟩ := Option.map_eq_some_iff.mp hrun
      cases heq
      rw [imp_iff_right rfl, x_file_lzo1x_iff _ hsend]
      constructor
      · intro h f hf
        cases hf
        exact ⟨nofun, fun _ => h⟩
      · intro h
        exact (h f_size rfl).2 rfl
    | invalid =>
      cases hrun
      refine iff_of_true nofun ?_
      intro f hf
      exact ⟨nofun, nofun⟩
  | _ =>
    cases hrun
    refine iff_of_true nofun ?_
    intro f hf
    cases hf

theorem noNul_DOTO : ∀ b ∈ ascii "DOTO", b ≠ 0 := noNul_of_contains (by decide)

def DOTO : CString := ⟨ascii "DOTO", noNul_DOTO⟩

/-- A file of two bytes, of which the socket takes one and then, after a wait, the other. -/
theorem dcc_x_file_whole_two : WholeFrame DOTO (DOTO.bytes ++ hexDigits 2 ++ [65, 66]) ∧
      Keeps lp64 some (.size 2) DOTO .DCC_COMPRESS_NONE [.count 2]
        [.count 12, .count 1, .again [.ready true], .count 1] [.failed] [65, 66] := by
  have hiff := dcc_x_file_whole_iff lp64 some true (.size 2) DOTO .DCC_COMPRESS_NONE [.count 2]
    [.count 12, .count 1, .again [.ready true], .count 1] [.failed] [65, 66] [] _ (.ok ()) rfl
  have hwhole : WholeFrame DOTO (DOTO.bytes ++ hexDigits 2 ++ [65, 66]) := (wholeFrame_iff rfl).mpr rfl
  exact ⟨hwhole, hiff.mp fun _ => hwhole⟩

/-- The connection breaks after the frame. -/
theorem dcc_x_file_whole_broken : ¬ ∀ (m : Machine) (lzo1x_1_compress : List UInt8 → Option (List UInt8))
    (haveSendfile : Bool) (opened : Opened) (token : CString) (compression : Compression)
    (reads writes sendfiles : List Answer) (file left sent : List UInt8) (ret : Ret),
    dcc_x_file m lzo1x_1_compress haveSendfile opened token compression
      ⟨reads, writes, sendfiles, file, []⟩ = some (ret, ⟨[], [], [], left, sent⟩) →
    ret = .ok () → WholeFrame token sent := by
  intro hclaim
  have hwhole := hclaim lp64 some false (.size 1) DOTO .DCC_COMPRESS_NONE [.count 1]
    [.count 12, .failed] [] [65] [] _ (.ok ()) rfl rfl
  have hone : WholeFrame DOTO (DOTO.bytes ++ hexDigits 1 ++ []) := hwhole
  have hlen := (wholeFrame_iff rfl).mp hone
  cases hlen

end Toolwhip.Distcc.Bulk
