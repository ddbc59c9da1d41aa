import Toolwhip.Distcc.Rpc

/-! # Sending an argument vector

`dcc_x_argv` of clirpc.c and `dcc_r_argv` of rpc.c: the number of strings, and each of
them with its length. -/

namespace Toolwhip.Distcc
open Lib.CNumber Lib.ThrowingFold List
set_option autoImplicit false

inductive Failure where
  | exit (code : ExitCode)
  | undefined
  | hangs
  deriving DecidableEq, Repr

def exits {α : Type} (result : Except ExitCode α) : Except Failure α := result.mapError .exit

def ARGC : CString := ⟨ascii "ARGC", noNul_of_contains (by decide)⟩
def ARGV : CString := ⟨ascii "ARGV", noNul_of_contains (by decide)⟩

def dcc_x_token_string (token buf : CString) : Except ExitCode (List UInt8) :=
  (dcc_x_token_int token (BitVec.ofNat 32 buf.strlen)).map fun frame => frame ++ buf.bytes

def sendStrings : List CString → Except ExitCode (List UInt8)
  | [] => .ok []
  | s :: rest => do
    let sent ← dcc_x_token_string ARGV s
    (sendStrings rest).map fun later => sent ++ later

/-- The `unsigned` of `dcc_argv_len`, unless it wraps around before the vector ends. -/
def dcc_argv_len (argv : List CString) : Except Failure (BitVec 32) :=
  if argv.length < 2 ^ 32 then .ok (BitVec.ofNat 32 argv.length) else .error .hangs

/-- The loop has an `int` for its bound. -/
def dcc_x_argv (argv : List CString) : Except Failure (List UInt8) := do
  let argc ← dcc_argv_len argv
  let header ← exits (dcc_x_token_int ARGC argc)
  let strings ← exits (sendStrings (argv.take argc.toInt.toNat))
  .ok (header ++ strings)

section Receiver
variable (m : Machine)

/-- The size of a buffer with room for one more than `n`. -/
def sizeOfNext (n : BitVec 32) : Nat := (n.toNat + 1) % 2 ^ m.sizeBits

/-- `nth` numbers the allocation; with a null pointer even the terminator cannot be
written, and `read` fails. -/
def dcc_r_str_alloc (nth : Nat) (l : BitVec 32) (stream : List UInt8) :
    Except Failure (List UInt8 × List UInt8) :=
  if m.malloc nth then
    if sizeOfNext m l ≤ l.toNat then .error .undefined
    else if stream.length < l.toNat then .error (.exit .EXIT_OUT_OF_MEMORY)
    else .ok (stream.take l.toNat, stream.drop l.toNat)
  else if l = 0 then .error .undefined
  else .error (.exit .EXIT_OUT_OF_MEMORY)

def dcc_r_token_string (nth : Nat) (expect_token : CString) (stream : List UInt8) :
    Except Failure (List UInt8 × List UInt8) := do
  let a_len ← exits (dcc_r_token_int m expect_token stream)
  dcc_r_str_alloc m nth a_len.1 a_len.2

/-- The loop of `dcc_r_argv`, with the strings that are still to come. -/
def readStrings : Nat → Nat → List UInt8 → Except Failure (List (List UInt8) × List UInt8)
  | 0, _, stream => .ok ([], stream)
  | count + 1, nth, stream => do
    let a ← dcc_r_token_string m nth ARGV stream
    (readStrings count (nth + 1) a.2).map fun later => (a.1 :: later.1, later.2)

def dcc_r_argv (stream : List UInt8) :
    Except Failure (List (Option (List UInt8)) × List UInt8) :=
  match dcc_r_token_int m ARGC stream with
  | .error _ => .error (.exit .EXIT_PROTOCOL_ERROR)
  | .ok argc =>
    if m.malloc 0 then
      if sizeOfNext m argc.1 ≤ argc.1.toNat then .error .undefined
      else (readStrings m argc.1.toNat 1 argc.2).map fun a => (a.1.map some ++ [none], a.2)
    else .error (.exit .EXIT_OUT_OF_MEMORY)

end Receiver

section Transport
variable {m : Machine} {argv : List CString} {s : CString} {rest : List UInt8}

def Holds (m : Machine) (s : CString) : Prop := s.strlen < 2 ^ 32 ∧ s.strlen + 1 < 2 ^ m.sizeBits

theorem dcc_r_str_alloc_received (nth : Nat) (hmalloc : ∀ i, m.malloc i = true) (hs : Holds m s) :
    dcc_r_str_alloc m nth (BitVec.ofNat 32 s.strlen) (s.bytes ++ rest) = .ok (s.bytes, rest) := by
  obtain ⟨hlen, hroom⟩ := hs
  have hl : (BitVec.ofNat 32 s.strlen).toNat = s.strlen := by
    rw [BitVec.toNat_ofNat, Nat.mod_eq_of_lt hlen]
  unfold dcc_r_str_alloc sizeOfNext
  rw [if_pos (hmalloc nth), hl, Nat.mod_eq_of_lt hroom, if_neg (by omega),
    if_neg (by rw [length_append]; exact Nat.not_lt.mpr (Nat.le_add_right _ _))]
  exact congrArg Except.ok (Prod.ext take_left drop_left)

theorem dcc_r_token_string_received {token : CString} (htoken : token.strlen = 4) (nth : Nat)
    (hmalloc : ∀ i, m.malloc i = true) (hs : Holds m s) : dcc_r_token_string m nth token
      (token.bytes ++ hexDigits (BitVec.ofNat 32 s.strlen) ++ s.bytes ++ rest) =
        .ok (s.bytes, rest) := by
  unfold dcc_r_token_string
  rw [append_assoc, token_int_received m htoken]
  exact dcc_r_str_alloc_received nth hmalloc hs

theorem strings_received (argv : List CString) (rest : List UInt8) (nth : Nat)
    (hmalloc : ∀ i, m.malloc i = true) (hs : ∀ s ∈ argv, Holds m s) :
    ∃ sent, sendStrings argv = .ok sent ∧
      readStrings m argv.length nth (sent ++ rest) = .ok (argv.map (·.bytes), rest) := by
  induction argv generalizing nth with
  | nil => exact ⟨[], rfl, rfl⟩
  | cons s argv ih =>
    obtain ⟨later, hsent, hread⟩ := ih (nth + 1) fun x hx => hs x (mem_cons_of_mem _ hx)
    refine ⟨ARGV.bytes ++ hexDigits (BitVec.ofNat 32 s.strlen) ++ s.bytes ++ later, ?_, ?_⟩
    · unfold sendStrings dcc_x_token_string
      rw [dcc_x_token_int_eq ARGV rfl, hsent]
      rfl
    · rw [append_assoc, length_cons, readStrings,
        dcc_r_token_string_received rfl nth hmalloc (hs s mem_cons_self)]
      change (readStrings m argv.length (nth + 1) (later ++ rest)).map _ = _
      rw [hread]
      rfl

theorem strings_counted {count nth : Nat} {stream : List UInt8}
    {a : List (List UInt8) × List UInt8} (h : readStrings m count nth stream = .ok a) :
    a.1.length = count := by
  induction count generalizing nth stream a with
  | zero =>
    obtain rfl := Except.ok.inj h
    rfl
  | succ count ih =>
    obtain ⟨first, _, h⟩ := bind_eq_ok.mp h
    obtain ⟨later, hlater, rfl⟩ := map_eq_ok.mp h
    rw [length_cons, ih hlater]

theorem dcc_x_argv_eq {sent : List UInt8} (hcount : argv.length < 2 ^ 32)
    (hsent : sendStrings (argv.take (BitVec.ofNat 32 argv.length).toInt.toNat) = .ok sent) :
    dcc_x_argv argv =
      .ok (ARGC.bytes ++ hexDigits (BitVec.ofNat 32 argv.length) ++ sent) := by
  have hlen : dcc_argv_len argv = .ok (BitVec.ofNat 32 argv.length) := if_pos hcount
  unfold dcc_x_argv
  rw [hlen]
  refine bind_eq_ok.mpr ⟨_, rfl, bind_eq_ok.mpr ⟨_, ?_, bind_eq_ok.mpr ⟨sent, ?_, rfl⟩⟩⟩
  · exact congrArg exits (dcc_x_token_int_eq ARGC rfl _)
  · exact congrArg exits hsent

theorem argv_received (hmalloc : ∀ i, m.malloc i = true) (hcount : argv.length < 2 ^ 31)
    (hs : ∀ s ∈ argv, Holds m s) : ∃ sent, dcc_x_argv argv = .ok sent ∧
      dcc_r_argv m (sent ++ rest) = .ok (argv.map (fun s => some s.bytes) ++ [none], rest) := by
  obtain ⟨strings, hsent, hread⟩ := strings_received argv rest 1 hmalloc hs
  have hargc : (BitVec.ofNat 32 argv.length).toNat = argv.length := by
    rw [BitVec.toNat_ofNat]
    omega
  have hint : (BitVec.ofNat 32 argv.length).toInt.toNat = argv.length := by
    rw [BitVec.toInt_eq_toNat_of_lt (by omega), hargc]
    rfl
  have hroom : sizeOfNext m (BitVec.ofNat 32 argv.length) = argv.length + 1 := by
    have := Nat.pow_le_pow_right (n := 2) (by decide) m.size_wide
    unfold sizeOfNext
    rw [hargc]
    exact Nat.mod_eq_of_lt (by omega)
  refine ⟨ARGC.bytes ++ hexDigits (BitVec.ofNat 32 argv.length) ++ strings, ?_, ?_⟩
  · apply dcc_x_argv_eq (by omega)
    rw [hint, take_length]
    exact hsent
  · unfold dcc_r_argv
    rw [append_assoc, token_int_received m rfl]
    simp only [if_pos (hmalloc 0), hroom, hargc]
    rw [if_neg (by omega), hread]
    simp [Except.map]

/-- Up to 2^31 - 1 strings arrive as they were sent, with what follows them still to be
read; and whatever was sent, there are as many strings as announced. -/
theorem dcc_r_argv_dcc_x_argv (m : Machine) :
    (∀ argv rest, (∀ i, m.malloc i = true) → argv.length < 2 ^ 31 → (∀ s ∈ argv, Holds m s) →
      ∃ sent, dcc_x_argv argv = .ok sent ∧
        dcc_r_argv m (sent ++ rest) = .ok (argv.map (fun s => some s.bytes) ++ [none], rest)) ∧
    ∀ stream vector rest, dcc_r_argv m stream = .ok (vector, rest) →
      ∃ argc after, ∃ strings : List (List UInt8),
        dcc_r_token_int m ARGC stream = .ok (argc, after) ∧
          vector = strings.map some ++ [none] ∧ strings.length = argc.toNat := by
  constructor
  · intro argv rest hmalloc hcount hs
    exact argv_received hmalloc hcount hs
  · intro stream vector rest h
    unfold dcc_r_argv at h
    cases hargc : dcc_r_token_int m ARGC stream with
    | error e =>
      rw [hargc] at h
      cases h
    | ok argc =>
      rw [hargc] at h
      simp only at h
      split at h
      · split at h
        · cases h
        obtain ⟨a, ha, heq⟩ := map_eq_ok.mp h
        refine ⟨argc.1, argc.2, a.1, rfl, ?_, strings_counted ha⟩
        exact (Prod.mk.inj heq).1.symm
      · cases h

end Transport

/-- With an empty string and another one. -/
theorem dcc_r_argv_two_strings (rest : List UInt8) :
    ∃ sent, dcc_x_argv [⟨[], by simp⟩, ARGV] = .ok sent ∧
      dcc_r_argv lp64 (sent ++ rest) = .ok ([some [], some (ascii "ARGV"), none], rest) := by
  apply (dcc_r_argv_dcc_x_argv lp64).1 [⟨[], by simp⟩, ARGV] rest (fun _ => rfl) (by decide)
  intro s hs
  unfold Holds
  rcases List.mem_cons.mp hs with rfl | hs
  · decide
  obtain rfl := List.mem_singleton.mp hs
  decide

/-- The frame has no number for 2^32 strings, and they are counted for ever. -/
theorem too_many_strings : ∃ argv, (∀ s ∈ argv, Holds lp64 s) ∧ dcc_x_argv argv = .error .hangs := by
  have hcount : ¬ (List.replicate (2 ^ 32) (⟨[], by simp⟩ : CString)).length < 2 ^ 32 := by
    rw [length_replicate]
    decide
  refine ⟨List.replicate (2 ^ 32) ⟨[], by simp⟩, ?_, ?_⟩
  · intro s hs
    rw [eq_of_mem_replicate hs]
    unfold Holds
    decide
  · rw [dcc_x_argv, dcc_argv_len, if_neg hcount]
    rfl

end Toolwhip.Distcc
