import Toolwhip.Distcc.Rpc

/-! # Retrieving the results

`dcc_retrieve_results` of clirpc.c, and of bulk.c what receives the bodies. What the
client's files do with them is a parameter. -/

namespace Toolwhip.Distcc
open Lib.CNumber
set_option autoImplicit false

inductive Compress where
  | DCC_COMPRESS_NONE
  | DCC_COMPRESS_LZO1X
  deriving DecidableEq, Repr

inductive CppWhere where
  | DCC_CPP_ON_CLIENT
  | DCC_CPP_ON_SERVER
  deriving DecidableEq, Repr

/-- What `dcc_retrieve_results` reads of a `dcc_hostdef`. -/
structure HostFeatures where
  protover : BitVec 32
  compr : Compress
  cpp_where : CppWhere

/-- A file that a body is written to: whether it is created, what it fails to take a body
with (`none` where the body is decompressed and written), and whether it is closed. -/
structure LocalFile where
  creates : Bool
  takes : List UInt8 → Option ExitCode
  closes : Bool

structure Client where
  logsErrors : Bool
  stderr : LocalFile
  stdout : List UInt8 → Option ExitCode
  output : LocalFile
  deps : Option LocalFile

def STAT : CString := ⟨ascii "STAT", noNul_of_contains (by decide)⟩
def SERR : CString := ⟨ascii "SERR", noNul_of_contains (by decide)⟩
def SOUT : CString := ⟨ascii "SOUT", noNul_of_contains (by decide)⟩
def DOTO : CString := ⟨ascii "DOTO", noNul_of_contains (by decide)⟩
def DOTD : CString := ⟨ascii "DOTD", noNul_of_contains (by decide)⟩

section Bulk
variable (m : Machine) (compr : Compress)

def truncatedBulk : ExitCode :=
  match compr with
  | .DCC_COMPRESS_NONE => m.readError.getD .EXIT_IO_ERROR
  | .DCC_COMPRESS_LZO1X => m.readError.getD .EXIT_TRUNCATED

/-- What comes after the body. -/
def dcc_r_bulk (takes : List UInt8 → Option ExitCode) (f_size : BitVec 32) (stream : List UInt8) :
    Except ExitCode (List UInt8) :=
  if f_size = 0 then .ok stream
  else if stream.length < f_size.toNat then .error (truncatedBulk m compr)
  else
    match takes (stream.take f_size.toNat) with
    | none => .ok (stream.drop f_size.toNat)
    | some e => .error e

def dcc_r_file (file : LocalFile) (len : BitVec 32) (stream : List UInt8) :
    Except ExitCode (List UInt8) :=
  if !file.creates then .error .EXIT_IO_ERROR
  else
    match dcc_r_bulk m compr file.takes len stream with
    | .ok rest => if file.closes then .ok rest else .error .EXIT_IO_ERROR
    | .error _ => .error .EXIT_IO_ERROR

end Bulk

section Retrieve
variable (m : Machine) (client : Client) (host : HostFeatures)

/-- Only the call of `rs_log_error` depends on the condition, so that `expect_ver` is not
looked at. -/
def dcc_r_result_header (_expect_ver : BitVec 32) (stream : List UInt8) :
    Except ExitCode (List UInt8) :=
  (dcc_r_token_int m DONE stream).map (·.2)

def dcc_r_cc_status (stream : List UInt8) : Except ExitCode (BitVec 32 × List UInt8) :=
  dcc_r_token_int m STAT stream

/-- The dependencies: `ret` is whether the frame was read, and is only returned after the
body. Where it was not, its bytes are gone and 0 is returned. -/
def retrieveDeps (stream : List UInt8) : Except ExitCode (List UInt8) :=
  match dcc_r_token_int m DOTD stream with
  | .error _ => .ok (stream.drop 12)
  | .ok len =>
    match client.deps with
    | none => .ok len.2
    | some file => dcc_r_file m host.compr file len.1 len.2

def retrieveObject (status o_len : BitVec 32) (stream : List UInt8) :
    Except ExitCode (List UInt8) :=
  if status = 0 then do
    let rest ← dcc_r_file m host.compr client.output o_len stream
    match host.cpp_where with
    | .DCC_CPP_ON_SERVER => retrieveDeps m client host rest
    | .DCC_CPP_ON_CLIENT => .ok rest
  else .ok stream

/-- Where 0 is returned: the status, and what has not been read. Where the log fails,
what is returned is the 0 of the last file. -/
def dcc_retrieve_results (stream : List UInt8) : Except ExitCode (BitVec 32 × List UInt8) := do
  let rest ← dcc_r_result_header m host.protover stream
  let status ← dcc_r_cc_status m rest
  let len ← dcc_r_token_int m SERR status.2
  let rest ← dcc_r_file m host.compr client.stderr len.1 len.2
  if client.logsErrors then do
    let len ← dcc_r_token_int m SOUT rest
    let rest ← dcc_r_bulk m host.compr client.stdout len.1 len.2
    let o_len ← dcc_r_token_int m DOTO rest
    (retrieveObject m client host status.1 o_len.1 o_len.2).map fun rest => (status.1, rest)
  else .ok (status.1, rest)

end Retrieve
end Toolwhip.Distcc
