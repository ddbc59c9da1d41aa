import Toolwhip.Distcc.Lock

/-! # A build with its locks

`dcc_build_somewhere` of compile.c and `dcc_compile_remote` of remote.c. What the calls
they make return is given, except for those that lock. A label is a function of the
variables that are live there. -/

namespace Toolwhip.Distcc
open Lib.CNumber
set_option autoImplicit false

def ExitCode.value : ExitCode → Int
  | EXIT_DISTCC_FAILED => 100
  | EXIT_BAD_ARGUMENTS => 101
  | EXIT_BIND_FAILED => 102
  | EXIT_CONNECT_FAILED => 103
  | EXIT_COMPILER_CRASHED => 104
  | EXIT_OUT_OF_MEMORY => 105
  | EXIT_BAD_HOSTSPEC => 106
  | EXIT_IO_ERROR => 107
  | EXIT_TRUNCATED => 108
  | EXIT_PROTOCOL_ERROR => 109
  | EXIT_COMPILER_MISSING => 110
  | EXIT_RECURSION => 111
  | EXIT_SETUID_FAILED => 112
  | EXIT_ACCESS_DENIED => 113
  | EXIT_BUSY => 114
  | EXIT_NO_SUCH_FILE => 115
  | EXIT_NO_HOSTS => 116
  | EXIT_GONE => 117
  | EXIT_TIMEOUT => 118

/-- What the calls in `dcc_compile_remote` return; a status is what they store. -/
structure RemoteCalls where
  remote_connect : Int
  send_header : Int
  x_many_files : Int
  wait_for_cpp : Int
  cpp_status : Int
  x_file : Int
  retrieve_results : Int
  retrieved_status : Int

/-- What the calls in `dcc_build_somewhere` return. -/
structure Calls where
  expand_preprocessor_options : Int
  discrepancy_filename : Int
  scan_args : Int
  make_tmpnam : Int
  hosts : HostSource
  too_many_discrepancies : Bool
  is_preprocessed : Bool
  cpath_set : Bool
  dcc_scan_includes : Bool
  approximate_includes : Int
  talk_to_include_server : Int
  testing_include_server : Bool
  cpp_maybe : Int
  strip_local_args : Int
  copy_argv : Int
  remote : RemoteCalls
  critique_status : Int
  copy_stderr : Int
  fallback : Bool
  compile_local : Int

def unlockIf (lock_fd : Option Nat) (p : Process) : Process :=
  match lock_fd with
  | some fd => dcc_unlock fd p
  | none => p

section Remote
variable (c : RemoteCalls) (host : Hostdef)

/-- The return value and the status are kept at `out`. -/
def remoteOut (ret status : Int) (local_cpu_lock_fd : Option Nat) (p : Process) :
    Int × Int × Process := (ret, status, unlockIf local_cpu_lock_fd p)

def dcc_compile_remote (local_cpu_lock_fd : Option Nat) (p : Process) : Int × Int × Process :=
  if c.remote_connect ≠ 0 then remoteOut c.remote_connect 0 local_cpu_lock_fd p
  else if host.cpp_where = some .DCC_CPP_ON_SERVER then
    if c.send_header ≠ 0 then remoteOut c.send_header 0 local_cpu_lock_fd p
    else if c.x_many_files ≠ 0 then remoteOut c.x_many_files 0 local_cpu_lock_fd p
    else remoteOut c.retrieve_results c.retrieved_status local_cpu_lock_fd p
  else if c.send_header ≠ 0 then remoteOut c.send_header 0 local_cpu_lock_fd p
  else if c.wait_for_cpp ≠ 0 then remoteOut c.wait_for_cpp c.cpp_status local_cpu_lock_fd p
  else
    -- local preprocessing is done
    let p := unlockIf local_cpu_lock_fd p
    if c.cpp_status ≠ 0 then remoteOut 0 c.cpp_status none p
    else if c.x_file ≠ 0 then remoteOut c.x_file c.cpp_status none p
    else remoteOut c.retrieve_results c.retrieved_status none p

end Remote

/-- How `dcc_build_somewhere` ends: it returns, or `dcc_exit` is called in it. -/
inductive BuildEnd where
  | returned (ret : Int) (p : Process)
  | exited (ret : Int) (p : Process)

section Build
variable (c : Calls) (rounds : Nat)

/-- The descriptors that are set at `unlock_and_clean_up`. -/
def unlockAndCleanUp (ret : Int) (cpu_lock_fd local_cpu_lock_fd : Option Nat) (p : Process) :
    BuildEnd := .returned ret (unlockIf local_cpu_lock_fd (unlockIf cpu_lock_fd p))

def runLocal (cpu_lock_fd local_cpu_lock_fd : Option Nat) (p : Process) : BuildEnd :=
  unlockAndCleanUp c.compile_local cpu_lock_fd local_cpu_lock_fd p

/-- What `dcc_lock_local` returns is ignored. -/
def lockLocal (p : Process) : Option BuildEnd :=
  match dcc_lock_local rounds p none with
  | none => none
  | some (_, p, cpu_lock_fd) => some (runLocal c cpu_lock_fd none p)

def fallback (ret : Int) (cpu_lock_fd local_cpu_lock_fd : Option Nat) (p : Process) :
    Option BuildEnd :=
  let p := unlockIf local_cpu_lock_fd (unlockIf cpu_lock_fd p)
  if c.fallback then lockLocal c rounds p else some (.returned ret p)

def cppOnClient (host : Hostdef) : Hostdef :=
  { host with
    cpp_where := some .DCC_CPP_ON_CLIENT
    protover := (dcc_get_protover_from_features host.compr .DCC_CPP_ON_CLIENT).getD (-1) }

def dcc_perhaps_adjust_cpp_where_and_protover (host : Hostdef) : Hostdef :=
  if c.too_many_discrepancies || c.is_preprocessed || c.cpath_set then cppOnClient host else host

def compileRemotely (host : Hostdef) (cpu_lock_fd local_cpu_lock_fd : Option Nat) (p : Process) :
    Option BuildEnd :=
  match dcc_compile_remote c.remote host local_cpu_lock_fd p with
  | (ret, _, p) =>
    if ret ≠ 0 then fallback c rounds ret cpu_lock_fd none p
    else
      let p := unlockIf cpu_lock_fd p
      if c.critique_status = 0 then
        if c.copy_stderr ≠ 0 then fallback c rounds 0 none none p else some (.returned 0 p)
      else fallback c rounds c.critique_status none none p

/-- The arguments for the server, and the local preprocessing, if that is what is done. -/
def prepare (host : Hostdef) (cpu_lock_fd local_cpu_lock_fd : Option Nat) (p : Process) :
    Option BuildEnd :=
  if host.cpp_where = some .DCC_CPP_ON_CLIENT then
    -- it is the comparison that is assigned to `ret`
    if c.cpp_maybe ≠ 0 then fallback c rounds 1 cpu_lock_fd local_cpu_lock_fd p
    else if c.strip_local_args ≠ 0 then
      fallback c rounds c.strip_local_args cpu_lock_fd local_cpu_lock_fd p
    else compileRemotely c rounds host cpu_lock_fd local_cpu_lock_fd p
  else if c.copy_argv ≠ 0 then fallback c rounds c.copy_argv cpu_lock_fd local_cpu_lock_fd p
  else compileRemotely c rounds host cpu_lock_fd local_cpu_lock_fd p

/-- The include server, if the server is to preprocess. -/
def scanIncludes (host : Hostdef) (cpu_lock_fd local_cpu_lock_fd : Option Nat) (p : Process) :
    Option BuildEnd :=
  if host.cpp_where = some .DCC_CPP_ON_SERVER then
    if c.talk_to_include_server ≠ 0 then
      if c.testing_include_server then some (.exited c.talk_to_include_server p)
      else prepare c rounds (cppOnClient host) cpu_lock_fd local_cpu_lock_fd p
    else prepare c rounds host cpu_lock_fd none (unlockIf local_cpu_lock_fd p)
  else prepare c rounds host cpu_lock_fd local_cpu_lock_fd p

/-- With the lock of a host that is not the local one. -/
def buildRemotely (host : Hostdef) (cpu_lock_fd : Option Nat) (p : Process) : Option BuildEnd :=
  match dcc_lock_local_cpp rounds p none with
  | none => none
  | some (.error ret, p, local_cpu_lock_fd) => fallback c rounds ret.value cpu_lock_fd local_cpu_lock_fd p
  | some (.ok _, p, local_cpu_lock_fd) =>
    let host := if host.cpp_where = some .DCC_CPP_ON_SERVER then
        dcc_perhaps_adjust_cpp_where_and_protover c host
      else host
    if c.dcc_scan_includes then
      some (unlockAndCleanUp c.approximate_includes cpu_lock_fd local_cpu_lock_fd p)
    else scanIncludes c rounds host cpu_lock_fd local_cpu_lock_fd p

def pickHost (p : Process) : Option BuildEnd :=
  match dcc_pick_host_from_list_and_lock_it rounds c.hosts p none with
  | none => none
  | some (.error ret, p, cpu_lock_fd) => fallback c rounds ret.value cpu_lock_fd none p
  | some (.ok host, p, cpu_lock_fd) =>
    if host.mode = some .DCC_MODE_LOCAL then some (runLocal c cpu_lock_fd none p)
    else buildRemotely c rounds host cpu_lock_fd p

def dcc_build_somewhere (sg_level : Int) (p : Process) : Option BuildEnd :=
  if c.expand_preprocessor_options ≠ 0 then some (.returned c.expand_preprocessor_options p)
  else if c.discrepancy_filename ≠ 0 then some (.returned c.discrepancy_filename p)
  else if sg_level ≠ 0 then some (runLocal c none none p)
  else if c.scan_args ≠ 0 then lockLocal c rounds p
  else if c.make_tmpnam ≠ 0 then fallback c rounds c.make_tmpnam none none p
  else pickHost c rounds p

end Build
end Toolwhip.Distcc
