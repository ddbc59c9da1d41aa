import Toolwhip.Lib.SortContract
import Toolwhip.Distcc.Arg
import Toolwhip.Distcc.Clirpc

/-! # The host list

hosts.c without Avahi: what `dcc_parse_hosts` makes of the text of a host list. A cursor
is the text from there on, and allocations succeed. -/

namespace Toolwhip.Distcc
open Lib.CNumber
set_option autoImplicit false

inductive Mode where
  | DCC_MODE_TCP
  | DCC_MODE_SSH
  | DCC_MODE_LOCAL
  deriving DecidableEq, Repr

/-- `dcc_hostdef`; `none` is the zero of `calloc`. -/
structure Hostdef where
  mode : Option Mode
  user : Option (List UInt8)
  hostname : Option (List UInt8)
  port : Int
  ssh_command : Option (List UInt8)
  is_up : Bool
  n_slots : Int
  hostdef_string : List UInt8
  protover : BitVec 32
  compr : Compress
  cpp_where : Option CppWhere
  deriving DecidableEq

def DCC_VER_1 : BitVec 32 := 1
def DCC_VER_2 : BitVec 32 := 2
def DCC_VER_3 : BitVec 32 := 3
def DISTCC_DEFAULT_PORT : Int := 3632

def newHost (token : List UInt8) : Hostdef where
  mode := none
  user := none
  hostname := none
  port := 0
  ssh_command := none
  is_up := true
  n_slots := 4
  hostdef_string := token
  protover := DCC_VER_1
  compr := .DCC_COMPRESS_NONE
  cpp_where := none

/-- `none` is -1. -/
def dcc_get_protover_from_features : Compress → CppWhere → Option (BitVec 32)
  | .DCC_COMPRESS_NONE, .DCC_CPP_ON_CLIENT => some DCC_VER_1
  | .DCC_COMPRESS_LZO1X, .DCC_CPP_ON_SERVER => some DCC_VER_3
  | .DCC_COMPRESS_LZO1X, .DCC_CPP_ON_CLIENT => some DCC_VER_2
  | .DCC_COMPRESS_NONE, .DCC_CPP_ON_SERVER => none

def dcc_dup_part (src sep : List UInt8) : Option (List UInt8) × List UInt8 :=
  let part := src.takeWhile fun b => !sep.contains b
  (if part = [] then none else some part, src.dropWhile fun b => !sep.contains b)

def blanks : List UInt8 := [32, 9, 10, 13, 12]

def nameEnds : List UInt8 := ascii "/:" ++ blanks ++ ascii ","

section Parse
variable (longBits : Nat)

def dcc_parse_multiplier (src : List UInt8) (n_slots : Int) :
    Except ExitCode (Int × List UInt8) :=
  match src with
  | [] => .ok (n_slots, [])
  | c :: digits =>
    if c = 47 ∨ c = 61 then
      let val := atoi longBits digits
      if val = 0 then .error .EXIT_BAD_HOSTSPEC
      else .ok (val, digits.dropWhile (isDigit 10))
    else .ok (n_slots, c :: digits)

/-- `,lzo`, `,down` and `,cpp` as long as there are any. -/
def readOptions (host : Hostdef) : List UInt8 → Except ExitCode (Hostdef × List UInt8)
  | 44 :: 108 :: 122 :: 111 :: p => readOptions { host with compr := .DCC_COMPRESS_LZO1X } p
  | 44 :: 100 :: 111 :: 119 :: 110 :: p => readOptions { host with is_up := false } p
  | 44 :: 99 :: 112 :: 112 :: p => readOptions { host with cpp_where := some .DCC_CPP_ON_SERVER } p
  | 44 :: _ => .error .EXIT_BAD_HOSTSPEC
  | p => .ok (host, p)

def dcc_parse_options (src : List UInt8) (host : Hostdef) : Except ExitCode Hostdef := do
  let plain := { host with
    compr := .DCC_COMPRESS_NONE, cpp_where := some .DCC_CPP_ON_CLIENT }
  let (host, _) ← readOptions plain src
  match dcc_get_protover_from_features host.compr (host.cpp_where.getD .DCC_CPP_ON_CLIENT) with
  | none => .error .EXIT_BAD_HOSTSPEC
  | some protover => .ok { host with protover := protover }

def parseCommand : List UInt8 → Option (List UInt8) × List UInt8
  | 58 :: token => dcc_dup_part token (blanks ++ ascii ",")
  | token => (none, token)

def dcc_parse_ssh_host (hostdef : Hostdef) (token_start : List UInt8) : Except ExitCode Hostdef :=
  let (user, token) := dcc_dup_part token_start (ascii "@")
  match token with
  | 64 :: token =>
    match dcc_dup_part token nameEnds with
    | (none, _) => .error .EXIT_BAD_HOSTSPEC
    | (some hostname, token) => do
      let (n_slots, token) ← dcc_parse_multiplier longBits token hostdef.n_slots
      let (ssh_command, token) := parseCommand token
      let hostdef ← dcc_parse_options token { hostdef with
        user := user, hostname := some hostname, n_slots := n_slots, ssh_command := ssh_command }
      .ok { hostdef with mode := some .DCC_MODE_SSH }
  | _ => .error .EXIT_BAD_HOSTSPEC

/-- `strtol` returns to an int. -/
def parsePort : List UInt8 → Except ExitCode (Int × List UInt8)
  | 58 :: token =>
    let (port, tail) := strtol longBits 10 token
    match tail with
    | [] => .ok ((BitVec.ofInt 32 port).toInt, [])
    | c :: _ =>
      if !isspace c ∧ c ≠ 47 ∧ c ≠ 44 then .error .EXIT_BAD_HOSTSPEC
      else .ok ((BitVec.ofInt 32 port).toInt, tail)
  | token => .ok (DISTCC_DEFAULT_PORT, token)

def dcc_parse_tcp_host (hostdef : Hostdef) (token_start : List UInt8) : Except ExitCode Hostdef :=
  match dcc_dup_part token_start nameEnds with
  | (none, _) => .error .EXIT_BAD_HOSTSPEC
  | (some hostname, token) => do
    let (n_slots, token) ← dcc_parse_multiplier longBits token hostdef.n_slots
    let (port, token) ← parsePort longBits token
    let (n_slots, token) ← dcc_parse_multiplier longBits token n_slots
    let hostdef ← dcc_parse_options token { hostdef with
      hostname := some hostname, n_slots := n_slots, port := port }
    .ok { hostdef with mode := some .DCC_MODE_TCP }

def dcc_parse_localhost (hostdef : Hostdef) (token_start : List UInt8) :
    Except ExitCode Hostdef := do
  let (n_slots, _) ← dcc_parse_multiplier longBits (token_start.drop 9) 2
  .ok { hostdef with
    mode := some .DCC_MODE_LOCAL, hostname := some (ascii "localhost"), n_slots := n_slots }

/-! ## The whole list -/

/-- A token and what follows it. -/
structure Token where
  text : List UInt8
  rest : List UInt8
  deriving DecidableEq

/-- A byte that `strcspn` goes over. -/
def inToken (b : UInt8) : Bool := !(35 :: blanks).contains b

/-- The tokens between blanks and comments; `left` is at least the length of the text. -/
def tokensIn : Nat → List UInt8 → List Token
  | 0, _ => []
  | _ + 1, [] => []
  | left + 1, c :: text =>
    if c = 35 then tokensIn left (text.dropWhile fun b => b ≠ 10 ∧ b ≠ 13)
    else if isspace c then tokensIn left text
    else ⟨(c :: text).takeWhile inToken, (c :: text).dropWhile inToken⟩ ::
      tokensIn left ((c :: text).dropWhile inToken)

def tokens (text : List UInt8) : List Token := tokensIn text.length text

/-- The slots of `dcc_hostdef_local` and `dcc_hostdef_local_cpp`, the flag, and the list. -/
structure HostList where
  localSlots : Int
  localCppSlots : Int
  flag_randomize : Bool
  hosts : List Hostdef
  deriving DecidableEq

def keyword (token_start : List UInt8) (list : HostList) : Option HostList :=
  if str_startswith (ascii "--randomize") token_start then
    some { list with flag_randomize := true }
  else
    let localslots_cpp :=
      if str_startswith (ascii "--localslots_cpp") token_start then
        (dcc_parse_multiplier longBits (token_start.drop 16) list.localCppSlots).toOption
      else none
    let localslots :=
      if str_startswith (ascii "--localslots") token_start then
        (dcc_parse_multiplier longBits (token_start.drop 12) list.localSlots).toOption
      else none
    match localslots_cpp, localslots with
    | some (n_slots, _), _ => some { list with localCppSlots := n_slots }
    | none, some (n_slots, _) => some { list with localSlots := n_slots }
    | none, none => none

def isLocalhost (token : Token) : Bool :=
  let token_start := token.text ++ token.rest
  str_startswith (ascii "localhost") token_start &&
    (token.text.length == 9 || token_start[9]? == some 47)

def parseHost (token : Token) : Except ExitCode Hostdef :=
  let token_start := token.text ++ token.rest
  if isLocalhost token then dcc_parse_localhost longBits (newHost token.text) token_start
  else if token.text.contains 64 then dcc_parse_ssh_host longBits (newHost token.text) token_start
  else dcc_parse_tcp_host longBits (newHost token.text) token_start

/-- `dcc_hostdef_local` gets the slots of a localhost that has more. -/
def localSlotsWith (host : Hostdef) (localSlots : Int) : Int :=
  if host.mode = some .DCC_MODE_LOCAL ∧ host.n_slots > localSlots then host.n_slots else localSlots

def parseToken (list : HostList) (token : Token) : Except ExitCode HostList :=
  match keyword longBits (token.text ++ token.rest) list with
  | some list => .ok list
  | none => do
    let host ← parseHost longBits token
    .ok { list with
      localSlots := localSlotsWith host list.localSlots, hosts := list.hosts ++ [host] }

/-- By the number that `rand` gives to each host. -/
def dcc_randomize_host_list (rand : Nat → Int)
    (qsort : List (Hostdef × Int) → List (Hostdef × Int)) (hosts : List Hostdef) : List Hostdef :=
  (qsort (hosts.zipIdx.map fun p => (p.1, rand p.2))).map Prod.fst

def dcc_parse_hosts (rand : Nat → Int)
    (qsort : List (Hostdef × Int) → List (Hostdef × Int)) (localSlots localCppSlots : Int)
    (text : List UInt8) : Except ExitCode HostList := do
  let list ← (tokens text).foldlM (parseToken longBits) ⟨localSlots, localCppSlots, false, []⟩
  if list.hosts = [] then .error .EXIT_BAD_HOSTSPEC
  else if list.flag_randomize then
    .ok { list with hosts := dcc_randomize_host_list rand qsort list.hosts }
  else .ok list

end Parse
end Toolwhip.Distcc
