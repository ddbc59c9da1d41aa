import Toolwhip.Distcc.Filename
import Toolwhip.Distcc.ArgvTransport

/-! # Scanning the arguments

arg.c, where memory is not exhausted and XCODE_INTEGRATION is not defined: what
`dcc_scan_args` finds in a command line, and how the names of the input and of the output
are changed in it. The scan keeps pointers into the new vector: here the places that they
point to. -/

namespace Toolwhip.Distcc
open Lib.CNumber
set_option autoImplicit false

abbrev Arg := List UInt8

/-- An element, or what follows the `-o` of an element. -/
inductive Place where
  | element (i : Nat)
  | suffix (i : Nat)
  deriving DecidableEq, Repr

def Place.index : Place → Nat
  | element i => i
  | suffix i => i

def Place.read (argv : List Arg) : Place → Arg
  | element i => argv.getD i []
  | suffix i => (argv.getD i []).drop 2

def Place.write (argv : List Arg) (name : Arg) : Place → List Arg
  | element i => argv.set i name
  | suffix i => argv.set i (ascii "-o" ++ name)

/-- What the scan makes of a word. -/
inductive Kind where
  | refused
  | plain
  /-- an option of the preprocessor with an argument that is not looked at -/
  | withArgument
  | opt_c
  | opt_S
  | opt_x
  | opt_o
  | joined
  | source
  | object
  deriving DecidableEq, Repr

/-- The branches of the loop in their order. -/
def kind (remote : RemoteAssemble) (a : Arg) : Kind :=
  if a.head? = some 45 then
    if a = ascii "-E" then .refused
    else if a = ascii "-MD" ∨ a = ascii "-MMD" then .plain
    else if a = ascii "-MG" ∨ a = ascii "-MP" then .plain
    else if a = ascii "-MF" ∨ a = ascii "-MT" ∨ a = ascii "-MQ" then .withArgument
    else if str_startswith (ascii "-MF") a ∨ str_startswith (ascii "-MT") a ∨
      str_startswith (ascii "-MQ") a then .plain
    else if a[1]? = some 77 then .refused
    else if a = ascii "-march=native" then .refused
    else if a = ascii "-mtune=native" then .refused
    else if str_startswith (ascii "-Wa,") a then
      if strstr a (ascii ",-a") ∨ strstr a (ascii "--MD") then .refused else .plain
    else if str_startswith (ascii "-specs=") a then .refused
    else if a = ascii "-S" then .opt_S
    else if a = ascii "-fprofile-arcs" ∨ a = ascii "-ftest-coverage" then .refused
    else if a = ascii "-frepo" then .refused
    else if a = ascii "-x" then .opt_x
    else if str_startswith (ascii "-x") a then .refused
    else if str_startswith (ascii "-dr") a then .refused
    else if a = ascii "-c" then .opt_c
    else if a = ascii "-o" then .opt_o
    else if str_startswith (ascii "-o") a then .joined
    else .plain
  else if dcc_is_source remote a then .source
  else if str_endswith (ascii ".o") a then .object
  else .plain

def Kind.takesNext : Kind → Bool
  | .withArgument | .opt_x | .opt_o => true
  | _ => false

def dcc_optx_ext_lookup (language_name : Arg) : Option Arg :=
  if language_name = ascii "c" ∨ language_name = ascii "cpp-output" then some (ascii ".i")
  else if language_name = ascii "c++" ∨ language_name = ascii "c++-cpp-output" then
    some (ascii ".ii")
  else if language_name = ascii "objective-c" ∨ language_name = ascii "objc-cpp-output" then
    some (ascii ".mi")
  else if language_name = ascii "objective-c++" ∨ language_name = ascii "objc++-cpp-output" then
    some (ascii ".mii")
  else none

/-- The variables of the loop. -/
structure Seen where
  opt_c : Bool := false
  opt_s : Bool := false
  input : Option Nat := none
  output : Option Place := none
  optx_ext : Option Arg := none
  deriving DecidableEq

def giveUp {α : Type} : Except Failure α := .error (.exit .EXIT_DISTCC_FAILED)

def gotOutput (place : Place) (seen : Seen) : Except Failure Seen :=
  if seen.output.isSome then giveUp else .ok { seen with output := some place }

/-- What the word at `i` changes; `next` is the word after it. -/
def lookAt (i : Nat) (k : Kind) (next : Option Arg) (seen : Seen) : Except Failure Seen :=
  match k with
  | .refused => giveUp
  | .plain => .ok seen
  | .withArgument => .ok seen
  | .opt_c => .ok { seen with opt_c := true }
  | .opt_S => .ok { seen with opt_s := true }
  | .opt_x =>
    match next with
    | none => giveUp
    | some lang =>
      if lang = [] then giveUp
      else if seen.input.isSome then giveUp
      else if seen.optx_ext.isSome then giveUp
      else
        match dcc_optx_ext_lookup lang with
        | none => giveUp
        | some ext => .ok { seen with optx_ext := some ext }
  | .opt_o => gotOutput (.element (i + 1)) seen
  | .joined => gotOutput (.suffix i) seen
  | .source => if seen.input.isSome then giveUp else .ok { seen with input := some i }
  | .object => gotOutput (.element i) seen

section Scan
variable (remote : RemoteAssemble)

/-- An option at the end that takes the next word makes the loop go on after the null
pointer, where nothing has been written. -/
def scanWords (i : Nat) (argv : List Arg) (seen : Seen) : Except Failure Seen :=
  match argv with
  | [] => .ok seen
  | a :: rest => do
    let seen ← lookAt i (kind remote a) rest.head? seen
    if (kind remote a).takesNext then
      match rest with
      | [] => .error .undefined
      | _ :: rest => scanWords (i + 2) rest seen
    else scanWords (i + 1) rest seen

structure Scan where
  argv : List Arg
  input : Nat
  output : Place
  forced_cpp_ext : Option Arg

def Scan.input_file (s : Scan) : Arg := s.argv.getD s.input []

def Scan.output_file (s : Scan) : Arg := s.output.read s.argv

def outputExtension (seen : Seen) : Arg := if seen.opt_s then ascii ".s" else ascii ".o"

def addOutput (argv : List Arg) (input_file : Arg) (seen : Seen) :
    Except Failure (List Arg × Place) :=
  match seen.output with
  | some place => .ok (argv, place)
  | none =>
    match dcc_output_from_source input_file (outputExtension seen) with
    | .ok ofile => .ok (argv ++ [ascii "-o", ofile], .element (argv.length + 1))
    | .error _ => giveUp

def dcc_scan_args (argv : List Arg) : Except Failure Scan :=
  if (argv.headD []).head? = some 45 then .error (.exit .EXIT_BAD_ARGUMENTS)
  else do
    let seen ← scanWords remote 0 argv {}
    if !seen.opt_c && !seen.opt_s then giveUp
    else
      match seen.input with
      | none => giveUp
      | some input =>
        if dcc_source_needs_local (argv.getD input []) then giveUp
        else do
          let added ← addOutput argv (argv.getD input []) seen
          if added.2.read added.1 = ascii "-" then giveUp
          else .ok ⟨added.1, input, added.2, seen.optx_ext⟩

def dcc_set_output (ofname : Arg) : List Arg → Except ExitCode (List Arg)
  | [] => .error .EXIT_DISTCC_FAILED
  | a :: rest =>
    if a = ascii "-o" ∧ rest ≠ [] then .ok (a :: ofname :: rest.tail)
    else if str_startswith (ascii "-o") a then .ok ((ascii "-o" ++ ofname) :: rest)
    else (dcc_set_output ofname rest).map (a :: ·)

def dcc_set_input (ifname : Arg) : List Arg → Except ExitCode (List Arg)
  | [] => .error .EXIT_DISTCC_FAILED
  | a :: rest =>
    if dcc_is_source remote a then .ok (ifname :: rest)
    else (dcc_set_input ifname rest).map (a :: ·)

end Scan
end Toolwhip.Distcc
