import Toolwhip.Distcc.Rpc

/-! # File names

What filename.c makes of the name of a file: its extension, its base name, whether it is
source, and the default name of an object file. A string is the bytes before its
terminator. -/

namespace Toolwhip.Distcc
open Lib.CNumber
set_option autoImplicit false

def strrchr (c : UInt8) : List UInt8 → Option (List UInt8)
  | [] => none
  | b :: s =>
    match strrchr c s with
    | some found => some found
    | none => if b = c then some (b :: s) else none

def str_startswith (head worm : List UInt8) : Bool := head.isPrefixOf worm

def str_endswith (tail tiger : List UInt8) : Bool := tail.isSuffixOf tiger

def strstr (s x : List UInt8) : Bool := s.tails.any x.isPrefixOf

def dcc_find_extension (sfile : List UInt8) : Option (List UInt8) :=
  match strrchr 46 sfile with
  | some dot => if dot.tail = [] then none else some dot
  | none => none

def dcc_find_basename (sfile : List UInt8) : List UInt8 :=
  match strrchr 47 sfile with
  | some slash => if slash.tail = [] then sfile else slash.tail
  | none => sfile

abbrev RemoteAssemble := Bool

def sourceExtensions (remote : RemoteAssemble) : List (List UInt8) :=
  ["i", "ii", "c", "cc", "cpp", "cxx", "cp", "c++", "C", "m", "mm", "mi", "mii", "M"].map ascii ++
    if remote then ["s", "S"].map ascii else []

def dcc_is_source (remote : RemoteAssemble) (sfile : List UInt8) : Bool :=
  match dcc_find_extension sfile with
  | some dot => (sourceExtensions remote).contains dot.tail
  | none => false

def dcc_source_needs_local (filename : List UInt8) : Bool :=
  let p := dcc_find_basename filename
  str_startswith (ascii "conftest.") p || str_startswith (ascii "tmp.conftest.") p

def dcc_set_file_extension (sfile new_ext : List UInt8) : Except ExitCode (List UInt8) :=
  match dcc_find_extension sfile with
  | none => .error .EXIT_DISTCC_FAILED
  | some dot =>
    if dot.length < new_ext.length then .error .EXIT_DISTCC_FAILED
    else .ok (sfile.take (sfile.length - dot.length) ++ new_ext)

def dcc_output_from_source (sfile out_extn : List UInt8) : Except ExitCode (List UInt8) :=
  let sfile := match strrchr 47 sfile with
    | some slash => slash.tail
    | none => sfile
  if sfile.length < 3 then .error .EXIT_DISTCC_FAILED
  else dcc_set_file_extension sfile out_extn

end Toolwhip.Distcc
