import Toolwhip.Lib.Substring
import Toolwhip.Distcc.Arg
import Toolwhip.Distcc.Clirpc

/-! # Sending the files of a compilation

`dcc_x_many_files` of clirpc.c and `dcc_r_many_files` of srvrpc.c, with XCODE_INTEGRATION,
and how compress_files.py and mirror_path.py name what is sent. The files of the client,
and what the calls to the server's kernel come to, are parameters. -/

namespace Toolwhip.Distcc
open Lib.CNumber Lib.Substring List
set_option autoImplicit false

inductive Ret where
  | one
  | failure (f : Failure)
  deriving DecidableEq, Repr

def Ret.exit (code : ExitCode) : Ret := .failure (.exit code)

def cstring (bytes : List UInt8) : CString where
  bytes := bytes.takeWhile (· ≠ 0)
  noNul b hb := by
    have hne := mem_takeWhile_imp (p := fun b => decide (b ≠ 0)) hb
    exact of_decide_eq_true hne

def dcc_replace_substring (s find replace : List UInt8) : Option (List UInt8) :=
  if find = [] then none else some (replaceAll find replace s)

def xci_dev_dir_token : List UInt8 := ascii "/_^_XCODE_DEV_DIRECTORY_^_"

/-- `none` for the null pointer of `dcc_xci_xcodeselect_path` -/
def dcc_xci_mask_developer_dir (xcodeselect_path : Option CString) (path : List UInt8) :
    Option (List UInt8) :=
  xcodeselect_path.bind fun dir => dcc_replace_substring path dir.bytes xci_dev_dir_token

def dcc_xci_unmask_developer_dir (xcodeselect_path : Option CString) (path : List UInt8) :
    Option (List UInt8) :=
  xcodeselect_path.bind fun dir => dcc_replace_substring path xci_dev_dir_token dir.bytes

/-! ## The client -/

def INCLUDE_SERVER_DIR_DEPTH : Nat := 3

def fromSlash (s : List UInt8) : Option (List UInt8) :=
  match s.dropWhile (· ≠ 47) with
  | [] => none
  | b :: rest => some (b :: rest)

/-- `work = strchr(work + 1, '/')`, `n` times -/
def dropComponents : Nat → List UInt8 → Option (List UInt8)
  | 0, work => some work
  | n + 1, work => (fromSlash work.tail).bind (dropComponents n)

def stripExtension (extension work : List UInt8) : List UInt8 :=
  if dcc_find_extension work = some extension then work.take (work.length - extension.length)
  else work

def dcc_get_original_fname (fname : List UInt8) : Except Ret (List UInt8) :=
  match dropComponents INCLUDE_SERVER_DIR_DEPTH fname with
  | none => .error .one
  | some work => .ok (stripExtension (ascii ".lzo") (stripExtension (ascii ".abs") work))

/-- What `lstat`, `readlink` and `read` find. -/
inductive SentNode where
  | file (contents : List UInt8)
  | link (points_to : List UInt8)
  deriving DecidableEq, Repr

structure SendingClient where
  xcodeselect_path : Option CString
  node : List UInt8 → Option SentNode
  MAXPATHLEN : Nat

def NFIL : CString := ⟨ascii "NFIL", noNul_of_contains (by decide)⟩
def NAME : CString := ⟨ascii "NAME", noNul_of_contains (by decide)⟩
def LINK : CString := ⟨ascii "LINK", noNul_of_contains (by decide)⟩
def FILE : CString := ⟨ascii "FILE", noNul_of_contains (by decide)⟩

def orRet {α : Type} (result : Except ExitCode α) : Except Ret α := result.mapError .exit

section Client
variable (client : SendingClient)

def maskOrFail (path : List UInt8) : Except Ret (List UInt8) :=
  match dcc_xci_mask_developer_dir client.xcodeselect_path path with
  | none => .error (.exit .EXIT_OUT_OF_MEMORY)
  | some masked => .ok masked

/-- `dcc_x_file` for a file that is compressed already -/
def dcc_x_file (token : CString) (contents : List UInt8) : Except ExitCode (List UInt8) :=
  (dcc_x_token_int token (BitVec.ofNat 32 contents.length)).map fun frame => frame ++ contents

/-- The body of the loop. -/
def sendFile (fname : List UInt8) : Except Ret (List UInt8) := do
  let original_fname ← dcc_get_original_fname fname
  match client.node fname with
  | none => .error (.exit .EXIT_IO_ERROR)
  | some (.link points_to) => do
    let original_fname ← maskOrFail client original_fname
    let link_points_to ← maskOrFail client (points_to.take client.MAXPATHLEN)
    let name ← orRet (dcc_x_token_string NAME (cstring original_fname))
    (orRet (dcc_x_token_string LINK (cstring (link_points_to.take client.MAXPATHLEN)))).map
      fun link => name ++ link
  | some (.file contents) => do
    let original_fname ← maskOrFail client original_fname
    let name ← orRet (dcc_x_token_string NAME (cstring original_fname))
    (orRet (dcc_x_file FILE contents)).map fun file => name ++ file

def sendFiles : List (List UInt8) → Except Ret (List UInt8)
  | [] => .ok []
  | fname :: fnames => do
    let sent ← sendFile client fname
    (sendFiles fnames).map fun later => sent ++ later

def dcc_x_many_files (n_files : BitVec 32) (fnames : List (List UInt8)) : Except Ret (List UInt8) :=
  let header := match dcc_x_token_int NFIL n_files with
    | .ok header => header
    | .error _ => []
  (sendFiles client fnames).map fun sent => header ++ sent

end Client

/-- As `dcc_compile_remote` calls it, with `dcc_argv_len(files)`. -/
def sendFileSet (client : SendingClient) (files : List (List UInt8)) : Except Ret (List UInt8) :=
  dcc_x_many_files client (BitVec.ofNat 32 files.length) files

/-! ## The server -/

inductive Made where
  | link (target name : List UInt8)
  | file (name contents : List UInt8)
  | headermap (name dirname : List UInt8)
  deriving DecidableEq, Repr

inductive Attempt where
  | ancestors (name : List UInt8)
  | create (name : List UInt8)
  | write (name contents : List UInt8)
  | close (name : List UInt8)
  | symlink (target name : List UInt8)
  | headermap_fix (name dirname : List UInt8)
  | add_cleanup (name : List UInt8)

structure ReceivingServer where
  xcodeselect_path : Option CString
  /-- `lzo1x_decompress_safe`, with a buffer that is large enough -/
  decompress : List UInt8 → Option (List UInt8)
  /-- what a call fails with after what was created -/
  fails : List Made → Attempt → Option ExitCode

/-- `made` is what was created and not removed again. -/
structure ReceivedFiles where
  made : List Made
  result : Except Ret (List UInt8)
  deriving DecidableEq

section Server
variable (m : Machine) (server : ReceivingServer) (dirname : List UInt8) (compr : Compress)

def uncompressed (body : List UInt8) : Option (List UInt8) :=
  if body = [] then some []
  else
    match compr with
    | .DCC_COMPRESS_NONE => some body
    | .DCC_COMPRESS_LZO1X => server.decompress body

def localFile (made : List Made) (name : List UInt8) : LocalFile where
  creates := server.fails made (.ancestors name) = none && server.fails made (.create name) = none
  takes body :=
    match uncompressed server compr body with
    | none => some .EXIT_IO_ERROR
    | some contents => server.fails made (.write name contents)
  closes := server.fails made (.close name) = none

def prepend_dir_to_name (path : List UInt8) : List UInt8 := dirname ++ path

def makeLink (link_target name : List UInt8) (made : List Made) (rest : List UInt8) : ReceivedFiles :=
  match server.fails made (.ancestors name) with
  | some e => ⟨made, .error (.exit e)⟩
  | none =>
    if server.fails made (.symlink link_target name) = none then
      let later := made ++ [.link link_target name]
      match server.fails later (.add_cleanup name) with
      | some e => ⟨made, .error (.exit e)⟩
      | none => ⟨later, .ok rest⟩
    else ⟨made, .error .one⟩

def receiveLink (nth : Nat) (name : List UInt8) (len : BitVec 32) (made : List Made)
    (stream : List UInt8) : ReceivedFiles :=
  match dcc_r_str_alloc m nth len stream with
  | .error f => ⟨made, .error (.failure f)⟩
  | .ok (link_target, rest) =>
    match dcc_xci_unmask_developer_dir server.xcodeselect_path (cstring link_target).bytes with
    | none => ⟨made, .error (.exit .EXIT_OUT_OF_MEMORY)⟩
    | some link_target =>
      let link_target :=
        if link_target.head? = some 47 then prepend_dir_to_name dirname link_target else link_target
      makeLink server link_target name made rest

def receiveFile (name : List UInt8) (len : BitVec 32) (made : List Made) (stream : List UInt8) :
    ReceivedFiles :=
  match dcc_r_file m compr (localFile server compr made name) len stream with
  | .error e => ⟨made, .error (.exit e)⟩
  | .ok rest =>
    let contents := (uncompressed server compr (stream.take len.toNat)).getD []
    let later := made ++ [.file name contents]
    let fixes := dcc_find_extension name = some (ascii ".hmap")
    match if fixes then server.fails later (.headermap_fix name dirname) else none with
    | some e => ⟨made, .error (.exit e)⟩
    | none =>
      let later := later ++ if fixes then [.headermap name dirname] else []
      match server.fails later (.add_cleanup name) with
      | some e => ⟨made, .error (.exit e)⟩
      | none => ⟨later, .ok rest⟩

/-- The body of the loop, with the number of the allocation for the name. -/
def receiveEntry (nth : Nat) (made : List Made) (stream : List UInt8) : ReceivedFiles :=
  match dcc_r_token_string m nth NAME stream with
  | .error f => ⟨made, .error (.failure f)⟩
  | .ok (name, rest) =>
    match dcc_xci_unmask_developer_dir server.xcodeselect_path (cstring name).bytes with
    | none => ⟨made, .error (.exit .EXIT_OUT_OF_MEMORY)⟩
    | some name =>
      let name := prepend_dir_to_name dirname name
      match dcc_r_sometoken_int m rest with
      | .error e => ⟨made, .error (.exit e)⟩
      | .ok ((token, link_or_file_len), rest) =>
        if token = LINK.bytes then receiveLink m server dirname (nth + 1) name link_or_file_len made rest
        else if token = FILE.bytes then receiveFile m server dirname compr name link_or_file_len made rest
        else ⟨made, .error (.exit .EXIT_PROTOCOL_ERROR)⟩

def receiveEntries : Nat → Nat → List Made → List UInt8 → ReceivedFiles
  | 0, _, made, stream => ⟨made, .ok stream⟩
  | n + 1, nth, made, stream =>
    match receiveEntry m server dirname compr nth made stream with
    | ⟨made, .error r⟩ => ⟨made, .error r⟩
    | ⟨made, .ok rest⟩ => receiveEntries n (nth + 2) made rest

def dcc_r_many_files (stream : List UInt8) : ReceivedFiles :=
  match dcc_r_token_int m NFIL stream with
  | .error e => ⟨[], .error (.exit e)⟩
  | .ok (n_files, rest) => receiveEntries m server dirname compr n_files.toNat 0 [] rest

end Server

/-- A temporary directory with exactly three components. -/
structure ClientRoot where
  components : List (List UInt8)
  three : components.length = INCLUDE_SERVER_DIR_DEPTH
  noSlash : ∀ c ∈ components, 47 ∉ c

def ClientRoot.client_root (root : ClientRoot) : List UInt8 :=
  root.components.flatMap fun c => 47 :: c

structure AbsolutePath extends CString where
  absolute : bytes.head? = some 47

/-- `text` is what is compressed: the file, after a line with its name when it is to become
known by its absolute name. -/
inductive SentEntry where
  | file (realpath : AbsolutePath) (abs : Bool) (text : List UInt8)
  | link (link_name : AbsolutePath) (target : CString)

def SentEntry.filepath (root : ClientRoot) : SentEntry → List UInt8
  | .file realpath abs _ =>
    root.client_root ++ (realpath.bytes ++ if abs then ascii ".lzo.abs" else ascii ".lzo")
  | .link link_name _ => root.client_root ++ link_name.bytes

def SentEntry.node (compress : List UInt8 → List UInt8) : SentEntry → SentNode
  | .file _ _ text => .file (compress text)
  | .link _ target => .link target.bytes

/-! ## The names of the files that are sent

What the include server puts before and after a path is taken away again, and what is put
in the place of the client's developer directory becomes the server's one. -/

/-! ### The developer directory -/

def rehome (clientDir serverDir path : List UInt8) : List UInt8 :=
  join serverDir (pieces clientDir path)

theorem token_unbordered : Unbordered xci_dev_dir_token := by
  refine ⟨47, xci_dev_dir_token.tail, rfl, ?_⟩
  decide

section Masks
variable {dir serverDir : CString} {path : List UInt8}

theorem mask_eq (hdir : dir.bytes ≠ []) : dcc_xci_mask_developer_dir (some dir) path =
    some (replaceAll dir.bytes xci_dev_dir_token path) := if_neg hdir

theorem unmask_eq : dcc_xci_unmask_developer_dir (some serverDir) path =
    some (replaceAll xci_dev_dir_token serverDir.bytes path) := by
  show (if xci_dev_dir_token = [] then none else some _) = _
  rw [if_neg token_unbordered.ne_nil]

theorem unmask_mask (habsent : ¬ xci_dev_dir_token <:+: path) :
    dcc_xci_unmask_developer_dir (some serverDir) (replaceAll dir.bytes xci_dev_dir_token path) =
      some (rehome dir.bytes serverDir.bytes path) := by
  rw [unmask_eq, replaceAll_replaceAll token_unbordered habsent]
  rfl

end Masks

theorem mem_join {α : Type} {between : List α} {ps : List (List α)} {a : α}
    (h : a ∈ join between ps) : a ∈ between ∨ ∃ p ∈ ps, a ∈ p := by
  induction ps with
  | nil => cases h
  | cons p ps ih =>
    by_cases hmore : ps = []
    · subst hmore
      exact Or.inr ⟨p, mem_cons_self, h⟩
    rw [join_cons hmore] at h
    rcases List.mem_append.mp h with h | h
    · exact Or.inr ⟨p, mem_cons_self, h⟩
    rcases List.mem_append.mp h with h | h
    · exact Or.inl h
    rcases ih h with h | ⟨q, hq, hmem⟩
    · exact Or.inl h
    · exact Or.inr ⟨q, mem_cons_of_mem p hq, hmem⟩

def masked (dir path : CString) : CString where
  bytes := replaceAll dir.bytes xci_dev_dir_token path.bytes
  noNul b hb := by
    rw [replaceAll_eq_join] at hb
    rcases mem_join hb with hb | ⟨p, hp, hmem⟩
    · exact noNul_of_contains (by decide) b hb
    · exact path.noNul b ((infix_of_mem_pieces hp).mem hmem)

theorem cstring_bytes (s : CString) : cstring s.bytes = s := by
  have hall : s.bytes.takeWhile (· ≠ 0) = s.bytes := by
    apply List.takeWhile_eq_self_iff.mpr
    intro b hb
    exact decide_eq_true (s.noNul b hb)
  cases s
  unfold cstring
  congr

section Names
variable {s path : List UInt8} {c : UInt8}

theorem fromSlash_append (hs : 47 ∉ s) (hpath : path.head? = some 47) :
    fromSlash (s ++ path) = some path := by
  have hskip : ∀ b ∈ s, decide (b ≠ 47) = true := by
    intro b hb
    apply decide_eq_true
    rintro rfl
    exact hs hb
  unfold fromSlash
  rw [dropWhile_append_of_pos hskip]
  cases path with
  | nil => cases hpath
  | cons b rest =>
    obtain rfl : b = 47 := Option.some.inj hpath
    rfl

theorem dropComponents_root {components : List (List UInt8)} (hslash : ∀ c ∈ components, 47 ∉ c)
    (hpath : path.head? = some 47) :
    dropComponents components.length ((components.flatMap fun c => 47 :: c) ++ path) = some path := by
  induction components with
  | nil => rfl
  | cons component components ih =>
    have hrest := ih fun c hc => hslash c (mem_cons_of_mem component hc)
    have hhead : ((components.flatMap fun c => 47 :: c) ++ path).head? = some 47 := by
      cases components with
      | nil => exact hpath
      | cons _ _ => rfl
    have hsplit : ((component :: components).flatMap fun c => 47 :: c) ++ path =
        47 :: (component ++ ((components.flatMap fun c => 47 :: c) ++ path)) := by
      simp
    rw [hsplit, length_cons]
    unfold dropComponents
    rw [tail_cons, fromSlash_append (hslash component mem_cons_self) hhead]
    exact hrest

theorem strrchr_none (h : c ∉ s) : strrchr c s = none := by
  induction s with
  | nil => rfl
  | cons b s ih =>
    have hparts := not_or.mp (fun h' => h (List.mem_cons.mpr h'))
    unfold strrchr
    rw [ih hparts.2]
    exact if_neg (fun heq => hparts.1 heq.symm)

theorem strrchr_append (t : List UInt8) (h : c ∉ t) : strrchr c (s ++ c :: t) = some (c :: t) := by
  induction s with
  | nil =>
    show strrchr c (c :: t) = _
    unfold strrchr
    rw [strrchr_none h]
    exact if_pos rfl
  | cons b s ih =>
    show strrchr c (b :: (s ++ c :: t)) = _
    unfold strrchr
    rw [ih]

theorem find_extension_append {t : List UInt8} (ht : t ≠ []) (h : 46 ∉ t) :
    dcc_find_extension (s ++ 46 :: t) = some (46 :: t) := by
  unfold dcc_find_extension
  rw [strrchr_append t h]
  exact if_neg ht

theorem stripExtension_append {t : List UInt8} (ht : t ≠ []) (h : 46 ∉ t) :
    stripExtension (46 :: t) (s ++ 46 :: t) = s := by
  unfold stripExtension
  rw [if_pos (find_extension_append ht h), length_append, Nat.add_sub_cancel, take_left]

theorem stripExtension_other {extension : List UInt8} (h : dcc_find_extension s ≠ some extension) :
    stripExtension extension s = s := if_neg h

end Names

theorem original_fname_eq (root : ClientRoot) {name : List UInt8} (h : name.head? = some 47) :
    dcc_get_original_fname (root.client_root ++ name) =
      .ok (stripExtension (ascii ".lzo") (stripExtension (ascii ".abs") name)) := by
  have hdrop : dropComponents INCLUDE_SERVER_DIR_DEPTH (root.client_root ++ name) = some name := by
    rw [← root.three]
    exact dropComponents_root root.noSlash h
  unfold dcc_get_original_fname
  rw [hdrop]

/-- A link's name has no suffix that `dcc_get_original_fname` takes for one of its own. -/
def SentEntry.Plain : SentEntry → Prop
  | .file _ _ _ => True
  | .link link_name _ => dcc_find_extension link_name.bytes ≠ some (ascii ".abs") ∧
      dcc_find_extension link_name.bytes ≠ some (ascii ".lzo")

def SentEntry.path : SentEntry → AbsolutePath
  | .file realpath _ _ => realpath
  | .link link_name _ => link_name

theorem head?_append_of_absolute (path : AbsolutePath) (s : List UInt8) :
    (path.bytes ++ s).head? = some 47 := by
  rw [head?_append, path.absolute]
  rfl

theorem dcc_get_original_fname_filepath (root : ClientRoot) {e : SentEntry} (h : e.Plain) :
    dcc_get_original_fname (e.filepath root) = .ok e.path.bytes := by
  cases e with
  | file realpath abs text =>
    have hname : dcc_get_original_fname (SentEntry.filepath root (.file realpath abs text)) = _ :=
      original_fname_eq root (head?_append_of_absolute realpath _)
    rw [hname]
    cases abs with
    | true =>
      have hsplit : realpath.bytes ++ ascii ".lzo.abs" =
          (realpath.bytes ++ ascii ".lzo") ++ ascii ".abs" := by
        rw [append_assoc]
        rfl
      have habs : stripExtension (ascii ".abs") ((realpath.bytes ++ ascii ".lzo") ++ ascii ".abs") =
          realpath.bytes ++ ascii ".lzo" := stripExtension_append (by decide) (by decide)
      have hlzo : stripExtension (ascii ".lzo") (realpath.bytes ++ ascii ".lzo") = realpath.bytes :=
        stripExtension_append (by decide) (by decide)
      show Except.ok (stripExtension (ascii ".lzo") (stripExtension (ascii ".abs")
        (realpath.bytes ++ ascii ".lzo.abs"))) = _
      rw [hsplit, habs, hlzo]
      rfl
    | false =>
      have hext : dcc_find_extension (realpath.bytes ++ ascii ".lzo") = some (ascii ".lzo") :=
        find_extension_append (by decide) (by decide)
      have habs : stripExtension (ascii ".abs") (realpath.bytes ++ ascii ".lzo") =
          realpath.bytes ++ ascii ".lzo" := by
        apply stripExtension_other
        rw [hext]
        decide
      have hlzo : stripExtension (ascii ".lzo") (realpath.bytes ++ ascii ".lzo") = realpath.bytes :=
        stripExtension_append (by decide) (by decide)
      show Except.ok (stripExtension (ascii ".lzo") (stripExtension (ascii ".abs")
        (realpath.bytes ++ ascii ".lzo"))) = _
      rw [habs, hlzo]
      rfl
  | link link_name target =>
    have hname : dcc_get_original_fname (SentEntry.filepath root (.link link_name target)) = _ :=
      original_fname_eq root link_name.absolute
    rw [hname, stripExtension_other h.1, stripExtension_other h.2]
    rfl

end Toolwhip.Distcc
