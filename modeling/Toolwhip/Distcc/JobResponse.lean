import Toolwhip.Distcc.FileSetTransport
import Toolwhip.Distcc.Hosts
import Toolwhip.Distcc.Response

/-! # What a job sends back

The end of `dcc_run_job` of serve.c, after the compiler, and what the client retrieves from it. The
server has the features of the host from the version alone. -/

namespace Toolwhip.Distcc
open Lib.CNumber Lib.ThrowingFold List
set_option autoImplicit false

/-- With whether the version is an unknown one. -/
def dcc_get_features_from_protover (protover : BitVec 32) : (Compress × CppWhere) × Bool :=
  ((if protover > 1 then .DCC_COMPRESS_LZO1X else .DCC_COMPRESS_NONE,
    if protover > 2 then .DCC_CPP_ON_SERVER else .DCC_CPP_ON_CLIENT),
    protover = 0 ∨ protover > 3)

/-- `dcc_x_file`, where no call fails. -/
def sendContents (compress : List UInt8 → List UInt8) (compr : Compress) (token : CString)
    (contents : List UInt8) : Except ExitCode (List UInt8) :=
  match compr with
  | .DCC_COMPRESS_NONE => dcc_x_file token contents
  | .DCC_COMPRESS_LZO1X =>
    let in_len := BitVec.ofNat 32 contents.length
    if in_len = 0 then dcc_x_token_int token 0
    else dcc_x_file token (compress (contents.take in_len.toNat))

/-- What the compiler has left: its wait status and the files, or what it fails with to open one or
to change it for the client. `deps` is `none` where none are to be sent back. -/
structure Compiled where
  status : BitVec 32
  stderr : Except ExitCode (List UInt8)
  stdout : Except ExitCode (List UInt8)
  object : Except ExitCode (List UInt8)
  deps : Option (Except ExitCode (List UInt8))

def WIFSIGNALED (status : BitVec 32) : Bool := status &&& 0x7f ≠ 0 ∧ status &&& 0x7f ≠ 0x7f

def WEXITSTATUS (status : BitVec 32) : BitVec 32 := status >>> 8 &&& 0xff

def dcc_x_result_header (protover : BitVec 32) : Except ExitCode (List UInt8) :=
  dcc_x_token_int DONE protover

def dcc_x_cc_status (status : BitVec 32) : Except ExitCode (List UInt8) := dcc_x_token_int STAT status

/-- Calls one after the other, up to one that fails: what they write, and whether none does. -/
def written : List (Except ExitCode (List UInt8)) → List UInt8 × Bool
  | [] => ([], true)
  | .error _ :: _ => ([], false)
  | .ok sent :: calls => (sent ++ (written calls).1, (written calls).2)

section Sender
variable (compress : List UInt8 → List UInt8) (protover : BitVec 32) (job : Compiled)

def sendFileOf (compr : Compress) (token : CString) (file : Except ExitCode (List UInt8)) :
    Except ExitCode (List UInt8) :=
  file.bind (sendContents compress compr token)

def sendDeps (compr : Compress) : Except ExitCode (List UInt8) :=
  match job.deps with
  | none => dcc_x_token_int DOTD 0
  | some deps => sendFileOf compress compr DOTD deps

def sendObject (compr : Compress) : CppWhere → List (Except ExitCode (List UInt8))
  | .DCC_CPP_ON_SERVER => [sendFileOf compress compr DOTO job.object, sendDeps compress job compr]
  | .DCC_CPP_ON_CLIENT => [sendFileOf compress compr DOTO job.object]

/-- All that is written. -/
def sendResponse : List UInt8 :=
  let features := (dcc_get_features_from_protover protover).1
  let opening := written [dcc_x_result_header protover, dcc_x_cc_status job.status,
    sendFileOf compress features.1 SERR job.stderr, sendFileOf compress features.1 SOUT job.stdout]
  opening.1 ++ (written
    (if !opening.2 ∨ WIFSIGNALED job.status ∨ WEXITSTATUS job.status ≠ 0 then [dcc_x_token_int DOTO 0]
    else sendObject compress job features.1 features.2)).1

end Sender

/-! ## What the client keeps -/

/-- What is written for a body. -/
def unpacked (decompress : List UInt8 → Option (List UInt8)) : Compress → List UInt8 → Option (List UInt8)
  | .DCC_COMPRESS_NONE, body => some body
  | .DCC_COMPRESS_LZO1X, body => if body = [] then some [] else decompress body

/-- LZO, which gives back what it was given. -/
structure Codec where
  compress : List UInt8 → List UInt8
  decompress : List UInt8 → Option (List UInt8)
  round : ∀ text, decompress (compress text) = some text
  nonempty : ∀ text, compress text ≠ []

section Kept
variable (codec : Codec) (compr : Compress)

/-- The file is there, its lengths can be sent, and a body that stands for it is taken. -/
def Delivers (takes : List UInt8 → Option ExitCode) (file : Except ExitCode (List UInt8)) : Prop :=
  ∃ contents, file = .ok contents ∧ contents.length < 2 ^ 32 ∧ (codec.compress contents).length < 2 ^ 32 ∧
    ∀ body, unpacked codec.decompress compr body = some contents → takes body = none

def Opens (file : LocalFile) : Prop := file.creates = true ∧ file.closes = true

def DeliversDeps : Option (Except ExitCode (List UInt8)) → Option LocalFile → Prop
  | none, none => True
  | none, some file => Opens file
  | some deps, some file => Opens file ∧ Delivers codec compr file.takes deps
  | some _, none => False

/-- What the compiler has left is what the client can keep. -/
structure Delivered (cpp_where : CppWhere) (client : Client) (job : Compiled) : Prop where
  logs : client.logsErrors = true
  opens : Opens client.stderr
  stderr : Delivers codec compr client.stderr.takes job.stderr
  stdout : Delivers codec compr client.stdout job.stdout
  object : job.status = 0 → Opens client.output ∧ Delivers codec compr client.output.takes job.object
  deps : job.status = 0 → cpp_where = .DCC_CPP_ON_SERVER → DeliversDeps codec compr job.deps client.deps

end Kept

theorem features_of_protover {compr : Compress} {cpp_where : CppWhere} {protover : BitVec 32}
    (h : dcc_get_protover_from_features compr cpp_where = some protover) :
    dcc_get_features_from_protover protover = ((compr, cpp_where), false) := by
  cases compr <;> cases cpp_where <;> cases h <;> rfl

theorem frame_sent (token : CString) (v : BitVec 32) (rest : List UInt8) :
    Frame token v (token.bytes ++ hexDigits v ++ rest) rest :=
  ⟨hexDigits v, rfl, rfl, hexDigits_spells v⟩

section Sent
variable {codec : Codec} {compr : Compress} {token : CString} {contents : List UInt8}
variable {m : Machine} {host : HostFeatures} {client : Client} {job : Compiled}

theorem dcc_x_file_eq (htoken : token.strlen = 4) : dcc_x_file token contents =
    .ok (token.bytes ++ hexDigits (BitVec.ofNat 32 contents.length) ++ contents) := by
  unfold dcc_x_file
  rw [dcc_x_token_int_eq token htoken]
  rfl

/-- A body that stands for the contents. -/
theorem sendContents_eq (compr : Compress) (htoken : token.strlen = 4) (hshort : contents.length < 2 ^ 32)
    (hpacked : (codec.compress contents).length < 2 ^ 32) :
    ∃ body, unpacked codec.decompress compr body = some contents ∧ body.length < 2 ^ 32 ∧
      sendContents codec.compress compr token contents =
        .ok (token.bytes ++ hexDigits (BitVec.ofNat 32 body.length) ++ body) := by
  cases compr with
  | DCC_COMPRESS_NONE => exact ⟨contents, rfl, hshort, dcc_x_file_eq htoken⟩
  | DCC_COMPRESS_LZO1X =>
    have hlen : (BitVec.ofNat 32 contents.length).toNat = contents.length := by
      rw [BitVec.toNat_ofNat, Nat.mod_eq_of_lt hshort]
    unfold sendContents unpacked
    dsimp only
    by_cases hzero : BitVec.ofNat 32 contents.length = 0
    · rw [hzero] at hlen
      obtain rfl : contents = [] := length_eq_zero_iff.mp hlen.symm
      refine ⟨[], rfl, by decide, ?_⟩
      rw [if_pos hzero, dcc_x_token_int_eq token htoken, append_nil]
      rfl
    · refine ⟨codec.compress contents, ?_, hpacked, ?_⟩
      · rw [if_neg (codec.nonempty contents)]
        exact codec.round contents
      · rw [if_neg hzero, hlen, take_length]
        exact dcc_x_file_eq htoken

theorem file_sent {takes : List UInt8 → Option ExitCode} {file : Except ExitCode (List UInt8)}
    (token : CString) (htoken : token.strlen = 4) (h : Delivers codec compr takes file) :
    ∃ sent, sendFileOf codec.compress compr token file = .ok sent ∧
      ∀ rest, ∃ len after, Frame token len (sent ++ rest) after ∧ Taken takes len after rest := by
  obtain ⟨contents, rfl, hshort, hpacked, htakes⟩ := h
  obtain ⟨body, hbody, hlen, hsent⟩ := sendContents_eq compr htoken hshort hpacked
  have hnat : (BitVec.ofNat 32 body.length).toNat = body.length := by
    rw [BitVec.toNat_ofNat, Nat.mod_eq_of_lt hlen]
  refine ⟨_, hsent, fun rest => ⟨BitVec.ofNat 32 body.length, body ++ rest, ?_, ?_⟩⟩
  · rw [append_assoc]
    exact frame_sent token _ _
  · unfold Taken Body
    rw [hnat, take_left, drop_left, length_append]
    exact ⟨⟨Nat.le_add_right _ _, rfl⟩, fun _ => htakes body hbody⟩

theorem deps_sent (h : DeliversDeps codec compr job.deps client.deps) :
    ∃ sent, sendDeps codec.compress job compr = .ok sent ∧
      ∀ rest, DepsPart (received client) (sent ++ rest) rest := by
  unfold sendDeps DepsPart received
  cases hdeps : job.deps with
  | none =>
    rw [hdeps] at h
    refine ⟨_, dcc_x_token_int_eq DOTD rfl 0, fun rest => ⟨0, rest, frame_sent DOTD 0 rest, ?_⟩⟩
    cases hfile : client.deps with
    | none => rfl
    | some file =>
      rw [hfile] at h
      exact ⟨⟨body_zero.mpr rfl, fun hne => absurd rfl hne⟩, h⟩
  | some deps =>
    cases hfile : client.deps with
    | none =>
      rw [hdeps, hfile] at h
      exact h.elim
    | some file =>
      rw [hdeps, hfile] at h
      obtain ⟨sent, hsent, hread⟩ := file_sent DOTD rfl h.2
      refine ⟨sent, hsent, fun rest => ?_⟩
      obtain ⟨len, after, hframe, htaken⟩ := hread rest
      exact ⟨len, after, hframe, htaken, h.1⟩

/-- With the object file comes what is due behind it. -/
theorem object_sent {cpp_where : CppWhere} (hzero : job.status = 0)
    (h : Delivered codec compr cpp_where client job) :
    ∃ sent, written (sendObject codec.compress job compr cpp_where) = (sent, true) ∧
      ∀ rest, ∃ o_len after, Frame DOTO o_len (sent ++ rest) after ∧
        ObjectPart (received client) cpp_where job.status o_len after rest := by
  obtain ⟨hopens, hobject⟩ := h.object hzero
  obtain ⟨doto, hdoto, hread⟩ := file_sent DOTO rfl hobject
  unfold sendObject ObjectPart
  rw [hdoto]
  simp only [if_pos hzero]
  cases cpp_where with
  | DCC_CPP_ON_SERVER =>
    obtain ⟨dotd, hdotd, hdeps⟩ := deps_sent (h.deps hzero rfl)
    dsimp only
    rw [hdotd]
    refine ⟨doto ++ (dotd ++ []), rfl, fun rest => ?_⟩
    obtain ⟨o_len, after, hframe, htaken⟩ := hread (dotd ++ rest)
    rw [append_nil, append_assoc]
    exact ⟨o_len, after, hframe, _, ⟨htaken, hopens⟩, hdeps rest⟩
  | DCC_CPP_ON_CLIENT =>
    refine ⟨doto ++ [], rfl, fun rest => ?_⟩
    obtain ⟨o_len, after, hframe, htaken⟩ := hread rest
    rw [append_nil]
    exact ⟨o_len, after, hframe, rest, ⟨htaken, hopens⟩, rfl⟩

/-- What is written first, with anything behind it that the client can read on from. -/
theorem opening_sent (h : Delivered codec host.compr host.cpp_where client job) :
    ∃ sent, written [dcc_x_result_header host.protover, dcc_x_cc_status job.status,
        sendFileOf codec.compress host.compr SERR job.stderr,
        sendFileOf codec.compress host.compr SOUT job.stdout] = (sent, true) ∧
      ∀ o_len stream after rest, Frame DOTO o_len stream after →
        ObjectPart (received client) host.cpp_where job.status o_len after rest →
        dcc_retrieve_results m client host (sent ++ stream) = .ok (job.status, rest) := by
  obtain ⟨serr, hserr, hreadErr⟩ := file_sent SERR rfl h.stderr
  obtain ⟨sout, hsout, hreadOut⟩ := file_sent SOUT rfl h.stdout
  rw [hserr, hsout]
  refine ⟨DONE.bytes ++ hexDigits host.protover ++
    (STAT.bytes ++ hexDigits job.status ++ (serr ++ (sout ++ []))),
    rfl, fun o_len stream after rest hdoto hobject => ?_⟩
  obtain ⟨len, stderr, hframe, htaken⟩ := hreadErr (sout ++ stream)
  obtain ⟨len', stdout, hframe', htaken'⟩ := hreadOut stream
  have hstat := frame_sent STAT job.status (serr ++ (sout ++ stream))
  have hdone := frame_sent DONE host.protover
    (STAT.bytes ++ hexDigits job.status ++ (serr ++ (sout ++ stream)))
  rw [append_nil, append_assoc, append_assoc _ (serr ++ sout), append_assoc serr]
  apply (retrieve_logged h.logs).mpr
  refine ⟨host.protover, Or.inl ⟨sout ++ stream, o_len, after, ?_, ?_, hobject⟩⟩
  · exact ⟨_, _, len, stderr, hdone, hstat, hframe, htaken, h.opens⟩
  · exact ⟨len', stdout, stream, hframe', htaken', hdoto⟩

/-- The client has the status and all the files, and nothing of what follows. -/
theorem response_retrieved
    (hprotover : dcc_get_protover_from_features host.compr host.cpp_where = some host.protover)
    (hstatus : job.status = 0 ∨ WIFSIGNALED job.status = true ∨ WEXITSTATUS job.status ≠ 0)
    (h : Delivered codec host.compr host.cpp_where client job) (rest : List UInt8) :
    dcc_retrieve_results m client host (sendResponse codec.compress host.protover job ++ rest) =
      .ok (job.status, rest) := by
  obtain ⟨opening, hopening, hread⟩ := opening_sent (m := m) h
  unfold sendResponse
  rw [features_of_protover hprotover]
  dsimp only
  rw [hopening, append_assoc]
  by_cases hzero : job.status = 0
  · obtain ⟨object, hobject, hreadObject⟩ := object_sent hzero h
    obtain ⟨o_len, after, hframe, hpart⟩ := hreadObject rest
    have hfine : ¬ (!true ∨ WIFSIGNALED job.status ∨ WEXITSTATUS job.status ≠ 0) := by
      rw [hzero]
      decide
    rw [if_neg hfine, hobject]
    exact hread o_len _ after rest hframe hpart
  · have hpart : ObjectPart (received client) host.cpp_where job.status 0 rest rest := by
      unfold ObjectPart
      rw [if_neg hzero]
    rw [if_pos (Or.inr (hstatus.resolve_left hzero)), dcc_x_token_int_eq DOTO rfl]
    exact hread 0 _ rest rest (frame_sent DOTO 0 rest) hpart

end Sent

/-- LZO on at most 13 bytes. -/
def smallCodec : Codec := ⟨literalRun, literalText, literalText_literalRun, fun _ => cons_ne_nil _ _⟩

/-- It takes nothing but these contents. -/
def keeping (contents : String) : LocalFile where
  creates := true
  takes body := if unpacked literalText .DCC_COMPRESS_LZO1X body = some (ascii contents) then none
    else some .EXIT_IO_ERROR
  closes := true

theorem keeping_delivers (contents : String) (hshort : (ascii contents).length < 2 ^ 31) :
    Delivers smallCodec .DCC_COMPRESS_LZO1X (keeping contents).takes (.ok (ascii contents)) := by
  refine ⟨_, rfl, by omega, ?_, fun body h => if_pos h⟩
  show (literalRun (ascii contents)).length < 2 ^ 32
  unfold literalRun
  simp only [length_cons, length_append, length_nil]
  omega

theorem hello_retrieved : dcc_retrieve_results lp64
    ⟨true, keeping "", (keeping "").takes, keeping "hello", some (keeping "a.o: a.c")⟩
    ⟨DCC_VER_3, .DCC_COMPRESS_LZO1X, .DCC_CPP_ON_SERVER⟩
    (sendResponse literalRun DCC_VER_3 ⟨0, .ok (ascii ""), .ok (ascii ""), .ok (ascii "hello"),
      some (.ok (ascii "a.o: a.c"))⟩ ++ []) = .ok (0, []) := by
  have hopens : ∀ contents, Opens (keeping contents) := fun _ => ⟨rfl, rfl⟩
  refine @response_retrieved smallCodec _ _ _ _ rfl (Or.inl rfl) ⟨rfl, hopens "", ?_, ?_, ?_, ?_⟩ []
  · exact keeping_delivers "" (by decide)
  · exact keeping_delivers "" (by decide)
  · exact fun _ => ⟨hopens "hello", keeping_delivers "hello" (by decide)⟩
  · exact fun _ _ => ⟨hopens "a.o: a.c", keeping_delivers "a.o: a.c" (by decide)⟩

end Toolwhip.Distcc
