import Toolwhip.Distcc.FileSet

/-! # What the server creates

Each entry is created under its own path below `dirname`, but for the developer directory:
wherever the name of the client's one stands in a path, the server's one is put. -/

namespace Toolwhip.Distcc
open Lib.CNumber Lib.ThrowingFold List
set_option autoImplicit false

/-- What one entry is for the server, with the developer directories of both sides. -/
def SentEntry.created (clientDir serverDir : CString) (dirname : List UInt8) : SentEntry → List Made
  | .file realpath _ text =>
    let name := dirname ++ rehome clientDir.bytes serverDir.bytes realpath.bytes
    .file name text ::
      if dcc_find_extension name = some (ascii ".hmap") then [.headermap name dirname] else []
  | .link link_name target =>
    let target := rehome clientDir.bytes serverDir.bytes target.bytes
    [.link (if target.head? = some 47 then dirname ++ target else target)
      (dirname ++ rehome clientDir.bytes serverDir.bytes link_name.bytes)]

/-- The entry can be sent: the token is not in its strings, and lengths fit. -/
def SentEntry.Sendable (clientDir : CString) (maxpathlen : Nat) (compress : List UInt8 → List UInt8)
    (e : SentEntry) : Prop :=
  e.Plain ∧ ¬ xci_dev_dir_token <:+: e.path.bytes ∧
    (masked clientDir e.path.toCString).strlen + 1 < 2 ^ 32 ∧
    match e with
    | .file _ _ text => (compress text).length < 2 ^ 32
    | .link _ target => ¬ xci_dev_dir_token <:+: target.bytes ∧ target.strlen ≤ maxpathlen ∧
        (masked clientDir target).strlen ≤ maxpathlen ∧ (masked clientDir target).strlen + 1 < 2 ^ 32

/-! ## What is sent -/

def stringFrame (token s : CString) : List UInt8 :=
  token.bytes ++ hexDigits (BitVec.ofNat 32 s.strlen) ++ s.bytes

def bodyFrame (contents : List UInt8) : List UInt8 :=
  FILE.bytes ++ hexDigits (BitVec.ofNat 32 contents.length) ++ contents

def SentEntry.wire (clientDir : CString) (compress : List UInt8 → List UInt8) : SentEntry → List UInt8
  | .file realpath _ text =>
    stringFrame NAME (masked clientDir realpath.toCString) ++ bodyFrame (compress text)
  | .link link_name target =>
    stringFrame NAME (masked clientDir link_name.toCString) ++
      stringFrame LINK (masked clientDir target)

section Sent
variable {client : SendingClient} {clientDir : CString} {compress : List UInt8 → List UInt8}
variable {root : ClientRoot} {e : SentEntry} {entries : List SentEntry}

theorem token_string_eq {token : CString} (h : token.strlen = 4) (s : CString) :
    dcc_x_token_string token s = .ok (stringFrame token s) := by
  unfold dcc_x_token_string
  rw [dcc_x_token_int_eq token h]
  rfl

section
variable (hclient : client.xcodeselect_path = some clientDir) (hdir : clientDir.bytes ≠ [])
include hclient hdir

theorem maskOrFail_eq (path : CString) :
    maskOrFail client path.bytes = .ok (masked clientDir path).bytes := by
  unfold maskOrFail
  rw [hclient, mask_eq hdir]
  rfl

theorem sendFile_eq (hsend : e.Sendable clientDir client.MAXPATHLEN compress)
    (hnode : client.node (e.filepath root) = some (e.node compress)) :
    sendFile client (e.filepath root) = .ok (e.wire clientDir compress) := by
  obtain ⟨hplain, _, _, hrest⟩ := hsend
  unfold sendFile
  rw [dcc_get_original_fname_filepath root hplain, hnode]
  cases e with
  | file realpath abs text =>
    have hname : maskOrFail client (SentEntry.path (.file realpath abs text)).bytes = _ :=
      maskOrFail_eq hclient hdir _
    have hbody : dcc_x_file FILE (compress text) = .ok (bodyFrame (compress text)) := by
      unfold dcc_x_file
      rfl
    refine bind_eq_ok.mpr ⟨_, rfl, bind_eq_ok.mpr ⟨_, hname, ?_⟩⟩
    rw [cstring_bytes, token_string_eq rfl, hbody]
    rfl
  | link link_name target =>
    obtain ⟨_, hlen, hmasked, _⟩ := hrest
    have hname : maskOrFail client (SentEntry.path (.link link_name target)).bytes = _ :=
      maskOrFail_eq hclient hdir _
    have htake : target.bytes.take client.MAXPATHLEN = target.bytes := take_of_length_le hlen
    have htaken : (masked clientDir target).bytes.take client.MAXPATHLEN =
        (masked clientDir target).bytes := take_of_length_le hmasked
    have htarget : maskOrFail client (target.bytes.take client.MAXPATHLEN) =
        .ok (masked clientDir target).bytes := by
      rw [htake]
      exact maskOrFail_eq hclient hdir target
    refine bind_eq_ok.mpr ⟨_, rfl, bind_eq_ok.mpr ⟨_, hname, bind_eq_ok.mpr ⟨_, htarget, ?_⟩⟩⟩
    rw [cstring_bytes, htaken, cstring_bytes, token_string_eq rfl, token_string_eq rfl]
    rfl

theorem sendFiles_eq (hsend : ∀ e ∈ entries, e.Sendable clientDir client.MAXPATHLEN compress)
    (hnode : ∀ e ∈ entries, client.node (e.filepath root) = some (e.node compress)) :
    sendFiles client (entries.map (SentEntry.filepath root)) =
      .ok (entries.flatMap (SentEntry.wire clientDir compress)) := by
  induction entries with
  | nil => rfl
  | cons e entries ih =>
    have hfirst := sendFile_eq hclient hdir (hsend e mem_cons_self) (hnode e mem_cons_self)
    have hlater := ih (fun x hx => hsend x (mem_cons_of_mem e hx))
      (fun x hx => hnode x (mem_cons_of_mem e hx))
    rw [map_cons]
    unfold sendFiles
    rw [hfirst, hlater]
    rfl

end

end Sent

section Receiver
variable {m : Machine} {server : ReceivingServer} {clientDir serverDir : CString}
variable {dirname : List UInt8} {compress : List UInt8 → List UInt8} {e : SentEntry}
variable {made : List Made} {rest : List UInt8} {nth : Nat}

theorem strncpy4_token {token : CString} (h : token.strlen = 4) (digits : List UInt8) :
    strncpy4 (token.bytes ++ digits) = token.bytes := by
  have hlen : token.bytes.length = 4 := h
  have htake : (token.bytes ++ digits).take 4 = token.bytes := by
    rw [← hlen]
    exact take_left
  have hall : token.bytes.takeWhile (· ≠ 0) = token.bytes := by
    apply List.takeWhile_eq_self_iff.mpr
    intro b hb
    exact decide_eq_true (token.noNul b hb)
  unfold strncpy4
  rw [htake, hall]
  show token.bytes ++ List.replicate (4 - token.bytes.length) 0 = token.bytes
  rw [hlen]
  exact append_nil _

theorem sometoken_received {token : CString} (h : token.strlen = 4) (v : BitVec 32) :
    dcc_r_sometoken_int m (token.bytes ++ hexDigits v ++ rest) = .ok ((token.bytes, v), rest) := by
  have hlen : token.bytes.length = 4 := h
  have hframe : (token.bytes ++ hexDigits v).length = 12 := by
    rw [length_append, hlen, hexDigits_length]
  refine (dcc_r_sometoken_int_iff hframe).mpr ⟨(strncpy4_token h _).symm, ?_⟩
  rw [← hlen, drop_left]
  exact hexDigits_spells v

def Ends (server : ReceivingServer) (made : List Made) (created : List Made) (rest : List UInt8)
    (r : ReceivedFiles) : Prop :=
  r = ⟨made ++ created, .ok rest⟩ ∨
    (∃ code, r = ⟨made, .error code⟩) ∧ ∃ later attempt, server.fails later attempt ≠ none

theorem holds_of_lt {s : CString} (h : s.strlen + 1 < 2 ^ 32) : Holds m s :=
  ⟨by omega, Nat.lt_of_lt_of_le h (Nat.pow_le_pow_right (by decide) m.size_wide)⟩

theorem makeLink_ends (link_target name : List UInt8) :
    Ends server made [.link link_target name] rest (makeLink server link_target name made rest) := by
  unfold makeLink
  cases hancestors : server.fails made (.ancestors name) with
  | some code => exact Or.inr ⟨⟨_, rfl⟩, made, _, by rw [hancestors]; exact Option.some_ne_none _⟩
  | none =>
    dsimp only
    split
    case isTrue =>
      cases hcleanup : server.fails (made ++ [.link link_target name]) (.add_cleanup name) with
      | some code => exact Or.inr ⟨⟨_, rfl⟩, _, _, by rw [hcleanup]; exact Option.some_ne_none _⟩
      | none => exact Or.inl rfl
    case isFalse hsymlink => exact Or.inr ⟨⟨_, rfl⟩, made, _, hsymlink⟩

theorem receiveLink_ends (hserver : server.xcodeselect_path = some serverDir)
    (hmalloc : ∀ i, m.malloc i = true) {target : CString}
    (habsent : ¬ xci_dev_dir_token <:+: target.bytes)
    (hlen : (masked clientDir target).strlen + 1 < 2 ^ 32) (name : List UInt8) :
    Ends server made [.link (if (rehome clientDir.bytes serverDir.bytes target.bytes).head? = some 47
        then dirname ++ rehome clientDir.bytes serverDir.bytes target.bytes
        else rehome clientDir.bytes serverDir.bytes target.bytes) name] rest
      (receiveLink m server dirname nth name (BitVec.ofNat 32 (masked clientDir target).strlen) made
        ((masked clientDir target).bytes ++ rest)) := by
  have hunmask : dcc_xci_unmask_developer_dir (some serverDir) (masked clientDir target).bytes = _ :=
    unmask_mask habsent
  unfold receiveLink
  rw [dcc_r_str_alloc_received nth hmalloc (holds_of_lt hlen)]
  dsimp only
  rw [cstring_bytes, hserver, hunmask]
  exact makeLink_ends _ name

theorem dcc_r_file_ends (rest name : List UInt8) {text : List UInt8}
    (hround : server.decompress (compress text) = some text) (hne : compress text ≠ [])
    (hlen : (compress text).length < 2 ^ 32) :
    dcc_r_file m .DCC_COMPRESS_LZO1X (localFile server .DCC_COMPRESS_LZO1X made name)
        (BitVec.ofNat 32 (compress text).length) (compress text ++ rest) = .ok rest ∨
      (∃ code, dcc_r_file m .DCC_COMPRESS_LZO1X (localFile server .DCC_COMPRESS_LZO1X made name)
        (BitVec.ofNat 32 (compress text).length) (compress text ++ rest) = .error code) ∧
      ∃ attempt, server.fails made attempt ≠ none := by
  have hnat : (BitVec.ofNat 32 (compress text).length).toNat = (compress text).length := by
    rw [BitVec.toNat_ofNat, Nat.mod_eq_of_lt hlen]
  have hpos : 0 < (compress text).length := List.length_pos_iff.mpr hne
  have hzero : BitVec.ofNat 32 (compress text).length ≠ 0 := by
    intro h
    have hnone := congrArg BitVec.toNat h
    rw [hnat] at hnone
    exact absurd hnone (Nat.ne_of_gt hpos)
  have hbulk : dcc_r_bulk m .DCC_COMPRESS_LZO1X (localFile server .DCC_COMPRESS_LZO1X made name).takes
      (BitVec.ofNat 32 (compress text).length) (compress text ++ rest) =
      (server.fails made (.write name text)).elim (.ok rest) .error := by
    have hshort : ¬ (compress text ++ rest).length < (compress text).length := by
      rw [length_append]
      omega
    have htakes : (localFile server .DCC_COMPRESS_LZO1X made name).takes (compress text) =
        server.fails made (.write name text) := by
      unfold localFile uncompressed
      dsimp only
      rw [if_neg hne, hround]
    unfold dcc_r_bulk
    rw [if_neg hzero, hnat, if_neg hshort, take_left, drop_left, htakes]
    generalize server.fails made (.write name text) = failure
    cases failure with
    | none => rfl
    | some code => rfl
  unfold dcc_r_file
  by_cases hcreates : (localFile server .DCC_COMPRESS_LZO1X made name).creates = true
  · rw [hcreates, hbulk]
    cases hwrite : server.fails made (.write name text) with
    | some code => exact Or.inr ⟨⟨_, rfl⟩, _, by rw [hwrite]; exact Option.some_ne_none _⟩
    | none =>
      by_cases hcloses : server.fails made (.close name) = none
      · apply Or.inl
        exact if_pos (decide_eq_true hcloses)
      · apply Or.inr
        exact ⟨⟨_, if_neg (fun h => hcloses (of_decide_eq_true h))⟩, _, hcloses⟩
  · have hfalse : (localFile server .DCC_COMPRESS_LZO1X made name).creates = false := by
      cases h : (localFile server .DCC_COMPRESS_LZO1X made name).creates with
      | true => exact absurd h hcreates
      | false => rfl
    rw [hfalse]
    refine Or.inr ⟨⟨_, rfl⟩, ?_⟩
    by_cases hancestors : server.fails made (.ancestors name) = none
    · refine ⟨.create name, fun hcreate => hcreates ?_⟩
      unfold localFile
      simp [hancestors, hcreate]
    · exact ⟨_, hancestors⟩

theorem receiveFile_ends {name text : List UInt8}
    (hround : server.decompress (compress text) = some text) (hne : compress text ≠ [])
    (hlen : (compress text).length < 2 ^ 32) : Ends server made (.file name text ::
        if dcc_find_extension name = some (ascii ".hmap") then [.headermap name dirname] else []) rest
      (receiveFile m server dirname .DCC_COMPRESS_LZO1X name
        (BitVec.ofNat 32 (compress text).length) made (compress text ++ rest)) := by
  have hcontents : uncompressed server .DCC_COMPRESS_LZO1X
      ((compress text ++ rest).take (BitVec.ofNat 32 (compress text).length).toNat) = some text := by
    rw [BitVec.toNat_ofNat, Nat.mod_eq_of_lt hlen, take_left]
    unfold uncompressed
    rw [if_neg hne]
    exact hround
  unfold receiveFile
  rcases dcc_r_file_ends rest name hround hne hlen with hread | ⟨⟨code, hread⟩, attempt, hfails⟩
  · rw [hread]
    dsimp only
    rw [hcontents, Option.getD_some]
    by_cases hfixes : dcc_find_extension name = some (ascii ".hmap")
    · rw [if_pos hfixes, if_pos hfixes]
      cases hfix : server.fails (made ++ [.file name text]) (.headermap_fix name dirname) with
      | some code => exact Or.inr ⟨⟨_, rfl⟩, _, _, by rw [hfix]; exact Option.some_ne_none _⟩
      | none =>
        cases hcleanup : server.fails (made ++ [.file name text] ++ [.headermap name dirname])
            (.add_cleanup name) with
        | some code => exact Or.inr ⟨⟨_, rfl⟩, _, _, by rw [hcleanup]; exact Option.some_ne_none _⟩
        | none =>
          apply Or.inl
          rw [append_assoc]
          rfl
    · rw [if_neg hfixes, if_neg hfixes]
      rw [append_nil]
      cases hcleanup : server.fails (made ++ [.file name text]) (.add_cleanup name) with
      | some code => exact Or.inr ⟨⟨_, rfl⟩, _, _, by rw [hcleanup]; exact Option.some_ne_none _⟩
      | none => exact Or.inl rfl
  · rw [hread]
    exact Or.inr ⟨⟨_, rfl⟩, made, attempt, hfails⟩

section
variable (hserver : server.xcodeselect_path = some serverDir) (hmalloc : ∀ i, m.malloc i = true)
    (hround : ∀ text, server.decompress (compress text) = some text)
    (hne : ∀ text, compress text ≠ []) {maxpathlen : Nat}
include hserver hmalloc hround hne

theorem receiveEntry_ends (hsend : e.Sendable clientDir maxpathlen compress) :
    Ends server made (e.created clientDir serverDir dirname) rest
      (receiveEntry m server dirname .DCC_COMPRESS_LZO1X nth made
        (e.wire clientDir compress ++ rest)) := by
  obtain ⟨_, habsent, hlen, hbody⟩ := hsend
  unfold receiveEntry
  cases e with
  | file realpath abs text =>
    have hunmask : dcc_xci_unmask_developer_dir (some serverDir)
        (masked clientDir realpath.toCString).bytes = _ := unmask_mask habsent
    have hname : dcc_r_token_string m nth NAME
        (SentEntry.wire clientDir compress (.file realpath abs text) ++ rest) =
          .ok ((masked clientDir realpath.toCString).bytes, bodyFrame (compress text) ++ rest) := by
      unfold SentEntry.wire stringFrame
      rw [append_assoc _ (bodyFrame (compress text))]
      exact dcc_r_token_string_received rfl nth hmalloc (holds_of_lt hlen)
    have htoken : dcc_r_sometoken_int m (bodyFrame (compress text) ++ rest) =
        .ok ((FILE.bytes, BitVec.ofNat 32 (compress text).length), compress text ++ rest) := by
      unfold bodyFrame
      rw [append_assoc]
      exact sometoken_received rfl _
    have hother : FILE.bytes ≠ LINK.bytes := by decide
    rw [hname]
    dsimp only
    rw [cstring_bytes, hserver, hunmask]
    rw [htoken]
    dsimp only
    exact receiveFile_ends (hround text) (hne text) hbody
  | link link_name target =>
    obtain ⟨htarget, _, _, hfits⟩ := hbody
    have hunmask : dcc_xci_unmask_developer_dir (some serverDir)
        (masked clientDir link_name.toCString).bytes = _ := unmask_mask habsent
    have hname : dcc_r_token_string m nth NAME
        (SentEntry.wire clientDir compress (.link link_name target) ++ rest) =
          .ok ((masked clientDir link_name.toCString).bytes,
            stringFrame LINK (masked clientDir target) ++ rest) := by
      show dcc_r_token_string m nth NAME ((NAME.bytes ++ _ ++ _) ++ stringFrame LINK _ ++ rest) = _
      rw [append_assoc _ (stringFrame LINK (masked clientDir target))]
      exact dcc_r_token_string_received rfl nth hmalloc (holds_of_lt hlen)
    have htoken : dcc_r_sometoken_int m (stringFrame LINK (masked clientDir target) ++ rest) =
        .ok ((LINK.bytes, BitVec.ofNat 32 (masked clientDir target).strlen),
          (masked clientDir target).bytes ++ rest) := by
      unfold stringFrame
      rw [append_assoc]
      exact sometoken_received rfl _
    rw [hname]
    dsimp only
    rw [cstring_bytes, hserver, hunmask]
    rw [htoken]
    dsimp only
    exact receiveLink_ends hserver hmalloc htarget hfits _

theorem receiveEntries_ends {entries : List SentEntry}
    (hsend : ∀ e ∈ entries, e.Sendable clientDir maxpathlen compress) (nth : Nat)
    (made : List Made) : ∃ done todo, entries = done ++ todo ∧
      (todo = [] → receiveEntries m server dirname .DCC_COMPRESS_LZO1X entries.length nth made
        (entries.flatMap (SentEntry.wire clientDir compress) ++ rest) =
          ⟨made ++ done.flatMap (SentEntry.created clientDir serverDir dirname), .ok rest⟩) ∧
      (todo ≠ [] → (∃ code, receiveEntries m server dirname .DCC_COMPRESS_LZO1X entries.length nth made
        (entries.flatMap (SentEntry.wire clientDir compress) ++ rest) =
          ⟨made ++ done.flatMap (SentEntry.created clientDir serverDir dirname), .error code⟩) ∧
        ∃ later attempt, server.fails later attempt ≠ none) := by
  induction entries generalizing nth made with
  | nil =>
    refine ⟨[], [], rfl, ?_, fun h => absurd rfl h⟩
    intro _
    show (⟨made, _⟩ : ReceivedFiles) = ⟨made ++ [], _⟩
    rw [append_nil]
    rfl
  | cons e entries ih =>
    have hsplit : (e :: entries).flatMap (SentEntry.wire clientDir compress) ++ rest =
        e.wire clientDir compress ++ (entries.flatMap (SentEntry.wire clientDir compress) ++ rest) := by
      rw [flatMap_cons, append_assoc]
    rw [hsplit, length_cons]
    unfold receiveEntries
    have hentry : Ends server made (e.created clientDir serverDir dirname)
        (entries.flatMap (SentEntry.wire clientDir compress) ++ rest)
        (receiveEntry m server dirname .DCC_COMPRESS_LZO1X nth made (e.wire clientDir compress ++
          (entries.flatMap (SentEntry.wire clientDir compress) ++ rest))) :=
      receiveEntry_ends hserver hmalloc hround hne (hsend e mem_cons_self)
    rcases hentry with hread | ⟨⟨code, hread⟩, hfails⟩
    · rw [hread]
      obtain ⟨done, todo, heq, hdone, htodo⟩ :=
        ih (fun x hx => hsend x (mem_cons_of_mem e hx)) (nth + 2)
          (made ++ e.created clientDir serverDir dirname)
      refine ⟨e :: done, todo, by rw [heq]; rfl, ?_, ?_⟩
      · intro hnil
        rw [flatMap_cons, ← append_assoc]
        exact hdone hnil
      · intro hmore
        rw [flatMap_cons, ← append_assoc]
        exact htodo hmore
    · rw [hread]
      refine ⟨[], e :: entries, rfl, fun h => absurd h (cons_ne_nil _ _), ?_⟩
      intro _
      refine ⟨⟨code, ?_⟩, hfails⟩
      show (⟨made, _⟩ : ReceivedFiles) = ⟨made ++ [], _⟩
      rw [append_nil]

end

end Receiver

/-- The header announces as many entries as follow. The server creates them in order, each under
its path below `dirname`, until one of its calls fails. -/
theorem dcc_r_many_files_dcc_x_many_files (m : Machine) (client : SendingClient)
    (server : ReceivingServer) (clientDir serverDir : CString) (root : ClientRoot)
    (dirname : List UInt8) (compress : List UInt8 → List UInt8) (entries : List SentEntry)
    (hmalloc : ∀ i, m.malloc i = true)
    (hclient : client.xcodeselect_path = some clientDir) (hdir : clientDir.bytes ≠ [])
    (hserver : server.xcodeselect_path = some serverDir)
    (hround : ∀ text, server.decompress (compress text) = some text)
    (hne : ∀ text, compress text ≠ []) (hcount : entries.length < 2 ^ 32)
    (hsend : ∀ e ∈ entries, e.Sendable clientDir client.MAXPATHLEN compress)
    (hnode : ∀ e ∈ entries, client.node (e.filepath root) = some (e.node compress)) :
    ∃ sent, sendFileSet client (entries.map (SentEntry.filepath root)) = .ok sent ∧
      sent = NFIL.bytes ++ hexDigits (BitVec.ofNat 32 entries.length) ++
        entries.flatMap (SentEntry.wire clientDir compress) ∧
      ∀ rest, (∃ done todo, entries = done ++ todo ∧
          (dcc_r_many_files m server dirname .DCC_COMPRESS_LZO1X (sent ++ rest)).made =
            done.flatMap (SentEntry.created clientDir serverDir dirname) ∧
          (todo ≠ [] → ∃ later attempt, server.fails later attempt ≠ none)) ∧
        ((∀ later attempt, server.fails later attempt = none) →
          dcc_r_many_files m server dirname .DCC_COMPRESS_LZO1X (sent ++ rest) =
            ⟨entries.flatMap (SentEntry.created clientDir serverDir dirname), .ok rest⟩) := by
  refine ⟨_, ?_, rfl, ?_⟩
  · unfold sendFileSet dcc_x_many_files
    rw [length_map, dcc_x_token_int_eq NFIL rfl, sendFiles_eq hclient hdir hsend hnode]
    rfl
  · intro rest
    have hnat : (BitVec.ofNat 32 entries.length).toNat = entries.length := by
      rw [BitVec.toNat_ofNat, Nat.mod_eq_of_lt hcount]
    obtain ⟨done, todo, heq, hdone, htodo⟩ :=
      receiveEntries_ends hserver hmalloc hround hne hsend 0 []
    have hrun : dcc_r_many_files m server dirname .DCC_COMPRESS_LZO1X
        (NFIL.bytes ++ hexDigits (BitVec.ofNat 32 entries.length) ++
          entries.flatMap (SentEntry.wire clientDir compress) ++ rest) =
        receiveEntries m server dirname .DCC_COMPRESS_LZO1X entries.length 0 []
          (entries.flatMap (SentEntry.wire clientDir compress) ++ rest) := by
      unfold dcc_r_many_files
      rw [append_assoc _ (entries.flatMap _), token_int_received m rfl]
      dsimp only
      rw [hnat]
    rw [hrun]
    constructor
    · refine ⟨done, todo, heq, ?_, fun hmore => (htodo hmore).2⟩
      by_cases hnil : todo = []
      · rw [hdone hnil]
        rfl
      obtain ⟨⟨code, hcode⟩, _⟩ := htodo hnil
      rw [hcode]
      rfl
    · intro hsucceeds
      have hnil : todo = [] := by
        by_contra hmore
        obtain ⟨_, later, attempt, hfails⟩ := htodo hmore
        exact hfails (hsucceeds later attempt)
      rw [hdone hnil, heq, hnil, append_nil]
      rfl

/-! ## Two transfers -/

/-- What `lzo1x_1_compress` makes of at most 13 bytes. -/
def literalRun (text : List UInt8) : List UInt8 :=
  UInt8.ofNat (17 + text.length) :: (text ++ [17, 0, 0])

def literalText (body : List UInt8) : Option (List UInt8) :=
  some (body.tail.take (body.tail.length - 3))

theorem literalText_literalRun (text : List UInt8) : literalText (literalRun text) = some text := by
  unfold literalText literalRun
  rw [tail_cons, length_append]
  exact congrArg some take_left

def developerDir : CString := ⟨ascii "/Developer", noNul_of_contains (by decide)⟩
def xcodeDir : CString := ⟨ascii "/Xcode", noNul_of_contains (by decide)⟩

def shm : ClientRoot where
  components := [ascii "dev", ascii "shm", ascii "t"]
  three := rfl
  noSlash := by
    intro c hc
    have hall : [ascii "dev", ascii "shm", ascii "t"].all (fun c => !c.contains 47) = true := by decide
    have hone := List.all_eq_true.mp hall c hc
    intro hmem
    rw [List.contains_iff_mem.mpr hmem] at hone
    cases hone

def clientOf (entries : List SentEntry) : SendingClient where
  xcodeselect_path := some developerDir
  node fname := (entries.find? fun e => e.filepath shm == fname).map (SentEntry.node literalRun)
  MAXPATHLEN := 1024

def willingServer : ReceivingServer where
  xcodeselect_path := some xcodeDir
  decompress := literalText
  fails _ _ := none

def absolutePath (s : String) (h : (ascii s).contains 0 = false) (ha : (ascii s).head? = some 47) :
    AbsolutePath := ⟨⟨ascii s, noNul_of_contains h⟩, ha⟩

def header : SentEntry :=
  .file (absolutePath "/Developer/a.h" (by decide) (by decide)) true (ascii "int x;\n")
def headerLink : SentEntry := .link (absolutePath "/u/l.h" (by decide) (by decide))
  ⟨ascii "/Developer/a.h", noNul_of_contains (by decide)⟩

theorem header_and_link_created :
    ∃ sent, sendFileSet (clientOf [header, headerLink])
      ([header, headerLink].map (SentEntry.filepath shm)) =
        .ok sent ∧
      dcc_r_many_files lp64 willingServer (ascii "/r") .DCC_COMPRESS_LZO1X (sent ++ []) =
        ⟨[.file (ascii "/r/Xcode/a.h") (ascii "int x;\n"),
          .link (ascii "/r/Xcode/a.h") (ascii "/r/u/l.h")], .ok []⟩ := by
  have hsend : ∀ e ∈ [header, headerLink], e.Sendable developerDir 1024 literalRun := by
    intro e he
    rcases List.mem_cons.mp he with rfl | he
    · refine ⟨trivial, by decide, by decide, ?_⟩
      show (literalRun (ascii "int x;\n")).length < 2 ^ 32
      decide
    · obtain rfl := List.mem_singleton.mp he
      exact ⟨⟨by decide, by decide⟩, by decide, by decide, by decide, by decide, by decide, by decide⟩
  have hnode : ∀ e ∈ [header, headerLink],
      (clientOf [header, headerLink]).node (e.filepath shm) = some (e.node literalRun) := by
    intro e he
    rcases List.mem_cons.mp he with rfl | he
    · decide
    obtain rfl := List.mem_singleton.mp he
    decide
  obtain ⟨sent, hsent, _, hreceived⟩ := dcc_r_many_files_dcc_x_many_files lp64
    (clientOf [header, headerLink]) willingServer developerDir xcodeDir shm (ascii "/r") literalRun
    [header, headerLink] (fun _ => rfl) rfl (by decide) rfl literalText_literalRun
    (fun _ => cons_ne_nil _ _) (by decide) hsend hnode
  refine ⟨sent, hsent, ?_⟩
  rw [(hreceived []).2 fun _ _ => rfl]
  rfl

def homeHeader : SentEntry :=
  .file (absolutePath "/u/Developer/x.h" (by decide) (by decide)) false (ascii "x\n")
def headerMap : SentEntry := .file (absolutePath "/u/a.hmap" (by decide) (by decide)) false (ascii "pamh")
def suffixedLink : SentEntry := .link (absolutePath "/u/l.lzo" (by decide) (by decide))
  ⟨ascii "a", noNul_of_contains (by decide)⟩

/-- A directory that has the name of the developer directory is renamed, a header map is rewritten,
and a link loses its suffix. -/
theorem paths_not_kept : dcc_r_many_files lp64 willingServer (ascii "/r") .DCC_COMPRESS_LZO1X
      ((sendFileSet (clientOf [homeHeader, headerMap, suffixedLink])
        ([homeHeader, headerMap, suffixedLink].map (SentEntry.filepath shm))).toOption.getD []) =
      ⟨[.file (ascii "/r/u/Xcode/x.h") (ascii "x\n"), .file (ascii "/r/u/a.hmap") (ascii "pamh"),
        .headermap (ascii "/r/u/a.hmap") (ascii "/r"), .link (ascii "a") (ascii "/r/u/l")], .ok []⟩ := by
  decide +kernel

end Toolwhip.Distcc
