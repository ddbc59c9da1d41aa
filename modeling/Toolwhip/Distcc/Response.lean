import Toolwhip.Distcc.Clirpc

/-! # Well-formed responses

The response that a server emits, as a grammar of frames and bodies, and when 0 is
returned for that alone. -/

namespace Toolwhip.Distcc
open Lib.CNumber Lib.ThrowingFold List
set_option autoImplicit false

def Frame (token : CString) (v : BitVec 32) (stream rest : List UInt8) : Prop :=
  ∃ digits, stream = token.bytes ++ digits ++ rest ∧ digits.length = 8 ∧ SpellsValue digits v

def Body (len : BitVec 32) (stream rest : List UInt8) : Prop :=
  len.toNat ≤ stream.length ∧ rest = stream.drop len.toNat

/-- What is asked of each of the bodies; `none` where there is none after DOTD. -/
structure Bodies where
  stderr : BitVec 32 → List UInt8 → List UInt8 → Prop
  stdout : BitVec 32 → List UInt8 → List UInt8 → Prop
  output : BitVec 32 → List UInt8 → List UInt8 → Prop
  deps : Option (BitVec 32 → List UInt8 → List UInt8 → Prop)

section Grammar
variable (bodies : Bodies)

def Opening (v status : BitVec 32) (stream rest : List UInt8) : Prop :=
  ∃ s₁ s₂ len s₃, Frame DONE v stream s₁ ∧ Frame STAT status s₁ s₂ ∧ Frame SERR len s₂ s₃ ∧
    bodies.stderr len s₃ rest

def Middle (o_len : BitVec 32) (stream rest : List UInt8) : Prop :=
  ∃ len s₁ s₂, Frame SOUT len stream s₁ ∧ bodies.stdout len s₁ s₂ ∧ Frame DOTO o_len s₂ rest

def DepsPart (stream rest : List UInt8) : Prop :=
  ∃ len after, Frame DOTD len stream after ∧
    match bodies.deps with
    | none => rest = after
    | some body => body len after rest

variable (cpp_where : CppWhere)

def ObjectPart (status o_len : BitVec 32) (stream rest : List UInt8) : Prop :=
  if status = 0 then
    ∃ after, bodies.output o_len stream after ∧
      match cpp_where with
      | .DCC_CPP_ON_SERVER => DepsPart bodies after rest
      | .DCC_CPP_ON_CLIENT => rest = after
  else rest = stream

def ResponseOf (v status : BitVec 32) (stream rest : List UInt8) : Prop :=
  ∃ s₁ o_len s₂, Opening bodies v status stream s₁ ∧ Middle bodies o_len s₁ s₂ ∧
    ObjectPart bodies cpp_where status o_len s₂ rest

def WithoutDeps (v status : BitVec 32) (stream rest : List UInt8) : Prop :=
  ∃ s₁ o_len s₂ s₃, Opening bodies v status stream s₁ ∧ Middle bodies o_len s₁ s₂ ∧
    status = 0 ∧ cpp_where = .DCC_CPP_ON_SERVER ∧ bodies.output o_len s₂ s₃ ∧
    (∀ len after, ¬ Frame DOTD len s₃ after) ∧ rest = s₃.drop 12

end Grammar

def wellFormed (hasDeps : Bool) : Bodies where
  stderr := Body
  stdout := Body
  output := Body
  deps := if hasDeps then some Body else none

section Reads
variable (m : Machine) (compr : Compress) {token : CString} {v len : BitVec 32}
  {stream rest : List UInt8}

theorem frame_iff (h : token.strlen = 4) :
    Frame token v stream rest ↔ dcc_r_token_int m token stream = .ok (v, rest) := by
  have hbytes : token.bytes.length = 4 := h
  constructor
  · intro ⟨digits, heq, hlen, hspells⟩
    rw [heq]
    apply (dcc_r_token_int_iff h _).mpr ⟨digits, rfl, hspells⟩
    rw [length_append, hbytes, hlen]
  · intro hread
    have hlong : 12 ≤ stream.length := by
      apply Classical.byContradiction
      intro hshort
      unfold dcc_r_token_int dcc_readx at hread
      rw [if_neg (Classical.not_not.mpr h), if_neg hshort] at hread
      cases hread
    have htake : (stream.take 12).length = 12 := by
      rw [length_take, Nat.min_eq_left hlong]
    have hrest : rest = stream.drop 12 := by
      unfold dcc_r_token_int dcc_readx at hread
      rw [if_neg (Classical.not_not.mpr h), if_pos hlong] at hread
      have hread : (if (stream.take 12).take 4 ≠ token.bytes then _ else _) = _ := hread
      split at hread
      · cases hread
      obtain ⟨value, _, heq⟩ := map_eq_ok.mp hread
      exact (Prod.mk.inj heq).2.symm
    rw [← take_append_drop 12 stream, ← hrest] at hread
    obtain ⟨digits, hdigits, hspells⟩ := (dcc_r_token_int_iff h htake).mp hread
    refine ⟨digits, ?_, ?_, hspells⟩
    · rw [← hdigits, hrest, take_append_drop]
    · have := congrArg List.length hdigits
      rw [length_append, hbytes, htake] at this
      omega

theorem Frame.unique {v' : BitVec 32} {rest' : List UInt8} (htoken : token.strlen = 4)
    (h : Frame token v stream rest) (h' : Frame token v' stream rest') : v = v' ∧ rest = rest' := by
  have h := (frame_iff lp64 htoken).mp h
  have h' := (frame_iff lp64 htoken).mp h'
  exact Prod.mk.inj (Except.ok.inj (h.symm.trans h'))

def Taken (takes : List UInt8 → Option ExitCode) (len : BitVec 32) (stream rest : List UInt8) : Prop :=
  Body len stream rest ∧ (len ≠ 0 → takes (stream.take len.toNat) = none)

def Received (file : LocalFile) (len : BitVec 32) (stream rest : List UInt8) : Prop :=
  Taken file.takes len stream rest ∧ file.creates = true ∧ file.closes = true

theorem body_zero : Body 0 stream rest ↔ rest = stream := by
  constructor
  · intro h
    exact h.2
  · intro h
    exact ⟨Nat.zero_le _, h⟩

theorem taken_iff {takes : List UInt8 → Option ExitCode} :
    Taken takes len stream rest ↔ dcc_r_bulk m compr takes len stream = .ok rest := by
  unfold Taken dcc_r_bulk
  by_cases hlen : len = 0
  · subst hlen
    rw [if_pos rfl, body_zero]
    constructor
    · intro h
      rw [h.1]
    · intro h
      exact ⟨(Except.ok.inj h).symm, fun hne => absurd rfl hne⟩
  · rw [if_neg hlen]
    by_cases hshort : stream.length < len.toNat
    · rw [if_pos hshort]
      constructor
      · intro h
        have := h.1.1
        omega
      · intro h
        cases h
    · rw [if_neg hshort]
      cases htakes : takes (stream.take len.toNat) with
      | none =>
        constructor
        · intro h
          rw [h.1.2]
        · intro h
          exact ⟨⟨by omega, (Except.ok.inj h).symm⟩, fun _ => rfl⟩
      | some e =>
        constructor
        · intro h
          cases h.2 hlen
        · intro h
          cases h

theorem received_iff {file : LocalFile} :
    Received file len stream rest ↔ dcc_r_file m compr file len stream = .ok rest := by
  unfold Received dcc_r_file
  rw [taken_iff m compr]
  cases file.creates with
  | false => simp
  | true =>
    cases hbulk : dcc_r_bulk m compr file.takes len stream with
    | error e => simp
    | ok after => cases hcloses : file.closes <;> simp

end Reads

def received (client : Client) : Bodies where
  stderr := Received client.stderr
  stdout := Taken client.stdout
  output := Received client.output
  deps := client.deps.map Received

section Retrieved
variable {m : Machine} {client : Client} {host : HostFeatures} {v status o_len : BitVec 32}
  {stream rest : List UInt8}

theorem retrieveDeps_iff : retrieveDeps m client host stream = .ok rest ↔
    DepsPart (received client) stream rest ∨
      (∀ len after, ¬ Frame DOTD len stream after) ∧ rest = stream.drop 12 := by
  unfold retrieveDeps DepsPart
  cases hread : dcc_r_token_int m DOTD stream with
  | error e =>
    have hnone : ∀ len after, ¬ Frame DOTD len stream after := by
      intro len after hframe
      rw [frame_iff m rfl, hread] at hframe
      cases hframe
    constructor
    · intro h
      exact Or.inr ⟨hnone, (Except.ok.inj h).symm⟩
    · rintro (⟨len, after, hframe, _⟩ | ⟨_, hrest⟩)
      · exact absurd hframe (hnone len after)
      · rw [hrest]
  | ok len =>
    obtain ⟨len, after⟩ := len
    have hframe : Frame DOTD len stream after := (frame_iff m rfl).mpr hread
    have hbody : (∃ len' after', Frame DOTD len' stream after' ∧
        match (received client).deps with
        | none => rest = after'
        | some body => body len' after' rest) ↔
        match (received client).deps with
        | none => rest = after
        | some body => body len after rest := by
      constructor
      · intro ⟨len', after', hframe', h⟩
        obtain ⟨rfl, rfl⟩ := Frame.unique rfl hframe hframe'
        exact h
      · intro h
        exact ⟨len, after, hframe, h⟩
    rw [hbody]
    unfold received
    cases client.deps with
    | none =>
      constructor
      · intro h
        exact Or.inl (Except.ok.inj h).symm
      · rintro (h | ⟨hnone, _⟩)
        · rw [h]
        · exact absurd hframe (hnone len after)
    | some file =>
      constructor
      · intro h
        exact Or.inl ((received_iff m host.compr).mpr h)
      · rintro (h | ⟨hnone, _⟩)
        · exact (received_iff m host.compr).mp h
        · exact absurd hframe (hnone len after)

theorem retrieveObject_iff : retrieveObject m client host status o_len stream = .ok rest ↔
    ObjectPart (received client) host.cpp_where status o_len stream rest ∨
      status = 0 ∧ host.cpp_where = .DCC_CPP_ON_SERVER ∧
        ∃ after, Received client.output o_len stream after ∧
          (∀ len after', ¬ Frame DOTD len after after') ∧ rest = after.drop 12 := by
  unfold retrieveObject ObjectPart
  by_cases hstatus : status = 0
  · rw [if_pos hstatus, if_pos hstatus, bind_eq_ok]
    cases host.cpp_where with
    | DCC_CPP_ON_CLIENT =>
      constructor
      · intro ⟨after, hfile, hrest⟩
        exact Or.inl ⟨after, (received_iff m host.compr).mpr hfile, (Except.ok.inj hrest).symm⟩
      · rintro (⟨after, hreceived, hrest⟩ | ⟨_, hserver, _⟩)
        · exact ⟨after, (received_iff m host.compr).mp hreceived, by rw [hrest]⟩
        · cases hserver
    | DCC_CPP_ON_SERVER =>
      constructor
      · intro ⟨after, hfile, hdeps⟩
        have hreceived := (received_iff m host.compr).mpr hfile
        rcases retrieveDeps_iff.mp hdeps with hdeps | hnone
        · exact Or.inl ⟨after, hreceived, hdeps⟩
        · exact Or.inr ⟨hstatus, rfl, after, hreceived, hnone⟩
      · rintro (⟨after, hreceived, hdeps⟩ | ⟨_, _, after, hreceived, hnone⟩)
        · exact ⟨after, (received_iff m host.compr).mp hreceived, retrieveDeps_iff.mpr (Or.inl hdeps)⟩
        · exact ⟨after, (received_iff m host.compr).mp hreceived, retrieveDeps_iff.mpr (Or.inr hnone)⟩
  · rw [if_neg hstatus, if_neg hstatus]
    constructor
    · intro h
      exact Or.inl (Except.ok.inj h).symm
    · rintro (h | ⟨hzero, _⟩)
      · rw [h]
      · exact absurd hzero hstatus

variable (m host) in
theorem opening_read : (∃ v, Opening (received client) v status stream rest) ↔
    ∃ s₁ s₂ len, dcc_r_result_header m host.protover stream = .ok s₁ ∧
      dcc_r_cc_status m s₁ = .ok (status, s₂) ∧ dcc_r_token_int m SERR s₂ = .ok len ∧
      dcc_r_file m host.compr client.stderr len.1 len.2 = .ok rest := by
  constructor
  · intro ⟨v, s₁, s₂, len, s₃, hdone, hstat, hserr, hbody⟩
    refine ⟨s₁, s₂, (len, s₃), ?_, (frame_iff m rfl).mp hstat, (frame_iff m rfl).mp hserr,
      (received_iff m host.compr).mp hbody⟩
    exact map_eq_ok.mpr ⟨_, (frame_iff m rfl).mp hdone, rfl⟩
  · intro ⟨s₁, s₂, len, hdone, hstat, hserr, hbody⟩
    obtain ⟨done, hread, rfl⟩ := map_eq_ok.mp hdone
    exact ⟨done.1, done.2, s₂, len.1, len.2, (frame_iff m rfl).mpr hread,
      (frame_iff m rfl).mpr hstat, (frame_iff m rfl).mpr hserr,
      (received_iff m host.compr).mpr hbody⟩

theorem middle_read : Middle (received client) o_len stream rest ↔
    ∃ len s₂, dcc_r_token_int m SOUT stream = .ok len ∧
      dcc_r_bulk m host.compr client.stdout len.1 len.2 = .ok s₂ ∧
      dcc_r_token_int m DOTO s₂ = .ok (o_len, rest) := by
  constructor
  · intro ⟨len, s₁, s₂, hsout, hbody, hdoto⟩
    exact ⟨(len, s₁), s₂, (frame_iff m rfl).mp hsout, (taken_iff m host.compr).mp hbody,
      (frame_iff m rfl).mp hdoto⟩
  · intro ⟨len, s₂, hsout, hbody, hdoto⟩
    exact ⟨len.1, len.2, s₂, (frame_iff m rfl).mpr hsout, (taken_iff m host.compr).mpr hbody,
      (frame_iff m rfl).mpr hdoto⟩

/-- Where the log takes the errors, 0 is returned for a response of any version and for
one that ends where DOTD is due. -/
theorem retrieve_logged (hlogs : client.logsErrors = true) :
    dcc_retrieve_results m client host stream = .ok (status, rest) ↔
      ∃ v, ResponseOf (received client) host.cpp_where v status stream rest ∨
        WithoutDeps (received client) host.cpp_where v status stream rest := by
  unfold dcc_retrieve_results
  simp only [hlogs, if_true, bind_eq_ok, map_eq_ok]
  constructor
  · intro ⟨s₁, hdone, stat, hstat, serr, hserr, s₂, hstderr, sout, hsout, s₃, hstdout, doto,
      hdoto, rest', hobject, heq⟩
    obtain ⟨rfl, rfl⟩ := Prod.mk.inj heq
    obtain ⟨v, hopening⟩ := (opening_read m host).mpr ⟨s₁, stat.2, serr, hdone, hstat, hserr, hstderr⟩
    have hmiddle := middle_read.mpr ⟨sout, s₃, hsout, hstdout, hdoto⟩
    rcases retrieveObject_iff.mp hobject with hobject | ⟨hzero, hserver, s₄, hreceived, hnone⟩
    · exact ⟨v, Or.inl ⟨s₂, doto.1, doto.2, hopening, hmiddle, hobject⟩⟩
    exact ⟨v, Or.inr ⟨s₂, doto.1, doto.2, s₄, hopening, hmiddle, hzero, hserver, hreceived,
      hnone⟩⟩
  · intro ⟨v, h⟩
    have hparts : ∃ s₁ o_len s₂, Opening (received client) v status stream s₁ ∧
        Middle (received client) o_len s₁ s₂ ∧
        retrieveObject m client host status o_len s₂ = .ok rest := by
      rcases h with ⟨s₁, o_len, s₂, hopening, hmiddle, hobject⟩ |
        ⟨s₁, o_len, s₂, s₃, hopening, hmiddle, hzero, hserver, hnone⟩
      · exact ⟨s₁, o_len, s₂, hopening, hmiddle, retrieveObject_iff.mpr (Or.inl hobject)⟩
      exact ⟨s₁, o_len, s₂, hopening, hmiddle,
        retrieveObject_iff.mpr (Or.inr ⟨hzero, hserver, s₃, hnone⟩)⟩
    obtain ⟨s₂, o_len, s₅, hopening, hmiddle, hobject⟩ := hparts
    obtain ⟨s₁, s₂', serr, hdone, hstat, hserr, hstderr⟩ :=
      (opening_read m host).mp ⟨v, hopening⟩
    obtain ⟨sout, s₃, hsout, hstdout, hdoto⟩ := middle_read.mp hmiddle
    exact ⟨s₁, hdone, (status, s₂'), hstat, serr, hserr, s₂, hstderr, sout, hsout, s₃, hstdout,
      (o_len, s₅), hdoto, rest, hobject, rfl⟩

theorem retrieve_unlogged (hlogs : client.logsErrors = false) :
    dcc_retrieve_results m client host stream = .ok (status, rest) ↔
      ∃ v, Opening (received client) v status stream rest := by
  unfold dcc_retrieve_results
  rw [opening_read m host]
  simp only [hlogs, Bool.false_eq_true, if_false, bind_eq_ok]
  constructor
  · intro ⟨s₁, hdone, stat, hstat, serr, hserr, s₂, hstderr, heq⟩
    obtain ⟨rfl, rfl⟩ := Prod.mk.inj (Except.ok.inj heq)
    exact ⟨s₁, stat.2, serr, hdone, hstat, hserr, hstderr⟩
  · intro ⟨s₁, s₂, serr, hdone, hstat, hserr, hstderr⟩
    exact ⟨s₁, hdone, (status, s₂), hstat, serr, hserr, rest, hstderr, rfl⟩

end Retrieved

section WellFormed
variable {client : Client} {cpp_where : CppWhere} {v v' status status' o_len o_len' : BitVec 32}
  {stream rest rest' : List UInt8}

theorem Frame.length {token : CString} (htoken : token.strlen = 4)
    (h : Frame token v stream rest) : stream.length = rest.length + 12 := by
  obtain ⟨digits, rfl, hlen, _⟩ := h
  have hbytes : token.bytes.length = 4 := htoken
  simp only [length_append]
  omega

theorem Body.length (h : Body o_len stream rest) : rest.length ≤ stream.length := by
  rw [h.2, length_drop]
  omega

theorem Body.unique (h : Body o_len stream rest) (h' : Body o_len stream rest') : rest = rest' :=
  h.2.trans h'.2.symm

theorem ResponseOf.wellFormed (h : ResponseOf (received client) cpp_where v status stream rest) :
    ResponseOf (wellFormed client.deps.isSome) cpp_where v status stream rest := by
  obtain ⟨s₁, o_len, s₂, ⟨s₃, s₄, serr, s₅, hdone, hstat, hserr, hstderr⟩,
    ⟨sout, s₆, s₇, hsout, hstdout, hdoto⟩, hobject⟩ := h
  refine ⟨s₁, o_len, s₂, ⟨s₃, s₄, serr, s₅, hdone, hstat, hserr, hstderr.1.1⟩,
    ⟨sout, s₆, s₇, hsout, hstdout.1, hdoto⟩, ?_⟩
  unfold ObjectPart at *
  by_cases hstatus : status = 0
  · rw [if_pos hstatus] at *
    obtain ⟨after, houtput, hdeps⟩ := hobject
    refine ⟨after, houtput.1.1, ?_⟩
    cases cpp_where with
    | DCC_CPP_ON_CLIENT => exact hdeps
    | DCC_CPP_ON_SERVER =>
      obtain ⟨len, s₈, hdotd, hbody⟩ := hdeps
      refine ⟨len, s₈, hdotd, ?_⟩
      unfold received at hbody
      cases hfile : client.deps with
      | none =>
        rw [hfile] at hbody
        exact hbody
      | some file =>
        rw [hfile] at hbody
        exact hbody.1.1
  · rw [if_neg hstatus] at *
    exact hobject

variable {hasDeps : Bool}

theorem Opening.unique (h : Opening (received client) v status stream rest)
    (h' : Opening (Distcc.wellFormed hasDeps) v' status' stream rest') :
    v = v' ∧ status = status' ∧ rest = rest' := by
  obtain ⟨s₁, s₂, serr, s₃, hdone, hstat, hserr, hstderr⟩ := h
  obtain ⟨s₁', s₂', serr', s₃', hdone', hstat', hserr', hstderr'⟩ := h'
  obtain ⟨rfl, rfl⟩ := Frame.unique rfl hdone hdone'
  obtain ⟨rfl, rfl⟩ := Frame.unique rfl hstat hstat'
  obtain ⟨rfl, rfl⟩ := Frame.unique rfl hserr hserr'
  exact ⟨rfl, rfl, Body.unique hstderr.1.1 hstderr'⟩

theorem Middle.unique (h : Middle (received client) o_len stream rest)
    (h' : Middle (Distcc.wellFormed hasDeps) o_len' stream rest') :
    o_len = o_len' ∧ rest = rest' := by
  obtain ⟨sout, s₁, s₂, hsout, hstdout, hdoto⟩ := h
  obtain ⟨sout', s₁', s₂', hsout', hstdout', hdoto'⟩ := h'
  obtain ⟨rfl, rfl⟩ := Frame.unique rfl hsout hsout'
  obtain rfl := Body.unique hstdout.1 hstdout'
  exact Frame.unique rfl hdoto hdoto'

theorem ResponseOf.not_opening
    (h : ResponseOf (Distcc.wellFormed hasDeps) cpp_where v status stream rest) :
    ¬ Opening (received client) v' status' stream rest := by
  intro hopening
  obtain ⟨s₁, o_len, s₂, hopening', ⟨sout, s₃, s₄, hsout, hstdout, hdoto⟩, hobject⟩ := h
  obtain ⟨_, _, rfl⟩ := Opening.unique hopening hopening'
  have hshorter : rest.length ≤ s₂.length := by
    unfold ObjectPart at hobject
    split at hobject
    · obtain ⟨after, houtput, hdeps⟩ := hobject
      have houtput := Body.length houtput
      cases cpp_where with
      | DCC_CPP_ON_CLIENT =>
        rw [hdeps]
        exact houtput
      | DCC_CPP_ON_SERVER =>
        obtain ⟨len, s₅, hdotd, hbody⟩ := hdeps
        have hdotd := Frame.length rfl hdotd
        have hbody : rest.length ≤ s₅.length := by
          cases hasDeps with
          | false =>
            rw [hbody]
          | true => exact Body.length hbody
        omega
    · rw [hobject]
  have hsout := Frame.length rfl hsout
  have hstdout := Body.length hstdout
  have hdoto := Frame.length rfl hdoto
  omega

theorem ResponseOf.not_without
    (h : ResponseOf (Distcc.wellFormed hasDeps) cpp_where v status stream rest) :
    ¬ WithoutDeps (received client) cpp_where v' status' stream rest' := by
  intro ⟨s₁, o_len, s₂, s₃, hopening, hmiddle, hzero, hserver, houtput, hnone, _⟩
  obtain ⟨s₁', o_len', s₂', hopening', hmiddle', hobject⟩ := h
  obtain ⟨rfl, rfl, rfl⟩ := Opening.unique hopening hopening'
  obtain ⟨rfl, rfl⟩ := Middle.unique hmiddle hmiddle'
  unfold ObjectPart at hobject
  rw [if_pos hzero, hserver] at hobject
  obtain ⟨after, houtput', len, s₅, hdotd, _⟩ := hobject
  obtain rfl := Body.unique houtput.1.1 houtput'
  exact hnone len s₅ hdotd

end WellFormed

/-- 0 is returned for well-formed responses alone if and only if there is no opening that
the log does not take, no response of another version and none that ends where DOTD is
due. -/
theorem dcc_retrieve_results_iff (m : Machine) (client : Client) (host : HostFeatures)
    (stream : List UInt8) :
    (∀ status rest, dcc_retrieve_results m client host stream = .ok (status, rest) →
      ResponseOf (wellFormed client.deps.isSome) host.cpp_where host.protover status stream rest) ↔
    ∀ v status rest,
      (Opening (received client) v status stream rest → client.logsErrors = true) ∧
      (ResponseOf (received client) host.cpp_where v status stream rest → v = host.protover) ∧
      ¬ WithoutDeps (received client) host.cpp_where v status stream rest := by
  have hlogged : ∀ {v status rest}, Opening (received client) v status stream rest →
      (∀ status rest, dcc_retrieve_results m client host stream = .ok (status, rest) →
        ResponseOf (wellFormed client.deps.isSome) host.cpp_where host.protover status stream
          rest) → client.logsErrors = true := by
    intro v status rest hopening h
    cases hlogs : client.logsErrors with
    | true => rfl
    | false =>
      have hresponse := h status rest ((retrieve_unlogged hlogs).mpr ⟨v, hopening⟩)
      exact absurd hopening hresponse.not_opening
  constructor
  · intro h v status rest
    refine ⟨fun hopening => hlogged hopening h, ?_, ?_⟩
    · intro hreceived
      have hopening := hreceived
      obtain ⟨s₁, _, _, hopening, _⟩ := hopening
      obtain ⟨_, _, _, hopening', _⟩ :=
        h status rest ((retrieve_logged (hlogged hopening h)).mpr ⟨v, Or.inl hreceived⟩)
      exact (Opening.unique hopening hopening').1
    · intro hwithout
      have hopening := hwithout
      obtain ⟨s₁, _, _, _, hopening, _⟩ := hopening
      have hresponse :=
        h status rest ((retrieve_logged (hlogged hopening h)).mpr ⟨v, Or.inr hwithout⟩)
      exact absurd hwithout hresponse.not_without
  · intro h status rest hread
    cases hlogs : client.logsErrors with
    | false =>
      obtain ⟨v, hopening⟩ := (retrieve_unlogged hlogs).mp hread
      have hlogs' := (h v status rest).1 hopening
      rw [hlogs] at hlogs'
      cases hlogs'
    | true =>
      obtain ⟨v, hresponse | hwithout⟩ := (retrieve_logged hlogs).mp hread
      · rw [← (h v status rest).2.1 hresponse]
        exact hresponse.wellFormed
      · exact absurd hwithout (h v status rest).2.2

/-- A host of version 2 that is sent the response of version 3. -/
theorem other_version_accepted : ∃ (client : Client) (host : HostFeatures) (stream : List UInt8),
      dcc_retrieve_results lp64 client host stream = .ok (1, []) ∧
      ¬ ResponseOf (wellFormed client.deps.isSome) host.cpp_where host.protover 1 stream [] := by
  let file : LocalFile := ⟨true, fun _ => none, true⟩
  let client : Client := ⟨true, file, fun _ => none, file, none⟩
  let host : HostFeatures := ⟨2, .DCC_COMPRESS_NONE, .DCC_CPP_ON_CLIENT⟩
  let stream := ascii "DONE00000003STAT00000001SERR00000000SOUT00000000DOTO00000000"
  have hdone : Frame DONE 3 stream (stream.drop 12) := by
    apply (frame_iff lp64 rfl).mpr
    decide
  refine ⟨client, host, stream, by decide, ?_⟩
  intro ⟨_, _, _, ⟨_, _, _, _, hversion, _⟩, _⟩
  have hdiffer : (3 : BitVec 32) = 2 := (Frame.unique rfl hdone hversion).1
  cases hdiffer

end Toolwhip.Distcc
