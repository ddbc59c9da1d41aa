import Toolwhip.As.ScrubCalls

/-! # Text through the two scrubbers

A text is fed to a copy call by call until it returns `EOF`. The copies agree on a run when
they agree in every call of it. -/

namespace Toolwhip.As
set_option autoImplicit false

/-- What came of a text: the characters before `EOF`, and what the calls left behind. -/
structure Fed where
  chars : List Int
  scrub : Scrub
  input : List UInt8
  warnings : List Warning
  deriving DecidableEq, Repr

/-- `none` when the calls have not come to `EOF`. -/
def feed (call : Scrub → List UInt8 → Option Called) : Nat → Scrub → List UInt8 → Option Fed
  | 0, _, _ => none
  | n + 1, s, input =>
    match call s input with
    | none => none
    | some r =>
      if r.ch = EOF then some ⟨[], r.scrub, r.input, r.warnings⟩
      else (feed call n r.scrub r.input).map fun fed =>
        { fed with chars := r.ch :: fed.chars, warnings := r.warnings ++ fed.warnings }

/-- The states of a run of the copy for files, with the text that is left. -/
inductive Reaches (cfg : Config) (s : Scrub) (text : List UInt8) : Scrub → List UInt8 → Prop
  | start : Reaches cfg s text s text
  | call {t : Scrub} {rest : List UInt8} {r : Called} (h : Reaches cfg s text t rest)
      (hr : do_scrub_next_char cfg t rest = some r) (hch : r.ch ≠ EOF) :
      Reaches cfg s text r.scrub r.input

def Scrub.Settled (s : Scrub) : Prop :=
  ¬ (s.state = 9 ∨ s.state = 10) ∧ ¬ (s.old_state = 9 ∨ s.old_state = 10)

instance (s : Scrub) : Decidable s.Settled := inferInstanceAs (Decidable (_ ∧ _))

/-- No call of the run comes to a place where the copies differ, and the text does not end right
after a symbol late in a line. -/
structure RunAgrees (cfg : Config) (s : Scrub) (text : List UInt8) : Prop where
  start : s.Settled
  calls : ∀ t rest, Reaches cfg s text t rest → CallAgrees cfg t rest
  atEnd : ∀ t rest r, Reaches cfg s text t rest → do_scrub_next_char cfg t rest = some r →
    r.ch = EOF → t.Settled

section AtEnd
variable {cfg : Config} {s t : Scrub} {input rest : List UInt8} {warnings : List Warning} {ch : Int}
variable {r : Called}

theorem Scrub.Settled.collapse_eq (h : s.Settled) : s.collapse = s := by
  have hstate : late s.state = s.state := if_neg h.1
  have hold : late s.old_state = s.old_state := if_neg h.2
  unfold Scrub.collapse
  rw [hstate, hold]

theorem not_late {k : Int} (h : k < 9) : ¬ (k = 9 ∨ k = 10) := by omega

theorem outString_settled (h : s.Settled) (hr : outString s input = some r) : r.scrub.Settled := by
  unfold outString at hr
  split at hr
  · cases hr
  · cases hr
    exact ⟨h.2, not_late (k := 3) (by decide)⟩
  cases hr
  exact h

theorem flushText_settled (h : s.Settled) : (flushText forFiles s input).scrub.Settled := by
  induction input with
  | nil => exact h
  | cons b rest ih =>
    unfold flushText
    split
    · split
      · exact ⟨h.2, h.2⟩
      split
      · exact ⟨h.2, h.2⟩
      · exact ih
    · split
      · exact h
      · exact ih

theorem lineNumber_settled (h : s.Settled) : (lineNumber forFiles cfg s input).scrub.Settled := by
  unfold lineNumber
  dsimp only
  split
  · exact h
  split
  · exact ⟨not_late (k := -1) (by decide), not_late (k := 7) (by decide)⟩
  · exact ⟨not_late (k := 0) (by decide), h.2⟩

theorem inString_settled (h : s.Settled) : (inString forFiles cfg s input).scrub.Settled := by
  unfold inString
  dsimp only
  split
  · exact ⟨h.2, h.2⟩
  split
  · exact ⟨h.2, h.2⟩
  split
  · exact ⟨not_late (k := 6) (by decide), h.2⟩
  split
  · exact ⟨h.2, h.2⟩
  · exact h

theorem inEscape_settled (h : s.Settled) : (inEscape forFiles s input).scrub.Settled := by
  have hfive : ¬ ((5 : Int) = 9 ∨ (5 : Int) = 10) := not_late (by decide)
  unfold inEscape
  dsimp only
  split
  · exact ⟨hfive, h.2⟩
  split
  · exact ⟨hfive, h.2⟩
  split
  · exact ⟨hfive, h.2⟩
  · exact ⟨hfive, h.2⟩

theorem flushLine_settled (h : s.Settled) (hr : flushLine forFiles s input = some r) :
    r.scrub.Settled := by
  induction input with
  | nil => cases hr
  | cons b rest ih =>
    unfold flushLine at hr
    split at hr
    · cases hr
      exact ⟨not_late (k := 0) (by decide), h.2⟩
    · exact ih hr

theorem switch_EOF (c : Copy) : (switch c cfg t EOF input warnings).scrub = t := by
  have hsep : EOF ≠ (if cfg.arch.atSeparates then code '@' else code ';') := by
    split
    · decide
    · decide
  have hnewline : EOF ≠ code '\n' := by decide
  unfold switch
  rw [if_neg (by decide), if_neg (by decide), if_neg (by decide), if_neg fun hn => hnewline hn.1,
    if_neg fun hn => hn.elim hnewline hsep, if_pos rfl]

theorem switch_end (h : t.Settled) (hend : (switch forFiles cfg t ch input warnings).ch = EOF) :
    ch = EOF := by
  have hten : ¬ (isSymbol cfg ch = true ∧ t.state = 10) := fun hboth => h.1 (Or.inr hboth.2)
  rcases switch_ch hten with hsame | hsame | hsame | hsame
  · exact hsame.symm.trans hend
  all_goals
    rw [hsame] at hend
    cases hend

theorem afterLoop_settled {l l' : Loop} (h : SameLoop cfg s l l') (hs : s.Settled)
    (hend : (afterLoop forFiles cfg l').ch = EOF) : (afterLoop forFiles cfg l').scrub.Settled := by
  cases h with
  | @other f t input warnings hkept hblanks hstate hold hread hascii =>
    have ht : t.Settled := by
      unfold Scrub.Settled
      rw [hstate, hold]
      exact hs
    unfold afterLoop at *
    cases f with
    | eof => exact ht
    | blank => exact ht
    | slash => exact ht
    | keptBlank => exact absurd rfl hkept
    | char a ch =>
      obtain rfl := switch_end ht hend
      rw [switch_EOF]
      exact ht
  | keptBlank hstate hkeep hascii => cases hend
  | @dropped t b rest warnings hstate hflag hascii =>
    have hkeep : forFiles.dropBlank t = t := if_neg fun hnine => hs.1 (Or.inl (hstate ▸ hnine))
    unfold afterLoop at hend
    rw [hkeep] at hend
    have hten : ¬ (isSymbol cfg (forFiles.value b) = true ∧ t.state = 10) :=
      fun hboth => hs.1 (Or.inr (hstate ▸ hboth.2))
    rcases switch_ch hten with hsame | hsame | hsame | hsame
    · exact absurd (hsame.symm.trans hend) (value_ne_EOF (hascii b List.mem_cons_self))
    all_goals
      rw [hsame] at hend
      cases hend
  | flagged hstate hflag hlate hblank hascii => exact absurd hlate hs.1

theorem called_settled (hascii : Ascii input) (h : s.Settled)
    (hr : do_scrub_next_char cfg s input = some r) (hend : r.ch = EOF) : r.scrub.Settled := by
  unfold do_scrub_next_char at hr
  by_cases hsix : s.state = 6
  · rw [scrubNextChar_escape _ hsix] at hr
    cases hr
    exact inEscape_settled h
  by_cases hown : hasOwnLoop s.state
  · unfold scrubNextChar at hr
    rcases hown with hstate | hstate | hstate | hstate | hstate | hstate
    · rw [hstate] at hr
      exact outString_settled h hr
    · rw [hstate] at hr
      cases hr
      exact flushText_settled h
    · rw [hstate] at hr
      cases hr
      exact lineNumber_settled h
    · rw [hstate] at hr
      cases hr
      exact inString_settled h
    · rw [hstate] at hr
      cases hr
      exact ⟨not_late (k := 5) (by decide), not_late (k := 8) (by decide)⟩
    · rw [hstate] at hr
      exact flushLine_settled h hr
  · rw [scrubNextChar_flush _ hsix hown] at hr
    rcases flushchar_same hascii rfl rfl (input.length + 1) with ⟨_, hnone⟩ | ⟨l, l', _, hl, hsame⟩
    · rw [hnone] at hr
      cases hr
    rw [hl] at hr
    cases hr
    exact afterLoop_settled hsame h hend

end AtEnd

section Run
variable {cfg : Config} {s t : Scrub} {text rest : List UInt8}

theorem Reaches.ascii (htext : Ascii text) (h : Reaches cfg s text t rest) : Ascii rest := by
  induction h with
  | start => exact htext
  | call _ hr _ ih => exact called_ascii ih hr

/-- From a state that the run comes to, the copy for strings goes on as the one for files. -/
theorem feed_reached (htext : Ascii text) (hrun : RunAgrees cfg s text) (n : Nat)
    (h : Reaches cfg s text t rest) : feed (do_scrub_next_char_from_string cfg) n t.collapse rest =
      feed (do_scrub_next_char cfg) n t rest := by
  induction n generalizing t rest with
  | zero => rfl
  | succ n ih =>
    have hascii : Ascii rest := h.ascii htext
    have hcall := (scrubNextChar_collapse_iff hascii).mpr (hrun.calls t rest h)
    unfold feed
    rw [hcall]
    cases hr : do_scrub_next_char cfg t rest with
    | none => rfl
    | some r =>
      rw [Option.map_some]
      dsimp only
      have hch : r.collapse.ch = r.ch := rfl
      have hinput : r.collapse.input = r.input := rfl
      have hscrub : r.collapse.scrub = r.scrub.collapse := rfl
      have hwarnings : r.collapse.warnings = r.warnings := rfl
      rw [hch, hinput, hscrub, hwarnings]
      by_cases hend : r.ch = EOF
      · have hsettled := called_settled hascii (hrun.atEnd t rest r h hr hend) hr hend
        rw [if_pos hend, if_pos hend, hsettled.collapse_eq]
      · rw [if_neg hend, if_neg hend, ih (Reaches.call h hr hend)]

theorem do_scrub_copies_agree (htext : Ascii text) (hrun : RunAgrees cfg s text) (n : Nat) :
    feed (do_scrub_next_char_from_string cfg) n s text = feed (do_scrub_next_char cfg) n s text := by
  have hfed := feed_reached htext hrun n (Reaches.start)
  rw [hrun.start.collapse_eq] at hfed
  exact hfed

end Run

section Computed
variable {cfg : Config} {s t : Scrub} {text rest : List UInt8}
variable {n : Nat}

instance (ch : Int) : Decidable (isMisc cfg ch) := inferInstanceAs (Decidable (_ ∧ _))

instance (state ch : Int) : Decidable (SwitchAgrees cfg state ch) :=
  inferInstanceAs (Decidable (_ ∧ _))

instance (state : Int) : (l : Loop) → Decidable (LoopAgrees cfg state l)
  | ⟨.eof, _, _, _⟩ => .isTrue trivial
  | ⟨.blank, _, _, _⟩ => .isTrue trivial
  | ⟨.slash, _, _, _⟩ => .isTrue trivial
  | ⟨.keptBlank, _, _, _⟩ => inferInstanceAs (Decidable (¬ _))
  | ⟨.char true ch, t, _, _⟩ =>
    inferInstanceAs (Decidable (if cfg.flagSeen = true ∧ (state = 9 ∨ state = 10)
      then isSymbol cfg ch = true else SwitchAgrees cfg t.state ch))
  | ⟨.char false ch, _, _, _⟩ => inferInstanceAs (Decidable (SwitchAgrees cfg state ch))

def OptionAgrees (cfg : Config) (state : Int) : Option Loop → Prop
  | none => True
  | some l => LoopAgrees cfg state l

instance (state : Int) : (o : Option Loop) → Decidable (OptionAgrees cfg state o)
  | none => .isTrue trivial
  | some l => inferInstanceAs (Decidable (LoopAgrees cfg state l))

theorem optionAgrees_iff {state : Int} {o : Option Loop} :
    OptionAgrees cfg state o ↔ ∀ l, o = some l → LoopAgrees cfg state l := by
  cases o with
  | none =>
    refine iff_of_true trivial ?_
    intro l hl
    cases hl
  | some l =>
    constructor
    · intro h l' hl
      cases hl
      exact h
    · exact fun h => h l rfl

instance (s : Scrub) (input : List UInt8) : Decidable (CallAgrees cfg s input) :=
  decidable_of_iff (if s.state = 6 then input.head? ≠ some 39
    else if hasOwnLoop s.state then True
    else OptionAgrees cfg s.state (flushchar forFiles cfg (input.length + 1) s input []))
    (by rw [optionAgrees_iff]; rfl)

def agreesWithin (cfg : Config) : Nat → Scrub → List UInt8 → Bool
  | 0, _, _ => false
  | n + 1, s, input =>
    decide (CallAgrees cfg s input) &&
      match do_scrub_next_char cfg s input with
      | none => true
      | some r => if r.ch = EOF then decide s.Settled else agreesWithin cfg n r.scrub r.input

theorem agreesWithin_call {r : Called} (h : agreesWithin cfg (n + 1) t rest = true)
    (hr : do_scrub_next_char cfg t rest = some r) :
    if r.ch = EOF then t.Settled else agreesWithin cfg n r.scrub r.input = true := by
  unfold agreesWithin at h
  rw [hr] at h
  have hparts := (Bool.and_eq_true _ _).mp h
  split
  case isTrue hend =>
    have hsettled := hparts.2
    dsimp only at hsettled
    rw [if_pos hend] at hsettled
    exact of_decide_eq_true hsettled
  case isFalse hend =>
    have hmore := hparts.2
    dsimp only at hmore
    rw [if_neg hend] at hmore
    exact hmore

theorem agreesWithin_reached (h : agreesWithin cfg n s text = true)
    (hreach : Reaches cfg s text t rest) : ∃ m, agreesWithin cfg (m + 1) t rest = true := by
  induction hreach with
  | start =>
    cases n with
    | zero => cases h
    | succ n => exact ⟨n, h⟩
  | call _ hr hch ih =>
    obtain ⟨m, hm⟩ := ih
    have hmore := agreesWithin_call hm hr
    rw [if_neg hch] at hmore
    cases m with
    | zero => cases hmore
    | succ m => exact ⟨m, hmore⟩

theorem runAgrees_of_agreesWithin (hs : s.Settled) (h : agreesWithin cfg n s text = true) :
    RunAgrees cfg s text := by
  refine ⟨hs, ?_, ?_⟩
  · intro t rest hreach
    obtain ⟨m, hm⟩ := agreesWithin_reached h hreach
    exact of_decide_eq_true ((Bool.and_eq_true _ _).mp hm).1
  · intro t rest r hreach hr hend
    obtain ⟨m, hm⟩ := agreesWithin_reached h hreach
    have hsettled := agreesWithin_call hm hr
    rw [if_pos hend] at hsettled
    exact hsettled

end Computed

def do_scrub_begin : Scrub := ⟨0, 0, 0, [], 0⟩

def ppc : Config := ⟨.PPC, false, fun _ => ⟨false, false, false, false, false⟩⟩

def bytes (text : String) : List UInt8 := text.toList.map fun c => UInt8.ofNat c.toNat

/-- `addi r3,r4,1` is the same in both copies. -/
theorem instruction_copies_agree :
    feed (do_scrub_next_char_from_string ppc) 40 do_scrub_begin (bytes "x:  addi r3, r4, 1 ; y\n") =
      feed (do_scrub_next_char ppc) 40 do_scrub_begin (bytes "x:  addi r3, r4, 1 ; y\n") := by
  have hwithin : agreesWithin ppc 40 do_scrub_begin (bytes "x:  addi r3, r4, 1 ; y\n") = true := by
    decide +kernel
  have hascii : Ascii (bytes "x:  addi r3, r4, 1 ; y\n") := by
    intro b hb
    have hall : (bytes "x:  addi r3, r4, 1 ; y\n").all (· < 128) = true := by decide +kernel
    exact of_decide_eq_true (List.all_eq_true.mp hall b hb)
  exact do_scrub_copies_agree hascii (runAgrees_of_agreesWithin (by decide) hwithin) 40

/-- `.loc 1 20` in a macro becomes `.loc 120`. -/
theorem loc_copies_differ :
    feed (do_scrub_next_char_from_string ppc) 40 do_scrub_begin (bytes ".loc 1 20\n") =
      some ⟨codes ".loc 120\n", do_scrub_begin, [], []⟩ ∧
    feed (do_scrub_next_char ppc) 40 do_scrub_begin (bytes ".loc 1 20\n") =
      some ⟨codes ".loc 1 20\n", do_scrub_begin, [], []⟩ ∧
    codes ".loc 120\n" ≠ codes ".loc 1 20\n" := by
  decide +kernel

end Toolwhip.As
