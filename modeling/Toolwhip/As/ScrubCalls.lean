import Toolwhip.As.ScrubCopies

/-! # One call of the two scrubbers

On ASCII text the two copies do the same in a call exactly when it does not come to a place
that was patched in one of them. -/

namespace Toolwhip.As
set_option autoImplicit false

/-- The copies agree after the loop at `flushchar`, which was started in this state. -/
def LoopAgrees (cfg : Config) (state : Int) (l : Loop) : Prop :=
  match l.found with
  | .keptBlank => ¬ (cfg.arch = .I386 ∧ state = 2)
  | .char true ch =>
    if cfg.flagSeen = true ∧ (state = 9 ∨ state = 10) then isSymbol cfg ch = true
    else SwitchAgrees cfg l.scrub.state ch
  | .char false ch => SwitchAgrees cfg state ch
  | _ => True

def hasOwnLoop (state : Int) : Prop :=
  state = -1 ∨ state = -2 ∨ state = 4 ∨ state = 5 ∨ state = 7 ∨ state = 8

instance (state : Int) : Decidable (hasOwnLoop state) := inferInstanceAs (Decidable (_ ∨ _))

def CallAgrees (cfg : Config) (s : Scrub) (input : List UInt8) : Prop :=
  if s.state = 6 then input.head? ≠ some 39
  else if hasOwnLoop s.state then True
  else ∀ l, flushchar forFiles cfg (input.length + 1) s input [] = some l → LoopAgrees cfg s.state l

section Call
variable {cfg : Config} {s t : Scrub} {input : List UInt8} {warnings : List Warning} {ch : Int}

theorem keepBlank_collapse_iff (hkeep : t.state = 0 ∨ t.state = 2) :
    forStrings.keepBlank cfg t.collapse = (forFiles.keepBlank cfg t).collapse ↔
      ¬ (cfg.arch = .I386 ∧ t.state = 2) := by
  have hcollapse : late t.state = t.state := if_neg (by omega)
  have hstrings : forStrings.keepBlank cfg t.collapse =
      { t.collapse with state := late t.state + 1 } := rfl
  have hfiles : forFiles.keepBlank cfg t =
      if cfg.arch = .I386 ∧ t.state = 2 then
        if t.substate = 0 then { t with substate := 1 } else { t with substate := 0, state := 3 }
      else { t with state := t.state + 1 } := rfl
  rw [hstrings, hfiles, hcollapse]
  by_cases hcount : cfg.arch = .I386 ∧ t.state = 2
  · rw [if_pos hcount]
    refine iff_of_false ?_ (not_not.mpr hcount)
    intro heq
    split at heq
    case isTrue =>
      have hstate : t.state + 1 = late t.state := congrArg Scrub.state heq
      omega
    case isFalse hne =>
      have hsubstate : t.substate = 0 := congrArg Scrub.substate heq
      exact hne hsubstate
  · rw [if_neg hcount]
    refine iff_of_true ?_ hcount
    have hnext : late (t.state + 1) = t.state + 1 := if_neg (by omega)
    exact congrArg (fun state => ({ t.collapse with state := state } : Scrub)) hnext.symm

theorem symbol_isMisc (hch : 0 ≤ ch) (h : isSymbol cfg ch = true) : isMisc cfg ch := by
  have hlex : isSymbol cfg ch = symbol_chars.contains ch := by
    unfold isSymbol lex
    rw [if_neg (by omega)]
  rw [hlex] at h
  refine ⟨?_, ?_, ?_, ?_, ?_, ?_⟩
  · rintro rfl
    cases h
  · rintro rfl
    cases h
  · rintro rfl
    cases h
  · rintro rfl
    cases h
  · rintro rfl
    split at h
    · cases h
    · cases h
  · rintro rfl
    cases h

theorem comment_ch (c : Copy) : (comment c cfg s ch input warnings).ch = ch ∨
    (comment c cfg s ch input warnings).ch = code '\n' ∨
    (comment c cfg s ch input warnings).ch = code '.' := by
  unfold comment
  generalize readPast c (isWhitespace cfg) input = got
  dsimp only
  split
  · split
    · exact Or.inr (Or.inl rfl)
    split
    · exact Or.inr (Or.inr rfl)
    · exact Or.inr (Or.inl rfl)
  · split
    · exact Or.inr (Or.inl rfl)
    split
    · exact Or.inl rfl
    · exact Or.inl rfl

theorem switch_ch (h : ¬ (isSymbol cfg ch = true ∧ s.state = 10)) :
    (switch forFiles cfg s ch input warnings).ch = ch ∨
    (switch forFiles cfg s ch input warnings).ch = code '\n' ∨
    (switch forFiles cfg s ch input warnings).ch = code '.' ∨
    (switch forFiles cfg s ch input warnings).ch = code '(' := by
  unfold switch
  generalize (if cfg.arch.atSeparates then code '@' else code ';') = sep
  split
  case isTrue hquote => exact Or.inl hquote.symm
  case isFalse =>
    split
    case isTrue happos =>
      split
      · exact Or.inl happos.symm
      · exact Or.inr (Or.inr (Or.inr rfl))
    case isFalse =>
      split
      · exact Or.inl rfl
      split
      · exact Or.inl rfl
      split
      · exact Or.inl rfl
      split
      case isTrue hend => exact Or.inl hend.symm
      case isFalse =>
        obtain ⟨t, _, hcomment⟩ := deal_misc_comment h
        rw [hcomment]
        rcases comment_ch forFiles (s := t) with hch | hch | hch
        · exact Or.inl hch
        · exact Or.inr (Or.inl hch)
        · exact Or.inr (Or.inr (Or.inl hch))

theorem dropBlank_ten (h : t.state = 9 ∨ t.state = 10) :
    (forFiles.dropBlank t).state = 10 ∧ (forFiles.dropBlank t).collapse = t.collapse := by
  have hdrop : forFiles.dropBlank t = if t.state = 9 then { t with state := 10 } else t := rfl
  rw [hdrop]
  split
  case isTrue hnine =>
    refine ⟨rfl, collapse_set ?_⟩
    rw [hnine]
    rfl
  case isFalse hnot => exact ⟨h.resolve_left hnot, rfl⟩

theorem dropBlank_collapse : (forFiles.dropBlank t).collapse = t.collapse := by
  by_cases h : t.state = 9 ∨ t.state = 10
  · exact (dropBlank_ten h).2
  have hdrop : forFiles.dropBlank t = t := if_neg fun hnine => h (Or.inl hnine)
  rw [hdrop]

theorem collapse_three (h : t.state = 10) : ({ t with state := 3 } : Scrub).collapse = t.collapse := by
  apply collapse_set
  rw [h]
  rfl

theorem ungetc_value {b : UInt8} {rest : List UInt8} (hb : b < 128) :
    forFiles.ungetc (forFiles.value b) rest = b :: rest := by
  have hlt : b.toNat < 128 := hb
  have hvalue : forFiles.value b = (b.toNat : Int) := rfl
  have hnat : (forFiles.value b % 256).toNat = b.toNat := by omega
  have hungetc : forFiles.ungetc (forFiles.value b) rest = if forFiles.value b = EOF then rest
      else UInt8.ofNat (forFiles.value b % 256).toNat :: rest := rfl
  rw [hungetc, if_neg (value_ne_EOF hb), hnat, UInt8.ofNat_toNat]

/-- The copy for files puts out the blank of `flagseen['p']` only before a symbol. -/
theorem flagged_collapse_iff {b : UInt8} {rest : List UInt8} (hlate : t.state = 9 ∨ t.state = 10)
    (hblank : forFiles.value b ≠ code ' ') (h : Ascii (b :: rest)) :
    (⟨code ' ', t.collapse, b :: rest, warnings⟩ : Called) =
      (switch forFiles cfg (forFiles.dropBlank t) (forFiles.value b) rest warnings).collapse ↔
        isSymbol cfg (forFiles.value b) = true := by
  have hrange := value_ascii (h b List.mem_cons_self)
  obtain ⟨hten, hcollapse⟩ := dropBlank_ten hlate
  by_cases hsymbol : isSymbol cfg (forFiles.value b) = true
  · refine iff_of_true ?_ hsymbol
    rw [switch_misc _ _ (symbol_isMisc hrange.1 hsymbol), deal_misc_after_blank hsymbol hten]
    rw [ungetc_value (h b List.mem_cons_self), ← hcollapse, ← collapse_three hten]
    rfl
  refine iff_of_false ?_ hsymbol
  intro heq
  have hch : code ' ' =
    (switch forFiles cfg (forFiles.dropBlank t) (forFiles.value b) rest warnings).ch :=
      congrArg Called.ch heq
  rcases switch_ch (fun hboth => hsymbol hboth.1) with hsame | hsame | hsame | hsame
  · exact hblank (hch.trans hsame).symm
  all_goals
    rw [hsame] at hch
    cases hch

theorem afterLoop_collapse_iff {l l' : Loop} (h : SameLoop cfg s l l') :
    afterLoop forStrings cfg l = (afterLoop forFiles cfg l').collapse ↔ LoopAgrees cfg s.state l' := by
  cases h with
  | @other f t input warnings hkept hblanks hstate hold hread hascii =>
    unfold afterLoop LoopAgrees
    cases f with
    | eof => exact iff_of_true rfl trivial
    | blank => exact iff_of_true rfl trivial
    | slash => exact iff_of_true rfl trivial
    | keptBlank => exact absurd rfl hkept
    | char a ch =>
      cases a with
      | true => exact absurd rfl (hblanks ch)
      | false =>
        rw [← hstate]
        exact switch_collapse_iff hascii
  | @keptBlank t input warnings hstate hkeep hascii =>
    unfold afterLoop LoopAgrees
    rw [← hstate] at hkeep ⊢
    rw [← keepBlank_collapse_iff hkeep]
    constructor
    · exact fun heq => congrArg Called.scrub heq
    · exact fun heq => congrArg (fun t => (⟨code ' ', t, input, warnings⟩ : Called)) heq
  | @dropped t b rest warnings hstate hflag hascii =>
    have hnot : ¬ (cfg.flagSeen = true ∧ (s.state = 9 ∨ s.state = 10)) :=
      fun hboth => hflag ⟨hboth.1, late_eq_three.mpr (Or.inr hboth.2)⟩
    unfold afterLoop LoopAgrees
    dsimp only
    rw [if_neg hnot, ← dropBlank_collapse]
    exact switch_collapse_iff hascii.tail
  | @flagged t b rest warnings hstate hflag hlate hblank hascii =>
    unfold afterLoop LoopAgrees
    dsimp only
    rw [if_pos ⟨hflag, hlate⟩]
    rw [← hstate] at hlate
    exact flagged_collapse_iff hlate hblank hascii

theorem escapes_same (h : ch ≠ code '\'') :
    forStrings.escapes.contains ch = forFiles.escapes.contains ch := by
  have hfiles : forFiles.escapes = code '\'' :: forStrings.escapes := rfl
  rw [hfiles, List.contains_cons]
  simp [h]

theorem inEscape_collapse_iff (h : Ascii input) :
    inEscape forStrings s.collapse input = (inEscape forFiles s input).collapse ↔
      input.head? ≠ some 39 := by
  have hnewline : code 'n' ≠ EOF := by decide
  cases input with
  | nil => exact iff_of_true rfl (by simp)
  | cons b rest =>
    unfold inEscape
    rw [getc_same h]
    dsimp only [getc]
    by_cases hquote : b = 39
    · subst hquote
      refine iff_of_false ?_ (by simp)
      intro heq
      have hwarnings := congrArg Called.warnings heq
      cases hwarnings
    have hne : forFiles.value b ≠ code '\'' := by
      intro heq
      have hvalue : (b.toNat : Int) = 39 := heq
      have hnat : b.toNat = 39 := by omega
      exact hquote (UInt8.toNat_inj.mp hnat)
    refine iff_of_true ?_ (by simpa using hquote)
    rw [escapes_same hne]
    split
    · rfl
    split
    · rfl
    split
    · rfl
    · rfl

theorem scrubNextChar_flush (c : Copy) (hsix : s.state ≠ 6) (hown : ¬ hasOwnLoop s.state) :
    scrubNextChar c cfg s input =
      (flushchar c cfg (input.length + 1) s input []).map (afterLoop c cfg) := by
  unfold hasOwnLoop at hown
  simp only [not_or] at hown
  obtain ⟨h1, h2, h4, h5, h7, h8⟩ := hown
  unfold scrubNextChar
  rw [if_neg h1, if_neg h2, if_neg h4, if_neg h5, if_neg hsix, if_neg h7, if_neg h8]

theorem scrubNextChar_escape (c : Copy) (hsix : s.state = 6) :
    scrubNextChar c cfg s input = some (inEscape c s input) := by
  unfold scrubNextChar
  rw [hsix]
  rfl

theorem late_of_own (h : hasOwnLoop s.state) : s.collapse.state = s.state := by
  have hstate : s.collapse.state = late s.state := rfl
  apply if_neg
  unfold hasOwnLoop at h
  omega

theorem scrubNextChar_own (h : Ascii input) (hown : hasOwnLoop s.state) :
    scrubNextChar forStrings cfg s.collapse input =
      (scrubNextChar forFiles cfg s input).map Called.collapse := by
  unfold scrubNextChar
  rw [outString_collapse, flushText_collapse h, lineNumber_collapse h, inString_collapse h,
    fileName_collapse h, flushLine_collapse h, late_of_own hown]
  rcases hown with hstate | hstate | hstate | hstate | hstate | hstate
  all_goals
    rw [hstate]
    rfl

/-- The copies do the same in a call exactly when it comes to none of the places where they
differ. -/
theorem scrubNextChar_collapse_iff (h : Ascii input) :
    do_scrub_next_char_from_string cfg s.collapse input =
      (do_scrub_next_char cfg s input).map Called.collapse ↔ CallAgrees cfg s input := by
  unfold do_scrub_next_char_from_string do_scrub_next_char CallAgrees
  have hcollapse : s.collapse.state = late s.state := rfl
  by_cases hsix : s.state = 6
  · have hsix' : s.collapse.state = 6 := by
      rw [hcollapse, hsix]
      rfl
    rw [if_pos hsix, scrubNextChar_escape _ hsix, scrubNextChar_escape _ hsix', Option.map_some,
      Option.some.injEq]
    exact inEscape_collapse_iff h
  · rw [if_neg hsix]
    by_cases hown : hasOwnLoop s.state
    · rw [if_pos hown]
      exact iff_of_true (scrubNextChar_own h hown) trivial
    have hsix' : s.collapse.state ≠ 6 := by
      rw [hcollapse, Ne, late_eq_iff (by decide) (by decide) (by decide)]
      exact hsix
    have hown' : ¬ hasOwnLoop s.collapse.state := by
      rw [hcollapse]
      unfold late
      split
      · decide
      · exact hown
    rw [if_neg hown, scrubNextChar_flush _ hsix hown, scrubNextChar_flush _ hsix' hown']
    rcases flushchar_same h rfl rfl (input.length + 1) with ⟨hs, hs'⟩ | ⟨l, l', hs, hs', hsame⟩
    · rw [hs, hs']
      refine iff_of_true rfl ?_
      intro l hl
      cases hl
    rw [hs, hs', Option.map_some, Option.map_some, Option.map_some, Option.some.injEq,
      afterLoop_collapse_iff hsame]
    constructor
    · intro hagrees l'' hl
      cases hl
      exact hagrees
    · exact fun hall => hall l' rfl

end Call

section Rest
variable {cfg : Config} {s : Scrub} {input : List UInt8} {warnings : List Warning} {ch : Int}

theorem flushText_ascii (h : Ascii input) : Ascii (flushText forFiles s input).input := by
  induction input with
  | nil => exact h
  | cons b rest ih =>
    unfold flushText
    split
    · split
      · exact h.tail
      split
      · exact h.tail.tail
      · exact ih h.tail
    · split
      · exact h.tail
      · exact ih h.tail

theorem comment_ascii (h : Ascii input) : Ascii (comment forFiles cfg s ch input warnings).input := by
  have hline : Ascii (readPast forFiles (· ≠ code '\n') input).2 := (readPast_ascii h).1
  have hread := readPast_ascii h (p := isWhitespace cfg)
  unfold comment
  generalize readPast forFiles (isWhitespace cfg) input = got at hread
  obtain ⟨first, rest⟩ := got
  dsimp only at *
  have hlater : Ascii (readPast forFiles (· ≠ code '\n') rest).2 := (readPast_ascii hread.1).1
  split
  · split
    · exact hread.1
    split
    · exact ungetc_ascii hread.2 hread.1
    split
    · exact hlater
    · exact hread.1
  · split
    · exact hline
    split
    · exact h
    · exact h

theorem deal_misc_ascii (hch : IsRead ch) (h : Ascii input) :
    Ascii (deal_misc forFiles cfg s ch input warnings).input := by
  unfold deal_misc
  split
  · exact ungetc_ascii hch h
  · exact comment_ascii h

theorem switch_ascii (hch : IsRead ch) (h : Ascii input) :
    Ascii (switch forFiles cfg s ch input warnings).input := by
  have hget := (getc_ascii h).1
  unfold switch
  generalize (if cfg.arch.atSeparates then code '@' else code ';') = sep
  split
  · exact h
  split
  · split
    · exact h
    · exact hget
  split
  · exact h
  split
  · exact ungetc_ascii hch h
  split
  · exact h
  split
  · exact h
  · exact deal_misc_ascii hch h

theorem lineNumber_ascii (h : Ascii input) : Ascii (lineNumber forFiles cfg s input).input := by
  have hget := (getc_ascii h).1
  have hread := readPast_ascii h (p := isWhitespace cfg)
  unfold lineNumber
  generalize readPast forFiles (isWhitespace cfg) input = got at hread
  obtain ⟨first, rest⟩ := got
  dsimp only at *
  have hlater : Ascii (readPast forFiles (· ≠ code '\n') rest).2 := (readPast_ascii hread.1).1
  split
  · exact hget
  split
  · exact ungetc_ascii hread.2 hread.1
  split
  · exact hlater
  · exact hread.1

theorem inString_ascii (h : Ascii input) : Ascii (inString forFiles cfg s input).input := by
  have hget := (getc_ascii h).1
  have hnewline : IsRead (code '\n') := Or.inr (by decide)
  unfold inString
  dsimp only
  split
  · exact hget
  split
  · exact hget
  split
  · exact hget
  split
  · exact ungetc_ascii hnewline hget
  · exact hget

theorem inEscape_ascii (h : Ascii input) : Ascii (inEscape forFiles s input).input := by
  have hget := (getc_ascii h).1
  have hn : IsRead (code 'n') := Or.inr (by decide)
  unfold inEscape
  dsimp only
  split
  · exact ungetc_ascii hn hget
  split
  · exact hget
  split
  · exact hget
  · exact hget

theorem flushLine_ascii (h : Ascii input) {r : Called} (hr : flushLine forFiles s input = some r) :
    Ascii r.input := by
  induction input with
  | nil => cases hr
  | cons b rest ih =>
    unfold flushLine at hr
    split at hr
    · cases hr
      exact h.tail
    · exact ih h.tail hr

theorem outString_input {r : Called} (hr : outString s input = some r) : r.input = input := by
  unfold outString at hr
  split at hr
  · cases hr
  · cases hr
    rfl
  cases hr
  rfl

theorem afterLoop_ascii {l l' : Loop} (h : SameLoop cfg s l l') :
    Ascii (afterLoop forFiles cfg l').input := by
  cases h with
  | @other f t input warnings hkept hblanks hstate hold hread hascii =>
    cases f with
    | eof => exact hascii
    | blank => exact hascii
    | slash => exact hascii
    | keptBlank => exact hascii
    | char a ch => exact switch_ascii (hread a ch rfl) hascii
  | keptBlank hstate hkeep hascii => exact hascii
  | @dropped t b rest warnings hstate hflag hascii =>
    exact switch_ascii (Or.inr (value_ascii (hascii b List.mem_cons_self))) hascii.tail
  | @flagged t b rest warnings hstate hflag hlate hblank hascii =>
    exact switch_ascii (Or.inr (value_ascii (hascii b List.mem_cons_self))) hascii.tail

theorem called_ascii (h : Ascii input) {r : Called} (hr : do_scrub_next_char cfg s input = some r) :
    Ascii r.input := by
  unfold do_scrub_next_char scrubNextChar at hr
  split at hr
  · rw [outString_input hr]
    exact h
  split at hr
  · cases hr
    exact flushText_ascii h
  split at hr
  · cases hr
    exact lineNumber_ascii h
  split at hr
  · cases hr
    exact inString_ascii h
  split at hr
  · cases hr
    exact inEscape_ascii h
  split at hr
  · cases hr
    exact (getc_ascii h).1
  split at hr
  · exact flushLine_ascii h hr
  rcases flushchar_same h rfl rfl (input.length + 1) with ⟨_, hnone⟩ | ⟨l, l', _, hl, hsame⟩
  · rw [hnone] at hr
    cases hr
  rw [hl] at hr
  cases hr
  exact afterLoop_ascii hsame

end Rest
end Toolwhip.As
