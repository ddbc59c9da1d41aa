import Toolwhip.As.Scrub

/-! # Where the two scrubbers agree

The copy for strings does not have the states 9 and 10, which stand for state 3 after a
symbol. Up to that the copies do the same in a call on ASCII text, except at the places
that were patched in one of them. -/

namespace Toolwhip.As
open List
set_option autoImplicit false

def Ascii (input : List UInt8) : Prop := ∀ b ∈ input, b < 128

def IsRead (ch : Int) : Prop := ch = EOF ∨ 0 ≤ ch ∧ ch < 128

section Reading
variable {b : UInt8} {input rest : List UInt8} {p : Int → Bool} {ch : Int}

theorem Ascii.tail (h : Ascii (b :: rest)) : Ascii rest := by
  intro x hx
  exact h x (mem_cons_of_mem _ hx)

theorem Ascii.cons (hb : b < 128) (h : Ascii rest) : Ascii (b :: rest) := by
  intro x hx
  rcases List.mem_cons.mp hx with rfl | hx
  · exact hb
  · exact h x hx

theorem value_strings (hb : b < 128) : forStrings.value b = forFiles.value b := by
  have hlt : b.toNat < 128 := hb
  show b.toInt8.toInt = (b.toNat : Int)
  have hint : b.toInt8.toInt = b.toBitVec.toInt := rfl
  have hnat : b.toBitVec.toNat = b.toNat := rfl
  rw [hint, BitVec.toInt_eq_toNat_cond, hnat]
  omega

theorem value_ascii (hb : b < 128) : 0 ≤ forFiles.value b ∧ forFiles.value b < 128 := by
  have hlt : b.toNat < 128 := hb
  have hvalue : forFiles.value b = (b.toNat : Int) := rfl
  omega

theorem value_ne_EOF (hb : b < 128) : forFiles.value b ≠ EOF := by
  have hrange := value_ascii hb
  unfold EOF
  omega

theorem ungetc_same (h : ch ≠ EOF) : forStrings.ungetc ch input = forFiles.ungetc ch input :=
  (if_neg h).symm

theorem ungetc_ascii (hch : IsRead ch) (h : Ascii input) : Ascii (forFiles.ungetc ch input) := by
  have hdef : forFiles.ungetc ch input =
      if ch = EOF then input else UInt8.ofNat (ch % 256).toNat :: input := rfl
  rw [hdef]
  split
  case isTrue => exact h
  case isFalse hne =>
    apply Ascii.cons _ h
    have hrange : 0 ≤ ch ∧ ch < 128 := hch.resolve_left hne
    have hnat : (ch % 256).toNat < 128 := by omega
    have hbyte : (UInt8.ofNat (ch % 256).toNat).toNat < 128 := by
      rw [UInt8.toNat_ofNat_of_lt' (by show (ch % 256).toNat < 256; omega)]
      exact hnat
    exact hbyte

theorem getc_same (h : Ascii input) : getc forStrings input = getc forFiles input := by
  cases input with
  | nil => rfl
  | cons b rest =>
    unfold getc
    simp only [value_strings (h b mem_cons_self)]

theorem getc_ascii (h : Ascii input) :
    Ascii (getc forFiles input).2 ∧ IsRead (getc forFiles input).1 := by
  cases input with
  | nil => exact ⟨h, Or.inl rfl⟩
  | cons b rest => exact ⟨h.tail, Or.inr (value_ascii (h b mem_cons_self))⟩

theorem readPast_same (h : Ascii input) : readPast forStrings p input = readPast forFiles p input := by
  induction input with
  | nil => rfl
  | cons b rest ih =>
    unfold readPast
    rw [value_strings (h b mem_cons_self), ih h.tail]

theorem readPast_ascii (h : Ascii input) :
    Ascii (readPast forFiles p input).2 ∧ IsRead (readPast forFiles p input).1 := by
  induction input with
  | nil => exact ⟨h, Or.inl rfl⟩
  | cons b rest ih =>
    unfold readPast
    split
    case isTrue => exact ih h.tail
    case isFalse => exact ⟨h.tail, Or.inr (value_ascii (h b mem_cons_self))⟩

theorem skipPast_same (h : Ascii input) : skipPast forStrings p input = skipPast forFiles p input := by
  induction input with
  | nil => rfl
  | cons b rest ih =>
    unfold skipPast
    rw [value_strings (h b mem_cons_self), ih h.tail]

theorem skipPast_ascii (h : Ascii input) : Ascii (skipPast forFiles p input) := by
  induction input with
  | nil => exact h
  | cons b rest ih =>
    unfold skipPast
    split
    case isTrue => exact ih h.tail
    case isFalse => exact h

end Reading

/-! ## The states of the copy for strings -/

def late (state : Int) : Int := if state = 9 ∨ state = 10 then 3 else state

def Scrub.collapse (s : Scrub) : Scrub :=
  { s with state := late s.state, old_state := late s.old_state }

def Called.collapse (r : Called) : Called := { r with scrub := r.scrub.collapse }

theorem late_eq_iff {state k : Int} (h3 : k ≠ 3) (h9 : k ≠ 9) (h10 : k ≠ 10) :
    late state = k ↔ state = k := by
  unfold late
  split
  · omega
  · exact Iff.rfl

theorem late_eq_three {state : Int} : late state = 3 ↔ state = 3 ∨ state = 9 ∨ state = 10 := by
  unfold late
  split
  · omega
  · omega

section States
variable {cfg : Config} {s : Scrub} {input : List UInt8}

theorem outString_collapse : outString s.collapse input = (outString s input).map Called.collapse := by
  have hout : s.collapse.out_string = s.out_string := rfl
  unfold outString
  rw [hout]
  rcases s.out_string with _ | ⟨ch, _ | ⟨ch', rest⟩⟩
  · rfl
  · rfl
  · rfl

theorem flushText_collapse (h : Ascii input) :
    flushText forStrings s.collapse input = (flushText forFiles s input).collapse := by
  induction input with
  | nil => rfl
  | cons b rest ih =>
    have hb := value_strings (h b mem_cons_self)
    have hrest := ih h.tail
    unfold flushText
    rw [hb]
    split
    · cases rest with
      | nil => rfl
      | cons b' rest' =>
        have hb' := value_strings (h.tail b' mem_cons_self)
        dsimp only
        rw [hb']
        split
        · rfl
        · exact hrest
    · split
      · rfl
      · exact hrest

theorem lineNumber_collapse (h : Ascii input) :
    lineNumber forStrings cfg s.collapse input = (lineNumber forFiles cfg s input).collapse := by
  have hread := (readPast_ascii h (p := isWhitespace cfg)).1
  unfold lineNumber
  rw [getc_same h, readPast_same h]
  generalize getc forFiles input = first
  generalize readPast forFiles (isWhitespace cfg) input = got at hread
  dsimp only
  split
  · rfl
  split
  · rename_i hquote
    have hne : code '"' ≠ EOF := by decide
    rw [hquote, ungetc_same hne]
    rfl
  · rw [readPast_same hread]
    rfl

theorem inString_collapse (h : Ascii input) :
    inString forStrings cfg s.collapse input = (inString forFiles cfg s input).collapse := by
  have hnewline : code '\n' ≠ EOF := by decide
  unfold inString
  rw [getc_same h]
  generalize getc forFiles input = got
  dsimp only
  split
  · rfl
  split
  · rfl
  split
  · rfl
  split
  · rfl
  · rfl

theorem fileName_collapse (h : Ascii input) :
    fileName forStrings s.collapse input = (fileName forFiles s input).collapse := by
  unfold fileName
  rw [getc_same h]
  rfl

theorem flushLine_collapse (h : Ascii input) :
    flushLine forStrings s.collapse input = (flushLine forFiles s input).map Called.collapse := by
  induction input with
  | nil => rfl
  | cons b rest ih =>
    unfold flushLine
    rw [value_strings (h b mem_cons_self)]
    split
    · rfl
    · exact ih h.tail

end States

section Loop
variable {cfg : Config} {s : Scrub} {input : List UInt8} {warnings : List Warning}

theorem blockComment_same (h : Ascii input) (n : Int) :
    blockComment forStrings input n = blockComment forFiles input n := by
  induction input generalizing n with
  | nil => rfl
  | cons b rest ih =>
    have hb := value_strings (h b mem_cons_self)
    cases rest with
    | nil =>
      unfold blockComment
      simp only [hb, ih h.tail]
    | cons b' rest' =>
      have hb' := value_strings (h.tail b' mem_cons_self)
      unfold blockComment
      simp only [hb, hb', ih h.tail]

theorem blockComment_ascii (h : Ascii input) (n : Int) :
    Ascii (blockComment forFiles input n).2.1 := by
  induction input generalizing n with
  | nil => exact h
  | cons b rest ih =>
    unfold blockComment
    generalize (if forFiles.value b = code '\n' then n + 1 else n) = newlines
    split
    · split
      · exact h.tail
      split
      · exact h.tail.tail
      split
      · exact h.tail.tail
      · exact ih h.tail _
    · exact ih h.tail _

theorem skipPast_head (c : Copy) {p : Int → Bool} {b : UInt8} {rest : List UInt8}
    (h : skipPast c p input = b :: rest) : ¬ (c.value b ≠ EOF ∧ p (c.value b) = true) := by
  induction input with
  | nil => cases h
  | cons b' rest' ih =>
    unfold skipPast at h
    split at h
    case isTrue => exact ih h
    case isFalse hstop =>
      cases h
      exact hstop

theorem slash_not_comment :
    ¬ ((lex cfg (code '/')).comment = true ∨ s.state = 0 ∧ (lex cfg (code '/')).lineComment = true) := by
  obtain ⟨arch, flag_p, beforeLex⟩ := cfg
  have hcomment : (lex ⟨arch, flag_p, beforeLex⟩ (code '/')).comment = false := by
    cases arch
    all_goals rfl
  have hline : (lex ⟨arch, flag_p, beforeLex⟩ (code '/')).lineComment = false := by
    cases arch
    all_goals rfl
  simp [hcomment, hline]

def Look.Ascii : Look → Prop
  | .found f input _ =>
    f ≠ .keptBlank ∧ (∀ a ch, f = .char a ch → a = false ∧ IsRead ch) ∧ As.Ascii input
  | .blanks b rest => forFiles.value b ≠ code ' ' ∧ As.Ascii (b :: rest)
  | .again input _ _ => As.Ascii input

theorem look_ascii (h : Ascii input) : (look forFiles cfg s input warnings).Ascii := by
  unfold look
  have hfirst := getc_ascii h
  generalize getc forFiles input = got at hfirst
  obtain ⟨ch, rest⟩ := got
  dsimp only at *
  split
  case isTrue =>
    have hskipped : Ascii (skipPast forFiles (isWhitespace cfg) rest) := skipPast_ascii hfirst.1
    cases hskip : skipPast forFiles (isWhitespace cfg) rest with
    | nil =>
      rw [hskip] at hskipped
      exact ⟨Flushed.noConfusion, fun _ _ => Flushed.noConfusion, hskipped⟩
    | cons b rest =>
      rw [hskip] at hskipped
      dsimp only
      split
      · exact ⟨Flushed.noConfusion, fun _ _ => Flushed.noConfusion, hskipped.tail⟩
      split
      · exact hskipped
      refine ⟨?_, hskipped⟩
      intro hblank
      apply skipPast_head forFiles hskip
      rw [hblank]
      exact ⟨by decide, rfl⟩
  case isFalse =>
    split
    case isFalse =>
      refine ⟨Flushed.noConfusion, ?_, hfirst.1⟩
      intro a ch' heq
      cases heq
      exact ⟨rfl, hfirst.2⟩
    case isTrue =>
      have hsecond := getc_ascii hfirst.1
      generalize getc forFiles rest = got at hsecond
      obtain ⟨ch', rest'⟩ := got
      split
      case isTrue => exact ungetc_ascii (Or.inr (by decide)) (blockComment_ascii hsecond.1 _)
      case isFalse =>
        split
        case isTrue =>
          have hread : Ascii (readPast forFiles (· ≠ code '\n') rest').2 ∧ _ :=
            readPast_ascii hsecond.1
          split
          · exact hread.1
          · exact ungetc_ascii hread.2 hread.1
        case isFalse =>
          rw [if_neg slash_not_comment]
          refine ⟨Flushed.noConfusion, fun _ _ => Flushed.noConfusion, ?_⟩
          split
          · exact ungetc_ascii hsecond.2 hsecond.1
          · exact hsecond.1

theorem collapse_zero : s.collapse.state = 0 ↔ s.state = 0 :=
  late_eq_iff (by decide) (by decide) (by decide)

theorem collapse_one : s.collapse.state = 1 ↔ s.state = 1 :=
  late_eq_iff (by decide) (by decide) (by decide)

theorem collapse_two : s.collapse.state = 2 ↔ s.state = 2 :=
  late_eq_iff (by decide) (by decide) (by decide)

/-- One round reads the same, and looks at the state only to see whether it is 0. -/
theorem look_same (h : Ascii input) : look forStrings cfg s.collapse input warnings =
    look forFiles cfg s input warnings := by
  have hfirst := getc_ascii h
  have hnewlines : s.collapse.add_newlines = s.add_newlines := rfl
  unfold look
  rw [getc_same h, hnewlines]
  generalize getc forFiles input = got at hfirst
  obtain ⟨ch, rest⟩ := got
  dsimp only at *
  have hrest : Ascii rest := hfirst.1
  split
  case isTrue =>
    rw [skipPast_same hrest]
    have hskipped : Ascii (skipPast forFiles (isWhitespace cfg) rest) := skipPast_ascii hrest
    generalize skipPast forFiles (isWhitespace cfg) rest = skipped at hskipped
    cases skipped with
    | nil => rfl
    | cons b rest =>
      have hforgets : forgetsBlanks cfg s.collapse.state = forgetsBlanks cfg s.state := by
        unfold forgetsBlanks
        simp only [collapse_zero]
      simp only [value_strings (hskipped b mem_cons_self), hforgets]
  case isFalse =>
    split
    case isFalse => rfl
    case isTrue =>
      have hsecond := getc_ascii hrest
      rw [getc_same hrest]
      generalize getc forFiles rest = got at hsecond
      obtain ⟨ch', rest'⟩ := got
      split
      case isTrue =>
        have hblank : code ' ' ≠ EOF := by decide
        simp only [blockComment_same hsecond.1, ungetc_same hblank]
      case isFalse =>
        rw [if_neg slash_not_comment, if_neg slash_not_comment, readPast_same hsecond.1]
        split
        case isTrue =>
          split
          case isTrue => rfl
          case isFalse hne => rw [ungetc_same hne]
        case isFalse =>
          split
          case isTrue hne => rw [ungetc_same hne]
          case isFalse => rfl

/-- The loops of the two copies, the one for files started in `s`. -/
inductive SameLoop (cfg : Config) (s : Scrub) : Loop → Loop → Prop
  | other {f : Flushed} {t : Scrub} {input : List UInt8} {warnings : List Warning}
      (hkept : f ≠ .keptBlank) (hblanks : ∀ ch, f ≠ .char true ch) (hstate : t.state = s.state)
      (hold : t.old_state = s.old_state) (hread : ∀ a ch, f = .char a ch → IsRead ch)
      (hascii : Ascii input) :
      SameLoop cfg s ⟨f, t.collapse, input, warnings⟩ ⟨f, t, input, warnings⟩
  | keptBlank {t : Scrub} {input : List UInt8} {warnings : List Warning}
      (hstate : t.state = s.state) (hkeep : s.state = 0 ∨ s.state = 2) (hascii : Ascii input) :
      SameLoop cfg s ⟨.keptBlank, forStrings.keepBlank cfg t.collapse, input, warnings⟩
        ⟨.keptBlank, forFiles.keepBlank cfg t, input, warnings⟩
  /-- the blanks are not put out -/
  | dropped {t : Scrub} {b : UInt8} {rest : List UInt8} {warnings : List Warning}
      (hstate : t.state = s.state) (hflag : ¬ (cfg.flagSeen = true ∧ late s.state = 3))
      (hascii : Ascii (b :: rest)) :
      SameLoop cfg s ⟨.char true (forFiles.value b), t.collapse, rest, warnings⟩
        ⟨.char true (forFiles.value b), forFiles.dropBlank t, rest, warnings⟩
  /-- the copy for strings puts out a blank for `flagseen['p']`, the other one does not yet -/
  | flagged {t : Scrub} {b : UInt8} {rest : List UInt8} {warnings : List Warning}
      (hstate : t.state = s.state) (hflag : cfg.flagSeen = true) (hlate : s.state = 9 ∨ s.state = 10)
      (hblank : forFiles.value b ≠ code ' ') (hascii : Ascii (b :: rest)) :
      SameLoop cfg s ⟨.blank, t.collapse, b :: rest, warnings⟩
        ⟨.char true (forFiles.value b), forFiles.dropBlank t, rest, warnings⟩

theorem flushchar_same (h : Ascii input) {t : Scrub} (hstate : t.state = s.state)
    (hold : t.old_state = s.old_state) (fuel : Nat) :
    (flushchar forStrings cfg fuel t.collapse input warnings = none ∧
      flushchar forFiles cfg fuel t input warnings = none) ∨
    ∃ l l', flushchar forStrings cfg fuel t.collapse input warnings = some l ∧
      flushchar forFiles cfg fuel t input warnings = some l' ∧ SameLoop cfg s l l' := by
  induction fuel generalizing t input warnings with
  | zero => exact Or.inl ⟨rfl, rfl⟩
  | succ fuel ih =>
    have hascii : (look forFiles cfg t input warnings).Ascii := look_ascii h
    unfold flushchar
    rw [look_same h]
    generalize look forFiles cfg t input warnings = round at hascii
    cases round with
    | found f input warnings =>
      obtain ⟨hkept, hread, hinput⟩ := hascii
      apply Or.inr
      refine ⟨_, _, rfl, rfl,
        SameLoop.other hkept ?_ hstate hold (fun a ch hf => (hread a ch hf).2) hinput⟩
      intro ch hf
      cases (hread true ch hf).1
    | again input n warnings => exact ih (t := { t with add_newlines := n }) hascii hstate hold
    | blanks b rest =>
      obtain ⟨hblank, hrest⟩ := hascii
      have hthree : t.collapse.state = 3 ↔ s.state = 3 ∨ s.state = 9 ∨ s.state = 10 := by
        rw [← hstate]
        exact late_eq_three
      simp only [collapse_zero, collapse_two, hthree, hstate]
      apply Or.inr
      by_cases hkeep : s.state = 0 ∨ s.state = 2
      · rw [if_pos hkeep, if_pos hkeep]
        exact ⟨_, _, rfl, rfl, SameLoop.keptBlank hstate hkeep hrest⟩
      rw [if_neg hkeep, if_neg hkeep, value_strings (hrest b mem_cons_self)]
      by_cases hflag : cfg.flagSeen = true
      · by_cases hlate : s.state = 9 ∨ s.state = 10
        · have hnot : ¬ s.state = 3 := by omega
          rw [if_pos ⟨hflag, Or.inr hlate⟩, if_neg fun hboth => hnot hboth.2]
          exact ⟨_, _, rfl, rfl, SameLoop.flagged hstate hflag hlate hblank hrest⟩
        by_cases hnow : s.state = 3
        · rw [if_pos ⟨hflag, Or.inl hnow⟩, if_pos ⟨hflag, hnow⟩]
          exact ⟨_, _, rfl, rfl, SameLoop.other Flushed.noConfusion
            (fun _ => Flushed.noConfusion) hstate hold (fun _ _ => Flushed.noConfusion) hrest⟩
        have hnone : ¬ (s.state = 3 ∨ s.state = 9 ∨ s.state = 10) := fun h => h.elim hnow hlate
        rw [if_neg fun hboth => hnone hboth.2, if_neg fun hboth => hnow hboth.2]
        exact ⟨_, _, rfl, rfl,
          SameLoop.dropped hstate (fun hboth => hnone (late_eq_three.mp hboth.2)) hrest⟩
      · rw [if_neg fun hboth => hflag hboth.1, if_neg fun hboth => hflag hboth.1]
        exact ⟨_, _, rfl, rfl, SameLoop.dropped hstate (fun hboth => hflag hboth.1) hrest⟩

end Loop

/-! ## The switch -/

def isMisc (cfg : Config) (ch : Int) : Prop :=
  ch ≠ code '"' ∧ ch ≠ code '\'' ∧ ch ≠ code ':' ∧ ch ≠ code '\n' ∧
    ch ≠ (if cfg.arch.atSeparates then code '@' else code ';') ∧ ch ≠ EOF

/-- The copies do the same with this character: there is no blank before it that is put out
only now, and it is not a colon late in a line after a symbol. -/
def SwitchAgrees (cfg : Config) (state ch : Int) : Prop :=
  ¬ (isMisc cfg ch ∧ isSymbol cfg ch = true ∧ state = 10) ∧
    ¬ (ch = code ':' ∧ (state = 9 ∨ state = 10))

section Switch
variable {cfg : Config} {s : Scrub} {input : List UInt8} {warnings : List Warning} {ch : Int}

theorem comment_collapse (h : Ascii input) : comment forStrings cfg s.collapse ch input warnings =
    (comment forFiles cfg s ch input warnings).collapse := by
  have hread := readPast_ascii h (p := isWhitespace cfg)
  unfold comment
  rw [readPast_same h, readPast_same h]
  generalize readPast forFiles (isWhitespace cfg) input = got at hread
  generalize readPast forFiles (· ≠ code '\n') input = line
  dsimp only at *
  rw [readPast_same hread.1]
  simp only [collapse_zero, collapse_one]
  split
  · split
    · rfl
    rename_i hne
    rw [ungetc_same hne]
    split
    · rfl
    · rfl
  · split
    · rfl
    split
    · rfl
    · rfl

theorem comment_of_comment (c : Copy) (hstate : s.state ≠ 0) (hcomment : (lex cfg ch).comment = true) :
    (comment c cfg s ch input warnings).ch = code '\n' := by
  unfold comment
  rw [if_neg fun hzero => hstate hzero.1, if_pos hcomment]

theorem comment_other (c : Copy) (hzero : s.state ≠ 0) (hcomment : ¬ (lex cfg ch).comment = true) :
    (comment c cfg s ch input warnings).ch = ch := by
  unfold comment
  rw [if_neg fun h => hzero h.1, if_neg hcomment]
  split
  · rfl
  · rfl

theorem comment_ne_blank (c : Copy) (hzero : s.state ≠ 0) (hch : ch ≠ code ' ') :
    (comment c cfg s ch input warnings).ch ≠ code ' ' := by
  by_cases hcomment : (lex cfg ch).comment = true
  · rw [comment_of_comment c hzero hcomment]
    decide
  · rw [comment_other c hzero hcomment]
    exact hch

theorem deal_misc_after_blank (hsymbol : isSymbol cfg ch = true) (hten : s.state = 10) :
    deal_misc forFiles cfg s ch input warnings =
      ⟨code ' ', { s with state := 3 }, forFiles.ungetc ch input, warnings⟩ := by
  have hrule : forFiles.dealMisc cfg ch s = (true, { s with state := 3 }) :=
    (if_pos hsymbol).trans (if_pos hten)
  unfold deal_misc
  rw [hrule]

theorem collapse_set {k : Int} (h : late k = late s.state) :
    ({ s with state := k } : Scrub).collapse = s.collapse := by
  unfold Scrub.collapse
  rw [h]

theorem deal_misc_comment (h : ¬ (isSymbol cfg ch = true ∧ s.state = 10)) :
    ∃ t : Scrub, t.collapse = s.collapse ∧
      deal_misc forFiles cfg s ch input warnings = comment forFiles cfg t ch input warnings := by
  unfold deal_misc
  by_cases hsymbol : isSymbol cfg ch = true
  · have hten : s.state ≠ 10 := fun hten => h ⟨hsymbol, hten⟩
    have hrule : forFiles.dealMisc cfg ch s =
        (false, if s.state = 3 then { s with state := 9 } else s) :=
      (if_pos hsymbol).trans (if_neg hten)
    rw [hrule]
    refine ⟨_, ?_, rfl⟩
    split
    case isTrue hthree =>
      apply collapse_set
      rw [hthree]
      rfl
    case isFalse => rfl
  · have hrule : forFiles.dealMisc cfg ch s =
        (false, if s.state = 9 ∨ s.state = 10 then { s with state := 3 } else s) := if_neg hsymbol
    rw [hrule]
    refine ⟨_, ?_, rfl⟩
    split
    case isTrue hlate =>
      apply collapse_set
      exact (late_eq_three.mpr (Or.inr hlate)).symm
    case isFalse => rfl

theorem symbol_ne_blank (h : isSymbol cfg ch = true) : ch ≠ code ' ' := by
  rintro rfl
  have hnot : isSymbol cfg (code ' ') = false := rfl
  cases h

theorem deal_misc_collapse_iff (h : Ascii input) :
    deal_misc forStrings cfg s.collapse ch input warnings =
      (deal_misc forFiles cfg s ch input warnings).collapse ↔
        ¬ (isSymbol cfg ch = true ∧ s.state = 10) := by
  have hstrings : deal_misc forStrings cfg s.collapse ch input warnings =
      comment forStrings cfg s.collapse ch input warnings := rfl
  by_cases hafter : isSymbol cfg ch = true ∧ s.state = 10
  · refine iff_of_false ?_ (not_not.mpr hafter)
    rw [deal_misc_after_blank hafter.1 hafter.2]
    intro heq
    have hzero : s.collapse.state ≠ 0 := by
      rw [Ne, collapse_zero, hafter.2]
      decide
    exact comment_ne_blank forStrings hzero (symbol_ne_blank hafter.1) (congrArg Called.ch heq)
  · refine iff_of_true ?_ hafter
    obtain ⟨t, hcollapse, hfiles⟩ := deal_misc_comment hafter
    rw [hfiles, ← hcollapse]
    exact comment_collapse h

theorem switch_misc (c : Copy) (t : Scrub) (h : isMisc cfg ch) :
    switch c cfg t ch input warnings = deal_misc c cfg t ch input warnings := by
  obtain ⟨hquote, happos, hcolon, hnewline, hsep, hend⟩ := h
  unfold switch
  rw [if_neg hquote, if_neg happos, if_neg hcolon, if_neg fun hn => hnewline hn.1,
    if_neg fun hn => hn.elim hnewline hsep, if_neg hend]

theorem switch_colon (c : Copy) (t : Scrub) : switch c cfg t (code ':') input warnings =
    ⟨code ':', { t with state := if t.state ≠ 3 then 0 else t.state }, input, warnings⟩ := rfl

/-- The other characters of the switch do not tell the states apart that stand for 3. -/
theorem switch_collapse (h : Ascii input) (hmisc : ¬ isMisc cfg ch) (hcolon : ch ≠ code ':') :
    switch forStrings cfg s.collapse ch input warnings =
      (switch forFiles cfg s ch input warnings).collapse := by
  have hnewlines : s.collapse.add_newlines = s.add_newlines := rfl
  unfold switch
  rw [getc_same h, hnewlines]
  generalize getc forFiles input = got
  simp only [collapse_zero, if_neg hcolon]
  split
  · rfl
  rename_i hquote
  split
  · split
    · rfl
    · rfl
  rename_i happos
  split
  case isTrue hnewline =>
    have hne : ch ≠ EOF := by
      rw [hnewline.1]
      decide
    rw [ungetc_same hne]
    rfl
  case isFalse hnewline =>
    by_cases hsep : ch = code '\n' ∨ ch = (if cfg.arch.atSeparates then code '@' else code ';')
    · rw [if_pos hsep, if_pos hsep]
      rfl
    rw [if_neg hsep, if_neg hsep]
    split
    · rfl
    rename_i hend
    have hparts := not_or.mp hsep
    exact absurd ⟨hquote, happos, hcolon, hparts.1, hparts.2, hend⟩ hmisc

/-- Late in a line a colon does not start a new statement in the copy for strings. -/
theorem colon_collapse_iff : switch forStrings cfg s.collapse (code ':') input warnings =
      (switch forFiles cfg s (code ':') input warnings).collapse ↔ ¬ (s.state = 9 ∨ s.state = 10) := by
  have hstate : s.collapse.state = late s.state := rfl
  have hset : ∀ k, ({ s with state := k } : Scrub).collapse = { s.collapse with state := late k } :=
    fun _ => rfl
  rw [switch_colon, switch_colon, hstate]
  by_cases hlate : s.state = 9 ∨ s.state = 10
  · have hthree : late s.state = 3 := late_eq_three.mpr (Or.inr hlate)
    have hne : s.state ≠ 3 := by omega
    rw [if_neg (not_not.mpr hthree), if_pos hne, hthree]
    refine iff_of_false ?_ (not_not.mpr hlate)
    intro heq
    have hstates := congrArg (fun r => r.scrub.state) heq
    cases hstates
  · have hkeep : late s.state = s.state := if_neg hlate
    refine iff_of_true ?_ hlate
    rw [hkeep]
    split
    · rfl
    exact congrArg (fun state => (⟨code ':', { s.collapse with state := state }, input, warnings⟩
      : Called)) hkeep.symm

theorem switch_collapse_iff (h : Ascii input) : switch forStrings cfg s.collapse ch input warnings =
      (switch forFiles cfg s ch input warnings).collapse ↔ SwitchAgrees cfg s.state ch := by
  by_cases hmisc : isMisc cfg ch
  · rw [switch_misc _ _ hmisc, switch_misc _ _ hmisc, deal_misc_collapse_iff h]
    constructor
    · intro hagrees
      exact ⟨fun hboth => hagrees hboth.2, fun hboth => hmisc.2.2.1 hboth.1⟩
    · intro hagrees hboth
      exact hagrees.1 ⟨hmisc, hboth⟩
  · by_cases hcolon : ch = code ':'
    · subst hcolon
      rw [colon_collapse_iff]
      constructor
      · intro hagrees
        exact ⟨fun hboth => hmisc hboth.1, fun hboth => hagrees hboth.2⟩
      · intro hagrees hlate
        exact hagrees.2 ⟨rfl, hlate⟩
    · refine iff_of_true (switch_collapse h hmisc hcolon) ⟨fun hboth => hmisc hboth.1, ?_⟩
      exact fun hboth => hcolon hboth.1

end Switch
end Toolwhip.As
