import Toolwhip.Lib.CNumber

/-! # cstringSymbolName

A string is the bytes before its NUL. A step of the scan is what it reads from `s` up to
the next comparison with the NUL, and what then stands at `d`. -/

namespace Toolwhip.Ld64.OrderFile
set_option autoImplicit false

open Lib.CNumber List

structure Step where
  source : List UInt8
  written : UInt8
  deriving DecidableEq

/-- The steps, and whether the scan went past the NUL after them. -/
structure UnescapeScan where
  steps : List Step
  pastNul : Bool
  deriving DecidableEq

/-- The cases of the switch that write one character. -/
def simpleEscape (c : UInt8) : Option UInt8 :=
  if c = 110 then some 10 -- \n
  else if c = 116 then some 9 -- \t
  else if c = 118 then some 11 -- \v
  else if c = 98 then some 8 -- \b
  else if c = 114 then some 13 -- \r
  else if c = 102 then some 12 -- \f
  else if c = 97 then some 7 -- \a
  else if c = 92 then some 92 -- \\
  else if c = 63 then some 63 -- \?
  else if c = 39 then some 13 -- \', which becomes a carriage return
  else if c = 34 then some 34 -- \"
  else none

/-- Where the scan stands: at a character, after a backslash, or among digits. -/
inductive Mode where
  | copy
  | escape
  | hex (value : UInt8)
  | oct (value : UInt8)

/-- `buffer` is the string before the scan: nothing at `d` or after it has changed yet.
`source` is what has been read since the last step. -/
def scan (buffer : List UInt8) :
    Mode → (source : List UInt8) → (steps : List Step) → List UInt8 → UnescapeScan
  | .copy, _, steps, [] => ⟨steps, false⟩
  | .escape, source, steps, [] => ⟨steps ++ [⟨source, buffer.getD steps.length 0⟩], true⟩
  | .hex value, source, steps, [] => ⟨steps ++ [⟨source, value⟩], true⟩
  | .oct value, source, steps, [] => ⟨steps ++ [⟨source, value⟩], true⟩
  | .copy, _, steps, c :: s =>
    if c = 92 then scan buffer .escape [c] steps s
    else scan buffer .copy [] (steps ++ [⟨[c], c⟩]) s
  | .escape, source, steps, c :: s =>
    match simpleEscape c with
    | some value => scan buffer .copy [] (steps ++ [⟨source ++ [c], value⟩]) s
    | none =>
      if c = 120 then scan buffer (.hex 0) (source ++ [c]) steps s
      else if isDigit 10 c then scan buffer (.oct (c - 48)) (source ++ [c]) steps s
      else
        scan buffer .copy [] (steps ++ [⟨source ++ [c], buffer.getD steps.length 0⟩]) s
  | .hex value, source, steps, c :: s =>
    if isDigit 16 c then
      scan buffer (.hex (value * 16 + UInt8.ofNat ((digitValue c).getD 0))) (source ++ [c]) steps s
    else scan buffer .copy [] (steps ++ [⟨source ++ [c], value⟩]) s
  | .oct value, source, steps, c :: s =>
    if isDigit 10 c then scan buffer (.oct (value * 8 + (c - 48))) (source ++ [c]) steps s
    else scan buffer .copy [] (steps ++ [⟨source ++ [c], value⟩]) s

def beforeNul (s : List UInt8) : List UInt8 := s.takeWhile (· ≠ 0)

/-- The scan of `asprintf("cstring=%s")` -/
def unescapeScan (orderFileString : List UInt8) : UnescapeScan :=
  let buffer := ascii "cstring=" ++ beforeNul orderFileString
  scan buffer .copy [] [] buffer

/-- The scan left the string; what it had written by then. -/
structure PastNul where
  written : List UInt8
  deriving DecidableEq

def cstringSymbolName (orderFileString : List UInt8) : Except PastNul (List UInt8) :=
  let result := unescapeScan orderFileString
  if result.pastNul then .error ⟨result.steps.map Step.written⟩
  else .ok (result.steps.map Step.written)

/-! ## The C meaning of a line -/

/-- `\\'` is the quote; the other simple escapes are those of the switch. -/
def escapedChar (c : UInt8) : Option UInt8 := if c = 39 then some 39 else simpleEscape c

def isOctalDigit (c : UInt8) : Bool := isDigit 8 c

/-- The escape sequence after a backslash: its character and its length. A hexadecimal one
takes all digits, an octal one takes three at most. -/
def escapeSequence (s : List UInt8) : Option (UInt8 × Nat) :=
  match s with
  | [] => none
  | c :: rest =>
    match escapedChar c with
    | some value => some (value, 1)
    | none =>
      if c = 120 then
        let digits := rest.takeWhile (isDigit 16)
        if digits = [] then none else some (UInt8.ofNat (number 16 digits), 1 + digits.length)
      else
        let digits := (s.takeWhile isOctalDigit).take 3
        if digits = [] then none else some (UInt8.ofNat (number 8 digits), digits.length)

def tokens : List UInt8 → List Step
  | [] => []
  | c :: s =>
    if c = 92 then
      match escapeSequence s with
      | some (value, length) => ⟨c :: s.take length, value⟩ :: tokens (s.drop length)
      | none => ⟨[c], c⟩ :: tokens s
    else ⟨[c], c⟩ :: tokens s
termination_by s => s.length
decreasing_by all_goals (simp only [length_drop, length_cons]; omega)

def meaning (s : List UInt8) : List UInt8 := (tokens s).map Step.written

/-- Each escape sequence is replaced by its character, each other character is copied, and
the scan ends at the NUL. -/
structure UnescapesAsC (line : List UInt8) : Prop where
  result : cstringSymbolName line = .ok (ascii "cstring=" ++ meaning (beforeNul line))
  replaced : (unescapeScan line).steps = tokens (ascii "cstring=" ++ beforeNul line)

/-- A line whose escapes are of the ten simple kinds that are right. -/
inductive SimpleLine : List UInt8 → Prop where
  | nil : SimpleLine []
  | plain {c : UInt8} {s : List UInt8} : c ≠ 92 → SimpleLine s → SimpleLine (c :: s)
  | escape {c value : UInt8} {s : List UInt8} : c ≠ 39 → simpleEscape c = some value →
      SimpleLine s → SimpleLine (92 :: c :: s)

section Scan
variable {buffer source s : List UInt8} {steps : List Step} {c value : UInt8}

theorem tokens_plain (hc : c ≠ 92) : tokens (c :: s) = ⟨[c], c⟩ :: tokens s := by
  rw [tokens, if_neg hc]

theorem tokens_escape {length : Nat} (h : escapeSequence s = some (value, length)) :
    tokens (92 :: s) = ⟨92 :: s.take length, value⟩ :: tokens (s.drop length) := by
  rw [tokens, if_pos rfl, h]

theorem tokens_none (h : escapeSequence s = none) : tokens (92 :: s) = ⟨[92], 92⟩ :: tokens s := by
  rw [tokens, if_pos rfl, h]

theorem escapeSequence_simple (hquote : c ≠ 39) (h : simpleEscape c = some value) :
    escapeSequence (c :: s) = some (value, 1) := by
  simp [escapeSequence, escapedChar, hquote, h]

theorem scan_plain (hc : c ≠ 92) : scan buffer .copy source steps (c :: s) =
    scan buffer .copy [] (steps ++ [⟨[c], c⟩]) s := by
  rw [scan, if_neg hc]

theorem scan_escape : scan buffer .copy source steps (92 :: s) =
    scan buffer .escape [92] steps s := by
  rw [scan, if_pos rfl]

theorem scan_simple (h : simpleEscape c = some value) : scan buffer .escape source steps (c :: s) =
      scan buffer .copy [] (steps ++ [⟨source ++ [c], value⟩]) s := by
  rw [scan, h]

theorem scan_start (mode : Mode) : steps <+: (scan buffer mode source steps s).steps := by
  induction s generalizing mode source steps with
  | nil => cases mode <;> simp [scan]
  | cons c s ih =>
    have hmore : ∀ step, steps <+: (scan buffer .copy [] (steps ++ [step]) s).steps :=
      fun step => (prefix_append steps [step]).trans (ih .copy)
    cases mode with
    | copy =>
      rw [scan]
      split
      · exact ih _
      · exact hmore _
    | escape =>
      rw [scan]
      split
      · exact hmore _
      split
      · exact ih _
      split
      · exact ih _
      · exact hmore _
    | hex value =>
      rw [scan]
      split
      · exact ih _
      · exact hmore _
    | oct value =>
      rw [scan]
      split
      · exact ih _
      · exact hmore _

theorem scan_simpleLine (h : SimpleLine s) :
    scan buffer .copy source steps s = ⟨steps ++ tokens s, false⟩ := by
  induction h generalizing source steps with
  | nil => simp [scan, tokens]
  | plain hc _ ih =>
    rw [scan_plain hc, ih, tokens_plain hc]
    simp
  | escape hquote hvalue _ ih =>
    rw [scan_escape, scan_simple hvalue, ih, tokens_escape (escapeSequence_simple hquote hvalue)]
    simp

/-! ## Lines with other escapes -/

theorem scan_hex (h : (scan buffer (.hex value) source steps s).pastNul = false) :
    ∃ step, steps ++ [step] <+: (scan buffer (.hex value) source steps s).steps ∧
      source.length + (s.takeWhile (isDigit 16)).length < step.source.length := by
  induction s generalizing value source with
  | nil => cases h
  | cons c s ih =>
    rw [scan] at h ⊢
    by_cases hc : isDigit 16 c = true
    · rw [if_pos hc] at h ⊢
      obtain ⟨step, hstep, hlong⟩ := ih h
      refine ⟨step, hstep, ?_⟩
      rw [takeWhile_cons_of_pos hc]
      simp only [length_append, length_cons, length_nil] at hlong ⊢
      omega
    · rw [if_neg hc]
      refine ⟨_, scan_start .copy, ?_⟩
      rw [takeWhile_cons_of_neg hc]
      simp

theorem scan_oct (h : (scan buffer (.oct value) source steps s).pastNul = false) :
    ∃ step, steps ++ [step] <+: (scan buffer (.oct value) source steps s).steps ∧
      source.length + (s.takeWhile (isDigit 10)).length < step.source.length := by
  induction s generalizing value source with
  | nil => cases h
  | cons c s ih =>
    rw [scan] at h ⊢
    by_cases hc : isDigit 10 c = true
    · rw [if_pos hc] at h ⊢
      obtain ⟨step, hstep, hlong⟩ := ih h
      refine ⟨step, hstep, ?_⟩
      rw [takeWhile_cons_of_pos hc]
      simp only [length_append, length_cons, length_nil] at hlong ⊢
      omega
    · rw [if_neg hc]
      refine ⟨_, scan_start .copy, ?_⟩
      rw [takeWhile_cons_of_neg hc]
      simp

theorem isDigit_of_octal (h : isOctalDigit c = true) : isDigit 10 c = true := by
  unfold isOctalDigit isDigit at h
  unfold isDigit
  cases hc : digitValue c with
  | none =>
    rw [hc] at h
    cases h
  | some d =>
    rw [hc, decide_eq_true_eq] at h
    rw [decide_eq_true_eq]
    omega

theorem takeWhile_octal_length (s : List UInt8) :
    (s.takeWhile isOctalDigit).length ≤ (s.takeWhile (isDigit 10)).length := by
  induction s with
  | nil => simp
  | cons c s ih =>
    by_cases hc : isOctalDigit c = true
    · rw [takeWhile_cons_of_pos hc, takeWhile_cons_of_pos (isDigit_of_octal hc)]
      simpa using ih
    · rw [takeWhile_cons_of_neg hc]
      simp

theorem tokens_head {n : Nat} (hn : ∀ value length, escapeSequence s = some (value, length) →
    length ≤ n) : ∃ token rest, tokens (92 :: s) = token :: rest ∧ token.source.length ≤ n + 1 := by
  cases hs : escapeSequence s with
  | none => exact ⟨_, _, tokens_none hs, by simp⟩
  | some found =>
    obtain ⟨value, length⟩ := found
    refine ⟨_, _, tokens_escape hs, ?_⟩
    have := hn value length hs
    simp only [length_cons, length_take]
    omega

theorem escapedChar_eq_none (h : simpleEscape c = none) : escapedChar c = none := by
  have hquote : c ≠ 39 := by
    rintro rfl
    cases h
  rw [escapedChar, if_neg hquote, h]

theorem escapeSequence_hex {length : Nat} (h : escapeSequence (120 :: s) = some (value, length)) :
    length ≤ 1 + (s.takeWhile (isDigit 16)).length := by
  have hnone : escapedChar 120 = none := rfl
  unfold escapeSequence at h
  simp only [hnone, if_true] at h
  split at h
  · cases h
  cases h
  exact Nat.le_refl _

theorem escapeSequence_digit {length : Nat} (hnone : simpleEscape c = none) (hhex : c ≠ 120)
    (h : escapeSequence (c :: s) = some (value, length)) :
    isOctalDigit c = true ∧ length ≤ 1 + (s.takeWhile (isDigit 10)).length := by
  unfold escapeSequence at h
  simp only [escapedChar_eq_none hnone, if_neg hhex] at h
  by_cases hc : isOctalDigit c = true
  · refine ⟨hc, ?_⟩
    rw [takeWhile_cons_of_pos hc] at h
    split at h
    · cases h
    cases h
    have := takeWhile_octal_length s
    simp only [length_take, length_cons]
    omega
  · rw [takeWhile_cons_of_neg hc] at h
    simp at h

theorem steps_ne_tokens {step : Step} {result : UnescapeScan} {n : Nat}
    (hstep : steps ++ [step] <+: result.steps) (hlong : n + 1 < step.source.length)
    (hn : ∀ value length, escapeSequence s = some (value, length) → length ≤ n) :
    result.steps ≠ steps ++ tokens (92 :: s) := by
  intro heq
  obtain ⟨token, rest, htokens, hshort⟩ := tokens_head hn
  rw [heq, htokens, prefix_append_right_inj] at hstep
  rw [(List.cons_prefix_cons.mp hstep).1] at hlong
  omega

theorem simpleLine_of_scan (h : scan buffer .copy source steps s = ⟨steps ++ tokens s, false⟩) :
    SimpleLine s := by
  induction hn : s.length using Nat.strong_induction_on generalizing s source steps with
  | h n ih =>
    cases s with
    | nil => exact .nil
    | cons c s =>
      have hlen : s.length < n := by
        rw [← hn, length_cons]
        exact Nat.lt_succ_self _
      by_cases hc : c = 92
      · subst hc
        rw [scan_escape] at h
        cases s with
        | nil =>
          have hend := congrArg UnescapeScan.pastNul h
          cases hend
        | cons d s =>
          have hsteps := congrArg UnescapeScan.steps h
          have hend := congrArg UnescapeScan.pastNul h
          cases hd : simpleEscape d with
          | some value =>
            rw [scan_simple hd] at h hsteps
            by_cases hquote : d = 39
            · subst hquote
              cases hd
              have hprefix : steps ++ [⟨[92] ++ [39], 13⟩] <+:
                  (scan buffer .copy [] (steps ++ [⟨[92] ++ [39], 13⟩]) s).steps :=
                scan_start .copy
              have htokens : tokens (92 :: 39 :: s) = ⟨92 :: (39 :: s).take 1, 39⟩ ::
                  tokens ((39 :: s).drop 1) := tokens_escape rfl
              rw [hsteps, prefix_append_right_inj, htokens] at hprefix
              exact absurd (List.cons_prefix_cons.mp hprefix).1 (by simp)
            · refine .escape hquote hd ?_
              rw [tokens_escape (escapeSequence_simple hquote hd)] at h
              have hlen' : s.length < n := by
                rw [length_cons] at hlen
                omega
              have hrest : scan buffer .copy [] (steps ++ [⟨[92] ++ [d], value⟩]) s =
                  ⟨(steps ++ [⟨[92] ++ [d], value⟩]) ++ tokens s, false⟩ := by
                rw [h]
                simp
              exact ih s.length hlen' hrest rfl
          | none =>
            exfalso
            rw [scan, hd] at hsteps hend
            by_cases hhex : d = 120
            · subst hhex
              obtain ⟨step, hstep, hlong⟩ := scan_hex hend
              apply steps_ne_tokens (n := 1 + (s.takeWhile (isDigit 16)).length) hstep _
                (fun value length => escapeSequence_hex) hsteps
              simp only [length_append, length_cons, length_nil] at hlong
              omega
            · simp only [if_neg hhex] at hsteps hend
              by_cases hdigit : isDigit 10 d = true
              · rw [if_pos hdigit] at hsteps hend
                obtain ⟨step, hstep, hlong⟩ := scan_oct hend
                apply steps_ne_tokens (n := 1 + (s.takeWhile (isDigit 10)).length) hstep _
                  (fun value length hseq => (escapeSequence_digit hd hhex hseq).2) hsteps
                simp only [length_append, length_cons, length_nil] at hlong
                omega
              · rw [if_neg hdigit] at hsteps
                apply steps_ne_tokens (n := 0) (scan_start .copy) _ _ hsteps
                · simp
                · intro value length hseq
                  exact absurd (isDigit_of_octal (escapeSequence_digit hd hhex hseq).1) hdigit
      · refine .plain hc ?_
        rw [scan_plain hc, tokens_plain hc] at h
        have hrest : scan buffer .copy [] (steps ++ [⟨[c], c⟩]) s =
            ⟨(steps ++ [⟨[c], c⟩]) ++ tokens s, false⟩ := by
          rw [h]
          simp
        exact ih s.length hlen hrest rfl

end Scan

section Result
variable {line : List UInt8}

theorem simpleLine_plain {c : UInt8} (hc : c ≠ 92) : SimpleLine (c :: line) ↔ SimpleLine line := by
  constructor
  · intro h
    cases h with
    | plain _ h => exact h
    | escape => exact absurd rfl hc
  · exact .plain hc

theorem simpleLine_append {before : List UInt8} (hplain : 92 ∉ before) :
    SimpleLine (before ++ line) ↔ SimpleLine line := by
  induction before with
  | nil => rfl
  | cons c before ih =>
    have hc : c ≠ 92 := fun heq => hplain (heq ▸ mem_cons_self)
    have hrest := ih fun hmem => hplain (mem_cons_of_mem c hmem)
    rw [cons_append, simpleLine_plain hc, hrest]

theorem tokens_append {before : List UInt8} (hplain : 92 ∉ before) :
    (tokens (before ++ line)).map Step.written = before ++ meaning line := by
  induction before with
  | nil => rfl
  | cons c before ih =>
    have hc : c ≠ 92 := fun heq => hplain (heq ▸ mem_cons_self)
    have hrest := ih fun hmem => hplain (mem_cons_of_mem c hmem)
    rw [cons_append, tokens_plain hc, map_cons, hrest, cons_append]

theorem no_backslash : (92 : UInt8) ∉ ascii "cstring=" := by decide

theorem cstringSymbolName_simple (h : SimpleLine (beforeNul line)) :
    cstringSymbolName line = .ok (ascii "cstring=" ++ meaning (beforeNul line)) := by
  unfold cstringSymbolName unescapeScan
  rw [scan_simpleLine ((simpleLine_append no_backslash).mpr h), nil_append]
  simp only [Bool.false_eq_true, if_false, tokens_append no_backslash]

theorem unescapesAsC_iff : UnescapesAsC line ↔ SimpleLine (beforeNul line) := by
  constructor
  · intro h
    apply (simpleLine_append no_backslash).mp
    apply @simpleLine_of_scan (ascii "cstring=" ++ beforeNul line) []
    cases hscan : unescapeScan line with
    | mk steps pastNul =>
      have hresult := h.result
      have hreplaced := h.replaced
      rw [hscan] at hreplaced
      unfold cstringSymbolName at hresult
      rw [hscan] at hresult
      cases pastNul with
      | true => cases hresult
      | false =>
        rw [nil_append, ← hreplaced]
        exact hscan
  · intro h
    refine ⟨cstringSymbolName_simple h, ?_⟩
    unfold unescapeScan
    rw [scan_simpleLine ((simpleLine_append no_backslash).mpr h)]
    rfl

/-- The character after `\x41` is lost. -/
theorem unescapesAsC_hex : ¬ ∀ line, UnescapesAsC line := by
  intro hclaim
  have hrun : cstringSymbolName (ascii "\\x41z") = .ok (ascii "cstring=A") := by decide
  have hresult := (hclaim (ascii "\\x41z")).result
  have hline : beforeNul (ascii "\\x41z") = ascii "\\x41z" := by decide
  have hmeaning : meaning (ascii "\\x41z") = ascii "Az" := by
    have hseq : escapeSequence (ascii "x41z") = some (65, 3) := by decide
    have htokens : tokens (ascii "\\x41z") = ⟨ascii "\\x41", 65⟩ :: tokens (ascii "z") :=
      tokens_escape hseq
    have hlast : tokens (ascii "z") = ⟨ascii "z", 122⟩ :: tokens [] := tokens_plain (by decide)
    unfold meaning
    rw [htokens, hlast, tokens]
    rfl
  rw [hrun, hline, hmeaning] at hresult
  exact absurd hresult (by decide)

end Result

def escapeLetters : List UInt8 := ascii "ntvbrfa\\?\""

def escapeChar (c : UInt8) : List UInt8 :=
  match escapeLetters.find? (fun d => simpleEscape d == some c) with
  | some d => [92, d]
  | none => [c]

theorem escapeChar_cases (c : UInt8) : c ≠ 92 ∧ escapeChar c = [c] ∨
    ∃ d, d ≠ 39 ∧ simpleEscape d = some c ∧ escapeChar c = [92, d] := by
  unfold escapeChar
  cases hfind : escapeLetters.find? (fun d => simpleEscape d == some c) with
  | some d =>
    refine Or.inr ⟨d, ?_, by simpa using find?_some hfind, rfl⟩
    rintro rfl
    exact absurd (mem_of_find?_eq_some hfind) (by decide)
  | none =>
    refine Or.inl ⟨?_, rfl⟩
    rintro rfl
    exact absurd hfind (by decide)

theorem meaning_escape (w : List UInt8) :
    SimpleLine (w.flatMap escapeChar) ∧ meaning (w.flatMap escapeChar) = w := by
  induction w with
  | nil =>
    refine ⟨.nil, ?_⟩
    rw [flatMap_nil, meaning, tokens]
    rfl
  | cons c w ih =>
    obtain ⟨hsimple, hmeaning⟩ := ih
    unfold meaning at hmeaning ⊢
    rw [flatMap_cons]
    rcases escapeChar_cases c with ⟨hc, heq⟩ | ⟨d, hd, hvalue, heq⟩
    · rw [heq, singleton_append, tokens_plain hc, map_cons, hmeaning]
      exact ⟨.plain hc hsimple, rfl⟩
    · have htokens := tokens_escape (s := d :: w.flatMap escapeChar) (escapeSequence_simple hd hvalue)
      rw [heq, cons_append, singleton_append, htokens, map_cons, drop_one,
        tail_cons, hmeaning]
      exact ⟨.escape hd hvalue hsimple, rfl⟩

theorem beforeNul_eq {s : List UInt8} (h : 0 ∉ s) : beforeNul s = s := by
  apply List.takeWhile_eq_self_iff.mpr
  intro c hc
  exact decide_eq_true fun heq => h (heq ▸ hc)

theorem escape_noNul {w : List UInt8} (hw : 0 ∉ w) : 0 ∉ w.flatMap escapeChar := by
  intro hmem
  obtain ⟨c, hc, hzero⟩ := List.mem_flatMap.mp hmem
  have hne : (0 : UInt8) ≠ c := fun heq => hw (heq ▸ hc)
  rcases escapeChar_cases c with ⟨-, heq⟩ | ⟨d, -, hvalue, heq⟩
  · rw [heq, List.mem_singleton] at hzero
    exact hne hzero
  · rw [heq] at hzero
    have hd : d = 0 := by simpa [eq_comm] using hzero
    subst hd
    cases hvalue

theorem cstringSymbolName_escape {w : List UInt8} (hw : 0 ∉ w) :
    cstringSymbolName (w.flatMap escapeChar) = .ok (ascii "cstring=" ++ w) := by
  have hline := beforeNul_eq (escape_noNul hw)
  rw [cstringSymbolName_simple (by rw [hline]; exact (meaning_escape w).1), hline, (meaning_escape w).2]

theorem tab_escaped : cstringSymbolName (ascii "a\\tb") = .ok (ascii "cstring=a\tb") :=
  cstringSymbolName_escape (w := ascii "a\tb") (by decide)

end Toolwhip.Ld64.OrderFile
