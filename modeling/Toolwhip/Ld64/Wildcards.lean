import Toolwhip.Lib.Glob

/-! # Options::SetWithWildcards

A string is the list of its characters before the terminator. A pointer into one
is the rest of the string from there on; a pointer past the terminator is `none`,
and reading through it has no result. -/

namespace Toolwhip.Ld64
open Lib List
set_option autoImplicit false

abbrev Letter := { c : UInt8 // c ≠ 0 }

instance : Inhabited Letter := ⟨0x61, by decide⟩

namespace Wildcards

def chStar : Letter := ⟨0x2A, by decide⟩
def chQuestion : Letter := ⟨0x3F, by decide⟩
def chOpen : Letter := ⟨0x5B, by decide⟩
def chClose : Letter := ⟨0x5D, by decide⟩
def chDash : Letter := ⟨0x2D, by decide⟩

abbrev Cursor := Option (List Letter)

def deref : Cursor → Option UInt8
  | none => none
  | some [] => some 0
  | some (c :: _) => some c.val

def advance : Cursor → Cursor
  | none => none
  | some [] => none
  | some (_ :: rest) => some rest

/-- The value of a `char` where it is compared as an `int`. -/
def charToInt (charIsSigned : Bool) (c : UInt8) : Int :=
  if charIsSigned ∧ 0x80 ≤ c then (c.toNat : Int) - 256 else c.toNat

/-- The loop from `b` to `e` in `inCharRange`; the character at `e` is a bracket. -/
def scanRanges (charIsSigned : Bool) (c : UInt8) : UInt8 → List Letter → Bool
  | _, [] => false
  | last, x :: rest =>
    if x = chDash then
      match rest with
      | [] => last ≤ c && c ≤ chClose.val
      | [next] => last ≤ c && c ≤ next.val
      | next :: _ :: rest => (last ≤ c && c ≤ next.val) || scanRanges charIsSigned c last rest
    else
      charToInt charIsSigned x.val = c.toNat || scanRanges charIsSigned c x.val rest

/-- `p` is what follows the opening bracket; the result is the answer and the rest of the
pattern from the closing bracket on. -/
def inCharRange (charIsSigned : Bool) (p : List Letter) (c : UInt8) : Bool × List Letter :=
  match p.dropWhile (· ≠ chClose) with
  | [] => (false, [])
  | close :: rest =>
    (scanRanges charIsSigned c 0 (p.takeWhile (· ≠ chClose)), close :: rest)

def matchSomewhere (matchRest : List Letter → Option Bool) : List Letter → Option Bool
  | [] => some false
  | c :: rest => do
    if ← matchRest (c :: rest) then some true else matchSomewhere matchRest rest

theorem length_inCharRange (charIsSigned : Bool) (p : List Letter) (c : UInt8) :
    (inCharRange charIsSigned p c).2.length ≤ p.length := by
  unfold inCharRange
  split
  · exact Nat.zero_le _
  rename_i close rest hdrop
  rw [← hdrop]
  exact (dropWhile_suffix _).length_le

def wildCardMatch (charIsSigned : Bool) (pattern : List Letter) (s : Cursor) : Option Bool :=
  match pattern with
  | [] => (deref s).map (· == 0)
  | ch :: p =>
    if ch = chStar then
      if p = [] then some true
      else s.bind (matchSomewhere fun t => wildCardMatch charIsSigned p (some t))
    else if ch = chQuestion then do
      let c ← deref s
      if c = 0 then some false else wildCardMatch charIsSigned p (advance s)
    else if ch = chOpen then do
      let c ← deref s
      if (inCharRange charIsSigned p c).1 then
        wildCardMatch charIsSigned (inCharRange charIsSigned p c).2.tail (advance s)
      else some false
    else do
      let c ← deref s
      if c ≠ ch.val then some false else wildCardMatch charIsSigned p (advance s)
termination_by pattern.length
decreasing_by
  · exact Nat.lt_succ_self _
  · exact Nat.lt_succ_self _
  · have := length_inCharRange charIsSigned p c
    rw [length_tail, length_cons]
    omega
  · exact Nat.lt_succ_self _

end Wildcards

structure SetWithWildcards where
  fRegular : List (List Letter) := []
  fWildCard : List (List Letter) := []

namespace SetWithWildcards
open Wildcards

def hasWildCards (symbol : List Letter) : Bool :=
  symbol.any fun c => c = chStar || c = chQuestion || c = chOpen

def insert (set : SetWithWildcards) (symbol : List Letter) : SetWithWildcards :=
  if hasWildCards symbol then { set with fWildCard := set.fWildCard ++ [symbol] }
  else { set with fRegular := symbol :: set.fRegular }

def matchAny (charIsSigned : Bool) (symbol : List Letter) : List (List Letter) → Option Bool
  | [] => some false
  | pattern :: rest => do
    if ← wildCardMatch charIsSigned pattern (some symbol) then some true
    else matchAny charIsSigned symbol rest

def contains (charIsSigned : Bool) (set : SetWithWildcards) (symbol : List Letter) : Option Bool :=
  if symbol ∈ set.fRegular then some true
  else matchAny charIsSigned symbol set.fWildCard

end SetWithWildcards

/-! ## Patterns -/

namespace Wildcards

/-- What stands between brackets. -/
structure ClassText where
  letters : List Letter
  notClose : ∀ x ∈ letters, x ≠ chClose
  deriving DecidableEq

structure Literal where
  letter : Letter
  plain : letter ≠ chStar ∧ letter ≠ chQuestion ∧ letter ≠ chOpen
  deriving DecidableEq

/-- The elements of a pattern that stand for one character. -/
inductive Single where
  | literal (c : Literal)
  | question
  | charClass (text : ClassText)
  deriving DecidableEq

abbrev Pattern := List (Glob.Elem Single)

def Single.render : Single → List Letter
  | .literal c => [c.letter]
  | .question => [chQuestion]
  | .charClass text => chOpen :: text.letters ++ [chClose]

def renderElem : Glob.Elem Single → List Letter
  | .star => [chStar]
  | .one e => e.render

def render (p : Pattern) : List Letter := p.flatMap renderElem

/-- The ranges that are written: `x-y`, or a character by itself, from the left. -/
def written : List Letter → List (UInt8 × UInt8)
  | [] => []
  | [x] => [(x.val, x.val)]
  | [x, y] => [(x.val, x.val), (y.val, y.val)]
  | x :: d :: y :: rest =>
    if d = chDash then (x.val, y.val) :: written rest
    else (x.val, x.val) :: written (d :: y :: rest)

def Within (c : UInt8) (ranges : List (UInt8 × UInt8)) : Prop :=
  ∃ r ∈ ranges, r.1 ≤ c ∧ c ≤ r.2

def listed (ranges : List (UInt8 × UInt8)) : Set Letter := { c | Within c.val ranges }

def Single.denotes : Single → Set Letter
  | .literal c => {c.letter}
  | .question => Set.univ
  | .charClass text => listed (written text.letters)

def lang (p : Pattern) : Language Letter := Glob.lang Single.denotes p

/-- A character by itself is seen unless it is negative as a `char`. -/
def seen (charIsSigned : Bool) (x : Letter) : List (UInt8 × UInt8) :=
  if charIsSigned ∧ 0x80 ≤ x.val then [] else [(x.val, x.val)]

/-- The ranges as the scanner reads them: `-` makes one of the last character before it that
was not left out (the NUL if there is none) and the next, and leaves out the one after that. -/
def asScanned (charIsSigned : Bool) : UInt8 → List Letter → List (UInt8 × UInt8)
  | _, [] => []
  | last, x :: rest =>
    if x = chDash then
      match rest with
      | [] => [(last, chClose.val)]
      | [next] => [(last, next.val)]
      | next :: _ :: rest => (last, next.val) :: asScanned charIsSigned last rest
    else seen charIsSigned x ++ asScanned charIsSigned x.val rest

def Single.scanned (charIsSigned : Bool) : Single → Set Letter
  | .charClass text => listed (asScanned charIsSigned 0 text.letters)
  | e => e.denotes

/-- A class in which the terminator is found too. -/
def Single.ListsNul : Single → Prop
  | .charClass text => text.letters.head? = some chDash
  | _ => False

/-- Such a class is not met at the end of a symbol; `before` says that something is left. -/
def Safe (charIsSigned : Bool) : (before : Bool) → Pattern → Prop
  | _, [] => True
  | _, .star :: p => Safe charIsSigned true p
  | before, .one e :: p =>
    (before = false → ¬ e.ListsNul) ∧
      ((e.scanned charIsSigned).Nonempty → Safe charIsSigned false p)

end Wildcards
/-! ## What the matcher accepts -/

namespace Wildcards

def Answers (r : Option Bool) (P : Prop) : Prop := ∃ b, r = some b ∧ (b = true ↔ P)

variable {r : Option Bool} {P Q : Prop}

theorem Answers.congr (h : Answers r P) (hiff : P ↔ Q) : Answers r Q := by
  obtain ⟨b, hr, hb⟩ := h
  exact ⟨b, hr, hb.trans hiff⟩

theorem answers_no (h : ¬ P) : Answers (some false) P :=
  ⟨false, rfl, by simp only [Bool.false_eq_true, h]⟩

theorem answers_yes (h : P) : Answers (some true) P :=
  ⟨true, rfl, by simp only [h]⟩

theorem Answers.or_else {r' : Option Bool} (h : Answers r P) (h' : Answers r' Q) :
    Answers (do if ← r then some true else r') (P ∨ Q) := by
  obtain ⟨b, hr, hb⟩ := h
  rw [hr]
  cases b with
  | true => exact answers_yes (Or.inl (hb.mp rfl))
  | false =>
    have hP : ¬ P := fun hP => Bool.false_ne_true (hb.mpr hP)
    apply h'.congr
    exact (or_iff_right hP).symm

section Classes
variable (charIsSigned : Bool) (c : UInt8)

theorem charToInt_eq (x : Letter) :
    charToInt charIsSigned x.val = c.toNat ↔ Within c (seen charIsSigned x) := by
  unfold charToInt seen
  split
  · constructor
    · intro h
      have hx := UInt8.toNat_lt x.val
      omega
    · intro ⟨r, hr, _⟩
      cases hr
  · rw [Int.natCast_inj, UInt8.toNat_inj]
    constructor
    · intro h
      exact ⟨_, mem_singleton_self _, UInt8.le_of_eq h, UInt8.le_of_eq h.symm⟩
    · intro ⟨r, hr, hle, hge⟩
      obtain rfl := List.mem_singleton.mp hr
      exact UInt8.le_antisymm hle hge

theorem within_append {ranges more : List (UInt8 × UInt8)} :
    Within c (ranges ++ more) ↔ Within c ranges ∨ Within c more := by
  simp only [Within, mem_append, or_and_right, exists_or]

theorem within_cons {r : UInt8 × UInt8} {ranges : List (UInt8 × UInt8)} :
    Within c (r :: ranges) ↔ (r.1 ≤ c ∧ c ≤ r.2) ∨ Within c ranges := by
  simp only [Within, mem_cons, exists_eq_or_imp]

theorem scanRanges_iff (last : UInt8) (text : List Letter) :
    scanRanges charIsSigned c last text = true ↔ Within c (asScanned charIsSigned last text) := by
  fun_induction asScanned charIsSigned last text with
  | case1 last => simp [scanRanges, Within]
  | case2 last => simp [scanRanges, Within]
  | case3 last next => simp [scanRanges, Within]
  | case4 last next y rest ih =>
    rw [scanRanges.eq_def]
    simp only [if_true, Bool.or_eq_true, Bool.and_eq_true, decide_eq_true_iff]
    rw [ih, within_cons]
  | case5 last x rest hx ih =>
    rw [scanRanges.eq_def]
    simp only [if_neg hx, Bool.or_eq_true, decide_eq_true_iff]
    rw [ih, charToInt_eq, within_append]

theorem not_within_zero (last : UInt8) (text : List Letter) (hlast : last ≠ 0) :
    ¬ Within 0 (asScanned charIsSigned last text) := by
  have hnot : ∀ x : UInt8, x ≠ 0 → ¬ x ≤ 0 := fun x hx hle => hx (UInt8.le_zero_iff.mp hle)
  fun_induction asScanned charIsSigned last text with
  | case1 last => simp [Within]
  | case2 last => simp [Within, hlast]
  | case3 last next => simp [Within, hlast]
  | case4 last next y rest ih =>
    rw [within_cons, not_or]
    exact ⟨fun h => hnot last hlast h.1, ih hlast⟩
  | case5 last x rest hx ih =>
    rw [within_append, not_or]
    refine ⟨?_, ih x.property⟩
    intro ⟨r, hr, hle, _⟩
    unfold seen at hr
    split at hr
    · cases hr
    · obtain rfl := List.mem_singleton.mp hr
      exact hnot x.val x.property hle

theorem within_zero_iff (text : List Letter) :
    Within 0 (asScanned charIsSigned 0 text) ↔ text.head? = some chDash := by
  cases text with
  | nil => simp [asScanned, Within]
  | cons x rest =>
    rw [head?_cons, Option.some.injEq, asScanned.eq_def]
    dsimp only
    by_cases hx : x = chDash
    · rw [if_pos hx]
      refine ⟨fun _ => hx, fun _ => ?_⟩
      split
      · exact ⟨_, mem_cons_self, UInt8.le_refl 0, UInt8.zero_le⟩
      · exact ⟨_, mem_cons_self, UInt8.le_refl 0, UInt8.zero_le⟩
      · exact ⟨_, mem_cons_self, UInt8.le_refl 0, UInt8.zero_le⟩
    · rw [if_neg hx, within_append]
      refine ⟨?_, fun h => absurd h hx⟩
      rintro (⟨r, hr, hle, _⟩ | h)
      · unfold seen at hr
        split at hr
        · cases hr
        · obtain rfl := List.mem_singleton.mp hr
          exact absurd (UInt8.le_zero_iff.mp hle) x.property
      · exact absurd h (not_within_zero charIsSigned x.val rest x.property)

theorem inCharRange_render (text : ClassText) (p : List Letter) :
    inCharRange charIsSigned (text.letters ++ chClose :: p) c =
      (scanRanges charIsSigned c 0 text.letters, chClose :: p) := by
  have hbefore : ∀ x ∈ text.letters, decide (x ≠ chClose) = true :=
    fun x hx => decide_eq_true (text.notClose x hx)
  have hdrop : (chClose :: p).dropWhile (fun x => decide (x ≠ chClose)) = chClose :: p :=
    dropWhile_cons_of_neg (by decide)
  have htake : (chClose :: p).takeWhile (fun x => decide (x ≠ chClose)) = [] :=
    takeWhile_cons_of_neg (by decide)
  unfold inCharRange
  rw [dropWhile_append_of_pos hbefore, takeWhile_append_of_pos hbefore, hdrop, htake,
    append_nil]

end Classes

variable (charIsSigned : Bool)

theorem wildCardMatch_class_end (text : ClassText) (p : List Letter) :
    wildCardMatch charIsSigned ((Single.charClass text).render ++ p) (some []) =
      if scanRanges charIsSigned 0 0 text.letters then wildCardMatch charIsSigned p none
      else some false := by
  rw [Single.render, cons_append, cons_append, append_assoc, wildCardMatch,
    if_neg (by decide), if_neg (by decide), if_pos rfl]
  simp only [deref, Option.bind_eq_bind, Option.bind_some, singleton_append, inCharRange_render,
    tail_cons, advance]

theorem wildCardMatch_one_end (e : Single) (p : List Letter) (he : ¬ e.ListsNul) :
    wildCardMatch charIsSigned (e.render ++ p) (some []) = some false := by
  cases e with
  | literal ch =>
    rw [Single.render, cons_append, wildCardMatch, if_neg ch.plain.1, if_neg ch.plain.2.1,
      if_neg ch.plain.2.2]
    exact if_pos ch.letter.property.symm
  | question =>
    rw [Single.render, cons_append, wildCardMatch, if_neg (by decide), if_pos rfl]
    rfl
  | charClass text =>
    rw [wildCardMatch_class_end]
    apply if_neg
    rwa [scanRanges_iff, within_zero_iff]

open Classical in
theorem wildCardMatch_one (e : Single) (p : List Letter) (c : Letter) (s : List Letter) :
    wildCardMatch charIsSigned (e.render ++ p) (some (c :: s)) =
      if c ∈ e.scanned charIsSigned then wildCardMatch charIsSigned p (some s)
      else some false := by
  cases e with
  | literal ch =>
    rw [Single.render, cons_append, wildCardMatch, if_neg ch.plain.1, if_neg ch.plain.2.1,
      if_neg ch.plain.2.2, Single.scanned, Single.denotes]
    · simp only [deref, Option.bind_eq_bind, Option.bind_some, ne_eq, Subtype.val_inj, ite_not,
        advance, nil_append, Set.mem_singleton_iff]
    · intro text h
      cases h
  | question =>
    rw [Single.render, cons_append, wildCardMatch, if_neg (by decide), if_pos rfl,
      Single.scanned, Single.denotes, if_pos (Set.mem_univ c)]
    · exact if_neg c.property
    · intro text h
      cases h
  | charClass text =>
    rw [Single.render, cons_append, cons_append, append_assoc, wildCardMatch,
      if_neg (by decide), if_neg (by decide), if_pos rfl, Single.scanned]
    simp only [deref, Option.bind_eq_bind, Option.bind_some, singleton_append,
      inCharRange_render, tail_cons, advance]
    exact if_congr (scanRanges_iff charIsSigned c.val 0 text.letters) rfl rfl

theorem matchSomewhere_answers {matchRest : List Letter → Option Bool} {P : List Letter → Prop}
    (h : ∀ s, s ≠ [] → Answers (matchRest s) (P s)) (s : List Letter) :
    Answers (matchSomewhere matchRest s) (∃ t, t <:+ s ∧ t ≠ [] ∧ P t) := by
  induction s with
  | nil =>
    apply answers_no
    intro ⟨t, hsuffix, hne, _⟩
    exact hne (List.suffix_nil.mp hsuffix)
  | cons c s ih =>
    apply ((h (c :: s) (cons_ne_nil c s)).or_else ih).congr
    constructor
    · intro hor
      cases hor with
      | inl hP => exact ⟨c :: s, suffix_rfl, cons_ne_nil c s, hP⟩
      | inr hex =>
        obtain ⟨t, hsuffix, hne, hP⟩ := hex
        exact ⟨t, List.IsSuffix.trans hsuffix (suffix_cons c s), hne, hP⟩
    · intro ⟨t, hsuffix, hne, hP⟩
      cases List.suffix_cons_iff.mp hsuffix with
      | inl heq => exact Or.inl (heq ▸ hP)
      | inr htail => exact Or.inr ⟨t, htail, hne, hP⟩

theorem render_ne_nil (e : Glob.Elem Single) : renderElem e ≠ [] := by
  cases e with
  | star => exact cons_ne_nil _ _
  | one e => cases e <;> exact cons_ne_nil _ _

theorem wildCardMatch_answers {before : Bool} {p : Pattern} (hsafe : Safe charIsSigned before p)
    (s : List Letter) (hs : before = true → s ≠ []) :
    Answers (wildCardMatch charIsSigned (render p) (some s))
      (Glob.Accepts (Single.scanned charIsSigned) p s) := by
  induction p generalizing before s with
  | nil =>
    rw [render, flatMap_nil, wildCardMatch]
    cases s with
    | nil => exact answers_yes rfl
    | cons c s =>
      have hc : (c.val == 0) = false := beq_eq_false_iff_ne.mpr c.property
      rw [deref, Option.map_some, hc]
      exact answers_no (cons_ne_nil c s)
  | cons e p ih =>
    rw [render, flatMap_cons]
    cases e with
    | star =>
      rw [renderElem, singleton_append, wildCardMatch, if_pos rfl]
      cases p with
      | nil =>
        exact answers_yes trivial
      | cons e p =>
        have hne : (e :: p).flatMap renderElem ≠ [] := by
          exact fun h => render_ne_nil e (List.append_eq_nil_iff.mp h).1
        rw [if_neg hne]
        exact matchSomewhere_answers (fun t ht => ih hsafe t fun _ => ht) s
    | one e =>
      rw [renderElem]
      obtain ⟨hnul, hrest⟩ := hsafe
      cases s with
      | nil =>
        have hbefore : before = false := Bool.eq_false_iff.mpr fun h => hs h rfl
        rw [wildCardMatch_one_end charIsSigned e _ (hnul hbefore)]
        apply answers_no
        intro h
        obtain ⟨x, _, v, _, h⟩ := h
        cases h
      | cons c s =>
        rw [wildCardMatch_one]
        split
        · rename_i hc
          apply (ih (hrest ⟨c, hc⟩) s fun h => nomatch h).congr
          constructor
          · intro h
            exact ⟨c, hc, s, h, rfl⟩
          · intro h
            obtain ⟨x, _, v, hv, heq⟩ := h
            cases heq
            exact hv
        · rename_i hc
          apply answers_no
          intro h
          obtain ⟨x, hx, v, _, heq⟩ := h
          cases heq
          exact hc hx

/-- Past the terminator the matcher reads on, or is content with a last star. -/
theorem wildCardMatch_past (p : Pattern) : wildCardMatch charIsSigned (render p) none = none ∨
    wildCardMatch charIsSigned (render p) none = some true := by
  cases p with
  | nil =>
    left
    rw [render, flatMap_nil, wildCardMatch]
    rfl
  | cons e p =>
    rw [render, flatMap_cons]
    cases e with
    | star =>
      rw [renderElem, singleton_append, wildCardMatch, if_pos rfl]
      split
      · exact Or.inr rfl
      · exact Or.inl rfl
    | one e =>
      left
      cases e with
      | literal ch =>
        rw [renderElem, Single.render, cons_append, wildCardMatch, if_neg ch.plain.1,
          if_neg ch.plain.2.1, if_neg ch.plain.2.2]
        rfl
      | question =>
        rw [renderElem, Single.render, cons_append, wildCardMatch, if_neg (by decide), if_pos rfl]
        rfl
      | charClass text =>
        rw [renderElem, Single.render, cons_append, cons_append, wildCardMatch,
          if_neg (by decide), if_neg (by decide), if_pos rfl]
        rfl

/-- A pattern that is not safe is read past the end of a symbol that is too short for it. -/
theorem exists_past {before : Bool} {p : Pattern} (hsafe : ¬ Safe charIsSigned before p) :
    ∃ s : List Letter, (before = true → s ≠ []) ∧ s.length < (Glob.core Single.denotes p).length ∧
      (wildCardMatch charIsSigned (render p) (some s) = none ∨
        wildCardMatch charIsSigned (render p) (some s) = some true) := by
  induction p generalizing before with
  | nil => exact absurd trivial hsafe
  | cons e p ih =>
    rw [render, flatMap_cons]
    cases e with
    | star =>
      obtain ⟨s, hne, hlength, hpast⟩ := ih hsafe
      refine ⟨s, fun _ => hne rfl, hlength, ?_⟩
      rw [renderElem, singleton_append, wildCardMatch, if_pos rfl]
      have hp : p.flatMap renderElem ≠ [] := by
        intro hnil
        cases p with
        | nil => exact hsafe trivial
        | cons e p => exact render_ne_nil e (List.append_eq_nil_iff.mp hnil).1
      rw [if_neg hp, Option.bind_some]
      cases s with
      | nil => exact absurd rfl (hne rfl)
      | cons c s =>
        rw [matchSomewhere]
        exact hpast.imp (fun h => by rw [← render, h]; rfl) fun h => by rw [← render, h]; rfl
    | one e =>
      rw [renderElem]
      by_cases hnul : before = false ∧ e.ListsNul
      · refine ⟨[], fun h => absurd (h.symm.trans hnul.1) (by decide), Nat.succ_pos _, ?_⟩
        cases e with
        | literal ch => exact absurd hnul.2 id
        | question => exact absurd hnul.2 id
        | charClass text =>
          rw [wildCardMatch_class_end, if_pos]
          · exact wildCardMatch_past charIsSigned p
          · rw [scanRanges_iff, within_zero_iff]
            exact hnul.2
      · have hrest : ¬ ((e.scanned charIsSigned).Nonempty → Safe charIsSigned false p) :=
          fun h => hsafe ⟨fun hb he => hnul ⟨hb, he⟩, h⟩
        obtain ⟨⟨c, hc⟩, hrest⟩ := Classical.not_imp.mp hrest
        obtain ⟨s, _, hlength, hpast⟩ := ih hrest
        refine ⟨c :: s, fun _ => cons_ne_nil c s, Nat.succ_lt_succ hlength, ?_⟩
        rw [wildCardMatch_one, if_pos hc]
        exact hpast

def ReadAsWritten (p : Pattern) : Prop :=
  ¬ Glob.EndsInTwoStars p ∧ ∀ text, .one (.charClass text) ∈ p →
    listed (asScanned charIsSigned 0 text.letters) = listed (written text.letters)

/-- A class that is read as listing nothing keeps everything out, and so does a class that
lists nothing. -/
def MatchesNothing (p : Pattern) : Prop :=
  (∃ text, .one (.charClass text) ∈ p ∧ listed (asScanned charIsSigned 0 text.letters) = ∅) ∧
    ∃ text, .one (.charClass text) ∈ p ∧ listed (written text.letters) = ∅

theorem exists_empty_iff {p : Pattern} {read : ClassText → Set Letter}
    {D : Single → Set Letter} (hclass : ∀ text, D (.charClass text) = read text)
    (hother : ∀ e, (∀ text, e ≠ .charClass text) → (D e).Nonempty) :
    (∃ e, .one e ∈ p ∧ D e = ∅) ↔ ∃ text, .one (.charClass text) ∈ p ∧ read text = ∅ := by
  constructor
  · intro ⟨e, he, hempty⟩
    by_cases htext : ∃ text, e = .charClass text
    · obtain ⟨text, rfl⟩ := htext
      exact ⟨text, he, hclass text ▸ hempty⟩
    · have hne := hother e (fun text h => htext ⟨text, h⟩)
      exact absurd (hempty ▸ hne) Set.not_nonempty_empty
  · intro ⟨text, hmem, hempty⟩
    exact ⟨.charClass text, hmem, (hclass text).trans hempty⟩

theorem denotes_nonempty (e : Single) (h : ∀ text, e ≠ .charClass text) : e.denotes.Nonempty := by
  cases e with
  | literal c => exact ⟨c.letter, rfl⟩
  | question => exact ⟨default, Set.mem_univ _⟩
  | charClass text => exact absurd rfl (h text)

theorem scanned_of_not_class (e : Single) (h : ∀ text, e ≠ .charClass text) :
    e.scanned charIsSigned = e.denotes := by
  cases e with
  | literal c => rfl
  | question => rfl
  | charClass text => exact absurd rfl (h text)

theorem accepts_iff_lang (p : Pattern) :
    (∀ s, Glob.Accepts (Single.scanned charIsSigned) p s ↔ s ∈ lang p) ↔
      ReadAsWritten charIsSigned p ∨ MatchesNothing charIsSigned p := by
  unfold lang
  rw [Glob.accepts_iff_mem_lang]
  apply or_congr
  · apply and_congr_right'
    constructor
    · intro h text htext
      exact h (.charClass text) htext
    · intro h e he
      cases e with
      | charClass text => exact h text he
      | literal c => rfl
      | question => rfl
  · apply and_congr
    · apply exists_empty_iff (fun _ => rfl)
      intro e he
      rw [scanned_of_not_class charIsSigned e he]
      exact denotes_nonempty e he
    · exact exists_empty_iff (fun _ => rfl) denotes_nonempty

theorem Answers.unique (h : Answers r P) (h' : Answers r Q) : P ↔ Q := by
  obtain ⟨b, hr, hb⟩ := h
  obtain ⟨b', hr', hb'⟩ := h'
  cases hr.symm.trans hr'
  exact hb.symm.trans hb'

theorem wildCardMatch_iff (p : Pattern) :
    (∀ s, Answers (wildCardMatch charIsSigned (render p) (some s)) (s ∈ lang p)) ↔
      Safe charIsSigned false p ∧ (ReadAsWritten charIsSigned p ∨ MatchesNothing charIsSigned p) := by
  rw [← accepts_iff_lang]
  constructor
  · intro h
    have hsafe : Safe charIsSigned false p := by
      by_contra hsafe
      obtain ⟨s, _, hlength, hpast⟩ := exists_past charIsSigned hsafe
      have hout : s ∉ lang p := fun hs => absurd (Glob.length_le_of_mem_lang hs) (by omega)
      obtain ⟨b, hb, hmem⟩ := h s
      rcases hpast with hnone | htrue
      · cases hnone.symm.trans hb
      · cases htrue.symm.trans hb
        exact hout (hmem.mp rfl)
    exact ⟨hsafe, fun s => (wildCardMatch_answers charIsSigned hsafe s fun h => nomatch h).unique (h s)⟩
  · intro ⟨hsafe, h⟩ s
    exact (wildCardMatch_answers charIsSigned hsafe s fun h => nomatch h).congr (h s)

end Wildcards

namespace SetWithWildcards
open Wildcards
variable (charIsSigned : Bool)

def insertAll (symbols : List (List Letter)) : SetWithWildcards := symbols.foldl insert {}

theorem foldl_insert (symbols : List (List Letter)) (set : SetWithWildcards) :
    symbols.foldl insert set =
      { fRegular := (symbols.filter fun s => !hasWildCards s).reverse ++ set.fRegular
        fWildCard := set.fWildCard ++ symbols.filter hasWildCards } := by
  induction symbols generalizing set with
  | nil => simp only [foldl_nil, filter_nil, reverse_nil, nil_append,
      append_nil]
  | cons s symbols ih =>
    rw [foldl_cons, ih, insert]
    cases hs : hasWildCards s with
    | true => simp [hs]
    | false => simp [hs]

theorem mem_fRegular_insertAll {symbols : List (List Letter)} {s : List Letter} :
    s ∈ (insertAll symbols).fRegular ↔ s ∈ symbols ∧ hasWildCards s = false := by
  rw [insertAll, foldl_insert]
  simp only [append_nil, mem_reverse, mem_filter, Bool.not_eq_true']

theorem fWildCard_insertAll (symbols : List (List Letter)) :
    (insertAll symbols).fWildCard = symbols.filter hasWildCards := by
  rw [insertAll, foldl_insert, nil_append]

theorem matchAny_answers {symbol : List Letter} {P : List Letter → Prop}
    {patterns : List (List Letter)}
    (h : ∀ p ∈ patterns, Answers (wildCardMatch charIsSigned p (some symbol)) (P p)) :
    Answers (matchAny charIsSigned symbol patterns) (∃ p ∈ patterns, P p) := by
  induction patterns with
  | nil =>
    apply answers_no
    intro ⟨p, hp, _⟩
    cases hp
  | cons p patterns ih =>
    have hrest := ih (fun q hq => h q (mem_cons_of_mem p hq))
    apply ((h p mem_cons_self).or_else hrest).congr
    simp only [mem_cons, exists_eq_or_imp]

/-- `s` was inserted as it is, or a pattern that was inserted denotes it. -/
def Means (inserted : List Pattern) (s : List Letter) : Prop :=
  (∃ p ∈ inserted, hasWildCards (render p) = false ∧ s = render p) ∨
    ∃ p ∈ inserted, hasWildCards (render p) = true ∧ s ∈ lang p

theorem contains_answers {inserted : List Pattern} {s : List Letter}
    (h : ∀ p ∈ inserted, hasWildCards (render p) = true →
      Answers (wildCardMatch charIsSigned (render p) (some s)) (s ∈ lang p)) :
    Answers (contains charIsSigned (insertAll (inserted.map render)) s) (Means inserted s) := by
  unfold contains
  by_cases hregular : s ∈ (insertAll (inserted.map render)).fRegular
  · rw [if_pos hregular]
    obtain ⟨hmem, hplain⟩ := mem_fRegular_insertAll.mp hregular
    obtain ⟨p, hp, rfl⟩ := List.mem_map.mp hmem
    exact answers_yes (Or.inl ⟨p, hp, hplain, rfl⟩)
  rw [if_neg hregular, fWildCard_insertAll]
  have hmatch : ∀ q ∈ (inserted.map render).filter hasWildCards,
      Answers (wildCardMatch charIsSigned q (some s))
        (∃ p ∈ inserted, render p = q ∧ hasWildCards q = true ∧ s ∈ lang p) := by
    intro q hq
    obtain ⟨hq, hwild⟩ := List.mem_filter.mp hq
    obtain ⟨p, hp, rfl⟩ := List.mem_map.mp hq
    have hanswer := h p hp hwild
    apply hanswer.congr
    constructor
    · intro hs
      exact ⟨p, hp, rfl, hwild, hs⟩
    · intro ⟨p', hp', heq, _, hs⟩
      -- two patterns written alike are answered alike
      have hanswer' := h p' hp' (heq ▸ hwild)
      rw [heq] at hanswer'
      exact (hanswer'.unique hanswer).mp hs
  apply (matchAny_answers charIsSigned hmatch).congr
  constructor
  · intro ⟨q, _, p, hp, hq, hwild, hs⟩
    exact Or.inr ⟨p, hp, hq ▸ hwild, hs⟩
  · intro hmeans
    cases hmeans with
    | inl hplain =>
      obtain ⟨p, hp, hwild, rfl⟩ := hplain
      exact absurd (mem_fRegular_insertAll.mpr ⟨mem_map_of_mem hp, hwild⟩) hregular
    | inr hpattern =>
      obtain ⟨p, hp, hwild, hs⟩ := hpattern
      exact ⟨render p, List.mem_filter.mpr ⟨mem_map_of_mem hp, hwild⟩, p, hp, rfl, hwild, hs⟩

/-- The matcher decides the language of a pattern, reading no character past the
terminator, exactly when no class that the terminator is found in is met there and the pattern
is read as it is written or nothing can match it either way; and then the set contains what
its patterns mean. -/
theorem wildcards_iff : (∀ p : Pattern,
      (∀ s, Answers (wildCardMatch charIsSigned (render p) (some s)) (s ∈ lang p)) ↔
        Safe charIsSigned false p ∧
          (ReadAsWritten charIsSigned p ∨ MatchesNothing charIsSigned p)) ∧
    ∀ inserted : List Pattern,
      (∀ p ∈ inserted, hasWildCards (render p) = true → Safe charIsSigned false p ∧
        (ReadAsWritten charIsSigned p ∨ MatchesNothing charIsSigned p)) →
      ∀ s, Answers (contains charIsSigned (insertAll (inserted.map render)) s)
        (Means inserted s) := by
  refine ⟨wildCardMatch_iff charIsSigned, ?_⟩
  intro inserted hread s
  apply contains_answers
  intro p hp hwild
  exact (wildCardMatch_iff charIsSigned p).mpr (hread p hp hwild) s

theorem wildcards_iff_prefixed :
    let text : ClassText := ⟨[⟨0x41, by decide⟩, chDash, ⟨0x5A, by decide⟩], by simp [chDash, chClose]⟩
    let p : Pattern := [.one (.charClass text), .star]
    ∀ s, Answers (contains true (insertAll [render p]) s) (Means [p] s) := by
  intro text p
  apply (wildcards_iff true).2 [p]
  intro q hq _
  rw [mem_singleton] at hq
  subst hq
  refine ⟨⟨fun _ h => absurd (Option.some.inj h) (by decide), fun _ => trivial⟩,
    Or.inl ⟨by decide, ?_⟩⟩
  intro text' htext
  have htext : text' = text := by
    simpa [p] using htext
  subst htext
  ext c
  constructor
  · intro ⟨r, hr, hc⟩
    refine ⟨(0x41, 0x5A), mem_singleton_self _, ?_⟩
    obtain rfl | rfl := List.mem_pair.mp hr
    · exact ⟨hc.1, UInt8.le_trans hc.2 (by decide)⟩
    · exact hc
  · intro ⟨r, hr, hc⟩
    obtain rfl := List.mem_singleton.mp hr
    exact ⟨_, mem_cons_of_mem _ (mem_singleton_self _), hc⟩

/-- `_[a-zA-Z]*` and `_Bar`: the capital after the first range is passed over, and the second
range begins at `a`. `[-a]` finds the terminator of the empty symbol and reads on. -/
theorem two_ranges_miss_capitals :
    let text : ClassText := ⟨[⟨0x61, by decide⟩, chDash, ⟨0x7A, by decide⟩,
      ⟨0x41, by decide⟩, chDash, ⟨0x5A, by decide⟩], by simp [chDash, chClose]⟩
    let p : Pattern :=
      [.one (.literal ⟨⟨0x5F, by decide⟩, by decide⟩), .one (.charClass text), .star]
    let s : List Letter :=
      [⟨0x5F, by decide⟩, ⟨0x42, by decide⟩, ⟨0x61, by decide⟩, ⟨0x72, by decide⟩]
    let dashed : Pattern := [.one (.charClass ⟨[chDash, ⟨0x61, by decide⟩], by simp [chDash, chClose]⟩)]
    s ∈ lang p ∧ wildCardMatch true (render p) (some s) = some false ∧
      contains true (insertAll [render p]) s = some false ∧
      wildCardMatch true (render dashed) (some []) = none := by
  intro text p s dashed
  refine ⟨?_, by decide +kernel, by decide +kernel, by decide +kernel⟩
  apply (Glob.mem_lang_one _ _ _ _).mpr
  refine ⟨_, rfl, s.tail, ?_, rfl⟩
  apply (Glob.mem_lang_one _ _ _ _).mpr
  refine ⟨⟨0x42, by decide⟩, ?_, s.tail.tail, ?_, rfl⟩
  · exact ⟨(0x41, 0x5A), mem_cons_of_mem _ (mem_singleton_self _), by decide, by decide⟩
  · apply (Glob.mem_lang_star _ _ _).mpr
    exact ⟨[], (Glob.mem_lang_nil _ _).mpr rfl, nil_suffix⟩

end SetWithWildcards
end Toolwhip.Ld64
