import Toolwhip.Lib.CNumber
import Toolwhip.Lib.TextLines

/-! # Options::parseAliasFile -/

namespace Toolwhip.Ld64.AliasFile
set_option autoImplicit false

open Lib.CNumber Lib.TextLines List

inductive ScanState where
  | lineStart | inRealName | inBetween | inAliasName | inComment
  deriving DecidableEq

structure AliasPair where
  realName : List UInt8
  aliasName : List UInt8
  deriving DecidableEq

/-- The names of `pair` are what has been read since their first characters. -/
structure Scan where
  state : ScanState := .lineStart
  realName : List UInt8 := []
  aliasName : List UInt8 := []
  lineNumber : Nat := 1
  fAliases : List AliasPair := []
  warnings : List Nat := []

def cString (name : List UInt8) : List UInt8 := name.takeWhile (· ≠ 0)

def finish (realName aliasName : List UInt8) : AliasPair :=
  ⟨cString realName, cString (aliasName.rdropWhile isspace)⟩

def Scan.oneSymbol (s : Scan) : Scan :=
  { s with
    warnings := s.warnings ++ [s.lineNumber]
    lineNumber := s.lineNumber + 1
    state := .lineStart }

def step (s : Scan) (c : UInt8) : Scan :=
  match s.state with
  | .lineStart =>
    if c = 35 then { s with state := .inComment }
    else if !isspace c then
      { s with state := .inRealName, realName := [c] }
    else s
  | .inRealName =>
    if c = 10 then s.oneSymbol
    else if isspace c then { s with state := .inBetween }
    else { s with realName := s.realName ++ [c] }
  | .inBetween =>
    if c = 10 then s.oneSymbol
    else if !isspace c then
      { s with state := .inAliasName, aliasName := [c] }
    else s
  | .inAliasName =>
    if c = 35 then
      { s with fAliases := s.fAliases ++ [finish s.realName s.aliasName], state := .inComment }
    else if c = 10 then
      { s with fAliases := s.fAliases ++ [finish s.realName s.aliasName], state := .lineStart }
    else { s with aliasName := s.aliasName ++ [c] }
  | .inComment => if c = 10 then { s with state := .lineStart } else s

def parseAliasFile (contents : List UInt8) (fAliases : List AliasPair) : Scan :=
  (contents ++ [10]).foldl step { fAliases := fAliases }

section Stretches
variable {s : Scan} {w : List UInt8}

theorem foldl_same (h : ∀ c ∈ w, step s c = s) : w.foldl step s = s := by
  induction w with
  | nil => rfl
  | cons c w ih =>
    rw [foldl_cons, h c mem_cons_self]
    exact ih fun d hd => h d (mem_cons_of_mem c hd)

theorem foldl_lineStart (hs : s.state = .lineStart) (h : ∀ c ∈ w, isspace c = true) :
    w.foldl step s = s := by
  apply foldl_same
  intro c hc
  have hspace := h c hc
  have hhash : c ≠ 35 := by
    rintro rfl
    cases hspace
  simp [step, hs, hhash, hspace]

theorem foldl_inBetween (hs : s.state = .inBetween)
    (h : ∀ c ∈ w, isspace c = true ∧ c ≠ 10) : w.foldl step s = s := by
  apply foldl_same
  intro c hc
  simp [step, hs, h c hc]

theorem foldl_inComment (hs : s.state = .inComment) (h : ∀ c ∈ w, c ≠ 10) : w.foldl step s = s := by
  apply foldl_same
  intro c hc
  simp [step, hs, h c hc]

theorem foldl_inRealName (hs : s.state = .inRealName) (h : ∀ c ∈ w, isspace c = false) :
    w.foldl step s = { s with realName := s.realName ++ w } := by
  induction w generalizing s with
  | nil => simp
  | cons c w ih =>
    have hspace := h c mem_cons_self
    have hnewline : c ≠ 10 := by
      rintro rfl
      cases hspace
    have hstep : step s c = { s with realName := s.realName ++ [c] } := by
      simp [step, hs, hnewline, hspace]
    have hrest := fun d hd => h d (mem_cons_of_mem c hd)
    rw [foldl_cons, hstep, @ih { s with realName := s.realName ++ [c] } hs hrest]
    simp

theorem foldl_inAliasName (hs : s.state = .inAliasName) (h : ∀ c ∈ w, c ≠ 35 ∧ c ≠ 10) :
    w.foldl step s = { s with aliasName := s.aliasName ++ w } := by
  induction w generalizing s with
  | nil => simp
  | cons c w ih =>
    have hstep : step s c = { s with aliasName := s.aliasName ++ [c] } := by
      simp [step, hs, h c mem_cons_self]
    have hrest := fun d hd => h d (mem_cons_of_mem c hd)
    rw [foldl_cons, hstep, @ih { s with aliasName := s.aliasName ++ [c] } hs hrest]
    simp

end Stretches

/-! ## The words of a line -/

def afterBlanks (line : List UInt8) : List UInt8 := line.dropWhile isspace

def firstWord (line : List UInt8) : List UInt8 := (afterBlanks line).takeWhile (!isspace ·)

def afterWord (line : List UInt8) : List UInt8 :=
  afterBlanks ((afterBlanks line).dropWhile (!isspace ·))

/-- There is a third word. -/
def MoreWords (line : List UInt8) : Prop :=
  ∃ c ∈ (afterWord line).rdropWhile isspace, isspace c = true

instance (line : List UInt8) : Decidable (MoreWords line) :=
  inferInstanceAs (Decidable (∃ c ∈ (afterWord line).rdropWhile isspace, isspace c = true))

def twoSymbols (line : List UInt8) : List AliasPair :=
  if afterWord line = [] ∨ MoreWords line then []
  else [finish (firstWord line) (afterWord line)]

def withoutComment (line : List UInt8) : List UInt8 := line.takeWhile (· ≠ 35)

def lineAliases (line : List UInt8) : List AliasPair := twoSymbols (withoutComment line)

def scannedAlias (realName : List UInt8) : List UInt8 → List AliasPair
  | [] => []
  | c :: rest => [finish realName (c :: rest.takeWhile (· ≠ 35))]

def scannedAliases (line : List UInt8) : List AliasPair :=
  if (afterBlanks line).head? = some 35 then []
  else
    scannedAlias (firstWord line) (afterWord line)

/-- From `s`, a text and a newline lead to the start of a line with more pairs. -/
structure Scanned (s : Scan) (text : List UInt8) (more : List AliasPair) : Prop where
  state : ((text ++ [10]).foldl step s).state = .lineStart
  aliases : ((text ++ [10]).foldl step s).fAliases = s.fAliases ++ more

section Line
variable {s : Scan} {line : List UInt8}

variable {rest : List UInt8}

theorem afterBlanks_head {c : UInt8} (h : afterBlanks line = c :: rest) : isspace c = false := by
  have hhead := head?_dropWhile_not isspace line
  unfold afterBlanks at h
  rw [h] at hhead
  simpa using hhead

theorem scan_comment (hs : s.state = .inComment) (h : 10 ∉ line) : Scanned s line [] := by
  have hline : ∀ c ∈ line, c ≠ 10 := fun c hc heq => h (heq ▸ hc)
  constructor <;> rw [foldl_append, foldl_inComment hs hline] <;> simp [step, hs]

theorem Scanned.append {t : Scan} {first rest : List UInt8} {more : List AliasPair}
    (h : Scanned t rest more) (hrun : first.foldl step s = t)
    (halias : t.fAliases = s.fAliases) : Scanned s (first ++ rest) more := by
  constructor
  · rw [append_assoc, foldl_append, hrun]
    exact h.state
  · rw [append_assoc, foldl_append, hrun, h.aliases, halias]

theorem scan_alias (hs : s.state = .inAliasName) (h : 10 ∉ rest) :
    Scanned s rest [finish s.realName (s.aliasName ++ rest.takeWhile (· ≠ 35))] := by
  have hword : ∀ c ∈ rest.takeWhile (· ≠ 35), c ≠ 35 ∧ c ≠ 10 := by
    intro c hc
    refine ⟨by simpa using mem_takeWhile_imp hc, ?_⟩
    rintro rfl
    exact h ((takeWhile_sublist _).subset hc)
  have hsplit := takeWhile_append_dropWhile (p := fun c : UInt8 => decide (c ≠ 35)) (l := rest)
  cases hrest : rest.dropWhile (· ≠ 35) with
  | nil =>
    rw [hrest, append_nil] at hsplit
    rw [hsplit] at hword ⊢
    constructor <;> rw [foldl_append, foldl_inAliasName hs hword] <;> simp [step, hs]
  | cons c comment =>
    have hc : c = 35 := by
      have hhead := head?_dropWhile_not (fun c : UInt8 => decide (c ≠ 35)) rest
      rw [hrest] at hhead
      simpa using hhead
    have hcomment : 10 ∉ comment := by
      intro hmem
      apply h
      rw [← hsplit, hrest]
      exact mem_append_right _ (mem_cons_of_mem c hmem)
    subst hc
    have hrun := foldl_inAliasName hs hword
    have hstate : (step ((rest.takeWhile (· ≠ 35)).foldl step s) 35).state = .inComment := by
      rw [hrun]
      simp [step, hs]
    have hdone := scan_comment hstate hcomment
    have htext : rest ++ [10] = rest.takeWhile (· ≠ 35) ++ 35 :: (comment ++ [10]) := by
      conv_lhs => rw [← hsplit, hrest]
      simp
    constructor
    · rw [htext, foldl_append, foldl_cons]
      exact hdone.state
    · rw [htext, foldl_append, foldl_cons, hdone.aliases, hrun]
      simp [step, hs]

theorem scan_between (hs : s.state = .inBetween) (h : 10 ∉ rest) :
    Scanned s rest (scannedAlias s.realName (afterBlanks rest)) := by
  have hblank : ∀ c ∈ rest.takeWhile isspace, isspace c = true ∧ c ≠ 10 := by
    intro c hc
    refine ⟨mem_takeWhile_imp hc, ?_⟩
    rintro rfl
    exact h ((takeWhile_sublist _).subset hc)
  have hsplit := takeWhile_append_dropWhile (p := isspace) (l := rest)
  have hrun := foldl_inBetween hs hblank
  cases hrest : afterBlanks rest with
  | nil =>
    unfold afterBlanks at hrest
    rw [hrest, append_nil] at hsplit
    rw [hsplit] at hrun
    constructor <;> rw [foldl_append, hrun] <;>
      simp [step, hs, Scan.oneSymbol, scannedAlias]
  | cons c aliasRest =>
    have hc := afterBlanks_head hrest
    have hnewline : c ≠ 10 := by
      rintro rfl
      cases hc
    unfold afterBlanks at hrest
    rw [hrest] at hsplit
    have hstep : step s c = { s with state := .inAliasName, aliasName := [c] } := by
      simp [step, hs, hc, hnewline]
    have haliasRest : 10 ∉ aliasRest := by
      intro hmem
      apply h
      rw [← hsplit]
      exact mem_append_right _ (mem_cons_of_mem c hmem)
    have hdone : Scanned s (c :: aliasRest) (scannedAlias s.realName (c :: aliasRest)) := by
      apply @Scanned.append s (step s c) [c] aliasRest _ _ rfl (by rw [hstep])
      rw [hstep]
      exact scan_alias rfl haliasRest
    rw [← hsplit]
    exact hdone.append hrun rfl

theorem scan_real (hs : s.state = .inRealName) (h : 10 ∉ rest) :
    Scanned s rest (scannedAlias (s.realName ++ rest.takeWhile (!isspace ·))
      (afterBlanks (rest.dropWhile (!isspace ·)))) := by
  have hword : ∀ c ∈ rest.takeWhile (!isspace ·), isspace c = false := by
    intro c hc
    simpa using mem_takeWhile_imp hc
  have hsplit := takeWhile_append_dropWhile (p := fun c => !isspace c) (l := rest)
  have hrun := foldl_inRealName hs hword
  cases hrest : rest.dropWhile (!isspace ·) with
  | nil =>
    rw [hrest, append_nil] at hsplit
    rw [hsplit] at hrun
    constructor <;> rw [foldl_append, hrun] <;>
      simp [step, hs, Scan.oneSymbol, scannedAlias, afterBlanks]
  | cons c after =>
    have hc : isspace c = true := by
      have hhead := head?_dropWhile_not (fun c => !isspace c) rest
      rw [hrest] at hhead
      simpa using hhead
    rw [hrest] at hsplit
    have hmem : c ∈ rest ∧ 10 ∉ after := by
      constructor
      · rw [← hsplit]
        exact mem_append_right _ mem_cons_self
      · intro hmem
        apply h
        rw [← hsplit]
        exact mem_append_right _ (mem_cons_of_mem c hmem)
    have hnewline : c ≠ 10 := fun heq => h (heq ▸ hmem.1)
    have hbetween : Scanned { s with realName := s.realName ++ rest.takeWhile (!isspace ·) }
        (c :: after) (scannedAlias (s.realName ++ rest.takeWhile (!isspace ·))
          (afterBlanks (c :: after))) := by
      have hstep : step { s with realName := s.realName ++ rest.takeWhile (!isspace ·) } c =
          { s with
            state := .inBetween
            realName := s.realName ++ rest.takeWhile (!isspace ·) } := by
        simp [step, hs, hc, hnewline]
      have hblanks : afterBlanks (c :: after) = afterBlanks after := by
        simp [afterBlanks, hc]
      rw [hblanks]
      apply @Scanned.append _ _ [c] after _ _ hstep rfl
      exact scan_between rfl hmem.2
    have hdone := hbetween.append hrun rfl
    rw [hsplit] at hdone
    exact hdone

theorem scan_line (hs : s.state = .lineStart) (h : 10 ∉ line) :
    Scanned s line (scannedAliases line) := by
  have hsplit := takeWhile_append_dropWhile (p := isspace) (l := line)
  have hrun := foldl_lineStart hs (fun c (hc : c ∈ line.takeWhile isspace) => mem_takeWhile_imp hc)
  unfold scannedAliases firstWord afterWord
  cases hbody : afterBlanks line with
  | nil =>
    unfold afterBlanks at hbody
    rw [hbody, append_nil] at hsplit
    rw [hsplit] at hrun
    constructor <;> rw [foldl_append, hrun] <;>
      simp [step, hs, scannedAlias, afterBlanks, isspace]
  | cons c rest =>
    have hc := afterBlanks_head hbody
    unfold afterBlanks at hbody
    rw [hbody] at hsplit
    have hrest : 10 ∉ rest := by
      intro hmem
      apply h
      rw [← hsplit]
      exact mem_append_right _ (mem_cons_of_mem c hmem)
    have hfirst : ∀ more, Scanned (step s c) rest more → (step s c).fAliases = s.fAliases →
        Scanned s line more := by
      intro more hmore halias
      have hdone : Scanned s (c :: rest) more := @Scanned.append s _ [c] rest _ hmore rfl halias
      have hline := hdone.append hrun rfl
      rw [hsplit] at hline
      exact hline
    by_cases hhash : c = 35
    · subst hhash
      apply hfirst
      · exact scan_comment (by simp [step, hs]) hrest
      · simp [step, hs]
    have hne : ¬ (c :: rest).head? = some 35 := by simpa using hhash
    have hstep : step s c = { s with state := .inRealName, realName := [c] } := by
      simp [step, hs, hhash, hc]
    rw [if_neg hne, takeWhile_cons_of_pos (by simp [hc]),
      dropWhile_cons_of_pos (by simp [hc])]
    apply hfirst
    · rw [hstep]
      exact scan_real rfl hrest
    · rw [hstep]

end Line
section File
variable {contents : List UInt8}

def fileLines (contents : List UInt8) : List (List UInt8) :=
  (lines 10 contents).map fun line => line.takeWhile (· ≠ 10)

theorem takeWhile_line {line : List UInt8} (h : 10 ∉ line) :
    line.takeWhile (· ≠ 10) = line ∧ (line ++ [10]).takeWhile (· ≠ 10) = line := by
  have hall : ∀ c ∈ line, decide (c ≠ 10) = true := by
    intro c hc
    apply decide_eq_true
    rintro rfl
    exact h hc
  constructor
  · exact List.takeWhile_eq_self_iff.mpr hall
  · rw [takeWhile_append_of_pos hall]
    simp

theorem fileLines_append {line rest : List UInt8} (h : 10 ∉ line) :
    fileLines (line ++ 10 :: rest) = line :: fileLines rest := by
  unfold fileLines
  rw [lines_append h, map_cons, (takeWhile_line h).2]

theorem fileLines_last {line : List UInt8} (h : 10 ∉ line) (hne : line ≠ []) :
    fileLines line = [line] := by
  unfold fileLines
  rw [lines_of_not_mem hne h, map_singleton, (takeWhile_line h).1]

theorem scan_file {s : Scan} (hs : s.state = .lineStart) :
    Scanned s contents ((fileLines contents).flatMap scannedAliases) := by
  induction contents using line_induction (10 : UInt8) generalizing s with
  | last line h =>
    have hline := scan_line hs h
    by_cases hne : line = []
    · rw [hne] at hline ⊢
      exact hline
    · rw [fileLines_last h hne, flatMap_singleton]
      exact hline
  | line line rest h ih =>
    have hline := scan_line hs h
    have hrest := ih hline.state
    have htext : line ++ 10 :: rest ++ [10] = (line ++ [10]) ++ (rest ++ [10]) := by simp
    rw [fileLines_append h, flatMap_cons]
    constructor
    · rw [htext, foldl_append]
      exact hrest.state
    · rw [htext, foldl_append, hrest.aliases, hline.aliases, append_assoc]

theorem parseAliasFile_aliases (fAliases : List AliasPair) :
    (parseAliasFile contents fAliases).fAliases =
      fAliases ++ (fileLines contents).flatMap scannedAliases :=
  (@scan_file contents { fAliases := fAliases } rfl).aliases

def OnePairPerLine (contents : List UInt8) : Prop :=
  ∀ fAliases, (parseAliasFile contents fAliases).fAliases =
    fAliases ++ (fileLines contents).flatMap lineAliases

end File

section Comments
variable {line : List UInt8}

def CommentInPair (line : List UInt8) : Prop :=
  (afterBlanks line).head? ≠ some 35 ∧ afterWord line ≠ [] ∧
    (35 ∈ firstWord line ∨ (afterWord line).head? = some 35)

/-- The scanner makes a pair of a line that has not two symbols. -/
def PairTooMany (line : List UInt8) : Prop := CommentInPair line ∨ MoreWords (withoutComment line)

theorem withoutComment_cons {c : UInt8} (h : c ≠ 35) (text : List UInt8) :
    withoutComment (c :: text) = c :: withoutComment text := by
  simp [withoutComment, h]

theorem withoutComment_hash (text : List UInt8) : withoutComment (35 :: text) = [] := by
  simp [withoutComment]

theorem afterBlanks_withoutComment (line : List UInt8) :
    afterBlanks (withoutComment line) = withoutComment (afterBlanks line) := by
  unfold afterBlanks
  induction line with
  | nil => rfl
  | cons c line ih =>
    by_cases hc : isspace c = true
    · have hhash : c ≠ 35 := by
        rintro rfl
        cases hc
      rw [withoutComment_cons hhash, dropWhile_cons_of_pos hc, dropWhile_cons_of_pos hc]
      exact ih
    · rw [dropWhile_cons_of_neg hc]
      by_cases hhash : c = 35
      · rw [hhash, withoutComment_hash]
        rfl
      · rw [withoutComment_cons hhash, dropWhile_cons_of_neg hc]

theorem word_withoutComment {text : List UInt8} (h : 35 ∉ text.takeWhile (!isspace ·)) :
    (withoutComment text).takeWhile (!isspace ·) = text.takeWhile (!isspace ·) ∧
      (withoutComment text).dropWhile (!isspace ·) =
        withoutComment (text.dropWhile (!isspace ·)) := by
  induction text with
  | nil => exact ⟨rfl, rfl⟩
  | cons c text ih =>
    by_cases hc : isspace c = true
    · have hhash : c ≠ 35 := by
        rintro rfl
        cases hc
      simp [hc, withoutComment_cons hhash]
    rw [takeWhile_cons_of_pos (by simp [hc]), mem_cons] at h
    have hhash : c ≠ 35 := fun heq => h (Or.inl heq.symm)
    obtain ⟨hword, hrest⟩ := ih fun hmem => h (Or.inr hmem)
    rw [withoutComment_cons hhash]
    simp [hc, hword, hrest]

theorem dropWhile_withoutComment {text : List UInt8} (h : 35 ∈ text.takeWhile (!isspace ·)) :
    (withoutComment text).dropWhile (!isspace ·) = [] := by
  induction text with
  | nil => rfl
  | cons c text ih =>
    by_cases hc : isspace c = true
    · rw [takeWhile_cons_of_neg (by simp [hc])] at h
      cases h
    by_cases hhash : c = 35
    · rw [hhash, withoutComment_hash]
      rfl
    rw [takeWhile_cons_of_pos (by simp [hc]), mem_cons] at h
    have hrest := ih (h.resolve_left fun heq => hhash heq.symm)
    rw [withoutComment_cons hhash]
    simp [hc, hrest]

theorem afterWord_withoutComment (h : 35 ∉ firstWord line) :
    firstWord (withoutComment line) = firstWord line ∧
      afterWord (withoutComment line) = withoutComment (afterWord line) := by
  unfold firstWord at h ⊢
  unfold afterWord
  obtain ⟨hword, hrest⟩ := word_withoutComment h
  rw [afterBlanks_withoutComment, hword, hrest, afterBlanks_withoutComment]
  exact ⟨rfl, rfl⟩

theorem not_moreWords {text : List UInt8} (h : afterWord text = []) : ¬ MoreWords text := by
  unfold MoreWords
  rw [h]
  intro ⟨c, hc, _⟩
  cases hc

theorem lineAliases_of_empty (h : afterWord (withoutComment line) = []) : lineAliases line = [] :=
  if_pos (Or.inl h)

theorem afterWord_of_hash (h : (afterBlanks line).head? = some 35) :
    afterWord (withoutComment line) = [] := by
  have hbody : withoutComment (afterBlanks line) = [] := by
    cases hline : afterBlanks line with
    | nil => rfl
    | cons c rest =>
      rw [hline] at h
      simp [withoutComment, Option.some.inj h]
  unfold afterWord
  rw [afterBlanks_withoutComment, hbody]
  rfl

theorem afterWord_of_hash_word (h : 35 ∈ firstWord line) : afterWord (withoutComment line) = [] := by
  unfold afterWord
  rw [afterBlanks_withoutComment, dropWhile_withoutComment h]
  rfl

theorem scannedAliases_cases : ¬ PairTooMany line ∧ scannedAliases line = lineAliases line ∨
      PairTooMany line ∧ lineAliases line = [] ∧ (scannedAliases line).length = 1 := by
  by_cases hhead : (afterBlanks line).head? = some 35
  · have hempty := afterWord_of_hash hhead
    apply Or.inl
    refine ⟨fun h => h.elim (fun h => h.1 hhead) (not_moreWords hempty), ?_⟩
    rw [lineAliases_of_empty hempty, scannedAliases, if_pos hhead]
  unfold scannedAliases PairTooMany CommentInPair
  rw [if_neg hhead]
  by_cases hword : 35 ∈ firstWord line
  · have hempty := afterWord_of_hash_word hword
    rw [lineAliases_of_empty hempty]
    cases hrest : afterWord line with
    | nil => exact Or.inl ⟨fun h => h.elim (fun h => h.2.1 rfl) (not_moreWords hempty), rfl⟩
    | cons c rest => exact Or.inr ⟨Or.inl ⟨hhead, cons_ne_nil c rest, Or.inl hword⟩, rfl, rfl⟩
  obtain ⟨hfirst, hafter⟩ := afterWord_withoutComment hword
  cases hrest : afterWord line with
  | nil =>
    rw [hrest] at hafter
    rw [lineAliases_of_empty hafter]
    exact Or.inl ⟨fun h => h.elim (fun h => h.2.1 rfl) (not_moreWords hafter), rfl⟩
  | cons c rest =>
    by_cases hc : c = 35
    · have hempty : afterWord (withoutComment line) = [] := by
        rw [hafter, hrest, hc, withoutComment_hash]
      refine Or.inr ⟨Or.inl ⟨hhead, cons_ne_nil c rest, Or.inr ?_⟩, lineAliases_of_empty hempty, rfl⟩
      rw [hc]
      rfl
    rw [hrest, withoutComment_cons hc] at hafter
    by_cases hmore : MoreWords (withoutComment line)
    · exact Or.inr ⟨Or.inr hmore, if_pos (Or.inr hmore), rfl⟩
    apply Or.inl
    constructor
    · rintro (h | h)
      · rcases h.2.2 with h | h
        · exact hword h
        · exact hc (Option.some.inj h)
      · exact hmore h
    · unfold lineAliases twoSymbols
      rw [if_neg (not_or.mpr ⟨by rw [hafter]; exact cons_ne_nil _ _, hmore⟩), hfirst, hafter]
      rfl

theorem flatMap_length (ls : List (List UInt8)) :
    (ls.flatMap lineAliases).length ≤ (ls.flatMap scannedAliases).length ∧
      ((∃ line ∈ ls, PairTooMany line) →
        (ls.flatMap lineAliases).length < (ls.flatMap scannedAliases).length) := by
  induction ls with
  | nil => simp
  | cons line ls ih =>
    obtain ⟨hle, hlt⟩ := ih
    rw [flatMap_cons, flatMap_cons, length_append, length_append]
    rcases @scannedAliases_cases line with ⟨hgood, hsame⟩ | ⟨-, hnone, hone⟩
    · rw [hsame]
      refine ⟨by omega, ?_⟩
      intro h
      obtain ⟨other, hother, hbad⟩ := h
      rcases List.mem_cons.mp hother with rfl | hother
      · exact absurd hbad hgood
      have := hlt ⟨other, hother, hbad⟩
      omega
    · rw [hnone, hone, length_nil]
      exact ⟨by omega, fun _ => by omega⟩

theorem aliasFile_iff {contents : List UInt8} :
    OnePairPerLine contents ↔ ∀ line ∈ fileLines contents, ¬ PairTooMany line := by
  constructor
  · intro h line hline hbad
    have hsame := h []
    rw [parseAliasFile_aliases, nil_append, nil_append] at hsame
    have hlt := (flatMap_length (fileLines contents)).2 ⟨line, hline, hbad⟩
    rw [hsame] at hlt
    exact Nat.lt_irrefl _ hlt
  · intro h fAliases
    rw [parseAliasFile_aliases]
    congr 1
    apply flatMap_congr
    intro line hline
    rcases @scannedAliases_cases line with ⟨-, hsame⟩ | ⟨hbad, -⟩
    · exact hsame
    · exact absurd hbad (h line hline)

/-- The comment is taken for the alias of `_main`. -/
theorem aliasFile_comment : ¬ ∀ contents, OnePairPerLine contents := by
  intro hclaim
  have hsame := hclaim (ascii "_main # entry\n") []
  cases hsame

end Comments
end Toolwhip.Ld64.AliasFile
