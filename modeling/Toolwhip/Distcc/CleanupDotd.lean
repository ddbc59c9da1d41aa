import Toolwhip.Lib.LeftmostMatches
import Toolwhip.Lib.TextLines
import Toolwhip.Distcc.Rpc

/-! # Cleaning a dependency file

`dcc_cleanup_dotd` on the server: the name of the output is replaced, and the directory that stands for
the root is taken away. Files can be opened, read and written. -/

namespace Toolwhip.Distcc.CleanupDotd
open Lib.CNumber Lib.LeftmostMatches Lib.TextLines List
set_option autoImplicit false

abbrev Text := List UInt8

inductive Graft where
  | outside
  | tooLong
  | done (found : Option Nat) (haystack : Text)
  deriving DecidableEq, Repr

/-- `hay_size` is also the size of the buffer. -/
def dcc_strgraft (haystack : Text) (hay_size : Nat) (needle new_needle : Text) : Graft :=
  match firstMatch needle haystack with
  | none => .done none haystack
  | some found =>
    if haystack.length - needle.length + new_needle.length + 1 > hay_size then .tooLong
    else
      let rest := haystack.drop (found + needle.length)
      if found + new_needle.length + (rest.length + 1) > hay_size then .outside
      else .done (some found) (haystack.take found ++ new_needle ++ rest)

/-- What was done to a line: where the target was grafted, and from where, in the grafted line, the root
was taken away. -/
structure CleanLine where
  graft : Option Nat
  trims : List Nat
  text : Text
  deriving DecidableEq, Repr

inductive LineResult where
  | outside
  | failed
  | printed (line : CleanLine)
  deriving DecidableEq, Repr

inductive Outcome where
  | outside
  /-- a number other than 0 is returned -/
  | failed
  | wrote (lines : List CleanLine)
  deriving DecidableEq, Repr

def Outcome.cons (line : CleanLine) : Outcome → Outcome
  | .wrote lines => .wrote (line :: lines)
  | other => other

/-- The names, and the MAXPATHLEN of the system. -/
structure Request where
  MAXPATHLEN : Nat
  hasPaths : 0 < MAXPATHLEN
  root_dir : CString
  client_out_name : CString
  server_out_name : CString

section Code
variable (r : Request)

def Request.MAX_DOTD_LINE_LEN : Nat := r.MAXPATHLEN * 2

def Request.bufSize : Nat := 2 * r.MAX_DOTD_LINE_LEN

/-- The loop over `found`; `place` is where that is in the line as it was before. -/
def trimLoop (fuel place found : Nat) (buf : Text) : Option (List Nat × Text) :=
  match fuel with
  | 0 => none
  | fuel + 1 =>
    let buf := buf.take found ++ buf.drop (found + r.root_dir.bytes.length)
    match firstMatch r.root_dir.bytes (buf.drop found) with
    | none => some ([place], buf)
    | some next =>
      (trimLoop fuel (place + r.root_dir.bytes.length + next) (found + next) buf).map fun done =>
        (place :: done.1, done.2)

def trim (fuel : Nat) (buf : Text) : Option (List Nat × Text) :=
  match firstMatch r.root_dir.bytes buf with
  | none => some ([], buf)
  | some found => trimLoop r fuel found found buf

def atEnd (piece : Text) : Bool := !piece.contains 10 && piece.length < r.MAX_DOTD_LINE_LEN - 1

/-- The string in the buffer ends at the first NUL. -/
def cleanLine (fuel : Nat) (piece : Text) : Option LineResult :=
  let buf := piece.takeWhile (· ≠ 0)
  if !buf.contains 10 && !atEnd r piece then some .failed
  else
    match dcc_strgraft buf r.bufSize r.server_out_name.bytes r.client_out_name.bytes with
    | .outside => some .outside
    | .tooLong => some .failed
    | .done graft buf => (trim r fuel buf).map fun done => .printed ⟨graft, done.1, done.2⟩

def cleanPieces (fuel : Nat) (pieces : List Text) : Option Outcome :=
  match pieces with
  | [] => some (.wrote [])
  | piece :: pieces =>
    match cleanLine r fuel piece with
    | none => none
    | some .outside => some .outside
    | some .failed => some .failed
    | some (.printed line) => (cleanPieces fuel pieces).map (.cons line)

/-- `none` is that a loop has not ended. -/
def dcc_cleanup_dotd (fuel : Nat) (dotd : Text) : Option Outcome :=
  cleanPieces r fuel (pieces 10 (r.MAX_DOTD_LINE_LEN - 1) (r.MAX_DOTD_LINE_LEN - 1) dotd)

end Code

/-! ## What is meant -/

def separates (c : UInt8) : Bool := c == 32 || c == 9 || c == 10 || c == 58

def atFront (text : Text) (p : Nat) : Bool := p == 0 || (text[p - 1]?).any separates

def asTarget (name text : Text) (p : Nat) : Bool :=
  name != [] && atFront text p && name.isPrefixOf (text.drop p) && !(text.take p).contains 58 &&
    (text[p + name.length]?).any separates && (text.drop (p + name.length)).contains 58

def targetPlace (name line : Text) : Option Nat := (List.range line.length).find? (asTarget name line)

def graftAt (line name new_name : Text) (place : Option Nat) : Text :=
  match place with
  | none => line
  | some p => line.take p ++ new_name ++ line.drop (p + name.length)

def fronts (root line : Text) : List Nat :=
  (List.range line.length).filter fun p => atFront line p && root.isPrefixOf (line.drop p)

section Meant
variable (r : Request)

def meantGraft (line : Text) : Text :=
  graftAt line r.server_out_name.bytes r.client_out_name.bytes
    (targetPlace r.server_out_name.bytes line)

def meantLine (line : Text) : CleanLine :=
  ⟨targetPlace r.server_out_name.bytes line, fronts r.root_dir.bytes (meantGraft r line),
    cutOut r.root_dir.bytes.length (fronts r.root_dir.bytes (meantGraft r line)) (meantGraft r line)⟩

def overlong (line : Text) : Bool :=
  r.MAX_DOTD_LINE_LEN ≤ line.length || r.bufSize < (meantGraft r line).length + 1

def meantOutcome (dotd : Text) : Outcome :=
  if (lines 10 dotd).any (overlong r) then .failed else .wrote ((lines 10 dotd).map (meantLine r))

def Cleaned (dotd : Text) : Prop :=
  ∃ enough, ∀ fuel, enough ≤ fuel → dcc_cleanup_dotd r fuel dotd = some (meantOutcome r dotd)

end Meant
section Trim
variable {r : Request} {fuel : Nat} {buf : Text}

theorem trimLoop_eq (place : Nat) (hne : r.root_dir.bytes ≠ []) (kept rest : Text)
    (hfuel : rest.length < fuel) :
    trimLoop r fuel place kept.length (kept ++ (r.root_dir.bytes ++ rest)) =
      some ((leftmostMatches r.root_dir.bytes (r.root_dir.bytes ++ rest)).map (· + place),
        kept ++ cutOut r.root_dir.bytes.length
          (leftmostMatches r.root_dir.bytes (r.root_dir.bytes ++ rest)) (r.root_dir.bytes ++ rest)) := by
  induction fuel generalizing place kept rest with
  | zero => exact absurd hfuel (Nat.not_lt_zero _)
  | succ fuel ih =>
    have hbuf : (kept ++ (r.root_dir.bytes ++ rest)).take kept.length ++
        (kept ++ (r.root_dir.bytes ++ rest)).drop (kept.length + r.root_dir.bytes.length) =
        kept ++ rest := by
      rw [take_left, ← drop_drop, drop_left, drop_left]
    rw [trimLoop]
    simp only [hbuf, drop_left]
    rw [leftmostMatches_append hne, cutOut_hit]
    cases hfirst : firstMatch r.root_dir.bytes rest with
    | none =>
      rw [leftmostMatches_none hne hfirst, cutOut_nil]
      simp
    | some next =>
      have hle := first_le hfirst
      have hkept : (kept ++ rest.take next).length = kept.length + next := by
        rw [length_append, length_take]
        omega
      have hlen : (rest.drop (next + r.root_dir.bytes.length)).length < fuel := by
        have hpos := List.length_pos_iff.mpr hne
        have hsplit := congrArg List.length (split_of_first hfirst)
        simp only [length_append, length_take] at hsplit
        omega
      have hrun := ih (place + r.root_dir.bytes.length + next) (kept ++ rest.take next) _ hlen
      rw [hkept, append_assoc, ← split_of_first hfirst] at hrun
      have hcut := cutOut_append r.root_dir.bytes.length (rest.take next)
        (r.root_dir.bytes ++ rest.drop (next + r.root_dir.bytes.length))
        (leftmostMatches r.root_dir.bytes
          (r.root_dir.bytes ++ rest.drop (next + r.root_dir.bytes.length)))
      rw [← split_of_first hfirst, length_take, Nat.min_eq_left hle] at hcut
      simp only [hrun, Option.map_some, map_cons, Nat.zero_add]
      rw [leftmostMatches_first hne hfirst, hcut, map_add_map, map_add_map, append_assoc]
      congr 4
      funext p
      omega

theorem trim_eq (hne : r.root_dir.bytes ≠ []) (hfuel : buf.length < fuel) :
    trim r fuel buf = some (leftmostMatches r.root_dir.bytes buf,
      cutOut r.root_dir.bytes.length (leftmostMatches r.root_dir.bytes buf) buf) := by
  unfold trim
  cases hfirst : firstMatch r.root_dir.bytes buf with
  | none => rw [leftmostMatches_none hne hfirst, cutOut_nil]
  | some found =>
    have hle := first_le hfirst
    have hkept : (buf.take found).length = found := by
      rw [length_take, Nat.min_eq_left hle]
    have hlen : (buf.drop (found + r.root_dir.bytes.length)).length < fuel := by
      rw [length_drop]
      omega
    have hrun := trimLoop_eq found hne (buf.take found) _ hlen
    rw [hkept, ← split_of_first hfirst] at hrun
    have hcut := cutOut_append r.root_dir.bytes.length (buf.take found)
      (r.root_dir.bytes ++ buf.drop (found + r.root_dir.bytes.length))
      (leftmostMatches r.root_dir.bytes
        (r.root_dir.bytes ++ buf.drop (found + r.root_dir.bytes.length)))
    rw [← split_of_first hfirst, hkept] at hcut
    simp only [hrun]
    rw [leftmostMatches_first hne hfirst, hcut]

theorem trim_nil (hnil : r.root_dir.bytes = []) (fuel : Nat) (buf : Text) : trim r fuel buf = none := by
  have hfirst : ∀ text : Text, firstMatch [] text = some 0 := fun text => firstMatch_hit nil_prefix
  have hloop : ∀ fuel place, trimLoop r fuel place 0 buf = none := by
    intro fuel
    induction fuel with
    | zero => exact fun _ => rfl
    | succ fuel ih =>
      intro place
      rw [trimLoop]
      simp [hnil, hfirst, ih]
  rw [trim, hnil, hfirst]
  exact hloop fuel 0

end Trim
section Line
variable (r : Request)

def inBuffer (line : Text) : Text := line.takeWhile (· ≠ 0)

def graftTooLong (buf : Text) : Bool :=
  (firstMatch r.server_out_name.bytes buf).any fun _ =>
    r.bufSize < buf.length - r.server_out_name.bytes.length + r.client_out_name.bytes.length + 1

/-- It does not fit, ends without newline with the buffer full, has a NUL before its newline, or does not
fit with the new target. -/
def lineFails (line : Text) : Bool :=
  r.MAX_DOTD_LINE_LEN ≤ line.length || (!line.contains 10 && line.length + 1 == r.MAX_DOTD_LINE_LEN) ||
    (line.contains 10 && line.contains 0) || graftTooLong r (inBuffer line)

def codeGraft (line : Text) : Text :=
  graftAt (inBuffer line) r.server_out_name.bytes r.client_out_name.bytes
    (firstMatch r.server_out_name.bytes (inBuffer line))

def codeLine (line : Text) : CleanLine :=
  ⟨firstMatch r.server_out_name.bytes (inBuffer line),
    leftmostMatches r.root_dir.bytes (codeGraft r line),
    cutOut r.root_dir.bytes.length (leftmostMatches r.root_dir.bytes (codeGraft r line))
      (codeGraft r line)⟩

/-- A newline can only be at the end. -/
inductive IsLine : Text → Prop where
  | terminated (line : Text) : 10 ∉ line → IsLine (line ++ [10])
  | last (line : Text) : 10 ∉ line → IsLine line

variable {r} {fuel : Nat} {line buf : Text}

theorem length_graftAt (new_name : Text) {name : Text} {p : Nat} (h : firstMatch name buf = some p) :
    (graftAt buf name new_name (some p)).length = buf.length - name.length + new_name.length := by
  have hsplit := congrArg List.length (split_of_first h)
  simp only [length_append] at hsplit
  simp only [graftAt, length_append]
  omega

theorem strgraft_eq (buf : Text) :
    dcc_strgraft buf r.bufSize r.server_out_name.bytes r.client_out_name.bytes =
      if graftTooLong r buf then .tooLong
      else .done (firstMatch r.server_out_name.bytes buf)
        (graftAt buf r.server_out_name.bytes r.client_out_name.bytes
          (firstMatch r.server_out_name.bytes buf)) := by
  unfold dcc_strgraft graftTooLong
  cases hfirst : firstMatch r.server_out_name.bytes buf with
  | none => rfl
  | some found =>
    have hlen := length_graftAt r.client_out_name.bytes hfirst
    simp only [graftAt, length_append, length_take] at hlen
    have hle := first_le hfirst
    simp only [Option.any_some, decide_eq_true_eq, gt_iff_lt]
    split
    · rfl
    rw [if_neg (by omega)]
    rfl

theorem codeGraft_length (hfits : graftTooLong r (inBuffer line) = false)
    (hlen : line.length < r.MAX_DOTD_LINE_LEN) : (codeGraft r line).length < r.bufSize := by
  have hbuffer : (inBuffer line).length ≤ line.length := (takeWhile_sublist _).length_le
  have hsize : r.bufSize = 2 * r.MAX_DOTD_LINE_LEN := rfl
  unfold codeGraft
  cases hfirst : firstMatch r.server_out_name.bytes (inBuffer line) with
  | none =>
    rw [graftAt]
    omega
  | some p =>
    rw [graftTooLong, hfirst, Option.any_some, decide_eq_false_iff_not] at hfits
    rw [length_graftAt _ hfirst]
    omega

theorem inBuffer_self (h : 0 ∉ line) : inBuffer line = line := by
  rw [inBuffer, takeWhile_eq_self_iff]
  intro b hb
  rw [decide_eq_true_eq]
  rintro rfl
  exact h hb

theorem inBuffer_cut {before rest : Text} (h : 0 ∉ before) : inBuffer (before ++ 0 :: rest) = before := by
  rw [inBuffer, takeWhile_append_of_pos]
  · simp
  · intro b hb
    rw [decide_eq_true_eq]
    rintro rfl
    exact h hb

theorem nul_not_mem_inBuffer (line : Text) : 0 ∉ inBuffer line := by
  intro h
  have hne := mem_takeWhile_imp h
  simp at hne

theorem newline_in_buffer (h : 10 ∉ line) : 0 ∈ line ++ [10] ↔ 10 ∉ inBuffer (line ++ [10]) := by
  by_cases hzero : 0 ∈ line
  · obtain ⟨before, rest, rfl, hbefore⟩ := eq_append_cons_of_mem hzero
    rw [append_assoc, cons_append, inBuffer_cut hbefore]
    apply iff_of_true
    · simp
    · intro hmem
      exact h (mem_append_left _ hmem)
  · have hnone : 0 ∉ line ++ [10] := by simp [hzero]
    rw [inBuffer_self hnone]
    simp [hzero]

theorem stops_iff (hline : IsLine line) (hlen : line.length < r.MAX_DOTD_LINE_LEN) :
    (!(inBuffer line).contains 10 && !atEnd r line) = true ↔
      (10 ∉ line ∧ line.length + 1 = r.MAX_DOTD_LINE_LEN) ∨ (10 ∈ line ∧ 0 ∈ line) := by
  have hsubset : 10 ∈ inBuffer line → 10 ∈ line := fun h => (takeWhile_sublist _).subset h
  cases hline with
  | last line hnone =>
    have hbuffer : 10 ∉ inBuffer line := fun h => hnone (hsubset h)
    simp only [atEnd, contains_iff_mem, Bool.and_eq_true, Bool.not_eq_true', ← Bool.not_eq_true,
      hbuffer, hnone, decide_eq_true_eq, not_false_eq_true, true_and, false_and, or_false]
    omega
  | terminated line hnone =>
    have hmem : 10 ∈ line ++ [10] := by simp
    have hzero := newline_in_buffer hnone
    simp only [atEnd, contains_iff_mem, Bool.and_eq_true, Bool.not_eq_true', ← Bool.not_eq_true,
      hmem, not_true_eq_false, false_and, not_false_eq_true, and_true, true_and, false_or, hzero]

theorem cleanLine_eq (hline : IsLine line) (hlen : line.length < r.MAX_DOTD_LINE_LEN) :
    cleanLine r fuel line =
      if lineFails r line then some .failed
      else (trim r fuel (codeGraft r line)).map fun done =>
        .printed ⟨firstMatch r.server_out_name.bytes (inBuffer line), done.1, done.2⟩ := by
  have hstops := stops_iff hline hlen
  have hfails : lineFails r line = true ↔
      (!(inBuffer line).contains 10 && !atEnd r line) = true ∨
        graftTooLong r (inBuffer line) = true := by
    rw [hstops]
    simp only [lineFails, Bool.or_eq_true, Bool.and_eq_true, decide_eq_true_eq, Bool.not_eq_true',
      ← Bool.not_eq_true, contains_iff_mem, beq_iff_eq]
    have hnot : ¬ r.MAX_DOTD_LINE_LEN ≤ line.length := by omega
    simp only [hnot, false_or]
  change (if (!(inBuffer line).contains 10 && !atEnd r line) = true then _ else _) = _
  by_cases hstop : (!(inBuffer line).contains 10 && !atEnd r line) = true
  · rw [if_pos hstop, if_pos (hfails.mpr (Or.inl hstop))]
  rw [if_neg hstop]
  change (match dcc_strgraft (inBuffer line) r.bufSize _ _ with
    | .outside => _ | .tooLong => _ | .done _ _ => _) = _
  rw [strgraft_eq]
  by_cases hlong : graftTooLong r (inBuffer line) = true
  · rw [if_pos hlong, if_pos (hfails.mpr (Or.inr hlong))]
  have hnot : ¬ lineFails r line = true := by
    rw [hfails, not_or]
    exact ⟨hstop, hlong⟩
  rw [if_neg hlong, if_neg hnot]
  rfl

theorem cleanLine_full (hnone : 10 ∉ line) (hfull : line.length + 1 = r.MAX_DOTD_LINE_LEN) :
    cleanLine r fuel line = some .failed := by
  rw [cleanLine_eq (IsLine.last line hnone) (by omega), if_pos]
  simp only [lineFails, Bool.or_eq_true, Bool.and_eq_true, Bool.not_eq_true', ← Bool.not_eq_true,
    contains_iff_mem, beq_iff_eq]
  exact Or.inl (Or.inl (Or.inr ⟨hnone, hfull⟩))

end Line
section File
variable {r : Request} {fuel : Nat} {dotd rest line : Text}

theorem room_pos (r : Request) : 0 < r.MAX_DOTD_LINE_LEN - 1 := by
  have hpos := r.hasPaths
  unfold Request.MAX_DOTD_LINE_LEN
  omega

/-- The file starts with a line that fits. -/
structure Starts (r : Request) (dotd line rest : Text) : Prop where
  split : dotd = line ++ rest
  ne_nil : line ≠ []
  isLine : IsLine line
  fits : line.length < r.MAX_DOTD_LINE_LEN
  lines_eq : lines 10 dotd = line :: lines 10 rest
  pieces_eq : pieces 10 (r.MAX_DOTD_LINE_LEN - 1) (r.MAX_DOTD_LINE_LEN - 1) dotd =
    line :: pieces 10 (r.MAX_DOTD_LINE_LEN - 1) (r.MAX_DOTD_LINE_LEN - 1) rest

/-- The file starts with a line of which a piece fills the buffer. -/
structure Overflows (r : Request) (dotd line piece : Text) (more : List Text) : Prop where
  long : r.MAX_DOTD_LINE_LEN ≤ line.length
  lines_eq : line ∈ (lines 10 dotd).head?
  pieces_eq : pieces 10 (r.MAX_DOTD_LINE_LEN - 1) (r.MAX_DOTD_LINE_LEN - 1) dotd = piece :: more
  newline : 10 ∉ piece
  full : piece.length + 1 = r.MAX_DOTD_LINE_LEN

theorem file_cases (r : Request) (dotd : Text) : dotd = [] ∨ (∃ line rest, Starts r dotd line rest) ∨
    ∃ line piece more, Overflows r dotd line piece more := by
  have hpos := room_pos r
  rcases exists_line 10 dotd with hnone | ⟨line, rest, hnone, rfl⟩
  · by_cases hnil : dotd = []
    · exact Or.inl hnil
    right
    have hlines := lines_of_not_mem hnil hnone
    by_cases hfits : dotd.length < r.MAX_DOTD_LINE_LEN
    · left
      refine ⟨dotd, [], (append_nil _).symm, hnil, .last dotd hnone, hfits, hlines, ?_⟩
      rw [pieces_eq_lines, hlines]
      · rfl
      · intro line hline
        rw [hlines, mem_singleton] at hline
        rw [hline]
        omega
    · right
      obtain ⟨more, hpieces⟩ : ∃ more,
          pieces 10 (r.MAX_DOTD_LINE_LEN - 1) (r.MAX_DOTD_LINE_LEN - 1) (dotd ++ []) = _ :: more :=
        pieces_long hnone hpos (by omega)
      rw [append_nil] at hpieces
      refine ⟨dotd, _, more, by omega, by rw [hlines]; rfl, hpieces, ?_, ?_⟩
      · exact fun hmem => hnone (mem_of_mem_take hmem)
      · rw [length_take]
        omega
  · right
    have hlines : lines 10 (line ++ 10 :: rest) = _ := lines_append hnone
    by_cases hfits : line.length + 1 < r.MAX_DOTD_LINE_LEN
    · left
      refine ⟨line ++ [10], rest, by simp, by simp, .terminated line hnone, by simpa using hfits, hlines,
        ?_⟩
      exact pieces_line hnone (by omega)
    right
    obtain ⟨more, hpieces⟩ : ∃ more, pieces 10 (r.MAX_DOTD_LINE_LEN - 1) (r.MAX_DOTD_LINE_LEN - 1)
        (line ++ 10 :: rest) = _ :: more :=
      pieces_long hnone hpos (by omega)
    refine ⟨line ++ [10], _, more, ?_, by rw [hlines]; rfl, hpieces, ?_, ?_⟩
    · rw [length_append, length_singleton]
      omega
    · exact fun hmem => hnone (mem_of_mem_take hmem)
    · rw [length_take]
      omega

def codeOutcome (r : Request) (dotd : Text) : Outcome :=
  if (lines 10 dotd).any (lineFails r) then .failed else .wrote ((lines 10 dotd).map (codeLine r))

theorem lineFails_long (h : r.MAX_DOTD_LINE_LEN ≤ line.length) : lineFails r line = true := by
  simp [lineFails, h]

theorem any_head {ls : List Text} {f : Text → Bool} (h : line ∈ ls.head?) (hf : f line = true) :
    ls.any f = true := by
  rw [any_eq_true]
  exact ⟨line, mem_of_mem_head? h, hf⟩

theorem codeOutcome_starts (h : Starts r dotd line rest) : codeOutcome r dotd =
    if lineFails r line then .failed else (codeOutcome r rest).cons (codeLine r line) := by
  rw [codeOutcome, h.lines_eq, codeOutcome, any_cons]
  cases lineFails r line with
  | true => rfl
  | false =>
    cases (lines 10 rest).any (lineFails r) <;> rfl

theorem cleanup_overflows {piece : Text} {more : List Text} (h : Overflows r dotd line piece more)
    (fuel : Nat) : dcc_cleanup_dotd r fuel dotd = some .failed := by
  rw [dcc_cleanup_dotd, h.pieces_eq, cleanPieces, cleanLine_full h.newline h.full]

theorem cleanup_eq (hne : r.root_dir.bytes ≠ []) (hfuel : r.bufSize ≤ fuel) (dotd : Text) :
    dcc_cleanup_dotd r fuel dotd = some (codeOutcome r dotd) := by
  induction hn : dotd.length using Nat.strongRecOn generalizing dotd with
  | ind n ih =>
    subst hn
    rcases file_cases r dotd with rfl | ⟨line, rest, h⟩ | ⟨line, piece, more, h⟩
    · rfl
    · have hpos := List.length_pos_iff.mpr h.ne_nil
      have hrest := ih rest.length (by rw [h.split, length_append]; omega) rest rfl
      rw [dcc_cleanup_dotd] at hrest ⊢
      rw [h.pieces_eq, cleanPieces, cleanLine_eq h.isLine h.fits, codeOutcome_starts h]
      by_cases hfails : lineFails r line = true
      · rw [if_pos hfails, if_pos hfails]
      rw [if_neg hfails, if_neg hfails]
      have hgraft : graftTooLong r (inBuffer line) = false := by
        rw [← Bool.not_eq_true]
        intro hlong
        apply hfails
        simp [lineFails, hlong]
      have hlen := codeGraft_length hgraft h.fits
      rw [trim_eq hne (by omega)]
      simp only [Option.map_some, hrest]
      rfl
    · rw [cleanup_overflows h, codeOutcome, if_pos (any_head h.lines_eq (lineFails_long h.long))]

theorem cleanup_nil (hnil : r.root_dir.bytes = []) (hne : dotd ≠ []) (fuel : Nat) :
    dcc_cleanup_dotd r fuel dotd =
      if ((lines 10 dotd).head?).any (lineFails r) then some .failed else none := by
  rcases file_cases r dotd with heq | ⟨line, rest, h⟩ | ⟨line, piece, more, h⟩
  · exact absurd heq hne
  · rw [dcc_cleanup_dotd, h.pieces_eq, cleanPieces, cleanLine_eq h.isLine h.fits, h.lines_eq,
      trim_nil hnil]
    by_cases hfails : lineFails r line = true
    · simp [hfails]
    · simp [hfails]
  have hhead : (lines 10 dotd).head? = some line := h.lines_eq
  rw [cleanup_overflows h, hhead, Option.any_some, lineFails_long h.long]
  rfl

end File
section Same
variable {r : Request} {dotd line name new_name : Text} {fuel : Nat}

/-- A line that is cleaned as is meant: it has no NUL, is not the last one just filling the buffer,
has the
name of the output first where it is the target, and the root, one after another, at the fronts of paths
alone. -/
structure RightLine (r : Request) (line : Text) : Prop where
  noNul : 0 ∉ line
  ends : 10 ∈ line ∨ line.length + 1 ≠ r.MAX_DOTD_LINE_LEN
  target : firstMatch r.server_out_name.bytes line = targetPlace r.server_out_name.bytes line
  paths : leftmostMatches r.root_dir.bytes (meantGraft r line) =
    fronts r.root_dir.bytes (meantGraft r line)

theorem prefix_of_target {p : Nat} (h : targetPlace name line = some p) : name <+: line.drop p := by
  have hat := find?_some h
  simp only [asTarget, Bool.and_eq_true, isPrefixOf_iff_prefix] at hat
  exact hat.1.1.1.2

theorem prefix_of_front {root : Text} {p : Nat} (h : p ∈ fronts root line) : root <+: line.drop p := by
  rw [fronts, mem_filter, Bool.and_eq_true, isPrefixOf_iff_prefix] at h
  exact h.2.2

theorem nul_mem_graftAt (hname : 0 ∉ name) (h : 0 ∈ line) :
    0 ∈ graftAt line name new_name (targetPlace name line) := by
  cases hplace : targetPlace name line with
  | none => exact h
  | some p =>
    obtain ⟨rest, hrest⟩ := prefix_of_target hplace
    have hsplit : line = line.take p ++ (name ++ line.drop (p + name.length)) := by
      rw [← drop_drop, ← hrest, drop_left, hrest, take_append_drop]
    rw [hsplit, mem_append, mem_append] at h
    rw [graftAt, mem_append, mem_append]
    rcases h with h | h | h
    · exact Or.inl (Or.inl h)
    · exact absurd h hname
    · exact Or.inr h

theorem nul_mem_cutOut {root : Text} (hroot : 0 ∉ root) (h : 0 ∈ line) :
    0 ∈ cutOut root.length (fronts root line) line := by
  obtain ⟨i, hi⟩ := mem_iff_getElem?.mp h
  apply mem_without hi
  rw [covered, any_eq_false]
  intro p hp
  rw [decide_eq_true_eq]
  rintro ⟨hle, hlt⟩
  have hget := prefix_iff_getElem?.mp (prefix_of_front hp) (i - p) (by omega)
  rw [getElem?_drop, Nat.add_sub_cancel' hle, hi, Option.some_inj] at hget
  exact hroot (hget ▸ getElem_mem _)

theorem noNul_bytes (name : CString) : 0 ∉ name.bytes := fun h => name.noNul 0 h rfl

theorem nul_mem_meantLine (h : 0 ∈ line) : 0 ∈ (meantLine r line).text :=
  nul_mem_cutOut (noNul_bytes _) (nul_mem_graftAt (noNul_bytes _) h)

theorem nul_not_mem_codeLine (line : Text) : 0 ∉ (codeLine r line).text := by
  intro h
  have hgraft : 0 ∈ codeGraft r line := without_subset _ _ h
  unfold codeGraft at hgraft
  cases hfirst : firstMatch r.server_out_name.bytes (inBuffer line) with
  | none =>
    rw [hfirst] at hgraft
    exact nul_not_mem_inBuffer line hgraft
  | some p =>
    rw [hfirst, graftAt, mem_append, mem_append] at hgraft
    rcases hgraft with (hmem | hmem) | hmem
    · exact nul_not_mem_inBuffer line (mem_of_mem_take hmem)
    · exact noNul_bytes _ hmem
    · exact nul_not_mem_inBuffer line (mem_of_mem_drop hmem)

theorem codeGraft_eq (hnul : 0 ∉ line)
    (htarget : firstMatch r.server_out_name.bytes line = targetPlace r.server_out_name.bytes line) :
    codeGraft r line = meantGraft r line := by
  rw [codeGraft, meantGraft, inBuffer_self hnul, htarget]

theorem rightLine_iff (hshort : overlong r line = false) :
    (lineFails r line = false ∧ codeLine r line = meantLine r line) ↔ RightLine r line := by
  simp only [overlong, Bool.or_eq_false_iff, decide_eq_false_iff_not] at hshort
  obtain ⟨hlen, hgraft⟩ := hshort
  have hfails : lineFails r line = false ↔
      (10 ∈ line ∨ line.length + 1 ≠ r.MAX_DOTD_LINE_LEN) ∧ (10 ∉ line ∨ 0 ∉ line) ∧
        graftTooLong r (inBuffer line) = false := by
    simp only [lineFails, Bool.or_eq_true, Bool.and_eq_true, decide_eq_true_eq, Bool.not_eq_true',
      ← Bool.not_eq_true, contains_iff_mem, beq_iff_eq]
    tauto
  rw [hfails]
  constructor
  · rintro ⟨⟨hends, hnewline, _⟩, heq⟩
    have hnul : 0 ∉ line := by
      intro hzero
      apply nul_not_mem_codeLine (r := r) line
      rw [heq]
      exact nul_mem_meantLine hzero
    simp only [codeLine, meantLine, CleanLine.mk.injEq] at heq
    obtain ⟨htarget, htrims, _⟩ := heq
    rw [inBuffer_self hnul] at htarget
    rw [codeGraft_eq hnul htarget] at htrims
    exact ⟨hnul, hends, htarget, htrims⟩
  · intro h
    have hbuffer := inBuffer_self h.noNul
    have hsame := codeGraft_eq h.noNul h.target
    refine ⟨⟨h.ends, Or.inr h.noNul, ?_⟩, ?_⟩
    · rw [← Bool.not_eq_true]
      intro hlong
      rw [graftTooLong, hbuffer, Option.any_eq_true] at hlong
      obtain ⟨p, hp, hlong⟩ := hlong
      rw [decide_eq_true_eq] at hlong
      have hmeant := length_graftAt r.client_out_name.bytes hp
      rw [meantGraft, ← h.target, hp, hmeant] at hgraft
      omega
    · rw [codeLine, meantLine, hsame, hbuffer, h.target, h.paths]

theorem meantOutcome_failed : meantOutcome r dotd = .failed ↔
    ∃ line ∈ lines 10 dotd, overlong r line = true := by
  rw [meantOutcome, ← any_eq_true]
  split
  · rename_i h
    exact iff_of_true rfl h
  · rename_i h
    exact iff_of_false nofun h

theorem cleaned_iff_outcome (hne : r.root_dir.bytes ≠ []) :
    Cleaned r dotd ↔ codeOutcome r dotd = meantOutcome r dotd := by
  constructor
  · rintro ⟨enough, hrun⟩
    have hlast := hrun (max enough r.bufSize) (Nat.le_max_left _ _)
    rw [cleanup_eq hne (Nat.le_max_right _ _)] at hlast
    exact Option.some_inj.mp hlast
  · intro h
    refine ⟨r.bufSize, ?_⟩
    intro fuel hfuel
    rw [cleanup_eq hne hfuel, h]

theorem outcome_iff : codeOutcome r dotd = meantOutcome r dotd ↔
    ((∃ line ∈ lines 10 dotd, overlong r line = true) ∧ ∃ line ∈ lines 10 dotd, lineFails r line = true) ∨
      ((∀ line ∈ lines 10 dotd, overlong r line = false) ∧ ∀ line ∈ lines 10 dotd, RightLine r line) := by
  by_cases hlong : ∃ line ∈ lines 10 dotd, overlong r line = true
  · have hnot : ¬ ∀ line ∈ lines 10 dotd, overlong r line = false := by
      intro hall
      obtain ⟨line, hline, htrue⟩ := hlong
      rw [hall line hline] at htrue
      cases htrue
    rw [meantOutcome_failed.mpr hlong]
    simp only [hlong, hnot, true_and, false_and, or_false, codeOutcome]
    rw [← any_eq_true]
    split
    · rename_i h
      exact iff_of_true rfl h
    · rename_i h
      exact iff_of_false nofun h
  · have hall : ∀ line ∈ lines 10 dotd, overlong r line = false := by
      intro line hline
      rw [← Bool.not_eq_true]
      exact fun htrue => hlong ⟨line, hline, htrue⟩
    have hmeant : meantOutcome r dotd = .wrote ((lines 10 dotd).map (meantLine r)) := by
      rw [meantOutcome, if_neg]
      rw [any_eq_true]
      exact hlong
    have hlines : (∀ line ∈ lines 10 dotd, RightLine r line) ↔
        ∀ line ∈ lines 10 dotd, lineFails r line = false ∧ codeLine r line = meantLine r line := by
      apply forall₂_congr
      intro line hline
      exact (rightLine_iff (hall line hline)).symm
    rw [hmeant, hlines, codeOutcome]
    simp only [hlong, false_and, false_or, eq_true hall, true_and]
    split
    · rename_i h
      obtain ⟨line, hline, hfails⟩ := List.any_eq_true.mp h
      apply iff_of_false nofun
      intro hright
      rw [(hright line hline).1] at hfails
      cases hfails
    · rename_i h
      rw [Outcome.wrote.injEq, map_inj_left]
      constructor
      · intro hsame line hline
        refine ⟨?_, hsame line hline⟩
        rw [← Bool.not_eq_true]
        exact fun hfails => h (List.any_eq_true.mpr ⟨line, hline, hfails⟩)
      · intro hright line hline
        exact (hright line hline).2

theorem cleaned_nil (hnil : r.root_dir.bytes = []) (hne : dotd ≠ []) : Cleaned r dotd ↔
    (∃ line ∈ lines 10 dotd, overlong r line = true) ∧
      ∃ line after, lines 10 dotd = line :: after ∧ lineFails r line = true := by
  obtain ⟨line, after, hlines⟩ : ∃ line after, lines 10 dotd = line :: after := by
    apply exists_cons_of_ne_nil
    intro hempty
    apply hne
    rw [← flatten_lines 10 dotd, hempty]
    rfl
  have hhead : ((lines 10 dotd).head?).any (lineFails r) = lineFails r line := by
    rw [hlines]
    rfl
  have hfirst : (∃ first after, lines 10 dotd = first :: after ∧ lineFails r first = true) ↔
      lineFails r line = true := by
    rw [hlines]
    simp
  unfold Cleaned
  rw [hfirst, ← meantOutcome_failed]
  simp only [cleanup_nil hnil hne, hhead]
  constructor
  · rintro ⟨enough, hrun⟩
    have hlast := hrun enough (Nat.le_refl _)
    split at hlast
    · rename_i hfails
      exact ⟨(Option.some_inj.mp hlast).symm, hfails⟩
    · cases hlast
  · rintro ⟨hmeant, hfails⟩
    refine ⟨0, ?_⟩
    intro fuel _
    rw [if_pos hfails, hmeant]

/-- What is cleaned as is meant: if a line is overlong some line makes the function fail, and without a
root the first one; otherwise every line is right, and without a root there is none. -/
theorem cleaned_iff (r : Request) (dotd : Text) : Cleaned r dotd ↔
    ((∃ line ∈ lines 10 dotd, overlong r line = true) ∧
      ∃ before line after, lines 10 dotd = before ++ line :: after ∧ lineFails r line = true ∧
        (r.root_dir.bytes = [] → before = [])) ∨
    ((∀ line ∈ lines 10 dotd, overlong r line = false) ∧ (r.root_dir.bytes = [] → dotd = []) ∧
      ∀ line ∈ lines 10 dotd, RightLine r line) := by
  by_cases hnil : r.root_dir.bytes = []
  · by_cases hempty : dotd = []
    · subst hempty
      apply iff_of_true
      · exact ⟨0, fun fuel _ => rfl⟩
      · exact Or.inr ⟨nofun, fun _ => rfl, nofun⟩
    rw [cleaned_nil hnil hempty]
    constructor
    · rintro ⟨hlong, line, after, hlines, hfails⟩
      exact Or.inl ⟨hlong, [], line, after, hlines, hfails, fun _ => rfl⟩
    · rintro (⟨hlong, before, line, after, hlines, hfails, hfirst⟩ | ⟨_, hnone, _⟩)
      · rw [hfirst hnil] at hlines
        exact ⟨hlong, line, after, hlines, hfails⟩
      · exact absurd (hnone hnil) hempty
  · rw [cleaned_iff_outcome hnil, outcome_iff]
    have hsome : (∃ line ∈ lines 10 dotd, lineFails r line = true) ↔
        ∃ before line after, lines 10 dotd = before ++ line :: after ∧ lineFails r line = true ∧
          (r.root_dir.bytes = [] → before = []) := by
      constructor
      · rintro ⟨line, hline, hfails⟩
        obtain ⟨before, after, hlines⟩ := append_of_mem hline
        exact ⟨before, line, after, hlines, hfails, fun heq => absurd heq hnil⟩
      · rintro ⟨before, line, after, hlines, hfails, _⟩
        refine ⟨line, ?_, hfails⟩
        rw [hlines]
        simp
    rw [hsome]
    simp only [hnil, false_imp_iff, true_and]

theorem noNul_root : ∀ b ∈ ascii "/tmp/d", b ≠ 0 := noNul_of_contains rfl

theorem noNul_client : ∀ b ∈ ascii "b.o", b ≠ 0 := noNul_of_contains rfl

theorem noNul_server : ∀ b ∈ ascii "a.o", b ≠ 0 := noNul_of_contains rfl

theorem hasPaths_linux : 0 < 4096 := Nat.zero_lt_succ _

def renamedOutput : Request :=
  ⟨4096, hasPaths_linux, ⟨ascii "/tmp/d", noNul_root⟩, ⟨ascii "b.o", noNul_client⟩,
    ⟨ascii "a.o", noNul_server⟩⟩

/-- The line ` a.o.h` loses its name. -/
theorem cleaned_unrelated : ¬ ∀ r dotd, Cleaned r dotd := by
  intro hclaim
  obtain ⟨enough, hrun⟩ := hclaim renamedOutput (ascii " a.o.h" ++ [10])
  have hlast := hrun (max enough renamedOutput.bufSize) (Nat.le_max_left _ _)
  exact absurd (Option.some_inj.mp hlast) (by decide)

end Same
end Toolwhip.Distcc.CleanupDotd
