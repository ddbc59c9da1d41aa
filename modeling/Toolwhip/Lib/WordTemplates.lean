import Toolwhip.Lib.CNumber

/-! # Whole words and templates

Regular expressions of Python as far as whole words go: the boundaries of words, and the replacement of
a whole word by a template, in which a backslash escapes. -/

namespace Toolwhip.Lib.WordTemplates
open CNumber
set_option autoImplicit false

abbrev Text := List UInt8

def isWord (b : UInt8) : Bool :=
  (48 ≤ b && b ≤ 57) || (65 ≤ b && b ≤ 90) || (97 ≤ b && b ≤ 122) || b == 95

/-- `\b` between two characters, or at an end of the text -/
def boundary (before after : Option UInt8) : Bool := before.any isWord != after.any isWord

/-! ## Templates -/

inductive Piece where
  | literal (text : Text)
  | group (index : Nat)
  deriving DecidableEq, Repr

def tokens : Text → Option (List Text)
  | [] => some []
  | 92 :: rest =>
    match rest with
    | [] => none
    | c :: rest => (tokens rest).map ([92, c] :: ·)
  | c :: rest => (tokens rest).map ([c] :: ·)

def int (name : Text) : Option Int :=
  let signed := stripSign (name.dropWhile isspace)
  let digits := signed.2.takeWhile (isDigit 10)
  if digits = [] || (signed.2.drop digits.length).any fun b => !isspace b then none
  else some (if signed.1 then -number 10 digits else number 10 digits)

/-- The name of a group, up to `>`. -/
def groupName : List Text → Option (Text × List Text)
  | [] => none
  | token :: rest =>
    if token = [62] then some ([], rest)
    else (groupName rest).map fun read => (token ++ read.1, read.2)

def escapes (c : UInt8) : Text :=
  match c with
  | 97 => [7]
  | 98 => [8]
  | 102 => [12]
  | 110 => [10]
  | 114 => [13]
  | 116 => [9]
  | 118 => [11]
  | 92 => [92]
  | _ => [92, c]

def nextDigit (base : Nat) : List Text → Option UInt8
  | [d] :: _ => if isDigit base d then some d else none
  | _ => none

def octal (digits : Text) : Piece := .literal [UInt8.ofNat (number 8 digits)]

/-- What a backslash and `c` say, with the tokens behind them. -/
def readEscape (c : UInt8) (rest : List Text) : Option (Piece × List Text) :=
  if c = 103 then
    match rest with
    | [60] :: rest =>
      match groupName rest with
      | none => none
      | some (name, rest) =>
        match int name with
        | some (.ofNat index) => some (.group index, rest)
        | _ => none
    | _ => none
  else if c = 48 then
    match nextDigit 8 rest, nextDigit 8 rest.tail with
    | some d, some e => some (octal [d, e], rest.drop 2)
    | some d, none => some (octal [d], rest.drop 1)
    | none, _ => some (octal [48], rest)
  else if isDigit 10 c then
    match nextDigit 10 rest, nextDigit 8 rest.tail with
    | none, _ => some (.group (number 10 [c]), rest)
    | some d, some e =>
      if isDigit 8 c && isDigit 8 d then some (octal [c, d, e], rest.drop 2)
      else some (.group (number 10 [c, d]), rest.drop 1)
    | some d, none => some (.group (number 10 [c, d]), rest.drop 1)
  else some (.literal (escapes c), rest)

def readToken (token : Text) (rest : List Text) : Option (Piece × List Text) :=
  match token with
  | [92, c] => readEscape c rest
  | _ => some (.literal token, rest)

theorem groupName_length {name : Text} {tokens rest : List Text}
    (h : groupName tokens = some (name, rest)) :
    rest.length ≤ tokens.length := by
  induction tokens generalizing name with
  | nil => cases h
  | cons token more ih =>
    rw [groupName] at h
    split at h
    · cases h
      exact Nat.le_succ _
    rw [Option.map_eq_some_iff] at h
    obtain ⟨read, hread, heq⟩ := h
    cases heq
    exact Nat.le_succ_of_le (ih hread)

theorem readEscape_length {c : UInt8} {rest rest' : List Text} {piece : Piece}
    (h : readEscape c rest = some (piece, rest')) : rest'.length ≤ rest.length := by
  unfold readEscape at h
  split at h
  · split at h
    · split at h
      · cases h
      rename_i hname
      have hle := groupName_length hname
      split at h
      · cases h
        exact Nat.le_succ_of_le hle
      · cases h
    · cases h
  · repeat' split at h
    all_goals
      cases h
      simp

theorem readToken_length {token : Text} {rest rest' : List Text} {piece : Piece}
    (h : readToken token rest = some (piece, rest')) : rest'.length ≤ rest.length := by
  unfold readToken at h
  split at h
  · exact readEscape_length h
  cases h
  exact Nat.le_refl _

def pieces : List Text → Option (List Piece)
  | [] => some []
  | token :: rest =>
    match _hread : readToken token rest with
    | none => none
    | some (piece, rest') => (pieces rest').map (piece :: ·)
termination_by tokens => tokens.length
decreasing_by exact Nat.lt_succ_of_le (readToken_length _hread)

/-- `none` for a template that cannot be read -/
def template (text : Text) : Option (List Piece) := (tokens text).bind pieces

def expand (hit : Text) : List Piece → Option Text
  | [] => some []
  | .literal text :: more => (expand hit more).map (text ++ ·)
  | .group 0 :: more => (expand hit more).map (hit ++ ·)
  | .group (_ + 1) :: _ => none

section Word
variable (word : Text)

/-- `\b`, the word, `\b` -/
def wholeWord (before : Option UInt8) (text : Text) : Bool :=
  boundary before text.head? && word.isPrefixOf text &&
    boundary (word.getLast?.or before) (text.drop word.length).head?

/-- The leftmost matches are replaced; of the one that is being passed over `skip` characters are left. -/
def replaceFrom (new : List Piece) : Option UInt8 → Nat → Text → Option Text
  | before, skip, [] => if skip = 0 && wholeWord word before [] then expand word new else some []
  | _, skip + 1, c :: rest => replaceFrom new (some c) skip rest
  | before, 0, c :: rest =>
    if wholeWord word before (c :: rest) then
      (expand word new).bind fun text =>
        if word = [] then (replaceFrom new (some c) 0 rest).map (text ++ c :: ·)
        else (replaceFrom new (some c) (word.length - 1) rest).map (text ++ ·)
    else (replaceFrom new (some c) 0 rest).map (c :: ·)

/-- `re.compile(r"\b%s\b" % re.escape(word)).sub(replacement, text)`, `none` if it raises -/
def sub (replacement text : Text) : Option Text :=
  (template replacement).bind fun new => replaceFrom word new none 0 text

end Word

end Toolwhip.Lib.WordTemplates
