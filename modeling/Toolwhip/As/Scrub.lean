import Mathlib.Data.List.Basic

/-! # The scrubbers of the assembler

app.c with `NeXT_MOD`: `do_scrub_next_char` for files and its copy
`do_scrub_next_char_from_string` for macros and repeats. What the two have in common is
one definition, and each copy is the places where it differs. A character is an `int`,
and the input is the bytes from the current place on. -/

namespace Toolwhip.As
set_option autoImplicit false

inductive Arch where
  | M68K
  | M88K
  | PPC
  | HPPA
  | I860
  | I386
  | SPARC
  | ARM
  deriving DecidableEq, Repr

/-- The bits of an element of `lex`. -/
structure Lex where
  symbolComponent : Bool
  whitespace : Bool
  lineSeparator : Bool
  comment : Bool
  lineComment : Bool

/-- `flagseen['p']`, and what is in memory before the array `lex`. -/
structure Config where
  arch : Arch
  flag_p : Bool
  beforeLex : Int → Lex

def EOF : Int := -1

def code (c : Char) : Int := c.toNat

def codes (s : String) : List Int := s.toList.map code

def Arch.md_comment_chars : Arch → List Int
  | M68K => codes "|"
  | M88K => codes ";"
  | PPC => codes ";"
  | HPPA => codes ";"
  | I860 => codes "|!"
  | I386 => codes "#"
  | SPARC => codes ";!"
  | ARM => codes "@"

def Arch.md_line_comment_chars (_ : Arch) : List Int := codes "#"

def symbol_chars : List Int :=
  codes "$._ABCDEFGHIJKLMNOPQRSTUVWXYZabcdefghijklmnopqrstuvwxyz0123456789"

/-- `defined(M88K) || defined(PPC) || defined(HPPA)` -/
def Arch.atSeparates (a : Arch) : Bool := a = .M88K || a = .PPC || a = .HPPA

/-- `//` starts a comment. -/
def Arch.slashesComment (a : Arch) : Bool :=
  a = .I860 || a = .M88K || a = .PPC || a = .I386 || a = .HPPA || a = .SPARC

section Lexical
variable (cfg : Config)

def Config.flagSeen : Bool := cfg.arch = .PPC && cfg.flag_p

def isLineSeparator (ch : Int) : Bool :=
  ch = code '\n' || cfg.flagSeen && ch = code '\r' || ch = code ':' ||
    (if cfg.arch.atSeparates then !cfg.flagSeen && ch = code '@' else ch = code ';')

/-- `do_scrub_begin` -/
def lex (ch : Int) : Lex :=
  if ch < 0 then cfg.beforeLex ch
  else
    { symbolComponent := symbol_chars.contains ch
      whitespace := ch = code ' ' || ch = code '\t' || ch = code '\r'
      lineSeparator := isLineSeparator cfg ch
      comment := cfg.arch.md_comment_chars.contains ch
      lineComment := cfg.arch.md_line_comment_chars.contains ch }

end Lexical

/-- The static variables, with `out_buf` as a part of `out_string`. -/
structure Scrub where
  state : Int
  substate : Int
  old_state : Int
  out_string : List Int
  add_newlines : Int
  deriving DecidableEq, Repr

inductive Warning where
  | endOfFileInString (quote : Int)
  | unknownEscape (ch : Int)
  | endOfFileInEscape
  | endOfFileInComment
  | endOfFileBeforeNewline
  | endOfFileAfterQuote
  | eofInComment
  | eofInLineComment
  | endOfFileNotAtEndOfLine
  deriving DecidableEq, Repr

structure Called where
  ch : Int
  scrub : Scrub
  input : List UInt8
  warnings : List Warning
  deriving DecidableEq, Repr

/-- Where the copies differ. -/
structure Copy where
  value : UInt8 → Int
  /-- `ungetc` or `scrub_to_string` -/
  ungetc : Int → List UInt8 → List UInt8
  keepBlank : Config → Scrub → Scrub
  dropBlank : Scrub → Scrub
  /-- what a character changes at `deal_misc`; true when a blank goes before it -/
  dealMisc : Config → Int → Scrub → Bool × Scrub
  escapes : List Int

section Common
variable (c : Copy) (cfg : Config)

def getc : List UInt8 → Int × List UInt8
  | [] => (EOF, [])
  | b :: rest => (c.value b, rest)

/-- `do ch = getc(fp); while (ch != EOF && p(ch));` -/
def readPast (p : Int → Bool) : List UInt8 → Int × List UInt8
  | [] => (EOF, [])
  | b :: rest => if c.value b ≠ EOF ∧ p (c.value b) = true then readPast p rest else (c.value b, rest)

def skipPast (p : Int → Bool) : List UInt8 → List UInt8
  | [] => []
  | b :: rest => if c.value b ≠ EOF ∧ p (c.value b) = true then skipPast p rest else b :: rest

def isWhitespace (ch : Int) : Bool := (lex cfg ch).whitespace

def outString (s : Scrub) (input : List UInt8) : Option Called :=
  match s.out_string with
  | [] => none
  | [ch] => some ⟨ch, { s with out_string := [], state := s.old_state, old_state := 3 }, input, []⟩
  | ch :: rest => some ⟨ch, { s with out_string := rest }, input, []⟩

/-- `out_string = text; return *out_string++;` -/
def putOut (text : List Int) (s : Scrub) (input : List UInt8) (warnings : List Warning) : Called :=
  ⟨text.headD 0, { s with state := -1, out_string := text.tail }, input, warnings⟩

/-- State -2. -/
def flushText (s : Scrub) : List UInt8 → Called
  | [] => ⟨EOF, s, [], []⟩
  | b :: rest =>
    if c.value b = code '*' then
      match rest with
      | [] => ⟨code ' ', { s with state := s.old_state }, [], []⟩
      | b' :: rest' =>
        if c.value b' = EOF ∨ c.value b' = code '/' then
          ⟨code ' ', { s with state := s.old_state }, rest', []⟩
        else flushText s rest
    else if c.value b = code '\n' ∨ c.value b = EOF then ⟨c.value b, s, rest, []⟩
    else flushText s rest

def fileDirective : List Int :=
  codes (if cfg.arch.atSeparates then "@ .file " else "; .file ")

def isDigitCode (ch : Int) : Bool := code '0' ≤ ch && ch ≤ code '9'

/-- State 4. -/
def lineNumber (s : Scrub) (input : List UInt8) : Called :=
  let (ch, rest) := getc c input
  if ch = EOF ∨ isDigitCode ch = true then ⟨ch, s, rest, []⟩
  else
    let (ch, rest) := readPast c (isWhitespace cfg) input
    if ch = code '"' then
      putOut (fileDirective cfg) { s with old_state := 7 } (c.ungetc ch rest) []
    else
      let (ch, rest) := if ch ≠ EOF ∧ ch ≠ code '\n' then readPast c (· ≠ code '\n') rest else (ch, rest)
      ⟨ch, { s with state := 0 }, rest, []⟩

/-- State 5. -/
def inString (s : Scrub) (input : List UInt8) : Called :=
  let (ch, rest) := getc c input
  if cfg.flagSeen ∧ ch = code '\'' then ⟨code '\'', { s with state := s.old_state }, rest, []⟩
  else if ch = code '"' then ⟨code '"', { s with state := s.old_state }, rest, []⟩
  else if ch = code '\\' then ⟨ch, { s with state := 6 }, rest, []⟩
  else if ch = EOF then
    let quote := if cfg.flagSeen then code '\'' else code '"'
    ⟨quote, { s with state := s.old_state }, c.ungetc (code '\n') rest, [.endOfFileInString quote]⟩
  else ⟨ch, s, rest, []⟩

/-- State 6. -/
def inEscape (s : Scrub) (input : List UInt8) : Called :=
  let (ch, rest) := getc c input
  let s := { s with state := 5 }
  if ch = code '\n' then
    ⟨code '\\', { s with add_newlines := s.add_newlines + 1 }, c.ungetc (code 'n') rest, []⟩
  else if ch = EOF then ⟨code '"', s, rest, [.endOfFileInEscape]⟩
  else if c.escapes.contains ch then ⟨ch, s, rest, []⟩
  else ⟨ch, s, rest, [.unknownEscape ch]⟩

def fileName (s : Scrub) (input : List UInt8) : Called :=
  let (ch, rest) := getc c input
  ⟨ch, { s with state := 5, old_state := 8 }, rest, []⟩

def flushLine (s : Scrub) : List UInt8 → Option Called
  | [] => none
  | b :: rest =>
    if c.value b = code '\n' then some ⟨c.value b, { s with state := 0 }, rest, []⟩
    else flushLine s rest

/-- In a comment after its start: the newlines, what follows it, and whether the file ended in it. -/
def blockComment : List UInt8 → Int → Int × List UInt8 × Bool
  | [], newlines => (newlines, [], true)
  | b :: rest, newlines =>
    let newlines := if c.value b = code '\n' then newlines + 1 else newlines
    if c.value b = EOF ∨ c.value b = code '*' then
      match rest with
      | [] => (newlines, [], true)
      | b' :: rest' =>
        if c.value b' = EOF then (newlines, rest', true)
        else if c.value b' = code '/' then (newlines, rest', false)
        else blockComment rest newlines
    else blockComment rest newlines

/-- Where the loop at `flushchar` ends. -/
inductive Flushed where
  | eof
  | keptBlank
  | blank
  | slash
  /-- the other cases of the switch; true after blanks that are not put out -/
  | char (afterBlanks : Bool) (ch : Int)
  deriving DecidableEq, Repr

structure Loop where
  found : Flushed
  scrub : Scrub
  input : List UInt8
  warnings : List Warning

def forgetsBlanks (state ch : Int) : Bool :=
  (lex cfg ch).comment || state = 0 && (lex cfg ch).lineComment || ch = code '/' ||
    (lex cfg ch).lineSeparator

inductive Look where
  | found (f : Flushed) (input : List UInt8) (warnings : List Warning)
  | blanks (b : UInt8) (rest : List UInt8)
  | again (input : List UInt8) (add_newlines : Int) (warnings : List Warning)

def look (s : Scrub) (input : List UInt8) (warnings : List Warning) : Look :=
  let (ch, rest) := getc c input
  if ch = code ' ' ∨ ch = code '\t' then
    match skipPast c (isWhitespace cfg) rest with
    | [] => .found .eof [] warnings
    | b :: rest =>
      if c.value b = EOF then .found .eof rest warnings
      else if forgetsBlanks cfg s.state (c.value b) then .again (b :: rest) s.add_newlines warnings
      else .blanks b rest
  else if ch = code '/' then
    let (ch, rest') := getc c rest
    if ch = code '*' then
      let (newlines, rest, ended) := blockComment c rest' s.add_newlines
      .again (c.ungetc (code ' ') rest) newlines
        (if ended then warnings ++ [.endOfFileInComment] else warnings)
    else if cfg.arch.slashesComment ∧ ch = code '/' then
      let (ch, rest) := readPast c (· ≠ code '\n') rest'
      if ch = EOF then .again rest s.add_newlines (warnings ++ [.endOfFileBeforeNewline])
      else .again (c.ungetc ch rest) s.add_newlines warnings
    else if (lex cfg (code '/')).comment ∨ s.state = 0 ∧ (lex cfg (code '/')).lineComment then
      .found (.char false (code '/')) (c.ungetc ch rest') warnings
    else .found .slash (if ch ≠ EOF then c.ungetc ch rest' else rest') warnings
  else .found (.char false ch) rest warnings

/-- `fuel` is more than the length of the input. -/
def flushchar (fuel : Nat) (s : Scrub) (input : List UInt8) (warnings : List Warning) :
    Option Loop :=
  match fuel with
  | 0 => none
  | fuel + 1 =>
    match look c cfg s input warnings with
    | .found f input warnings => some ⟨f, s, input, warnings⟩
    | .again input add_newlines warnings =>
      flushchar fuel { s with add_newlines := add_newlines } input warnings
    | .blanks b rest =>
      if s.state = 0 ∨ s.state = 2 then
        some ⟨.keptBlank, c.keepBlank cfg s, b :: rest, warnings⟩
      else if cfg.flagSeen ∧ s.state = 3 then some ⟨.blank, s, b :: rest, warnings⟩
      else
        -- the character is no blank and no slash, so that the next round ends at it
        some ⟨.char true (c.value b), c.dropBlank s, rest, warnings⟩

/-- A comment that takes the rest of the line, or a line number of the preprocessor. -/
def comment (s : Scrub) (ch : Int) (input : List UInt8) (warnings : List Warning) : Called :=
  if s.state = 0 ∧ (lex cfg ch).lineComment then
    let (ch, rest) := readPast c (isWhitespace cfg) input
    if ch = EOF then ⟨code '\n', s, rest, warnings ++ [.eofInComment]⟩
    else if isDigitCode ch = true then
      putOut (codes ".line ") { s with old_state := 4 } (c.ungetc ch rest) warnings
    else
      let (ch, rest) := if ch ≠ code '\n' then readPast c (· ≠ code '\n') rest else (ch, rest)
      ⟨code '\n', { s with state := 0 }, rest,
        if ch = EOF then warnings ++ [.eofInLineComment] else warnings⟩
  else if (lex cfg ch).comment then
    let (ch, rest) := readPast c (· ≠ code '\n') input
    ⟨code '\n', { s with state := 0 }, rest,
      if ch = EOF then warnings ++ [.eofInComment] else warnings⟩
  else if s.state = 0 ∨ s.state = 1 then ⟨ch, { s with state := 2 }, input, warnings⟩
  else ⟨ch, s, input, warnings⟩

def deal_misc (s : Scrub) (ch : Int) (input : List UInt8) (warnings : List Warning) : Called :=
  match c.dealMisc cfg ch s with
  | (true, s) => ⟨code ' ', s, c.ungetc ch input, warnings⟩
  | (false, s) => comment c cfg s ch input warnings

def decimal (n : Nat) : List Int := codes (toString n)

def switch (s : Scrub) (ch : Int) (input : List UInt8) (warnings : List Warning) : Called :=
  if ch = code '"' then ⟨code '"', { s with old_state := s.state, state := 5 }, input, warnings⟩
  else if ch = code '\'' then
    if cfg.flagSeen then ⟨code '\'', { s with old_state := s.state, state := 5 }, input, warnings⟩
    else
      let (ch, rest) := getc c input
      let text := codes "(" ++ decimal (if ch = EOF then 0 else (ch % 256).toNat) ++ codes ")"
      putOut text { s with old_state := s.state } rest
        (if ch = EOF then warnings ++ [.endOfFileAfterQuote] else warnings)
  else if ch = code ':' then
    ⟨ch, { s with state := if s.state ≠ 3 then 0 else s.state }, input, warnings⟩
  else if ch = code '\n' ∧ s.add_newlines ≠ 0 then
    ⟨ch, { s with add_newlines := s.add_newlines - 1, state := 0 }, c.ungetc ch input, warnings⟩
  else if ch = code '\n' ∨ ch = (if cfg.arch.atSeparates then code '@' else code ';') then
    ⟨ch, { s with state := 0 }, input, warnings⟩
  else if ch = EOF then
    ⟨EOF, s, input, if s.state = 0 then warnings else warnings ++ [.endOfFileNotAtEndOfLine]⟩
  else deal_misc c cfg s ch input warnings

def afterLoop (l : Loop) : Called :=
  match l.found with
  | .eof => ⟨EOF, l.scrub, l.input, l.warnings⟩
  | .keptBlank => ⟨code ' ', l.scrub, l.input, l.warnings⟩
  | .blank => ⟨code ' ', l.scrub, l.input, l.warnings⟩
  | .slash => ⟨code '/', l.scrub, l.input, l.warnings⟩
  | .char _ ch => switch c cfg l.scrub ch l.input l.warnings

/-- One call; `none` when it does not return. -/
def scrubNextChar (s : Scrub) (input : List UInt8) : Option Called :=
  if s.state = -1 then outString s input
  else if s.state = -2 then some (flushText c s input)
  else if s.state = 4 then some (lineNumber c cfg s input)
  else if s.state = 5 then some (inString c cfg s input)
  else if s.state = 6 then some (inEscape c s input)
  else if s.state = 7 then some (fileName c s input)
  else if s.state = 8 then flushLine c s input
  else (flushchar c cfg (input.length + 1) s input []).map (afterLoop c cfg)

end Common

def isSymbol (cfg : Config) (ch : Int) : Bool := (lex cfg ch).symbolComponent

/-- For files: a blank between two symbol characters is kept in states 9 and 10. -/
def forFiles : Copy where
  value b := b.toNat
  ungetc ch input := if ch = EOF then input else UInt8.ofNat (ch % 256).toNat :: input
  keepBlank cfg s :=
    if cfg.arch = .I386 ∧ s.state = 2 then
      if s.substate = 0 then { s with substate := 1 } else { s with substate := 0, state := 3 }
    else { s with state := s.state + 1 }
  dropBlank s := if s.state = 9 then { s with state := 10 } else s
  dealMisc cfg ch s :=
    if isSymbol cfg ch then
      if s.state = 10 then (true, { s with state := 3 })
      else (false, if s.state = 3 then { s with state := 9 } else s)
    else (false, if s.state = 9 ∨ s.state = 10 then { s with state := 3 } else s)
  escapes := codes "'\"\\bfnrt01234567"

/-- For strings: a byte is read as a `char`, which has a sign. -/
def forStrings : Copy where
  value b := b.toInt8.toInt
  ungetc ch input := UInt8.ofNat (ch % 256).toNat :: input
  keepBlank _ s := { s with state := s.state + 1 }
  dropBlank s := s
  dealMisc _ _ s := (false, s)
  escapes := codes "\"\\bfnrt01234567"

def do_scrub_next_char (cfg : Config) (s : Scrub) (input : List UInt8) : Option Called :=
  scrubNextChar forFiles cfg s input

def do_scrub_next_char_from_string (cfg : Config) (s : Scrub) (input : List UInt8) :
    Option Called := scrubNextChar forStrings cfg s input

end Toolwhip.As
