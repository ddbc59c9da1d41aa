import Toolwhip.Ld64.OrderFileEscapes
import Toolwhip.Lib.TextLines

/-! # Options::parseOrderFile -/

namespace Toolwhip.Ld64.OrderFile
set_option autoImplicit false

open Lib.CNumber Lib.TextLines List

inductive Architecture where
  | CPU_TYPE_POWERPC | CPU_TYPE_POWERPC64 | CPU_TYPE_I386 | CPU_TYPE_X86_64 | CPU_TYPE_ARM
  | other
  deriving DecidableEq

structure OrderedSymbol where
  objectFileName : Option (List UInt8)
  symbolName : Except PastNul (List UInt8)
  deriving DecidableEq

def archPrefixes : List (List UInt8 × Architecture) :=
  [(ascii "ppc:", .CPU_TYPE_POWERPC), (ascii "ppc64:", .CPU_TYPE_POWERPC64),
    (ascii "i386:", .CPU_TYPE_I386), (ascii "x86_64:", .CPU_TYPE_X86_64),
    (ascii "arm:", .CPU_TYPE_ARM)]

def archPrefix (text : List UInt8) : Option (List UInt8 × Architecture) :=
  archPrefixes.find? fun entry => entry.1.isPrefixOf text

/-- `symbolStart` after the architecture; `none` is the null pointer. -/
def afterArchitecture (fArchitecture : Architecture) (text : List UInt8) : Option (List UInt8) :=
  match archPrefix text with
  | none => some text
  | some entry => if fArchitecture = entry.2 then some (text.drop entry.1.length) else none

/-- The text up to the first `.o`, and what follows `.o:`. -/
def splitObject : List UInt8 → Option (List UInt8 × List UInt8)
  | [] => none
  | c :: text =>
    if (ascii ".o:").isPrefixOf (c :: text) then some (ascii ".o", text.drop 2)
    else (splitObject text).map fun r => (c :: r.1, r.2)

def symbolName (cstring : Bool) (symbolStart : List UInt8) : Except PastNul (List UInt8) :=
  if cstring then cstringSymbolName (symbolStart.dropWhile isspace)
  else .ok (symbolStart.dropWhile isspace)

def orderedPair (cstring : Bool) (text : List UInt8) : OrderedSymbol :=
  match splitObject text with
  | none => ⟨none, symbolName cstring text⟩
  | some (objFileName, symbolStart) => ⟨some objFileName, symbolName cstring symbolStart⟩

/-- The bytes from `symbolStart` on as a C string without trailing spaces. -/
def trimmedText (symbol : List UInt8) : List UInt8 :=
  (symbol.rdropWhile isspace).takeWhile (· ≠ 0)

def orderedSymbol (cstring : Bool) (fArchitecture : Architecture) (symbol : List UInt8) :
    List OrderedSymbol :=
  match afterArchitecture fArchitecture (trimmedText symbol) with
  | none => []
  | some text => [orderedPair cstring text]

inductive OrderState where
  | lineStart | inSymbol | inComment
  deriving DecidableEq

structure OrderScan where
  state : OrderState := .lineStart
  symbol : List UInt8 := []
  before : List UInt8 := []
  fOrderedSymbols : List OrderedSymbol := []
  /-- `last` was read before the start of the buffer -/
  underread : Bool := false

def trimBuffer (before : List UInt8) : List UInt8 :=
  (before.takeWhile isspace).map (fun _ => 0) ++ before.dropWhile isspace

def endsSymbol (cstring : Bool) (c : UInt8) : Bool := c == 10 || (!cstring && c == 35)

def OrderScan.endSymbol (cstring : Bool) (fArchitecture : Architecture) (s : OrderScan)
    (c : UInt8) : OrderScan where
  state := if c = 35 then .inComment else .lineStart
  symbol := []
  before := 0 :: trimBuffer s.before
  fOrderedSymbols := s.fOrderedSymbols ++ orderedSymbol cstring fArchitecture s.symbol
  underread := s.underread || (s.before.dropWhile isspace).isEmpty

/-- The body of the loop over the characters; `#` is 35. -/
def orderStep (cstring : Bool) (fArchitecture : Architecture) (s : OrderScan) (c : UInt8) :
    OrderScan :=
  match s.state with
  | .lineStart =>
    if c = 35 then { s with state := .inComment, before := c :: s.before }
    else if !isspace c || cstring then
      { s with state := .inSymbol, symbol := [c], before := c :: s.before }
    else { s with before := c :: s.before }
  | .inSymbol =>
    if endsSymbol cstring c then s.endSymbol cstring fArchitecture c
    else { s with symbol := s.symbol ++ [c], before := c :: s.before }
  | .inComment =>
    { s with state := if c = 10 then .lineStart else .inComment, before := c :: s.before }

def parseOrderFile (cstring : Bool) (fArchitecture : Architecture) (contents : List UInt8)
    (fOrderedSymbols : List OrderedSymbol) : OrderScan :=
  (contents ++ [10]).foldl (orderStep cstring fArchitecture)
    { fOrderedSymbols := fOrderedSymbols }

/-! ## The texts that are ended -/

def Blank (text : List UInt8) : Prop := ∀ c ∈ text, isspace c = true

/-- Between the two states these texts have been ended. -/
structure Ends (cstring : Bool) (fArchitecture : Architecture) (s t : OrderScan)
    (texts : List (List UInt8)) : Prop where
  symbols : t.fOrderedSymbols =
    s.fOrderedSymbols ++ texts.flatMap (orderedSymbol cstring fArchitecture)
  underread : (∀ text ∈ texts, ¬ Blank text) → t.underread = s.underread

/-- The scan is in a symbol of which these bytes have been read. -/
structure InSymbol (t : OrderScan) (symbol : List UInt8) : Prop where
  state : t.state = .inSymbol
  symbol_eq : t.symbol = symbol
  mem_before : ∀ c ∈ symbol, c ∈ t.before

section Stretches
variable {cstring : Bool} {fArchitecture : Architecture} {s t u : OrderScan}
  {texts more : List (List UInt8)} {w symbol : List UInt8} {c : UInt8}

theorem Ends.refl : Ends cstring fArchitecture s s [] where
  symbols := by simp
  underread := fun _ => rfl

theorem Ends.trans (hst : Ends cstring fArchitecture s t texts)
    (htu : Ends cstring fArchitecture t u more) :
    Ends cstring fArchitecture s u (texts ++ more) := by
  constructor
  · rw [htu.symbols, hst.symbols, flatMap_append, append_assoc]
  · intro h
    rw [htu.underread fun text ht => h text (mem_append_right _ ht)]
    exact hst.underread fun text ht => h text (mem_append_left _ ht)

variable (cstring fArchitecture)

theorem step_start (hs : s.state = .lineStart) (hc : c ≠ 35)
    (hstart : (!isspace c || cstring) = true) : InSymbol (orderStep cstring fArchitecture s c) [c] ∧
      Ends cstring fArchitecture s (orderStep cstring fArchitecture s c) [] := by
  have hstep : orderStep cstring fArchitecture s c =
      { s with state := .inSymbol, symbol := [c], before := c :: s.before } := by
    unfold orderStep
    simp only [hs]
    rw [if_neg hc, if_pos hstart]
  rw [hstep]
  refine ⟨⟨rfl, rfl, ?_⟩, ⟨by simp, fun _ => rfl⟩⟩
  intro d hd
  exact List.mem_cons.mpr (Or.inl (List.mem_singleton.mp hd))

theorem foldl_inSymbol (hs : InSymbol s symbol) (h : ∀ c ∈ w, endsSymbol cstring c = false) :
    InSymbol (w.foldl (orderStep cstring fArchitecture) s) (symbol ++ w) ∧
      Ends cstring fArchitecture s (w.foldl (orderStep cstring fArchitecture) s) [] := by
  induction w generalizing s symbol with
  | nil => exact ⟨by simpa using hs, Ends.refl⟩
  | cons c w ih =>
    have hstep : orderStep cstring fArchitecture s c =
        { s with symbol := s.symbol ++ [c], before := c :: s.before } := by
      unfold orderStep
      simp [hs.state, h c mem_cons_self]
    have hnext : InSymbol (orderStep cstring fArchitecture s c) (symbol ++ [c]) := by
      rw [hstep]
      refine ⟨hs.state, by rw [hs.symbol_eq], ?_⟩
      intro d hd
      rcases List.mem_append.mp hd with hd | hd
      · exact mem_cons_of_mem c (hs.mem_before d hd)
      · exact List.mem_cons.mpr (Or.inl (List.mem_singleton.mp hd))
    have hsame : Ends cstring fArchitecture s (orderStep cstring fArchitecture s c) [] := by
      rw [hstep]
      exact ⟨by simp, fun _ => rfl⟩
    obtain ⟨hin, hends⟩ := ih hnext fun d hd => h d (mem_cons_of_mem c hd)
    rw [append_assoc] at hin
    exact ⟨hin, hsame.trans hends⟩

theorem step_end (hs : InSymbol s symbol) (hc : endsSymbol cstring c = true) :
    (orderStep cstring fArchitecture s c).state = (if c = 35 then .inComment else .lineStart) ∧
      Ends cstring fArchitecture s (orderStep cstring fArchitecture s c) [symbol] := by
  have hstep : orderStep cstring fArchitecture s c = s.endSymbol cstring fArchitecture c := by
    unfold orderStep
    simp only [hs.state]
    rw [if_pos hc]
  rw [hstep]
  refine ⟨rfl, ?_, ?_⟩
  · rw [flatMap_singleton, ← hs.symbol_eq]
    rfl
  · intro h
    have hnot := h symbol mem_cons_self
    have hfree : (s.before.dropWhile isspace).isEmpty = false := by
      apply Bool.eq_false_iff.mpr
      intro hempty
      apply hnot
      intro d hd
      exact List.dropWhile_eq_nil_iff.mp (List.isEmpty_iff.mp hempty) d (hs.mem_before d hd)
    simp [OrderScan.endSymbol, hfree]

theorem foldl_blanks (hs : s.state = .lineStart) (h : Blank w) :
    (w.foldl (orderStep false fArchitecture) s).state = .lineStart ∧
      Ends false fArchitecture s (w.foldl (orderStep false fArchitecture) s) [] := by
  induction w generalizing s with
  | nil => exact ⟨hs, Ends.refl⟩
  | cons c w ih =>
    have hspace := h c mem_cons_self
    have hc : c ≠ 35 := by
      rintro rfl
      cases hspace
    have hstep : orderStep false fArchitecture s c = { s with before := c :: s.before } := by
      unfold orderStep
      simp [hs, hc, hspace]
    have hsame : Ends false fArchitecture s (orderStep false fArchitecture s c) [] := by
      rw [hstep]
      exact ⟨by simp, fun _ => rfl⟩
    have hnext : (orderStep false fArchitecture s c).state = .lineStart := by rw [hstep, hs]
    obtain ⟨hstate, hends⟩ := ih hnext fun d hd => h d (mem_cons_of_mem c hd)
    exact ⟨hstate, hsame.trans hends⟩

theorem foldl_comment (hs : s.state = .inComment) (h : 10 ∉ w) :
    ((w ++ [10]).foldl (orderStep cstring fArchitecture) s).state = .lineStart ∧
      Ends cstring fArchitecture s ((w ++ [10]).foldl (orderStep cstring fArchitecture) s) [] := by
  induction w generalizing s with
  | nil =>
    have hstep : orderStep cstring fArchitecture s 10 =
        { s with state := .lineStart, before := 10 :: s.before } := by
      unfold orderStep
      simp [hs]
    rw [nil_append, foldl_cons, foldl_nil, hstep]
    exact ⟨rfl, by simp, fun _ => rfl⟩
  | cons c w ih =>
    have hc : c ≠ 10 := fun heq => h (heq ▸ mem_cons_self)
    have hstep : orderStep cstring fArchitecture s c =
        { s with state := .inComment, before := c :: s.before } := by
      unfold orderStep
      simp [hs, hc]
    have hsame : Ends cstring fArchitecture s (orderStep cstring fArchitecture s c) [] := by
      rw [hstep]
      exact ⟨by simp, fun _ => rfl⟩
    have hnext : (orderStep cstring fArchitecture s c).state = .inComment := by rw [hstep]
    obtain ⟨hstate, hends⟩ := ih hnext fun hmem => h (mem_cons_of_mem c hmem)
    exact ⟨hstate, hsame.trans hends⟩

def symbolPart (cstring : Bool) (w : List UInt8) : List UInt8 :=
  w.takeWhile fun c => !endsSymbol cstring c

theorem foldl_symbol (hs : InSymbol s symbol) (h : 10 ∉ w) :
    ((w ++ [10]).foldl (orderStep cstring fArchitecture) s).state = .lineStart ∧
      Ends cstring fArchitecture s ((w ++ [10]).foldl (orderStep cstring fArchitecture) s)
        [symbol ++ symbolPart cstring w] := by
  have hpart : ∀ c ∈ symbolPart cstring w, endsSymbol cstring c = false := by
    intro c hc
    simpa using mem_takeWhile_imp hc
  obtain ⟨hin, hends⟩ := foldl_inSymbol cstring fArchitecture hs hpart
  have hsplit := takeWhile_append_dropWhile (p := fun c => !endsSymbol cstring c) (l := w)
  cases hrest : w.dropWhile (fun c => !endsSymbol cstring c) with
  | nil =>
    rw [hrest, append_nil] at hsplit
    obtain ⟨hstate, hlast⟩ := step_end cstring fArchitecture hin
      (show endsSymbol cstring 10 = true from rfl)
    have htext : w ++ [10] = symbolPart cstring w ++ [10] := by
      unfold symbolPart
      rw [hsplit]
    rw [htext, foldl_append, foldl_cons, foldl_nil]
    exact ⟨hstate, hends.trans hlast⟩
  | cons c comment =>
    have hc : endsSymbol cstring c = true := by
      have hhead := head?_dropWhile_not (fun c => !endsSymbol cstring c) w
      rw [hrest] at hhead
      simpa using hhead
    rw [hrest] at hsplit
    have hmem : c ∈ w ∧ 10 ∉ comment := by
      constructor
      · rw [← hsplit]
        exact mem_append_right _ mem_cons_self
      · intro hmem
        apply h
        rw [← hsplit]
        exact mem_append_right _ (mem_cons_of_mem c hmem)
    have hhash : c = 35 := by
      have hne : c ≠ 10 := fun heq => h (heq ▸ hmem.1)
      unfold endsSymbol at hc
      simp only [Bool.or_eq_true, beq_iff_eq, hne, false_or, Bool.and_eq_true] at hc
      exact hc.2
    obtain ⟨hstate, hlast⟩ := step_end cstring fArchitecture hin hc
    rw [if_pos hhash] at hstate
    obtain ⟨hdone, hcomment⟩ := foldl_comment cstring fArchitecture hstate hmem.2
    have htext : w ++ [10] = symbolPart cstring w ++ c :: (comment ++ [10]) := by
      conv_lhs => rw [← hsplit]
      unfold symbolPart
      simp
    rw [htext, foldl_append, foldl_cons]
    exact ⟨hdone, (hends.trans hlast).trans hcomment⟩

def fromStart (cstring : Bool) (line : List UInt8) : List UInt8 :=
  if cstring then line else line.dropWhile isspace

def lineTexts (cstring : Bool) (line : List UInt8) : List (List UInt8) :=
  if (fromStart cstring line).head? = some 35 ∨ fromStart cstring line = [] then []
  else [symbolPart cstring (fromStart cstring line)]

theorem foldl_fromStart (hs : s.state = .lineStart) (h : 10 ∉ w)
    (hstart : ∀ c ∈ w.head?, (!isspace c || cstring) = true) (hne : w ≠ []) :
    ((w ++ [10]).foldl (orderStep cstring fArchitecture) s).state = .lineStart ∧
      Ends cstring fArchitecture s ((w ++ [10]).foldl (orderStep cstring fArchitecture) s)
        (if w.head? = some 35 then [] else [symbolPart cstring w]) := by
  cases w with
  | nil => exact absurd rfl hne
  | cons c rest =>
    have hrest : 10 ∉ rest := fun hmem => h (mem_cons_of_mem c hmem)
    have hnewline : c ≠ 10 := fun heq => h (heq ▸ mem_cons_self)
    rw [cons_append, foldl_cons, head?_cons]
    by_cases hc : c = 35
    · subst hc
      have hstep : orderStep cstring fArchitecture s 35 =
          { s with state := .inComment, before := 35 :: s.before } := by
        unfold orderStep
        simp [hs]
      have hsame : Ends cstring fArchitecture s (orderStep cstring fArchitecture s 35) [] := by
        rw [hstep]
        exact ⟨by simp, fun _ => rfl⟩
      have hstate : (orderStep cstring fArchitecture s 35).state = .inComment := by rw [hstep]
      obtain ⟨hdone, hends⟩ := foldl_comment cstring fArchitecture hstate hrest
      exact ⟨hdone, hsame.trans hends⟩
    · have hhash : ¬ some c = some 35 := fun heq => hc (Option.some.inj heq)
      rw [if_neg hhash]
      obtain ⟨hin, hsame⟩ := step_start cstring fArchitecture hs hc (hstart c rfl)
      obtain ⟨hdone, hends⟩ := foldl_symbol cstring fArchitecture hin hrest
      have hpart : symbolPart cstring (c :: rest) = [c] ++ symbolPart cstring rest := by
        unfold symbolPart
        rw [takeWhile_cons_of_pos (by simp [endsSymbol, hnewline, hc])]
        rfl
      rw [hpart]
      exact ⟨hdone, hsame.trans hends⟩

theorem foldl_line {line : List UInt8} (hs : s.state = .lineStart) (h : 10 ∉ line)
    (hempty : cstring = true → line ≠ []) :
    ((line ++ [10]).foldl (orderStep cstring fArchitecture) s).state = .lineStart ∧
      Ends cstring fArchitecture s ((line ++ [10]).foldl (orderStep cstring fArchitecture) s)
        (lineTexts cstring line) := by
  unfold lineTexts fromStart
  cases cstring with
  | true =>
    have hne := hempty rfl
    simp only [if_true, hne, or_false]
    exact foldl_fromStart true fArchitecture hs h (by simp) hne
  | false =>
    simp only [Bool.false_eq_true, if_false]
    have hsplit := takeWhile_append_dropWhile (p := isspace) (l := line)
    obtain ⟨hblank, hsame⟩ := foldl_blanks fArchitecture hs
      (fun c (hc : c ∈ line.takeWhile isspace) => mem_takeWhile_imp hc)
    have hrest : 10 ∉ line.dropWhile isspace := fun hmem =>
      h ((dropWhile_suffix isspace).subset hmem)
    have htext : line ++ [10] = line.takeWhile isspace ++ (line.dropWhile isspace ++ [10]) := by
      rw [← append_assoc, hsplit]
    rw [htext, foldl_append]
    by_cases hne : line.dropWhile isspace = []
    · rw [hne, if_pos (Or.inr rfl)]
      obtain ⟨hdone, hends⟩ := @foldl_blanks fArchitecture _ [10] hblank
        (fun c hc => by rw [List.mem_singleton.mp hc]; rfl)
      exact ⟨hdone, hsame.trans hends⟩
    have hstart : ∀ c ∈ (line.dropWhile isspace).head?, (!isspace c || false) = true := by
      intro c hc
      have hhead := head?_dropWhile_not isspace line
      rw [Option.mem_def.mp hc] at hhead
      simpa using hhead
    obtain ⟨hdone, hends⟩ := foldl_fromStart false fArchitecture hblank hrest
      hstart hne
    simp only [hne, or_false]
    exact ⟨hdone, hsame.trans hends⟩

end Stretches

def orderLines (contents : List UInt8) : List (List UInt8) := contents.splitOn 10

/-- The texts that the lines end; `newline` says that a symbol has started at a newline. -/
def scannedTexts (cstring : Bool) : (newline : Bool) → List (List UInt8) → List (List UInt8)
  | _, [] => []
  | true, line :: rest => ([10] ++ symbolPart cstring line) :: scannedTexts cstring false rest
  | false, line :: rest =>
    if cstring ∧ line = [] then scannedTexts cstring true rest
    else lineTexts cstring line ++ scannedTexts cstring false rest

def AtLine (newline : Bool) (s : OrderScan) : Prop :=
  if newline then InSymbol s [10] else s.state = .lineStart

section File
variable {cstring newline : Bool} {fArchitecture : Architecture} {s : OrderScan}
  {contents : List UInt8}

theorem orderLines_append {line rest : List UInt8} (h : 10 ∉ line) :
    orderLines (line ++ 10 :: rest) = line :: orderLines rest :=
  splitOn_append_cons_self_of_not_mem h rest

theorem orderLines_last {line : List UInt8} (h : 10 ∉ line) : orderLines line = [line] :=
  splitOn_eq_singleton h

theorem step_newline (hs : s.state = .lineStart) :
    InSymbol (orderStep true fArchitecture s 10) [10] ∧
      Ends true fArchitecture s (orderStep true fArchitecture s 10) [] :=
  step_start true fArchitecture hs (by decide) rfl

theorem foldl_file (hs : AtLine newline s) :
    Ends cstring fArchitecture s ((contents ++ [10]).foldl (orderStep cstring fArchitecture) s)
      (scannedTexts cstring newline (orderLines contents)) := by
  induction contents using line_induction (10 : UInt8) generalizing s newline with
  | last line h =>
    rw [orderLines_last h]
    cases newline with
    | true => exact (foldl_symbol cstring fArchitecture hs h).2
    | false =>
      rw [scannedTexts]
      by_cases hempty : cstring = true ∧ line = []
      · obtain ⟨rfl, rfl⟩ := hempty
        exact (step_newline hs).2
      have hline := foldl_line cstring fArchitecture hs h fun hc hl => hempty ⟨hc, hl⟩
      rw [if_neg hempty, scannedTexts, append_nil]
      exact hline.2
  | line line rest h ih =>
    have htext : line ++ 10 :: rest ++ [10] = (line ++ [10]) ++ (rest ++ [10]) := by simp
    rw [orderLines_append h, htext, foldl_append]
    cases newline with
    | true =>
      obtain ⟨hstate, hends⟩ := foldl_symbol cstring fArchitecture hs h
      exact hends.trans (@ih false _ hstate)
    | false =>
      rw [scannedTexts]
      by_cases hempty : cstring = true ∧ line = []
      · obtain ⟨rfl, rfl⟩ := hempty
        obtain ⟨hin, hends⟩ := @step_newline fArchitecture _ hs
        exact hends.trans (@ih true _ hin)
      obtain ⟨hstate, hends⟩ := foldl_line cstring fArchitecture hs h
        fun hc hl => hempty ⟨hc, hl⟩
      rw [if_neg hempty]
      exact hends.trans (@ih false _ hstate)

theorem parseOrderFile_ends (fOrderedSymbols : List OrderedSymbol) :
    Ends cstring fArchitecture { fOrderedSymbols := fOrderedSymbols }
      (parseOrderFile cstring fArchitecture contents fOrderedSymbols)
      (scannedTexts cstring false (orderLines contents)) :=
  foldl_file (show AtLine false { fOrderedSymbols := fOrderedSymbols } from rfl)

end File
end Toolwhip.Ld64.OrderFile
