import Toolwhip.Lib.CNumber
import Toolwhip.Lib.TextLines

/-! # Options::parseSegAddrTable -/

namespace Toolwhip.Ld64.SegAddrTable
set_option autoImplicit false

open Lib.CNumber Lib.TextLines List

/-- The characters that `fgets` puts in a buffer of `PATH_MAX` bytes, which is 1024. -/
def pathMaxChars : Nat := 1023

/-- The fields of `Options` that the table sets. -/
structure SegAddrOptions where
  fBaseAddress : BitVec 64
  fBaseWritableAddress : BitVec 64
  fSplitSegs : Bool
  deriving DecidableEq

/-- The variables that live outside the loop. -/
structure Columns where
  firstColumAddress : BitVec 64 := 0
  secondColumAddress : BitVec 64 := 0
  hasSecondColumn : Bool := false
  deriving DecidableEq

def buffer (piece : List UInt8) : List UInt8 := piece.takeWhile (· ≠ 0)

/-- `eol != NULL` -/
def hasEol (piece : List UInt8) : Bool := (buffer piece).contains 10

def lineText (piece : List UInt8) : List UInt8 := (buffer piece).takeWhile (· ≠ 10)

def is0x (p : List UInt8) : Bool := (ascii "0x").isPrefixOf p

/-- The columns of a line that starts with `0x`, and where `p` stands after them. -/
structure LineColumns where
  first : BitVec 64
  second : Option (BitVec 64)
  p : List UInt8

def lineColumns (text : List UInt8) : Option LineColumns :=
  if is0x text then
    let first := strtoul 64 16 text
    let p := first.2.dropWhile isspace
    if is0x p then
      let second := strtoul 64 16 p
      some ⟨first.1, some second.1, second.2.dropWhile isspace⟩
    else some ⟨first.1, none, p⟩
  else none

def isPath (p : List UInt8) : Bool := p.head? == some 47

def trimmed (p : List UInt8) : List UInt8 := p.rdropWhile isspace

def Columns.read (c : Columns) (l : LineColumns) : Columns where
  firstColumAddress := l.first
  secondColumAddress := l.second.getD c.secondColumAddress
  hasSecondColumn := c.hasSecondColumn || l.second.isSome

def setAddresses (c : Columns) (opts : SegAddrOptions) : SegAddrOptions where
  fBaseAddress := c.firstColumAddress
  fBaseWritableAddress :=
    if c.hasSecondColumn then c.secondColumAddress else opts.fBaseWritableAddress
  fSplitSegs := c.hasSecondColumn || opts.fSplitSegs

inductive Fault where
  /-- `end` starts before the null pointer `eol` -/
  | nullEol
  deriving DecidableEq

/-- The loop over what `fgets` reads. -/
def readTable (installPath : List UInt8) :
    List (List UInt8) → Columns → SegAddrOptions → Except Fault SegAddrOptions
  | [], _, opts => .ok opts
  | piece :: rest, c, opts =>
    match lineColumns (lineText piece) with
    | none => readTable installPath rest c opts
    | some l =>
      if isPath l.p then
        if hasEol piece then
          if trimmed l.p = installPath then .ok (setAddresses (c.read l) opts)
          else readTable installPath rest (c.read l) opts
        else .error .nullEol
      else readTable installPath rest (c.read l) opts

/-- `none` is a file that cannot be read. -/
def parseSegAddrTable (file : Option (List UInt8)) (installPath : List UInt8)
    (opts : SegAddrOptions) : Except Fault SegAddrOptions :=
  match file with
  | none => .ok opts
  | some text => readTable installPath (pieces 10 pathMaxChars pathMaxChars text) {} opts

section Line
variable {installPath piece : List UInt8} {rest : List (List UInt8)} {c : Columns}
  {opts : SegAddrOptions}

def matching (installPath piece : List UInt8) : Option LineColumns :=
  (lineColumns (lineText piece)).filter fun l => isPath l.p && trimmed l.p == installPath

def twoColumns (piece : List UInt8) : Bool :=
  (lineColumns (lineText piece)).any fun l => l.second.isSome

def unterminated (piece : List UInt8) : Bool :=
  !hasEol piece && (lineColumns (lineText piece)).any fun l => isPath l.p

def Columns.pass (c : Columns) (piece : List UInt8) : Columns :=
  ((lineColumns (lineText piece)).map c.read).getD c

theorem hasSecondColumn_pass :
    (c.pass piece).hasSecondColumn = (c.hasSecondColumn || twoColumns piece) := by
  unfold Columns.pass twoColumns
  cases lineColumns (lineText piece) <;> simp [Columns.read]

theorem readTable_pass (hother : matching installPath piece = none)
    (heol : unterminated piece = false) :
    readTable installPath (piece :: rest) c opts = readTable installPath rest (c.pass piece) opts := by
  unfold matching at hother
  unfold unterminated at heol
  rw [readTable]
  unfold Columns.pass
  cases hl : lineColumns (lineText piece) with
  | none => rfl
  | some l =>
    rw [hl] at hother heol
    simp only [Option.filter_some, Option.any_some, Option.map_some, Option.getD_some] at hother heol ⊢
    by_cases hpath : isPath l.p = true
    · simp only [hpath, Bool.true_and, beq_iff_eq, Bool.and_true, Bool.not_eq_false'] at hother heol
      have hne : trimmed l.p ≠ installPath := by
        intro heq
        rw [if_pos heq] at hother
        cases hother
      rw [if_pos hpath, if_pos heol, if_neg hne]
    · rw [if_neg hpath]

theorem readTable_match {l : LineColumns} (hmatch : matching installPath piece = some l)
    (heol : unterminated piece = false) :
    readTable installPath (piece :: rest) c opts = .ok (setAddresses (c.read l) opts) := by
  obtain ⟨hl, hpath⟩ := Option.filter_eq_some_iff.mp hmatch
  rw [Bool.and_eq_true, beq_iff_eq] at hpath
  unfold unterminated at heol
  rw [hl, Option.any_some, hpath.1, Bool.and_true, Bool.not_eq_false'] at heol
  unfold readTable
  simp only [hl]
  rw [if_pos hpath.1, if_pos heol, if_pos hpath.2]

theorem readTable_fault (heol : unterminated piece = true) :
    readTable installPath (piece :: rest) c opts = .error .nullEol := by
  unfold unterminated at heol
  rw [Bool.and_eq_true] at heol
  unfold readTable
  cases hl : lineColumns (lineText piece) with
  | none =>
    rw [hl] at heol
    cases heol.2
  | some l =>
    rw [hl, Option.any_some, Bool.not_eq_true'] at heol
    simp only
    rw [if_pos heol.2, heol.1]
    rfl

end Line
section Table
variable {installPath text : List UInt8} {c : Columns} {opts : SegAddrOptions}

def Passed (installPath : List UInt8) (ps : List (List UInt8)) : Prop :=
  ∀ piece ∈ ps, matching installPath piece = none ∧ unterminated piece = false

theorem readTable_passed {before rest : List (List UInt8)} (h : Passed installPath before) :
    readTable installPath (before ++ rest) c opts =
      readTable installPath rest (before.foldl Columns.pass c) opts := by
  induction before generalizing c with
  | nil => rfl
  | cons piece before ih =>
    obtain ⟨hother, heol⟩ := h piece mem_cons_self
    rw [cons_append, readTable_pass hother heol, foldl_cons]
    apply ih
    intro other hother
    exact h other (mem_cons_of_mem _ hother)

theorem hasSecondColumn_foldl (before : List (List UInt8)) :
    (before.foldl Columns.pass c).hasSecondColumn =
      (c.hasSecondColumn || before.any twoColumns) := by
  induction before generalizing c with
  | nil => simp
  | cons piece before ih =>
    rw [foldl_cons, ih, hasSecondColumn_pass, any_cons, Bool.or_assoc]

theorem passed_or_stop (installPath : List UInt8) (ps : List (List UInt8)) :
    Passed installPath ps ∨ ∃ before piece rest, ps = before ++ piece :: rest ∧
      Passed installPath before ∧
      (unterminated piece = true ∨
        unterminated piece = false ∧ ∃ l, matching installPath piece = some l) := by
  induction ps with
  | nil => exact Or.inl (by simp [Passed])
  | cons piece ps ih =>
    by_cases heol : unterminated piece = true
    · exact Or.inr ⟨[], piece, ps, rfl, by simp [Passed], Or.inl heol⟩
    rw [Bool.not_eq_true] at heol
    cases hmatch : matching installPath piece with
    | some l => exact Or.inr ⟨[], piece, ps, rfl, by simp [Passed], Or.inr ⟨heol, l, hmatch⟩⟩
    | none =>
      have hfirst : ∀ ps', Passed installPath ps' → Passed installPath (piece :: ps') := by
        intro ps' h other hother
        rcases List.mem_cons.mp hother with rfl | hother
        · exact ⟨hmatch, heol⟩
        · exact h other hother
      rcases ih with h | ⟨before, stop, rest, rfl, hbefore, hstop⟩
      · exact Or.inl (hfirst ps h)
      · exact Or.inr ⟨piece :: before, stop, rest, rfl, hfirst before hbefore, hstop⟩

/-- The lines as `fgets` reads them. -/
def tableLines (text : List UInt8) : List (List UInt8) := pieces 10 pathMaxChars pathMaxChars text

def matchingLine (text installPath : List UInt8) : Option (List UInt8) :=
  (tableLines text).find? fun piece => (matching installPath piece).isSome

def linesBefore (text installPath : List UInt8) : List (List UInt8) :=
  (tableLines text).takeWhile fun piece => (matching installPath piece).isNone

def lineSets (l : LineColumns) (opts : SegAddrOptions) : SegAddrOptions :=
  setAddresses (({} : Columns).read l) opts

def DependsOnMatchingLine (text installPath : List UInt8) : Prop :=
  ∀ opts, parseSegAddrTable (some text) installPath opts =
    .ok (((matchingLine text installPath).bind (matching installPath)).elim opts
      fun l => lineSets l opts)

def Terminated (text installPath : List UInt8) : Prop :=
  (∀ piece ∈ linesBefore text installPath, unterminated piece = false) ∧
    ∀ piece ∈ matchingLine text installPath, unterminated piece = false

def NoStaleColumn (text installPath : List UInt8) : Prop :=
  ∀ piece ∈ matchingLine text installPath, twoColumns piece = true ∨
    ∀ other ∈ linesBefore text installPath, twoColumns other = false

theorem setAddresses_read_iff {l : LineColumns} :
    (∀ opts, setAddresses (c.read l) opts = lineSets l opts) ↔
      l.second.isSome = true ∨ c.hasSecondColumn = false := by
  cases hl : l.second with
  | some second => simp [lineSets, setAddresses, Columns.read, hl]
  | none =>
    constructor
    · intro h
      have hsplit := congrArg SegAddrOptions.fSplitSegs (h ⟨0, 0, false⟩)
      simp only [lineSets, setAddresses, Columns.read, hl, Option.isSome_none,
        Bool.or_false] at hsplit
      exact Or.inr hsplit
    · intro h opts
      simp only [Option.isSome_none, Bool.false_eq_true, false_or] at h
      simp [lineSets, setAddresses, Columns.read, hl, h]

theorem twoColumns_of_match {piece : List UInt8} {l : LineColumns}
    (h : matching installPath piece = some l) : twoColumns piece = l.second.isSome := by
  obtain ⟨hl, -⟩ := Option.filter_eq_some_iff.mp h
  rw [twoColumns, hl, Option.any_some]

section Stops
variable {before rest : List (List UInt8)} {piece : List UInt8}

theorem matchingLine_eq {l : LineColumns} (htext : tableLines text = before ++ piece :: rest)
    (hbefore : Passed installPath before) (hmatch : matching installPath piece = some l) :
    matchingLine text installPath = some piece ∧ linesBefore text installPath = before := by
  constructor
  · unfold matchingLine
    rw [htext]
    apply List.find?_eq_some_iff_append.mpr
    refine ⟨by rw [hmatch]; rfl, before, rest, rfl, ?_⟩
    intro other hother
    rw [(hbefore other hother).1]
    rfl
  · unfold linesBefore
    rw [htext, takeWhile_append_of_pos]
    · rw [takeWhile_cons_of_neg (by rw [hmatch]; simp), append_nil]
    · intro other hother
      rw [(hbefore other hother).1]
      rfl

theorem not_terminated (htext : tableLines text = before ++ piece :: rest)
    (hbefore : Passed installPath before) (heol : unterminated piece = true) :
    ¬ Terminated text installPath := by
  intro h
  cases hmatch : matching installPath piece with
  | some l =>
    have hpiece := h.2 piece (matchingLine_eq htext hbefore hmatch).1
    rw [heol] at hpiece
    cases hpiece
  | none =>
    have hmem : piece ∈ linesBefore text installPath := by
      unfold linesBefore
      rw [htext, takeWhile_append_of_pos, takeWhile_cons_of_pos (by rw [hmatch]; rfl)]
      · simp
      · intro other hother
        rw [(hbefore other hother).1]
        rfl
    have hpiece := h.1 piece hmem
    rw [heol] at hpiece
    cases hpiece

theorem dependsOnMatchingLine_match {l : LineColumns}
    (htext : tableLines text = before ++ piece :: rest) (hbefore : Passed installPath before)
    (hmatch : matching installPath piece = some l) (heol : unterminated piece = false) :
    DependsOnMatchingLine text installPath ↔
      l.second.isSome = true ∨ ∀ other ∈ before, twoColumns other = false := by
  have hcolumns : (before.foldl Columns.pass {}).hasSecondColumn = false ↔
      ∀ other ∈ before, twoColumns other = false := by
    rw [hasSecondColumn_foldl, Bool.false_or, any_eq_false]
    simp only [Bool.not_eq_true]
  rw [← hcolumns, ← setAddresses_read_iff]
  unfold DependsOnMatchingLine parseSegAddrTable
  have hrun : ∀ opts, readTable installPath (tableLines text) {} opts =
      .ok (setAddresses ((before.foldl Columns.pass {}).read l) opts) := by
    intro opts
    rw [htext, readTable_passed hbefore, readTable_match hmatch heol]
  simp only [tableLines] at hrun
  simp only [hrun, (matchingLine_eq htext hbefore hmatch).1, Option.bind_some, hmatch,
    Option.elim_some, Except.ok.injEq]

end Stops

theorem dependsOnMatchingLine_passed (h : Passed installPath (tableLines text)) :
    DependsOnMatchingLine text installPath := by
  intro opts
  have hnone : matchingLine text installPath = none := by
    apply List.find?_eq_none.mpr
    intro piece hpiece
    rw [(h piece hpiece).1]
    simp
  have hrun : readTable installPath (tableLines text ++ []) {} opts = .ok opts :=
    readTable_passed h
  rw [append_nil] at hrun
  rw [hnone]
  exact hrun

theorem segAddrTable_iff : DependsOnMatchingLine text installPath ↔
    Terminated text installPath ∧ NoStaleColumn text installPath := by
  rcases passed_or_stop installPath (tableLines text) with
    hpassed | ⟨before, piece, rest, htext, hbefore, heol | ⟨heol, l, hmatch⟩⟩
  · have hnone : matchingLine text installPath = none := by
      apply List.find?_eq_none.mpr
      intro piece hpiece
      rw [(hpassed piece hpiece).1]
      simp
    refine iff_of_true (dependsOnMatchingLine_passed hpassed) ⟨⟨?_, ?_⟩, ?_⟩
    · intro piece hpiece
      exact (hpassed piece ((takeWhile_sublist _).subset hpiece)).2
    · intro piece hpiece
      rw [hnone] at hpiece
      cases hpiece
    · intro piece hpiece
      rw [hnone] at hpiece
      cases hpiece
  · apply iff_of_false
    · intro h
      have hrun : readTable installPath (tableLines text) {} ⟨0, 0, false⟩ = .error .nullEol := by
        rw [htext, readTable_passed hbefore, readTable_fault heol]
      have hok : readTable installPath (tableLines text) {} ⟨0, 0, false⟩ = .ok _ := h ⟨0, 0, false⟩
      rw [hrun] at hok
      cases hok
    · intro h
      exact not_terminated htext hbefore heol h.1
  · obtain ⟨hline, hlines⟩ := matchingLine_eq htext hbefore hmatch
    rw [dependsOnMatchingLine_match htext hbefore hmatch heol]
    unfold Terminated NoStaleColumn
    rw [hline, hlines]
    simp only [Option.mem_def, Option.some.injEq, forall_eq']
    rw [twoColumns_of_match hmatch]
    constructor
    · intro h
      exact ⟨⟨fun other hother => (hbefore other hother).2, heol⟩, h⟩
    · intro h
      exact h.2

def twoLibraries : List UInt8 := ascii "0x1000 0x2000 /usr/lib/a\n0x3000 /usr/lib/b\n"

theorem segAddrTable_twoLibraries : ¬ ∀ text installPath, DependsOnMatchingLine text installPath := by
  intro hclaim
  have hrun : parseSegAddrTable (some twoLibraries) (ascii "/usr/lib/b") ⟨0, 0, false⟩ =
      .ok ⟨0x3000, 0x2000, true⟩ := by rfl
  have hline : ((matchingLine twoLibraries (ascii "/usr/lib/b")).bind
      (matching (ascii "/usr/lib/b"))).elim (⟨0, 0, false⟩ : SegAddrOptions)
        (fun l => lineSets l ⟨0, 0, false⟩) = ⟨0x3000, 0, false⟩ := by rfl
  have hsame := hclaim twoLibraries (ascii "/usr/lib/b") ⟨0, 0, false⟩
  cases hsame

end Table
end Toolwhip.Ld64.SegAddrTable
