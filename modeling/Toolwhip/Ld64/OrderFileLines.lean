import Mathlib.Data.List.Chain
import Toolwhip.Ld64.OrderFile

/-! # What each line of an order file contributes -/

namespace Toolwhip.Ld64.OrderFile
set_option autoImplicit false

open Lib.CNumber List

instance (text : List UInt8) : Decidable (Blank text) :=
  inferInstanceAs (Decidable (∀ c ∈ text, isspace c = true))

def lineSymbols (cstring : Bool) (fArchitecture : Architecture) (line : List UInt8) :
    List OrderedSymbol :=
  if Blank line then [] else (lineTexts cstring line).flatMap (orderedSymbol cstring fArchitecture)

/-- The symbols of the file are those of its lines, and the buffer is not left. -/
structure LineLocal (cstring : Bool) (fArchitecture : Architecture) (contents : List UInt8) :
    Prop where
  symbols : ∀ fOrderedSymbols,
    (parseOrderFile cstring fArchitecture contents fOrderedSymbols).fOrderedSymbols =
      fOrderedSymbols ++ (orderLines contents).flatMap (lineSymbols cstring fArchitecture)
  inBuffer : ∀ fOrderedSymbols,
    (parseOrderFile cstring fArchitecture contents fOrderedSymbols).underread = false

section Line
variable {cstring : Bool} {fArchitecture : Architecture} {line : List UInt8}

/-- A comment: `#` at the byte where a symbol could start. -/
def Comment (cstring : Bool) (line : List UInt8) : Prop :=
  (fromStart cstring line).head? = some 35

theorem fromStart_ne_nil (h : ¬ Blank line) : fromStart cstring line ≠ [] := by
  intro hnil
  apply h
  unfold fromStart at hnil
  cases cstring with
  | true =>
    rw [if_pos rfl] at hnil
    simp [Blank, hnil]
  | false =>
    exact List.dropWhile_eq_nil_iff.mp hnil

theorem lineSymbols_blank (h : Blank line) : lineSymbols cstring fArchitecture line = [] :=
  if_pos h

theorem lineSymbols_comment (h : Comment cstring line) :
    lineSymbols cstring fArchitecture line = [] := by
  unfold Comment at h
  unfold lineSymbols lineTexts
  rw [if_pos (Or.inl h)]
  simp

theorem lineSymbols_symbol (hblank : ¬ Blank line) (hcomment : ¬ Comment cstring line) :
    lineSymbols cstring fArchitecture line =
      orderedSymbol cstring fArchitecture (symbolPart cstring (fromStart cstring line)) := by
  have hnot : ¬ ((fromStart cstring line).head? = some 35 ∨ fromStart cstring line = []) := by
    intro h
    rcases h with h | h
    · exact hcomment h
    · exact fromStart_ne_nil hblank h
  unfold lineSymbols lineTexts
  rw [if_neg hblank, if_neg hnot, flatMap_singleton]

end Line

section Symbols
variable {fArchitecture : Architecture} {contents : List UInt8}

theorem scannedTexts_false (ls : List (List UInt8)) :
    scannedTexts false false ls = ls.flatMap (lineTexts false) := by
  induction ls with
  | nil => rfl
  | cons line ls ih =>
    rw [scannedTexts, if_neg (by simp), ih, flatMap_cons]

theorem lineTexts_not_blank {line text : List UInt8} (h : text ∈ lineTexts false line) :
    ¬ Blank text := by
  unfold lineTexts fromStart at h
  simp only [Bool.false_eq_true, if_false] at h
  split at h
  · cases h
  rename_i hstart
  rw [List.mem_singleton.mp h]
  intro hblank
  cases hline : line.dropWhile isspace with
  | nil => exact hstart (Or.inr hline)
  | cons c rest =>
    have hspace : isspace c = false := by
      have hhead := head?_dropWhile_not isspace line
      rw [hline] at hhead
      simpa using hhead
    rw [hline] at hstart hblank
    have hends : endsSymbol false c = false := by
      unfold endsSymbol
      have hnewline : c ≠ 10 := by
        rintro rfl
        cases hspace
      have hhash : c ≠ 35 := fun heq => hstart (Or.inl (by rw [heq]; rfl))
      simp [hnewline, hhash]
    have hc := hblank c (by simp [symbolPart, hends])
    rw [hspace] at hc
    cases hc

theorem lineSymbols_texts (line : List UInt8) : lineSymbols false fArchitecture line =
      (lineTexts false line).flatMap (orderedSymbol false fArchitecture) := by
  unfold lineSymbols
  split
  · rename_i hblank
    have hnil : line.dropWhile isspace = [] := List.dropWhile_eq_nil_iff.mpr hblank
    simp [lineTexts, fromStart, hnil]
  · rfl

theorem lineLocal_symbols : LineLocal false fArchitecture contents := by
  constructor
  · intro fOrderedSymbols
    rw [(parseOrderFile_ends fOrderedSymbols).symbols, scannedTexts_false, flatMap_assoc]
    congr 1
    apply flatMap_congr
    intro line _
    exact (lineSymbols_texts line).symm
  · intro fOrderedSymbols
    apply (parseOrderFile_ends fOrderedSymbols).underread
    intro text htext
    rw [scannedTexts_false] at htext
    obtain ⟨line, _, hmem⟩ := List.mem_flatMap.mp htext
    exact lineTexts_not_blank hmem

end Symbols
section CStrings
variable {fArchitecture : Architecture} {line t : List UInt8}
variable {ls : List (List UInt8)} {r : List UInt8 × List UInt8}

/-- A line that reads the same after a newline: it has a symbol without an architecture and
without an object file. -/
structure PlainLine (line : List UInt8) : Prop where
  notBlank : ¬ Blank line
  notComment : ¬ Comment true line
  noArchitecture : archPrefix (trimmedText line) = none
  noObject : splitObject (trimmedText line) = none

/-- No line has spaces only, and what follows an empty line is plain. -/
structure PlainBlanks (ls : List (List UInt8)) : Prop where
  noSpaces : ∀ line ∈ ls, line ≠ [] → ¬ Blank line
  afterEmpty : ls.IsChain fun line next => line = [] → PlainLine next

theorem symbolPart_cstring (h : 10 ∉ line) : symbolPart true line = line := by
  apply List.takeWhile_eq_self_iff.mpr
  intro c hc
  have hne : c ≠ 10 := fun heq => h (heq ▸ hc)
  simp [endsSymbol, hne]

theorem lineTexts_cstring (h : 10 ∉ line) (hne : line ≠ []) :
    lineTexts true line = if line.head? = some 35 then [] else [line] := by
  unfold lineTexts fromStart
  simp only [if_true, hne, or_false]
  rw [symbolPart_cstring h]

theorem lineSymbols_cstring (h : 10 ∉ line) (hblank : ¬ Blank line) (hcomment : ¬ Comment true line) :
    lineSymbols true fArchitecture line = orderedSymbol true fArchitecture line := by
  rw [lineSymbols_symbol hblank hcomment]
  have hstart : fromStart true line = line := rfl
  rw [hstart, symbolPart_cstring h]

theorem trimmedText_blank (h : Blank t) : trimmedText t = [] := by
  unfold trimmedText
  rw [List.rdropWhile_eq_nil_iff.mpr h]
  rfl

theorem archPrefix_nil : archPrefix [] = none := by decide

theorem orderedSymbol_blank (h : Blank t) :
    orderedSymbol true fArchitecture t = [⟨none, cstringSymbolName []⟩] := by
  unfold orderedSymbol afterArchitecture
  rw [trimmedText_blank h, archPrefix_nil]
  rfl

theorem trimmedText_newline (h : ¬ Blank t) : trimmedText (10 :: t) = 10 :: trimmedText t := by
  unfold trimmedText
  have hdrop : (10 :: t).rdropWhile isspace = 10 :: t.rdropWhile isspace := by
    obtain ⟨c, hc, hspace⟩ : ∃ c ∈ t, isspace c = false := by
      unfold Blank at h
      simpa using h
    have hstop : t.reverse.dropWhile isspace ≠ [] := by
      intro hnil
      have hall := List.dropWhile_eq_nil_iff.mp hnil c (List.mem_reverse.mpr hc)
      rw [hspace] at hall
      cases hall
    unfold List.rdropWhile
    rw [reverse_cons, dropWhile_append, if_neg (by simpa using hstop)]
    simp
  rw [hdrop]
  rfl

theorem archPrefix_newline : archPrefix (10 :: t) = none := rfl

theorem splitObject_newline :
    splitObject (10 :: t) = (splitObject t).map fun r => (10 :: r.1, r.2) := rfl

theorem orderedSymbol_newline (h : ¬ Blank t) :
    orderedSymbol true fArchitecture (10 :: t) = [orderedPair true (10 :: trimmedText t)] := by
  unfold orderedSymbol afterArchitecture
  rw [trimmedText_newline h, archPrefix_newline]

theorem orderedPair_newline (h : splitObject t = none) :
    orderedPair true (10 :: t) = orderedPair true t := by
  have hspace : isspace 10 = true := rfl
  unfold orderedPair symbolName
  rw [splitObject_newline, h, Option.map_none]
  simp only [if_true, dropWhile_cons_of_pos hspace]

theorem splitObject_starts (h : splitObject t = some r) : r.1 <+: t ∧ r.1 ≠ [] := by
  induction t generalizing r with
  | nil => cases h
  | cons c t ih =>
    rw [splitObject] at h
    split at h
    · rename_i hstart
      cases h
      refine ⟨?_, show ascii ".o" ≠ [] by decide⟩
      exact (show ascii ".o" <+: ascii ".o:" by decide).trans <|
        List.isPrefixOf_iff_prefix.mp hstart
    · obtain ⟨r', hr', rfl⟩ := Option.map_eq_some_iff.mp h
      refine ⟨?_, cons_ne_nil _ _⟩
      exact List.cons_prefix_cons.mpr ⟨rfl, (ih hr').1⟩

theorem objectFileName_newline (h : splitObject t = some r) :
    (orderedPair true (10 :: t)).objectFileName = some (10 :: r.1) := by
  unfold orderedPair
  rw [splitObject_newline, h, Option.map_some]

theorem objectFileName_ne (h : 10 ∉ t) (name : List UInt8) :
    (orderedPair true t).objectFileName ≠ some (10 :: name) := by
  unfold orderedPair
  cases hsplit : splitObject t with
  | none => simp
  | some r =>
    intro heq
    have hstart := (splitObject_starts hsplit).1
    rw [Option.some.inj heq] at hstart
    exact h (hstart.subset mem_cons_self)

theorem scan_length {buffer buffer' source source' s : List UInt8} {steps steps' : List Step}
    (mode : Mode) : (scan buffer mode source steps s).steps.length + steps'.length =
      (scan buffer' mode source' steps' s).steps.length + steps.length := by
  induction s generalizing mode source source' steps steps' with
  | nil =>
    cases mode <;> simp only [scan, length_append, length_singleton] <;> omega
  | cons c s ih =>
    have hcopy : ∀ step step' : Step,
        (scan buffer .copy [] (steps ++ [step]) s).steps.length + steps'.length =
          (scan buffer' .copy [] (steps' ++ [step']) s).steps.length + steps.length := by
      intro step step'
      have := @ih [] [] (steps ++ [step]) (steps' ++ [step']) .copy
      simp only [length_append, length_singleton] at this
      omega
    cases mode with
    | copy =>
      rw [scan, scan]
      split
      · exact ih _
      · exact hcopy _ _
    | escape =>
      rw [scan, scan]
      split
      · exact hcopy _ _
      split
      · exact ih _
      split
      · exact ih _
      · exact hcopy _ _
    | hex value =>
      rw [scan, scan]
      split
      · exact ih _
      · exact hcopy _ _
    | oct value =>
      rw [scan, scan]
      split
      · exact ih _
      · exact hcopy _ _

variable {before : List UInt8}

theorem scan_plain_length {buffer source s : List UInt8} {steps : List Step}
    (h : 92 ∉ before) : (scan buffer .copy source steps (before ++ s)).steps.length =
      (scan buffer .copy source steps s).steps.length + before.length := by
  induction before generalizing source steps with
  | nil => rfl
  | cons c before ih =>
    have hc : c ≠ 92 := fun heq => h (heq ▸ mem_cons_self)
    have hsame := @scan_length buffer buffer [] source s (steps ++ [⟨[c], c⟩]) steps .copy
    rw [cons_append, scan_plain hc, ih fun hmem => h (mem_cons_of_mem c hmem)]
    simp only [length_append, length_cons, length_nil] at hsame ⊢
    omega

def writtenLength : Except PastNul (List UInt8) → Nat
  | .ok written => written.length
  | .error past => past.written.length

theorem writtenLength_cstringSymbolName (s : List UInt8) :
    writtenLength (cstringSymbolName s) = (unescapeScan s).steps.length := by
  unfold cstringSymbolName
  simp only
  split <;> simp [writtenLength]

theorem unescapeScan_length (s : List UInt8) : (unescapeScan s).steps.length =
    (scan [] .copy [] [] (beforeNul s)).steps.length + 8 := by
  unfold unescapeScan
  rw [scan_plain_length no_backslash]
  have hsame := @scan_length (ascii "cstring=" ++ beforeNul s) [] [] [] (beforeNul s) [] [] .copy
  have height : (ascii "cstring=").length = 8 := rfl
  omega

theorem cstringSymbolName_append_ne (h : 92 ∉ before) (hzero : 0 ∉ before) (hne : before ≠ [])
    (s : List UInt8) : cstringSymbolName (before ++ s) ≠ cstringSymbolName s := by
  intro heq
  have hcut : beforeNul (before ++ s) = before ++ beforeNul s :=
    takeWhile_append_of_pos fun c hc => decide_eq_true fun heq => hzero (heq ▸ hc)
  have hlength := congrArg writtenLength heq
  rw [writtenLength_cstringSymbolName, writtenLength_cstringSymbolName, unescapeScan_length,
    unescapeScan_length, hcut, scan_plain_length h] at hlength
  have hpos := List.length_pos_iff.mpr hne
  omega

theorem archPrefix_spec {entry : List UInt8 × Architecture} (h : archPrefix t = some entry) :
    entry ∈ archPrefixes ∧ entry.1 <+: t := by
  have hfound := find?_some h
  exact ⟨mem_of_find?_eq_some h, List.isPrefixOf_iff_prefix.mp hfound⟩

theorem archPrefixes_plain : ∀ entry ∈ archPrefixes, (92 ∉ entry.1 ∧ 0 ∉ entry.1) ∧
    (entry.1.head?.map isspace) = some false := by decide

theorem splitObject_append (h : splitObject (before ++ t) = none) : splitObject t = none := by
  induction before with
  | nil => exact h
  | cons c before ih =>
    rw [cons_append, splitObject] at h
    split at h
    · cases h
    · exact ih (Option.map_eq_none_iff.mp h)

theorem trimmedText_subset : ∀ c ∈ trimmedText t, c ∈ t := by
  intro c hc
  have hfront := rdropWhile_prefix isspace t
  exact hfront.subset ((takeWhile_sublist _).subset hc)

theorem orderedPair_architecture_ne (hplain : 92 ∉ before) (hzero : 0 ∉ before)
    (hletter : before.head?.map isspace = some false) (h : 10 ∉ t) :
    orderedPair true (10 :: (before ++ t)) ≠ orderedPair true t := by
  intro heq
  cases hsplit : splitObject (before ++ t) with
  | some r =>
    have hname := congrArg OrderedSymbol.objectFileName heq
    rw [objectFileName_newline hsplit] at hname
    exact objectFileName_ne h r.1 hname.symm
  | none =>
    rw [orderedPair_newline hsplit] at heq
    have hnone := splitObject_append hsplit
    unfold orderedPair symbolName at heq
    rw [hsplit, hnone] at heq
    simp only [if_true, OrderedSymbol.mk.injEq, true_and] at heq
    cases before with
    | nil => cases hletter
    | cons c before =>
      have hc : isspace c = false := by simpa using hletter
      rw [cons_append, dropWhile_cons_of_neg (by simp [hc]), ← cons_append] at heq
      have hblanks := takeWhile_append_dropWhile (p := isspace) (l := t)
      have hfront : ∀ d, isspace d = false → d ∉ c :: before →
          d ∉ (c :: before) ++ t.takeWhile isspace := by
        intro d hd hnot hmem
        rcases List.mem_append.mp hmem with hmem | hmem
        · exact hnot hmem
        · exact Bool.false_ne_true (hd.symm.trans (mem_takeWhile_imp hmem))
      apply cstringSymbolName_append_ne (hfront 92 rfl hplain) (hfront 0 rfl hzero) (by simp)
        (t.dropWhile isspace)
      rw [append_assoc, hblanks]
      exact heq

theorem orderedSymbol_newline_iff (h : 10 ∉ line) :
    orderedSymbol true fArchitecture (10 :: line) = lineSymbols true fArchitecture line ↔
      PlainLine line := by
  by_cases hblank : Blank line
  · refine iff_of_false ?_ fun hplain => hplain.notBlank hblank
    have hblank' : Blank (10 :: line) := by
      intro c hc
      rcases List.mem_cons.mp hc with rfl | hc
      · rfl
      · exact hblank c hc
    rw [lineSymbols_blank hblank, orderedSymbol_blank hblank']
    exact cons_ne_nil _ _
  · rw [orderedSymbol_newline hblank]
    by_cases hcomment : Comment true line
    · refine iff_of_false ?_ fun hplain => hplain.notComment hcomment
      rw [lineSymbols_comment hcomment]
      exact cons_ne_nil _ _
    rw [lineSymbols_cstring h hblank hcomment]
    unfold orderedSymbol afterArchitecture
    cases hstart : archPrefix (trimmedText line) with
    | some entry =>
      refine iff_of_false ?_ fun hplain => ?_
      · obtain ⟨hmem, rest, hrest⟩ := archPrefix_spec hstart
        obtain ⟨⟨hplain, hzero⟩, hletter⟩ := archPrefixes_plain entry hmem
        have hnewline : 10 ∉ rest := by
          intro hr
          apply h
          apply trimmedText_subset
          rw [← hrest]
          exact mem_append_right _ hr
        by_cases harch : fArchitecture = entry.2
        · simp only [if_pos harch]
          rw [← hrest, drop_left]
          intro heq
          exact orderedPair_architecture_ne hplain hzero hletter hnewline (List.singleton_inj.mp heq)
        · simp only [if_neg harch]
          exact cons_ne_nil _ _
      · rw [hplain.noArchitecture] at hstart
        cases hstart
    | none =>
      simp only [singleton_inj]
      constructor
      · intro heq
        refine ⟨hblank, hcomment, hstart, ?_⟩
        cases hsplit : splitObject (trimmedText line) with
        | none => rfl
        | some r =>
          have hname := congrArg OrderedSymbol.objectFileName heq
          rw [objectFileName_newline hsplit] at hname
          exact absurd hname.symm (objectFileName_ne (fun hmem => h (trimmedText_subset _ hmem)) _)
      · intro hplain
        exact orderedPair_newline hplain.noObject

/-! ### All lines -/

theorem append_eq_append_iff_of_le {α : Type} {a b a' b' : List α} (ha : a'.length ≤ a.length)
    (hb : b'.length ≤ b.length) : a ++ b = a' ++ b' ↔ a = a' ∧ b = b' := by
  constructor
  · intro h
    have hlength := congrArg List.length h
    rw [length_append, length_append] at hlength
    exact append_inj h (by omega)
  · intro h
    rw [h.1, h.2]

theorem lineSymbols_length_le (cstring : Bool) :
    (lineSymbols cstring fArchitecture line).length ≤ 1 := by
  by_cases hblank : Blank line
  · rw [lineSymbols_blank hblank]
    exact Nat.zero_le _
  by_cases hcomment : Comment cstring line
  · rw [lineSymbols_comment hcomment]
    exact Nat.zero_le _
  rw [lineSymbols_symbol hblank hcomment]
  unfold orderedSymbol
  split
  · exact Nat.zero_le _
  · exact Nat.le_refl _

theorem orderedSymbol_newline_length :
    (orderedSymbol true fArchitecture (10 :: line)).length = 1 := by
  by_cases hblank : Blank line
  · have hblank' : Blank (10 :: line) := by
      intro c hc
      rcases List.mem_cons.mp hc with rfl | hc
      · rfl
      · exact hblank c hc
    rw [orderedSymbol_blank hblank']
    rfl
  · rw [orderedSymbol_newline hblank]
    rfl

def scannedSymbols (fArchitecture : Architecture) (newline : Bool) (ls : List (List UInt8)) :
    List OrderedSymbol :=
  (scannedTexts true newline ls).flatMap (orderedSymbol true fArchitecture)

theorem scannedSymbols_newline (h : 10 ∉ line) (ls : List (List UInt8)) :
    scannedSymbols fArchitecture true (line :: ls) =
      orderedSymbol true fArchitecture (10 :: line) ++ scannedSymbols fArchitecture false ls := by
  unfold scannedSymbols
  rw [scannedTexts, symbolPart_cstring h, flatMap_cons]
  rfl

theorem scannedSymbols_empty (ls : List (List UInt8)) :
    scannedSymbols fArchitecture false ([] :: ls) = scannedSymbols fArchitecture true ls := by
  unfold scannedSymbols
  rw [scannedTexts, if_pos ⟨rfl, rfl⟩]

theorem scannedSymbols_line (hne : line ≠ []) (ls : List (List UInt8)) :
    scannedSymbols fArchitecture false (line :: ls) =
      (lineTexts true line).flatMap (orderedSymbol true fArchitecture) ++
        scannedSymbols fArchitecture false ls := by
  unfold scannedSymbols
  rw [scannedTexts, if_neg fun h => hne h.2, flatMap_append]

theorem lineTexts_blank (h : 10 ∉ line) (hne : line ≠ []) (hblank : Blank line) :
    (lineTexts true line).flatMap (orderedSymbol true fArchitecture) =
      [⟨none, cstringSymbolName []⟩] := by
  have hhash : line.head? ≠ some 35 := by
    intro hhead
    have hspace := hblank 35 (mem_of_mem_head? hhead)
    cases hspace
  rw [lineTexts_cstring h hne, if_neg hhash, flatMap_singleton, orderedSymbol_blank hblank]

theorem lineTexts_not_blank_eq (hblank : ¬ Blank line) :
    (lineTexts true line).flatMap (orderedSymbol true fArchitecture) =
      lineSymbols true fArchitecture line := by
  rw [lineSymbols, if_neg hblank]

theorem scannedSymbols_length (h : ∀ line ∈ ls, 10 ∉ line)
    (newline : Bool) : (ls.flatMap (lineSymbols true fArchitecture)).length ≤
      (scannedSymbols fArchitecture newline ls).length := by
  induction ls generalizing newline with
  | nil => exact Nat.zero_le _
  | cons line ls ih =>
    have hline := h line mem_cons_self
    have hrest := ih fun other hother => h other (mem_cons_of_mem _ hother)
    rw [flatMap_cons, length_append]
    cases newline with
    | true =>
      have hone := @lineSymbols_length_le fArchitecture line true
      rw [scannedSymbols_newline hline, length_append, orderedSymbol_newline_length]
      have := hrest false
      omega
    | false =>
      by_cases hne : line = []
      · subst hne
        have hblank : Blank [] := by simp [Blank]
        rw [scannedSymbols_empty, lineSymbols_blank hblank, length_nil, Nat.zero_add]
        exact hrest true
      rw [scannedSymbols_line hne, length_append]
      have := hrest false
      by_cases hblank : Blank line
      · rw [lineSymbols_blank hblank, length_nil]
        omega
      · rw [lineTexts_not_blank_eq hblank]
        omega

theorem plainBlanks_cons : PlainBlanks (line :: ls) ↔
    (line ≠ [] → ¬ Blank line) ∧ (line = [] → ∀ next ∈ ls.head?, PlainLine next) ∧
      PlainBlanks ls := by
  constructor
  · intro h
    obtain ⟨hhead, hchain⟩ := List.isChain_cons.mp h.afterEmpty
    refine ⟨h.noSpaces line mem_cons_self, fun hline next hnext => hhead next hnext hline, ?_⟩
    exact ⟨fun other hother => h.noSpaces other (mem_cons_of_mem _ hother), hchain⟩
  · intro h
    obtain ⟨hline, hhead, hrest⟩ := h
    constructor
    · intro other hother
      rcases List.mem_cons.mp hother with rfl | hother
      · exact hline
      · exact hrest.noSpaces other hother
    · exact List.isChain_cons.mpr
        ⟨fun next hnext heq => hhead heq next hnext, hrest.afterEmpty⟩

theorem scannedSymbols_iff (h : ∀ line ∈ ls, 10 ∉ line) (newline : Bool) :
    scannedSymbols fArchitecture newline ls = ls.flatMap (lineSymbols true fArchitecture) ↔
      PlainBlanks ls ∧ (newline = true → ∀ next ∈ ls.head?, PlainLine next) := by
  induction ls generalizing newline with
  | nil =>
    have hempty : PlainBlanks [] := ⟨by simp, .nil⟩
    refine iff_of_true ?_ ⟨hempty, by simp⟩
    cases newline <;> rfl
  | cons line ls ih =>
    have hline := h line mem_cons_self
    have hlines : ∀ other ∈ ls, 10 ∉ other := fun other hother =>
      h other (mem_cons_of_mem _ hother)
    have hlong := @scannedSymbols_length fArchitecture ls hlines
    have hone := @lineSymbols_length_le fArchitecture line true
    rw [flatMap_cons]
    cases newline with
    | true =>
      rw [scannedSymbols_newline hline, append_eq_append_iff_of_le
        (by rw [orderedSymbol_newline_length]; exact hone) (hlong false),
        orderedSymbol_newline_iff hline, ih hlines false, plainBlanks_cons]
      constructor
      · intro h
        obtain ⟨hplain, hrest, -⟩ := h
        have hne : line ≠ [] := by
          rintro rfl
          exact hplain.notBlank (by simp [Blank])
        refine ⟨⟨fun _ => hplain.notBlank, fun heq => absurd heq hne, hrest⟩, ?_⟩
        intro _ next hnext
        cases hnext
        exact hplain
      · intro h
        exact ⟨h.2 rfl line rfl, h.1.2.2, by simp⟩
    | false =>
      rw [plainBlanks_cons]
      by_cases hne : line = []
      · subst hne
        have hblank : Blank [] := by simp [Blank]
        rw [scannedSymbols_empty, lineSymbols_blank hblank, nil_append, ih hlines true]
        simp only [ne_eq, not_true_eq_false, false_implies, true_and, true_implies,
          Bool.false_eq_true, and_true]
        exact and_comm
      · rw [scannedSymbols_line hne]
        by_cases hblank : Blank line
        · rw [lineTexts_blank hline hne hblank, lineSymbols_blank hblank]
          refine iff_of_false ?_ fun h => h.1.1 hne hblank
          intro heq
          have hcount := congrArg List.length heq
          rw [length_append, nil_append, length_singleton] at hcount
          have := hlong false
          omega
        · rw [lineTexts_not_blank_eq hblank,
            append_eq_append_iff_of_le (Nat.le_refl _) (hlong false), ih hlines false]
          simp [hne, hblank]

end CStrings

section File
variable {cstring : Bool} {fArchitecture : Architecture} {contents : List UInt8}

theorem orderLines_newline (contents : List UInt8) : ∀ line ∈ orderLines contents, 10 ∉ line := by
  induction contents using Lib.TextLines.line_induction (10 : UInt8) with
  | last line h =>
    rw [orderLines_last h]
    intro other hother
    rw [List.mem_singleton.mp hother]
    exact h
  | line line rest h ih =>
    rw [orderLines_append h]
    intro other hother
    rcases List.mem_cons.mp hother with rfl | hother
    · exact h
    · exact ih other hother

theorem scannedTexts_not_blank {ls : List (List UInt8)} (hls : ∀ line ∈ ls, 10 ∉ line)
    (newline : Bool) (h : PlainBlanks ls)
    (hnext : newline = true → ∀ next ∈ ls.head?, PlainLine next) :
    ∀ text ∈ scannedTexts true newline ls, ¬ Blank text := by
  induction ls generalizing newline with
  | nil => simp [scannedTexts]
  | cons line ls ih =>
    have hline := hls line mem_cons_self
    obtain ⟨hspaces, hempty, hrest⟩ := plainBlanks_cons.mp h
    have hlater := fun newline => ih (fun other hother => hls other (mem_cons_of_mem _ hother))
      newline hrest
    intro text htext
    cases newline with
    | true =>
      rw [scannedTexts, symbolPart_cstring hline] at htext
      rcases List.mem_cons.mp htext with rfl | htext
      · intro hblank
        exact (hnext rfl line rfl).notBlank fun c hc => hblank c (mem_cons_of_mem _ hc)
      · exact hlater false (by simp) text htext
    | false =>
      rw [scannedTexts] at htext
      by_cases hne : line = []
      · rw [if_pos ⟨rfl, hne⟩] at htext
        exact hlater true (fun _ => hempty hne) text htext
      rw [if_neg fun h => hne h.2] at htext
      rcases List.mem_append.mp htext with htext | htext
      · rw [lineTexts_cstring hline hne] at htext
        split at htext
        · cases htext
        rw [List.mem_singleton.mp htext]
        exact hspaces hne
      · exact hlater false (by simp) text htext

theorem orderFile_iff : LineLocal cstring fArchitecture contents ↔
    (cstring = true → PlainBlanks (orderLines contents)) := by
  cases cstring with
  | false => exact iff_of_true lineLocal_symbols (by simp)
  | true =>
    have hlines := orderLines_newline contents
    have hsymbols : ∀ fOrderedSymbols,
        (parseOrderFile true fArchitecture contents fOrderedSymbols).fOrderedSymbols =
          fOrderedSymbols ++ scannedSymbols fArchitecture false (orderLines contents) :=
      fun fOrderedSymbols => (parseOrderFile_ends fOrderedSymbols).symbols
    constructor
    · intro h _
      have hsame := h.symbols []
      rw [hsymbols, nil_append, nil_append] at hsame
      exact ((scannedSymbols_iff hlines false).mp hsame).1
    · intro h
      have hplain := h rfl
      constructor
      · intro fOrderedSymbols
        rw [hsymbols, (scannedSymbols_iff hlines false).mpr ⟨hplain, by simp⟩]
      · intro fOrderedSymbols
        exact (parseOrderFile_ends fOrderedSymbols).underread
          (scannedTexts_not_blank hlines false hplain (by simp))

/-- An empty line before a comment makes a symbol of it. -/
theorem orderFile_emptyLine : ¬ ∀ cstring fArchitecture contents,
    LineLocal cstring fArchitecture contents := by
  intro hclaim
  have hsame := (hclaim true .CPU_TYPE_I386 (ascii "\n# strings\n")).symbols []
  have hrun : (parseOrderFile true .CPU_TYPE_I386 (ascii "\n# strings\n") []).fOrderedSymbols =
      [⟨none, .ok (ascii "cstring=# strings")⟩] := by decide
  have hlines : (orderLines (ascii "\n# strings\n")).flatMap
      (lineSymbols true .CPU_TYPE_I386) = [] := by decide +kernel
  rw [hrun, hlines] at hsame
  exact List.cons_ne_nil _ _ hsame

end File
end Toolwhip.Ld64.OrderFile
