import Mathlib.Data.List.DropRight
import Toolwhip.Lib.TextLines

/-! # The list of compilers

`stringmap_load` and `stringmap_lookup`, by which the server looks up a compiler in the file that
`DISTCC_CMDLIST` names. The scan for the last words of a path stops before its first character. -/

namespace Toolwhip.Distcc.StringMap
open Lib.TextLines List
set_option autoImplicit false

abbrev Text := List UInt8

/-- `for (pos=len-1, w=0; pos>0; pos--)`: where the significant part begins -/
def scanBack (string : Text) (numFinalWordsToMatch : Nat) : Nat → Nat → Nat
  | 0, _ => 0
  | pos + 1, w =>
    if string[pos + 1]? = some 47 then
      if numFinalWordsToMatch ≤ w + 1 then pos + 2 else scanBack string numFinalWordsToMatch pos (w + 1)
    else scanBack string numFinalWordsToMatch pos w

/-- `none` if `pos` is -1, and what stands before the string is read -/
def key (numFinalWordsToMatch : Nat) (string : Text) : Option Text :=
  if string = [] then none
  else some (string.drop (scanBack string numFinalWordsToMatch (string.length - 1) 0))

def stripNewline (buf : Text) : Text :=
  let buf := buf.takeWhile (· ≠ 0)
  if buf.getLast? = some 10 then buf.dropLast else buf

structure Stringmap where
  numFinalWordsToMatch : Nat
  map : List (Text × Text)
  deriving DecidableEq, Repr

/-- `size` is the number of characters that `fgets` may read. -/
def stringmap_load (size : Nat) (file : Text) (numFinalWordsToMatch : Nat) : Option Stringmap :=
  (((pieces 10 size size file).map stripNewline).mapM fun buf =>
    (key numFinalWordsToMatch buf).map fun k => (k, buf)).map fun map => ⟨numFinalWordsToMatch, map⟩

def stringmap_lookup (map : Stringmap) (string : Text) : Option (Option Text) :=
  (key map.numFinalWordsToMatch string).map fun k => (map.map.find? fun e => e.1 == k).map (·.2)

def components (path : Text) : List Text := (path.splitOn 47).filter (· ≠ [])

def lastComponents (n : Nat) (path : Text) : List Text := (components path).rtake n

def fileLines (file : Text) : List Text := (lines 10 file).map stripNewline

/-- Nothing before a string is read, and the first line with the same last components is found. -/
def LooksUp (size : Nat) (file : Text) (n : Nat) (string : Text) : Prop :=
  (stringmap_load size file n).bind (stringmap_lookup · string) =
    some ((fileLines file).find? fun line => lastComponents n line == lastComponents n string)

/-- The first line that has the same key or the same last components has both. -/
def FirstAgrees (n : Nat) (ls : List Text) (string : Text) : Prop :=
  ∀ line, (ls.find? fun l => key n l == key n string || lastComponents n l == lastComponents n string) =
    some line → key n line = key n string ∧ lastComponents n line = lastComponents n string

/-- No component is empty, but for the one before a leading slash, and then there are more than `n`. -/
def Plain (n : Nat) (path : Text) : Prop :=
  if path.head? = some 47 then [] ∉ (path.drop 1).splitOn 47 ∧ n ≤ (path.drop 1).count 47
  else [] ∉ path.splitOn 47

theorem find?_eq_find?_iff (p q : Text → Bool) (l : List Text) :
    l.find? p = l.find? q ↔ ∀ a, (l.find? fun x => p x || q x) = some a → p a = true ∧ q a = true := by
  induction l with
  | nil => simp
  | cons x more ih =>
    cases hp : p x <;> cases hq : q x
    · simpa [find?_cons, hp, hq] using ih
    · simp only [find?_cons, hp, hq, Bool.or_true, Option.some.injEq, forall_eq', and_true]
      refine iff_of_false ?_ (by simp)
      intro h
      exact absurd (find?_some h) (by simp [hp])
    · simp only [find?_cons, hp, hq, Bool.or_false, Option.some.injEq, forall_eq']
      refine iff_of_false ?_ (by simp)
      intro h
      exact absurd (find?_some h.symm) (by simp [hq])
    · simp [hp, hq]

variable {n : Nat}

theorem mapM_key_eq_none {bufs : List Text} (h : [] ∈ bufs) :
    bufs.mapM (fun buf => (key n buf).map fun k => (k, buf)) = none := by
  induction bufs with
  | nil => simp at h
  | cons buf more ih =>
    rcases List.mem_cons.mp h with hnil | hmem
    · rw [mapM_cons, ← hnil]
      rfl
    · rw [mapM_cons, ih hmem]
      cases (key n buf).map fun k => (k, buf) <;> rfl

theorem mapM_key {bufs : List Text} (h : [] ∉ bufs) :
    ∃ map, bufs.mapM (fun buf => (key n buf).map fun k => (k, buf)) = some map ∧
      ∀ k, (map.find? fun e => e.1 == k).map (·.2) = bufs.find? fun buf => key n buf == some k := by
  induction bufs with
  | nil => exact ⟨[], rfl, fun _ => rfl⟩
  | cons buf more ih =>
    obtain ⟨hbuf, hmore⟩ := not_or.mp (mt List.mem_cons.mpr h)
    obtain ⟨map, hmap, hfind⟩ := ih hmore
    have hkey : key n buf = some (buf.drop (scanBack buf n (buf.length - 1) 0)) := if_neg (Ne.symm hbuf)
    refine ⟨(_, buf) :: map, by rw [mapM_cons, hmap, hkey]; rfl, ?_⟩
    intro k
    simp only [find?_cons, ← hfind, hkey, Option.some_beq_some]
    split <;> simp [*]

theorem looksUp_iff {size : Nat} {file string : Text}
    (hfits : ∀ line ∈ lines 10 file, line.length ≤ size) :
    LooksUp size file n string ↔
      string ≠ [] ∧ [] ∉ fileLines file ∧ FirstAgrees n (fileLines file) string := by
  have hpieces : (pieces 10 size size file).map stripNewline = fileLines file := by
    rw [pieces_eq_lines hfits, fileLines]
  rw [LooksUp, stringmap_load, hpieces]
  by_cases hempty : [] ∈ fileLines file
  · simp [mapM_key_eq_none hempty, hempty]
  obtain ⟨map, hmap, hfind⟩ := mapM_key (n := n) hempty
  rw [hmap]
  by_cases hstring : string = []
  · simp [stringmap_lookup, hstring, key]
  have hkey : key n string = some (string.drop (scanBack string n (string.length - 1) 0)) :=
    if_neg hstring
  simp only [Option.map_some, Option.bind_some, stringmap_lookup, hkey, hfind, Option.some.injEq,
    find?_eq_find?_iff]
  simp [FirstAgrees, hstring, hempty, hkey]

/-! ## Plain paths -/

theorem scanBack_cases {string : Text} {pos w : Nat} (hpos : pos < string.length) (hw : w < n)
    (hcount : (string.drop (pos + 1)).count 47 = w) :
    (scanBack string n pos w = 0 ∧ (string.drop 1).count 47 < n) ∨
    ∃ j, 0 < j ∧ scanBack string n pos w = j + 1 ∧ string[j]? = some 47 ∧
      (string.drop (j + 1)).count 47 + 1 = n := by
  induction pos generalizing w with
  | zero => exact Or.inl ⟨rfl, hcount ▸ hw⟩
  | succ pos ih =>
    have hdrop := drop_eq_getElem_cons hpos
    have hget : string[pos + 1]? = some string[pos + 1] := getElem?_eq_getElem hpos
    rw [scanBack]
    by_cases hslash : string[pos + 1] = 47
    · rw [hget, hslash, if_pos rfl]
      split
      · exact Or.inr ⟨pos + 1, by omega, rfl, by rw [hget, hslash], by omega⟩
      · exact ih (by omega) (by omega) (by rw [hdrop, hslash, count_cons_self, hcount])
    · rw [hget, if_neg (by simpa using hslash)]
      exact ih (by omega) hw (by rw [hdrop, count_cons_of_ne hslash, hcount])

theorem key_cases {path : Text} (hn : 0 < n) (hne : path ≠ []) :
    (key n path = some path ∧ (path.drop 1).count 47 < n) ∨
    ∃ before rest, before ≠ [] ∧ path = before ++ 47 :: rest ∧ rest.count 47 + 1 = n ∧
      key n path = some rest := by
  have hlength := List.length_pos_iff.mpr hne
  have hlast : (path.drop (path.length - 1 + 1)).count 47 = 0 := by
    rw [drop_of_length_le (by omega)]
    rfl
  rw [key, if_neg hne]
  rcases scanBack_cases (n := n) (show path.length - 1 < path.length by omega) hn hlast with
    ⟨hscan, hcount⟩ | ⟨j, hj, hscan, hslash, hcount⟩
  · exact Or.inl ⟨by rw [hscan, drop_zero], hcount⟩
  right
  obtain ⟨hlt, hslash⟩ := List.getElem?_eq_some_iff.mp hslash
  refine ⟨path.take j, path.drop (j + 1), ?_, ?_, hcount, by rw [hscan]⟩
  · intro hnil
    rw [take_eq_nil_iff] at hnil
    rcases hnil with rfl | hnil
    · exact absurd hj (by decide)
    · exact hne hnil
  · rw [← hslash, ← drop_eq_getElem_cons hlt, take_append_drop]

theorem length_splitOn (path : Text) : (path.splitOn 47).length = path.count 47 + 1 := by
  induction path with
  | nil => rfl
  | cons b path ih =>
    rw [splitOn_cons_eq_if_modifyHead, count_cons]
    split <;> simp [*]

theorem rtake_splitOn {before rest : Text} (hcount : rest.count 47 + 1 = n) :
    ((before ++ 47 :: rest).splitOn 47).rtake n = rest.splitOn 47 := by
  rw [splitOn_append_cons_self, List.rtake]
  apply drop_left'
  rw [length_append, length_splitOn rest, hcount, Nat.add_sub_cancel]

theorem filter_of_not_mem {l : List Text} (h : [] ∉ l) : l.filter (· ≠ []) = l := by
  apply List.filter_eq_self.mpr
  intro a ha
  have hne : a ≠ [] := by
    rintro rfl
    exact h ha
  simpa using hne

theorem key_of_plain {path : Text} (hn : 0 < n) (h : Plain n path) :
    ∃ k, key n path = some k ∧ k.splitOn 47 = lastComponents n path := by
  unfold Plain at h
  split at h
  · rename_i hslash
    obtain ⟨tail, rfl⟩ : ∃ tail, path = 47 :: tail := by
      cases path with
      | nil => simp at hslash
      | cons b tail => exact ⟨tail, by simpa using hslash⟩
    have hcomponents : components (47 :: tail) = tail.splitOn 47 := by
      rw [components, splitOn_cons_eq_if_modifyHead]
      simpa using filter_of_not_mem h.1
    rcases key_cases hn (cons_ne_nil 47 tail) with ⟨-, hcount⟩ | ⟨before, rest, hbefore, heq,
      hcount, hkey⟩
    · exact absurd h.2 (by omega)
    obtain ⟨b, before, rfl⟩ := exists_cons_of_ne_nil hbefore
    obtain ⟨-, rfl⟩ := List.cons.inj heq
    exact ⟨rest, hkey, by rw [lastComponents, hcomponents]; exact (rtake_splitOn hcount).symm⟩
  · rename_i hslash
    have hcomponents : components path = path.splitOn 47 := filter_of_not_mem h
    have hne : path ≠ [] := by
      rintro rfl
      exact h (by simp)
    rw [lastComponents, hcomponents]
    rcases key_cases hn hne with ⟨hkey, hcount⟩ | ⟨before, rest, -, rfl, hcount, hkey⟩
    · refine ⟨path, hkey, ?_⟩
      have hhead : path.count 47 = (path.drop 1).count 47 := by
        cases path with
        | nil => rfl
        | cons b tail => exact count_cons_of_ne (by simpa using hslash)
      rw [List.rtake, length_splitOn, Nat.sub_eq_zero_of_le (by omega), drop_zero]
    · exact ⟨rest, hkey, (rtake_splitOn hcount).symm⟩

theorem key_eq_iff {path path' : Text} (hn : 0 < n) (h : Plain n path) (h' : Plain n path') :
    key n path = key n path' ↔ lastComponents n path = lastComponents n path' := by
  obtain ⟨k, hkey, hk⟩ := key_of_plain hn h
  obtain ⟨k', hkey', hk'⟩ := key_of_plain hn h'
  rw [hkey, hkey', ← hk, ← hk', Option.some.injEq]
  refine ⟨fun heq => by rw [heq], fun heq => ?_⟩
  have := congrArg (List.intercalate [47]) heq
  rwa [intercalate_splitOn, intercalate_splitOn] at this

/-- With lines that fit the buffer, the lookup is right just when no string is empty and the first line
that agrees in either way agrees in both, which plain paths do. -/
theorem stringmap_lookup_iff (size n : Nat) (file string : Text) (hn : 0 < n)
    (hfits : ∀ line ∈ lines 10 file, line.length ≤ size) : (LooksUp size file n string ↔
      string ≠ [] ∧ [] ∉ fileLines file ∧ FirstAgrees n (fileLines file) string) ∧
    (Plain n string → (∀ line ∈ fileLines file, Plain n line) → LooksUp size file n string) := by
  refine ⟨looksUp_iff hfits, ?_⟩
  intro hstring hlines
  have hempty : ¬ Plain n [] := by simp [Plain]
  refine (looksUp_iff hfits).mpr ⟨fun hnil => hempty (hnil ▸ hstring),
    fun hmem => hempty (hlines _ hmem), ?_⟩
  intro line hfind
  have hiff := key_eq_iff hn (hlines line (mem_of_find?_eq_some hfind)) hstring
  have heither := find?_some hfind
  rw [Bool.or_eq_true, beq_iff_eq, beq_iff_eq, hiff, or_self] at heither
  exact ⟨hiff.mpr heither, heither⟩

/-- The line `/b/cc` and the name `cc` -/
theorem stringmap_lookup_cc : LooksUp 2047 [47, 98, 47, 99, 99, 10] 1 [99, 99] :=
  (stringmap_lookup_iff 2047 1 [47, 98, 47, 99, 99, 10] [99, 99] (by decide) (by decide)).1.mpr
    ⟨by decide, by decide, by simp +decide [FirstAgrees]⟩

/-- The line `/cc` is not found for `cc`, and the empty name is read from before its start. -/
theorem leading_slash : ¬ LooksUp 2047 [47, 99, 99, 10] 1 [99, 99] ∧
    ¬ LooksUp 2047 [47, 99, 99, 10] 1 [] := by
  constructor <;> simp +decide [LooksUp]

end Toolwhip.Distcc.StringMap
