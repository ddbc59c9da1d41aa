import Mathlib.Data.List.GetD
import Toolwhip.Distcc.FixDebugInfo
import Toolwhip.Lib.LeftmostMatches

/-! # The replacement of a path in a section

`replace_string` on the bytes of one section, with the places it finds and their number. It goes on one
byte behind the start of what it has just written. -/

namespace Toolwhip.Distcc.ReplaceString
open Lib.CNumber Lib.ByteBuffer Lib.LeftmostMatches List
set_option autoImplicit false

structure Replaced where
  sect : List UInt8
  found : List Nat
  count : Nat
  deriving DecidableEq, Repr

section Code
variable (paths : Replacement)

/-- `(*p == *search) && !memcmp(p, search, search_len)` -/
def matchesAt (sect : List UInt8) (p : Nat) : Bool :=
  sect[p]? == some (paths.search.headD 0) &&
    (sect.drop p).take paths.search.length == paths.search

/-- The replacement is written and counted; `count` is an int. -/
def rewriteAt (r : Replaced) (p : Nat) : Option Replaced :=
  if r.count + 1 < 2 ^ 31 then
    some ⟨writeAt r.sect p paths.replace, r.found ++ [p], r.count + 1⟩
  else none

def replaceLoop (p : Nat) (r : Replaced) (left : Nat) : Option Replaced :=
  match left with
  | 0 => some r
  | left + 1 =>
    if matchesAt paths r.sect p then
      (rewriteAt paths r p).bind fun r => replaceLoop (p + 1) r left
    else replaceLoop (p + 1) r left

def replace_string (sect : List UInt8) : Option Replaced :=
  if sect.length < paths.search.length + 1 then some ⟨sect, [], 0⟩
  else replaceLoop paths 0 ⟨sect, [], 0⟩ (sect.length - paths.search.length - 1)

end Code

/-- What `dcc_fix_debug_info` is given: its assertion, and strings without NUL. -/
structure Paths where
  client_path : List UInt8
  server_path : List UInt8
  fits : client_path.length ≤ server_path.length
  client_string : 0 ∉ client_path
  server_string : 0 ∉ server_path

def Paths.client_path_plus_slashes (paths : Paths) : List UInt8 :=
  paths.client_path ++ List.replicate (paths.server_path.length - paths.client_path.length) 47

theorem Paths.length_plus_slashes (paths : Paths) :
    paths.client_path_plus_slashes.length = paths.server_path.length := by
  have := paths.fits
  rw [client_path_plus_slashes, length_append, length_replicate]
  omega

theorem Paths.plus_slashes_string (paths : Paths) : 0 ∉ paths.client_path_plus_slashes := by
  rw [client_path_plus_slashes, mem_append]
  rintro (hclient | hslash)
  · exact paths.client_string hclient
  · exact absurd (eq_of_mem_replicate hslash) (by decide)

def Paths.replacement (paths : Paths) : Replacement :=
  ⟨paths.server_path, paths.client_path_plus_slashes, paths.length_plus_slashes⟩

/-! ## What is meant -/

def stringMatches (search sect : List UInt8) : List Nat :=
  (leftmostMatches search sect).filter fun p => (sect.drop (p + search.length)).contains 0

def overwrite (replace : List UInt8) (places : List Nat) (sect : List UInt8) : List UInt8 :=
  places.foldl (fun sect p => writeAt sect p replace) sect

/-- The leftmost matches in strings are rewritten and counted, and no string has the path any more. -/
structure Substituted (paths : Replacement) (sect : List UInt8) (r : Replaced) : Prop where
  found : r.found = stringMatches paths.search sect
  rewritten : r.sect = overwrite paths.replace (stringMatches paths.search sect) sect
  count : r.count = (stringMatches paths.search sect).length
  gone : ∀ q, paths.search <+: r.sect.drop q → 0 ∉ r.sect.drop (q + paths.search.length)

section Found
variable (paths : Replacement)

def foundIn (left : Nat) (bytes : List UInt8) : List Nat :=
  match left with
  | 0 => []
  | left + 1 =>
    if matchesAt paths bytes 0 then
      0 :: (foundIn left ((paths.replace ++ bytes.drop paths.search.length).drop 1)).map (· + 1)
    else (foundIn left (bytes.drop 1)).map (· + 1)

variable {paths} {before bytes sect : List UInt8} {left p : Nat} {r : Replaced}

theorem matchesAt_append : matchesAt paths (before ++ bytes) before.length = matchesAt paths bytes 0 := by
  simp [matchesAt, getElem?_append_right]

theorem writeAt_append : writeAt (before ++ bytes) before.length paths.replace =
    before ++ (paths.replace ++ bytes.drop paths.search.length) := by
  unfold writeAt
  split
  · rename_i hnil
    have hsearch : paths.search.length = 0 := by
      rw [← paths.sameLength, hnil]
      rfl
    rw [hnil, hsearch, nil_append, drop_zero]
  · have hzero : before.length - (before ++ bytes).length = 0 := by
      rw [length_append]
      omega
    rw [hzero, paths.sameLength, take_left, drop_append]
    simp

theorem next_place (before : List UInt8) (hbytes : left + 1 + paths.search.length ≤ bytes.length) :
    left + paths.search.length ≤ (bytes.drop 1).length ∧
      before ++ bytes = (before ++ bytes.take 1) ++ bytes.drop 1 ∧
      (before ++ bytes.take 1).length = before.length + 1 := by
  refine ⟨?_, ?_, ?_⟩
  · rw [length_drop]
    omega
  · rw [append_assoc, take_append_drop]
  · rw [length_append, length_take]
    omega

def rewriteAll (paths : Replacement) (places : List Nat) (r : Replaced) : Option Replaced :=
  match places with
  | [] => some r
  | p :: places => (rewriteAt paths r p).bind (rewriteAll paths places)

theorem replaceLoop_eq (hbytes : left + paths.search.length ≤ bytes.length)
    (hsect : r.sect = before ++ bytes) : replaceLoop paths before.length r left =
      rewriteAll paths ((foundIn paths left bytes).map (· + before.length)) r := by
  induction left generalizing before bytes r with
  | zero => rfl
  | succ left ih =>
    rw [replaceLoop, hsect, matchesAt_append, foundIn]
    split
    · have hwrite : writeAt (before ++ bytes) before.length paths.replace = _ := writeAt_append
      generalize hnew : paths.replace ++ bytes.drop paths.search.length = bytes' at hwrite ⊢
      have hlen : bytes'.length = bytes.length := by
        rw [← hnew, length_append, length_drop, paths.sameLength]
        omega
      obtain ⟨hroom, hsplit, hstart⟩ := next_place before (hlen.symm ▸ hbytes)
      rw [map_cons, rewriteAll, map_add_map, Nat.zero_add]
      unfold rewriteAt
      split
      · rw [Option.bind_some, Option.bind_some, hsect, hwrite, ← hstart, ih hroom hsplit, hstart,
          Nat.add_comm 1]
      · rfl
    · obtain ⟨hroom, hsplit, hstart⟩ := next_place before hbytes
      rw [map_add_map, ← hstart, ih hroom (hsect.trans hsplit), hstart, Nat.add_comm 1]

theorem rewriteAll_eq (places : List Nat) (hcount : r.count < 2 ^ 31) : rewriteAll paths places r =
      if r.count + places.length < 2 ^ 31 then
        some ⟨overwrite paths.replace places r.sect, r.found ++ places, r.count + places.length⟩
      else none := by
  induction places generalizing r with
  | nil =>
    rw [length_nil, Nat.add_zero, if_pos hcount, append_nil]
    rfl
  | cons p places ih =>
    rw [rewriteAll, rewriteAt, length_cons]
    split
    · rename_i hfew
      rw [Option.bind_some, ih hfew]
      simp only [append_assoc, singleton_append, Nat.add_assoc, Nat.add_comm places.length 1]
      rfl
    · rw [if_neg (by omega)]
      rfl

def foundAt (paths : Replacement) (sect : List UInt8) : List Nat :=
  foundIn paths (sect.length - paths.search.length - 1) sect

theorem replace_string_eq (sect : List UInt8) : replace_string paths sect =
    if (foundAt paths sect).length < 2 ^ 31 then
      some ⟨overwrite paths.replace (foundAt paths sect) sect, foundAt paths sect,
        (foundAt paths sect).length⟩
    else none := by
  unfold replace_string foundAt
  split
  · have hleft : sect.length - paths.search.length - 1 = 0 := by omega
    rw [hleft]
    rfl
  generalize hleft : sect.length - paths.search.length - 1 = left
  have hloop : replaceLoop paths ([] : List UInt8).length ⟨sect, [], 0⟩ left =
      rewriteAll paths ((foundIn paths left sect).map (· + ([] : List UInt8).length)) ⟨sect, [], 0⟩ :=
    replaceLoop_eq (by omega) rfl
  have hid : ∀ l : List Nat, l.map (· + 0) = l := map_id'
  rw [length_nil] at hloop
  rw [hloop, rewriteAll_eq _ (Nat.two_pow_pos 31), hid]
  simp only [Nat.zero_add, nil_append]

end Found

section Right
variable {paths : Replacement} {bytes rest : List UInt8} {c : UInt8} {k : Nat}

theorem matchesAt_iff (hne : paths.search ≠ []) :
    matchesAt paths bytes 0 = true ↔ paths.search <+: bytes := by
  obtain ⟨c, tail, hsearch⟩ := exists_cons_of_ne_nil hne
  rw [matchesAt, Bool.and_eq_true, beq_iff_eq, beq_iff_eq, drop_zero, prefix_iff_eq_take,
    hsearch]
  constructor
  · rintro ⟨_, htake⟩
    exact htake.symm
  · intro htake
    refine ⟨?_, htake.symm⟩
    have hhead := congrArg (·[0]?) htake
    simp only [length_cons, getElem?_take, Nat.zero_lt_succ, if_true] at hhead
    exact hhead.symm

theorem foundAt_short (h : bytes.length ≤ paths.search.length + 1) : foundAt paths bytes = [] := by
  have hleft : bytes.length - paths.search.length - 1 = 0 := by omega
  rw [foundAt, hleft]
  rfl

theorem foundAt_long (h : paths.search.length + 1 < bytes.length) : foundAt paths bytes =
    if matchesAt paths bytes 0 then
      0 :: (foundAt paths ((paths.replace ++ bytes.drop paths.search.length).drop 1)).map (· + 1)
    else (foundAt paths (bytes.drop 1)).map (· + 1) := by
  have hleft : bytes.length - paths.search.length - 1 =
      (bytes.length - 1 - paths.search.length - 1) + 1 := by
    omega
  have hlen : (paths.replace ++ bytes.drop paths.search.length).length = bytes.length := by
    rw [length_append, length_drop, paths.sameLength]
    omega
  unfold foundAt
  rw [length_drop, length_drop, hlen, hleft, foundIn]

variable (hne : paths.search ≠ [])
include hne

theorem foundAt_miss (h : ¬ paths.search <+: c :: rest) :
    foundAt paths (c :: rest) = (foundAt paths rest).map (· + 1) := by
  rw [← matchesAt_iff hne] at h
  by_cases hlong : paths.search.length + 1 < (c :: rest).length
  · rw [foundAt_long hlong, if_neg h, drop_succ_cons, drop_zero]
  rw [foundAt_short (by omega), foundAt_short (by rw [length_cons] at hlong; omega)]
  rfl

theorem foundAt_hit (h : 1 < rest.length) : foundAt paths (paths.search ++ rest) =
    0 :: (foundAt paths ((paths.replace ++ rest).drop 1)).map (· + 1) := by
  have hmatch : matchesAt paths (paths.search ++ rest) 0 = true :=
    (matchesAt_iff hne).mpr (prefix_append _ _)
  rw [foundAt_long (by rw [length_append]; omega), if_pos hmatch, drop_left]

theorem foundAt_quiet (hle : k ≤ bytes.length)
    (h : ∀ j < k, j + paths.search.length + 1 < bytes.length → ¬ paths.search <+: bytes.drop j) :
    foundAt paths bytes = (foundAt paths (bytes.drop k)).map (· + k) := by
  induction k generalizing bytes with
  | zero => exact (map_id' _).symm
  | succ k ih =>
    obtain ⟨c, rest, rfl⟩ : ∃ c rest, bytes = c :: rest := by
      cases bytes with
      | nil => cases hle
      | cons c rest => exact ⟨c, rest, rfl⟩
    have hrest : foundAt paths rest = (foundAt paths (rest.drop k)).map (· + k) := by
      apply ih (Nat.le_of_succ_le_succ hle)
      intro j hj hin
      exact h (j + 1) (by omega) (by rw [length_cons]; omega)
    by_cases hlong : paths.search.length + 1 < (c :: rest).length
    · rw [foundAt_miss hne (h 0 (by omega) (by omega)), hrest, map_add_map]
      rfl
    · rw [foundAt_short (by omega), foundAt_short (by rw [length_drop]; omega)]
      rfl

theorem foundAt_loud (h : ∃ j < k, j + paths.search.length + 1 < bytes.length ∧
    paths.search <+: bytes.drop j) : ∃ j < k, j ∈ foundAt paths bytes := by
  induction k generalizing bytes with
  | zero =>
    obtain ⟨j, hj, _⟩ := h
    cases hj
  | succ k ih =>
    obtain ⟨j, hj, hin, hmatch⟩ := h
    by_cases hhead : paths.search <+: bytes
    · refine ⟨0, Nat.succ_pos k, ?_⟩
      obtain ⟨rest, rfl⟩ := hhead
      rw [length_append] at hin
      rw [foundAt_hit hne (by omega)]
      exact mem_cons_self
    cases j with
    | zero => exact absurd hmatch hhead
    | succ j =>
      cases bytes with
      | nil => cases hin
      | cons c rest =>
        rw [length_cons] at hin
        obtain ⟨i, hi, hmem⟩ : ∃ i < k, i ∈ foundAt paths rest :=
          ih ⟨j, by omega, by omega, hmatch⟩
        refine ⟨i + 1, by omega, ?_⟩
        rw [foundAt_miss hne hhead]
        exact mem_map_of_mem hmem

end Right

/-! ## When they are the same -/

/-- The bytes behind a match: its string does not end with the section, it ends, and the replacement with
these bytes has no match that the loop comes to. -/
structure HarmlessAfter (paths : Replacement) (rest : List UInt8) : Prop where
  last : rest ≠ [0]
  ended : 1 < rest.length → 0 ∈ rest
  quiet : ∀ j, 0 < j → j < paths.search.length → j + 1 < rest.length →
    ¬ paths.search <+: (paths.replace ++ rest).drop j

section Same
variable {paths : Replacement} {rest sect search : List UInt8} {c : UInt8} {p : Nat}

theorem filter_map_add {l : List Nat} {n : Nat} {f g : Nat → Bool} (h : ∀ p, f (p + n) = g p) :
    (l.map (· + n)).filter f = (l.filter g).map (· + n) := by
  rw [filter_map]
  have hcomp : f ∘ (· + n) = g := funext h
  rw [hcomp]

theorem map_add_inj {l l' : List Nat} {n : Nat} : l.map (· + n) = l'.map (· + n) ↔ l = l' :=
  List.map_inj_right fun _ _ h => Nat.add_right_cancel h

theorem stringMatches_miss (h : ¬ search <+: c :: rest) :
    stringMatches search (c :: rest) = (stringMatches search rest).map (· + 1) := by
  rw [stringMatches, leftmostMatches_cons h]
  apply filter_map_add
  intro p
  rw [Nat.add_right_comm, drop_succ_cons]

theorem drop_behind (search rest : List UInt8) (p : Nat) :
    (search ++ rest).drop (p + search.length) = rest.drop p := by
  rw [Nat.add_comm, ← drop_drop, drop_left]

theorem stringMatches_hit (hne : search ≠ []) : stringMatches search (search ++ rest) =
    (if 0 ∈ rest then [0] else []) ++ (stringMatches search rest).map (· + search.length) := by
  rw [stringMatches, leftmostMatches_append hne, filter_cons, Nat.zero_add, drop_left]
  have hrest : ((leftmostMatches search rest).map (· + search.length)).filter
      (fun p => ((search ++ rest).drop (p + search.length)).contains 0) =
      (stringMatches search rest).map (· + search.length) := by
    apply filter_map_add
    intro p
    rw [drop_behind]
  by_cases hzero : 0 ∈ rest
  · rw [if_pos (List.contains_iff_mem.mpr hzero), if_pos hzero, hrest]
    rfl
  · rw [if_neg (fun h => hzero (List.contains_iff_mem.mp h)), if_neg hzero, hrest]
    rfl

theorem harmlessAfter_of_short (h : rest.length ≤ 1) (hlast : rest ≠ [0]) :
    HarmlessAfter paths rest :=
  ⟨hlast, fun hlong => absurd hlong (by omega), fun j _ _ hin => absurd hin (by omega)⟩

variable (hne : paths.search ≠ [])
include hne

theorem foundAt_harmless (h : HarmlessAfter paths rest) (hlong : 1 < rest.length) :
    foundAt paths (paths.search ++ rest) =
      0 :: (foundAt paths rest).map (· + paths.search.length) := by
  have hpos := List.length_pos_iff.mpr hne
  have hlen := paths.sameLength
  have hquiet : foundAt paths ((paths.replace ++ rest).drop 1) =
      (foundAt paths (((paths.replace ++ rest).drop 1).drop (paths.search.length - 1))).map
        (· + (paths.search.length - 1)) := by
    apply foundAt_quiet hne
    · rw [length_drop, length_append]
      omega
    · intro j hj hin
      rw [length_drop, length_append] at hin
      rw [drop_drop, Nat.add_comm]
      exact h.quiet (j + 1) (by omega) (by omega) (by omega)
  have hdrop : ((paths.replace ++ rest).drop 1).drop (paths.search.length - 1) = rest := by
    rw [drop_drop, Nat.add_sub_cancel' hpos, ← hlen, drop_left]
  rw [foundAt_hit hne hlong, hquiet, hdrop, map_add_map, Nat.sub_add_cancel hpos]

theorem quiet_of_same (hlong : 1 < rest.length)
    (h : foundAt paths (paths.search ++ rest) = stringMatches paths.search (paths.search ++ rest))
    {j : Nat} (hj : 0 < j) (hjm : j < paths.search.length) (hin : j + 1 < rest.length) :
    ¬ paths.search <+: (paths.replace ++ rest).drop j := by
  intro hmatch
  have hlen := paths.sameLength
  rw [foundAt_hit hne hlong, stringMatches_hit hne] at h
  have hexists : ∃ i < paths.search.length - 1,
      i + paths.search.length + 1 < ((paths.replace ++ rest).drop 1).length ∧
        paths.search <+: ((paths.replace ++ rest).drop 1).drop i := by
    refine ⟨j - 1, by omega, ?_, ?_⟩
    · rw [length_drop, length_append]
      omega
    · rw [drop_drop, Nat.add_sub_cancel' hj]
      exact hmatch
  obtain ⟨i, hi, hfound⟩ := foundAt_loud hne hexists
  have hmem : i + 1 ∈ (if 0 ∈ rest then [0] else []) ++
      (stringMatches paths.search rest).map (· + paths.search.length) := by
    rw [← h]
    exact mem_cons_of_mem _ (mem_map_of_mem hfound)
  rw [mem_append, mem_map] at hmem
  rcases hmem with hzero | ⟨p, _, hp⟩
  · split at hzero
    · cases List.mem_singleton.mp hzero
    · cases hzero
  · omega

theorem foundAt_eq_hit_long (hlong : 1 < rest.length) :
    foundAt paths (paths.search ++ rest) = stringMatches paths.search (paths.search ++ rest) ↔
      HarmlessAfter paths rest ∧ foundAt paths rest = stringMatches paths.search rest := by
  have hpos := List.length_pos_iff.mpr hne
  constructor
  · intro h
    have hzero : 0 ∈ rest := by
      by_contra hnot
      have hhit := h
      rw [foundAt_hit hne hlong, stringMatches_hit hne, if_neg hnot, nil_append] at hhit
      have hmem : 0 ∈ (stringMatches paths.search rest).map (· + paths.search.length) := by
        rw [← hhit]
        exact mem_cons_self
      rw [mem_map] at hmem
      omega
    have hharmless : HarmlessAfter paths rest := by
      refine ⟨?_, fun _ => hzero, fun j => quiet_of_same hne hlong h⟩
      rintro rfl
      exact absurd hlong (Nat.lt_irrefl 1)
    refine ⟨hharmless, ?_⟩
    rw [foundAt_harmless hne hharmless hlong, stringMatches_hit hne, if_pos hzero] at h
    exact map_add_inj.mp (List.cons.inj h).2
  · rintro ⟨hharmless, heq⟩
    rw [foundAt_harmless hne hharmless hlong, stringMatches_hit hne, if_pos (hharmless.ended hlong),
      heq]
    rfl

theorem foundAt_eq_hit_short (hshort : rest.length ≤ 1) :
    foundAt paths (paths.search ++ rest) = stringMatches paths.search (paths.search ++ rest) ↔
      HarmlessAfter paths rest ∧ foundAt paths rest = stringMatches paths.search rest := by
  rw [foundAt_short (by rw [length_append]; omega), foundAt_short (by omega),
    stringMatches_hit hne]
  have hzero : 0 ∈ rest ↔ rest = [0] := by
    cases rest with
    | nil => simp
    | cons c tail =>
      have htail : tail = [] := by
        rw [← length_eq_zero_iff]
        rw [length_cons] at hshort
        omega
      simp [htail, eq_comm]
  rw [eq_comm, append_eq_nil_iff, map_eq_nil_iff, eq_comm (a := [])]
  apply and_congr_left
  intro _
  constructor
  · intro h
    apply harmlessAfter_of_short hshort
    intro heq
    rw [if_pos (hzero.mpr heq)] at h
    cases h
  · intro h
    exact if_neg (hzero.not.mpr h.last)

theorem foundAt_eq_iff (sect : List UInt8) : foundAt paths sect = stringMatches paths.search sect ↔
      ∀ p ∈ leftmostMatches paths.search sect,
        HarmlessAfter paths (sect.drop (p + paths.search.length)) := by
  induction sect using match_induction hne with
  | nil => exact iff_of_true (foundAt_short (Nat.zero_le _)) nofun
  | miss c rest hmatch ih =>
    rw [foundAt_miss hne hmatch, stringMatches_miss hmatch, map_add_inj, ih,
      leftmostMatches_cons hmatch, forall_mem_map]
    simp only [Nat.add_right_comm _ 1, drop_succ_cons]
  | hit rest ih =>
    have hhit : foundAt paths (paths.search ++ rest) =
        stringMatches paths.search (paths.search ++ rest) ↔
          HarmlessAfter paths rest ∧ foundAt paths rest = stringMatches paths.search rest := by
      by_cases hlong : 1 < rest.length
      · exact foundAt_eq_hit_long hne hlong
      · exact foundAt_eq_hit_short hne (by omega)
    rw [hhit, ih, leftmostMatches_append hne, forall_mem_cons, forall_mem_map, Nat.zero_add,
      drop_left]
    simp only [drop_behind]

end Same
section Left
variable {search replace sect bytes : List UInt8} {places : List Nat} {p q k : Nat}

theorem zero_mem_drop_iff : 0 ∈ bytes.drop k ↔ ∃ i, k ≤ i ∧ i < bytes.length ∧ bytes.getD i 0 = 0 := by
  rw [mem_iff_getElem?]
  constructor
  · rintro ⟨i, hi⟩
    rw [getElem?_drop] at hi
    obtain ⟨hlt, _⟩ := List.getElem?_eq_some_iff.mp hi
    refine ⟨k + i, Nat.le_add_right k i, hlt, ?_⟩
    rw [getD_eq_getElem?_getD, hi]
    rfl
  · rintro ⟨i, hle, hlt, hzero⟩
    refine ⟨i - k, ?_⟩
    rw [getElem?_drop, Nat.add_sub_cancel' hle, getElem?_eq_getElem hlt, ← hzero,
      getD_eq_getElem _ _ hlt]

theorem prefix_drop_iff (hne : search ≠ []) : search <+: bytes.drop q ↔
    q + search.length ≤ bytes.length ∧
      ∀ i < search.length, bytes.getD (q + i) 0 = search.getD i 0 := by
  have hpos := List.length_pos_iff.mpr hne
  rw [prefix_iff_getElem?]
  constructor
  · intro h
    have hlast := h (search.length - 1) (by omega)
    rw [getElem?_drop] at hlast
    obtain ⟨hlt, _⟩ := List.getElem?_eq_some_iff.mp hlast
    refine ⟨by omega, ?_⟩
    intro i hi
    have hat := h i hi
    rw [getElem?_drop] at hat
    rw [getD_eq_getElem?_getD, hat, getD_eq_getElem _ _ hi]
    rfl
  · rintro ⟨hlen, h⟩ i hi
    have hat := h i hi
    have hlt : q + i < bytes.length := by omega
    rw [getD_eq_getElem _ _ hlt, getD_eq_getElem _ _ hi] at hat
    rw [getElem?_drop, getElem?_eq_getElem hlt, hat]

theorem getD_overwrite_outside (h : ∀ p ∈ places, k < p ∨ p + replace.length ≤ k) :
    (overwrite replace places sect).getD k 0 = sect.getD k 0 := by
  induction places generalizing sect with
  | nil => rfl
  | cons p places ih =>
    rw [forall_mem_cons] at h
    change (overwrite replace places _).getD k 0 = _
    rw [ih h.2, getD_writeAt, if_neg (by omega)]

theorem getD_overwrite_ne_zero (places : List Nat) (hreplace : 0 ∉ replace) (h : sect.getD k 0 ≠ 0) :
    (overwrite replace places sect).getD k 0 ≠ 0 := by
  induction places generalizing sect with
  | nil => exact h
  | cons p places ih =>
    apply ih
    rw [getD_writeAt]
    split
    · rw [getD_eq_getElem _ _ (by omega)]
      intro hzero
      apply hreplace
      rw [← hzero]
      exact getElem_mem _
    · exact h

theorem length_overwrite (h : ∀ p ∈ places, p + replace.length ≤ sect.length) :
    (overwrite replace places sect).length = sect.length := by
  induction places generalizing sect with
  | nil => rfl
  | cons p places ih =>
    rw [forall_mem_cons] at h
    have hlen : (writeAt sect p replace).length = sect.length := by
      by_cases hnil : replace = []
      · rw [hnil, writeAt, if_pos rfl]
      rw [length_writeAt _ _ hnil]
      omega
    change (overwrite replace places _).length = _
    rw [ih (hlen.symm ▸ h.2), hlen]

theorem mem_stringMatches : p ∈ stringMatches search sect ↔
    p ∈ leftmostMatches search sect ∧ 0 ∈ sect.drop (p + search.length) := by
  rw [stringMatches, mem_filter, contains_iff_mem]

theorem getD_ne_zero (h : 0 ∉ search) {i : Nat} (hi : i < search.length) : search.getD i 0 ≠ 0 := by
  rw [getD_eq_getElem _ _ hi]
  intro hzero
  exact h (hzero ▸ getElem_mem _)

theorem gone_iff (hne : search ≠ []) (hsearch : 0 ∉ search) (hreplace : 0 ∉ replace)
    (hsame : replace.length = search.length) (hbytes : bytes = overwrite replace
      (stringMatches search sect) sect) :
    (∀ q, search <+: bytes.drop q → 0 ∉ bytes.drop (q + search.length)) ↔
      ∀ p ∈ stringMatches search sect, ∀ q, q < p + search.length → p < q + search.length →
        ¬ search <+: bytes.drop q := by
  have hmatch : ∀ p ∈ stringMatches search sect, p + search.length ≤ sect.length ∧
      ∀ i < search.length, sect.getD (p + i) 0 = search.getD i 0 := by
    intro p hp
    rw [← prefix_drop_iff hne]
    exact match_of_mem hne (mem_stringMatches.mp hp).1
  have hlen : bytes.length = sect.length := by
    rw [hbytes]
    apply length_overwrite
    intro p hp
    rw [hsame]
    exact (hmatch p hp).1
  constructor
  · intro hgone p hp q hqp hpq hleft
    obtain ⟨k, hpk, hk, hzero⟩ := zero_mem_drop_iff.mp (mem_stringMatches.mp hp).2
    have hkept : bytes.getD k 0 = 0 := by
      rw [hbytes, getD_overwrite_outside _, hzero]
      intro p' hp'
      by_contra hin
      have hat := (hmatch p' hp').2 (k - p') (by omega)
      rw [Nat.add_sub_cancel' (by omega), hzero] at hat
      exact getD_ne_zero hsearch (by omega) hat.symm
    have hbehind : q + search.length ≤ k := by
      by_contra hin
      have hat := ((prefix_drop_iff hne).mp hleft).2 (k - q) (by omega)
      rw [Nat.add_sub_cancel' (by omega), hkept] at hat
      exact getD_ne_zero hsearch (by omega) hat.symm
    exact hgone q hleft (zero_mem_drop_iff.mpr ⟨k, hbehind, hlen.symm ▸ hk, hkept⟩)
  · intro haround q hleft hnul
    obtain ⟨k, hqk, hk, hzero⟩ := zero_mem_drop_iff.mp hnul
    obtain ⟨hinside, hleftAt⟩ := (prefix_drop_iff hne).mp hleft
    have hwas : search <+: sect.drop q := by
      rw [prefix_drop_iff hne]
      refine ⟨hlen ▸ hinside, ?_⟩
      intro i hi
      rw [← hleftAt i hi, hbytes, getD_overwrite_outside]
      intro p hp
      by_contra hin
      exact haround p hp q (by omega) (by omega) hleft
    have hwasZero : sect.getD k 0 = 0 := by
      by_contra hnonzero
      apply getD_overwrite_ne_zero (stringMatches search sect) hreplace hnonzero
      rw [← hbytes]
      exact hzero
    obtain ⟨p, hp, hle, hlt⟩ := leftmostMatches_cover hne hwas
    have hstring : p ∈ stringMatches search sect :=
      mem_stringMatches.mpr ⟨hp, zero_mem_drop_iff.mpr ⟨k, by omega, by omega, hwasZero⟩⟩
    exact haround p hstring q hlt (by omega) hleft

end Left
section Substitution
variable {paths : Replacement} {sect bytes : List UInt8} {left : Nat}

/-- The matches are few enough to be counted, what follows them is harmless, and the path is not formed
again around a place that is rewritten. -/
structure Harmless (paths : Replacement) (sect : List UInt8) : Prop where
  few : (stringMatches paths.search sect).length < 2 ^ 31
  after : ∀ p ∈ leftmostMatches paths.search sect,
    HarmlessAfter paths (sect.drop (p + paths.search.length))
  around : ∀ p ∈ stringMatches paths.search sect, ∀ q, q < p + paths.search.length →
    p < q + paths.search.length →
      ¬ paths.search <+: (overwrite paths.replace (stringMatches paths.search sect) sect).drop q

theorem substituted_iff_found :
    (∃ r, replace_string paths sect = some r ∧ Substituted paths sect r) ↔
      foundAt paths sect = stringMatches paths.search sect ∧
        (stringMatches paths.search sect).length < 2 ^ 31 ∧
          ∀ q, paths.search <+:
              (overwrite paths.replace (stringMatches paths.search sect) sect).drop q →
            0 ∉ (overwrite paths.replace (stringMatches paths.search sect) sect).drop
              (q + paths.search.length) := by
  rw [replace_string_eq]
  constructor
  · rintro ⟨r, hrun, hr⟩
    split at hrun
    · rename_i hfew
      obtain rfl := Option.some_inj.mp hrun
      refine ⟨hr.found, hr.found ▸ hfew, ?_⟩
      rw [← hr.rewritten]
      exact hr.gone
    · cases hrun
  · rintro ⟨hfound, hfew, hgone⟩
    rw [hfound, if_pos hfew]
    exact ⟨_, rfl, rfl, rfl, rfl, hgone⟩

theorem foundIn_nil (hnil : paths.search = []) (h : 0 ∉ bytes) : foundIn paths left bytes = [] := by
  induction left generalizing bytes with
  | zero => rfl
  | succ left ih =>
    have hnot : ¬ matchesAt paths bytes 0 = true := by
      rw [matchesAt, hnil, Bool.and_eq_true, beq_iff_eq]
      rintro ⟨hhead, _⟩
      exact h (mem_of_getElem? hhead)
    rw [foundIn, if_neg hnot, ih fun hmem => h (mem_of_mem_drop hmem)]
    rfl

theorem substituted_nil (paths : Replacement) (hnil : paths.search = []) :
    (∃ r, replace_string paths sect = some r ∧ Substituted paths sect r) ↔ 0 ∉ sect := by
  have hreplace : paths.replace = [] := by
    rw [← length_eq_zero_iff, paths.sameLength, hnil]
    rfl
  have hsame : ∀ places, overwrite paths.replace places sect = sect := by
    intro places
    induction places with
    | nil => rfl
    | cons p places ih => rwa [overwrite, foldl_cons, hreplace, writeAt, if_pos rfl, ← hreplace]
  rw [substituted_iff_found, hsame]
  constructor
  · rintro ⟨_, _, hgone⟩ hzero
    apply hgone 0
    · rw [hnil]
      exact nil_prefix
    · rw [hnil]
      exact hzero
  · intro h
    have hmatches : stringMatches paths.search sect = [] := by
      rw [stringMatches, filter_eq_nil_iff]
      intro p _ hmem
      exact h (mem_of_mem_drop (List.contains_iff_mem.mp hmem))
    refine ⟨?_, ?_, ?_⟩
    · rw [hmatches]
      exact foundIn_nil hnil h
    · rw [hmatches]
      exact Nat.two_pow_pos 31
    · intro q _ hmem
      exact h (mem_of_mem_drop hmem)

theorem substituted_cons (paths : Replacement) (hne : paths.search ≠ []) (hsearch : 0 ∉ paths.search)
    (hreplace : 0 ∉ paths.replace) :
    (∃ r, replace_string paths sect = some r ∧ Substituted paths sect r) ↔ Harmless paths sect := by
  rw [substituted_iff_found, foundAt_eq_iff hne,
    gone_iff hne hsearch hreplace paths.sameLength rfl]
  constructor
  · rintro ⟨hafter, hfew, haround⟩
    exact ⟨hfew, hafter, haround⟩
  · intro h
    exact ⟨h.after, h.few, h.around⟩

theorem substituted_iff (paths : Paths) (sect : List UInt8) :
    (∃ r, replace_string paths.replacement sect = some r ∧
      Substituted paths.replacement sect r) ↔
        (paths.server_path = [] ∧ 0 ∉ sect) ∨
          (paths.server_path ≠ [] ∧ Harmless paths.replacement sect) := by
  by_cases hnil : paths.server_path = []
  · rw [substituted_nil paths.replacement hnil]
    simp [hnil]
  · rw [substituted_cons paths.replacement hnil paths.server_string paths.plus_slashes_string]
    simp [hnil]

/-- `/tmp` in a section that is this string and its terminator. -/
theorem substituted_last : ¬ ∀ (paths : Paths) (sect : List UInt8),
    ∃ r, replace_string paths.replacement sect = some r ∧
      Substituted paths.replacement sect r := by
  intro hclaim
  obtain ⟨r, hrun, hr⟩ := hclaim ⟨ascii "/", ascii "/tmp", by decide, by decide, by decide⟩
    (ascii "/tmp" ++ [0])
  have hcode : replace_string ⟨ascii "/tmp", ascii "////", rfl⟩ (ascii "/tmp" ++ [0]) =
      some ⟨ascii "/tmp" ++ [0], [], 0⟩ := rfl
  obtain rfl := Option.some_inj.mp (hcode.symm.trans hrun)
  have hmeant : stringMatches (ascii "/tmp") (ascii "/tmp" ++ [0]) = [0] := by decide
  have hfound : [] = stringMatches (ascii "/tmp") (ascii "/tmp" ++ [0]) := hr.found
  cases hfound

end Substitution
end Toolwhip.Distcc.ReplaceString
