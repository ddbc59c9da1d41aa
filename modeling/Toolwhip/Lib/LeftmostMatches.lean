
/-! # Leftmost matches

The matches of a word in a text that a search from left to right finds: after a match it goes on behind
it. -/

namespace Toolwhip.Lib.LeftmostMatches
open List
set_option autoImplicit false

universe u
variable {α : Type u} [DecidableEq α] (search : List α)

def matchesAfter : Nat → List α → List Nat
  | _, [] => []
  | skip + 1, _ :: rest => (matchesAfter skip rest).map (· + 1)
  | 0, c :: rest =>
    if search <+: c :: rest then 0 :: (matchesAfter (search.length - 1) rest).map (· + 1)
    else (matchesAfter 0 rest).map (· + 1)

def leftmostMatches (text : List α) : List Nat := matchesAfter search 0 text

variable {search} {text rest : List α} {c : α} {p q : Nat}

theorem map_add_map (l : List Nat) (m n : Nat) : (l.map (· + m)).map (· + n) = l.map (· + (m + n)) := by
  rw [map_map]
  apply map_congr_left
  intro p _
  exact Nat.add_assoc p m n

theorem matchesAfter_eq (skip : Nat) (text : List α) :
    matchesAfter search skip text = (leftmostMatches search (text.drop skip)).map (· + skip) := by
  induction text generalizing skip with
  | nil =>
    cases skip <;> rfl
  | cons c rest ih =>
    cases skip with
    | zero =>
      exact (map_id' _).symm
    | succ skip => rw [matchesAfter, ih, map_add_map, drop_succ_cons]

theorem leftmostMatches_cons (h : ¬ search <+: c :: rest) :
    leftmostMatches search (c :: rest) = (leftmostMatches search rest).map (· + 1) := by
  rw [leftmostMatches, matchesAfter, if_neg h]
  rfl

theorem leftmostMatches_append (hne : search ≠ []) : leftmostMatches search (search ++ rest) =
    0 :: (leftmostMatches search rest).map (· + search.length) := by
  obtain ⟨c, tail, rfl⟩ := exists_cons_of_ne_nil hne
  have hmatch : c :: tail <+: c :: (tail ++ rest) := prefix_append (c :: tail) rest
  rw [cons_append, leftmostMatches, matchesAfter, if_pos hmatch, matchesAfter_eq, map_add_map]
  have hdrop : (tail ++ rest).drop ((c :: tail).length - 1) = rest := drop_left
  rw [hdrop]
  rfl

theorem match_induction {motive : List α → Prop} (hne : search ≠ []) (nil : motive [])
    (miss : ∀ c rest, ¬ search <+: c :: rest → motive rest → motive (c :: rest))
    (hit : ∀ rest, motive rest → motive (search ++ rest)) (text : List α) : motive text := by
  induction hlen : text.length using Nat.strongRecOn generalizing text with
  | ind n ih =>
    subst hlen
    have hpos := List.length_pos_iff.mpr hne
    by_cases hmatch : search <+: text
    · obtain ⟨rest, rfl⟩ := hmatch
      apply hit
      apply ih rest.length _ rest rfl
      rw [length_append]
      omega
    · cases text with
      | nil => exact nil
      | cons c rest => exact miss c rest hmatch (ih rest.length (Nat.lt_succ_self _) rest rfl)

theorem match_of_mem (hne : search ≠ []) (h : p ∈ leftmostMatches search text) :
    search <+: text.drop p := by
  induction text using match_induction hne generalizing p with
  | nil => cases h
  | miss c rest hmatch ih =>
    rw [leftmostMatches_cons hmatch, mem_map] at h
    obtain ⟨q, hq, rfl⟩ := h
    exact ih hq
  | hit rest ih =>
    rw [leftmostMatches_append hne, mem_cons, mem_map] at h
    rcases h with rfl | ⟨q, hq, rfl⟩
    · exact prefix_append search rest
    rw [Nat.add_comm, ← drop_drop, drop_left]
    exact ih hq

/-- Every match starts in one of them. -/
theorem leftmostMatches_cover (hne : search ≠ []) (h : search <+: text.drop q) :
    ∃ p ∈ leftmostMatches search text, p ≤ q ∧ q < p + search.length := by
  induction text using match_induction hne generalizing q with
  | nil =>
    rw [drop_nil, prefix_nil] at h
    exact absurd h hne
  | miss c rest hmatch ih =>
    cases q with
    | zero => exact absurd h hmatch
    | succ q =>
      obtain ⟨p, hp, hle, hlt⟩ := ih h
      refine ⟨p + 1, ?_, by omega, by omega⟩
      rw [leftmostMatches_cons hmatch]
      exact mem_map_of_mem hp
  | hit rest ih =>
    rw [leftmostMatches_append hne]
    by_cases hq : q < search.length
    · exact ⟨0, mem_cons_self, Nat.zero_le q, by omega⟩
    have hsplit : q = search.length + (q - search.length) := by omega
    rw [hsplit, ← drop_drop, drop_left] at h
    obtain ⟨p, hp, hle, hlt⟩ := ih h
    refine ⟨p + search.length, ?_, by omega, by omega⟩
    exact mem_cons_of_mem _ (mem_map_of_mem hp)

section First

def firstMatch (search : List α) : List α → Option Nat
  | [] => if search <+: [] then some 0 else none
  | c :: rest => if search <+: c :: rest then some 0 else (firstMatch search rest).map (· + 1)

theorem firstMatch_hit (h : search <+: text) : firstMatch search text = some 0 := by
  cases text with
  | nil => rw [firstMatch, if_pos h]
  | cons c rest => rw [firstMatch, if_pos h]

theorem firstMatch_miss (h : ¬ search <+: c :: rest) :
    firstMatch search (c :: rest) = (firstMatch search rest).map (· + 1) := by
  rw [firstMatch, if_neg h]

theorem match_of_first (h : firstMatch search text = some p) : search <+: text.drop p := by
  induction text generalizing p with
  | nil =>
    rw [firstMatch] at h
    split at h
    · rw [drop_nil]
      assumption
    · cases h
  | cons c rest ih =>
    by_cases hmatch : search <+: c :: rest
    · rw [firstMatch_hit hmatch] at h
      cases h
      exact hmatch
    · rw [firstMatch_miss hmatch, Option.map_eq_some_iff] at h
      obtain ⟨q, hq, rfl⟩ := h
      exact ih hq

theorem split_of_first (h : firstMatch search text = some p) :
    text = text.take p ++ (search ++ text.drop (p + search.length)) := by
  obtain ⟨rest, hrest⟩ := match_of_first h
  rw [← drop_drop, ← hrest, drop_left, hrest, take_append_drop]

theorem first_le (h : firstMatch search text = some p) : p ≤ text.length := by
  induction text generalizing p with
  | nil =>
    rw [firstMatch] at h
    split at h
    · cases h
      exact Nat.le_refl 0
    · cases h
  | cons c rest ih =>
    by_cases hmatch : search <+: c :: rest
    · rw [firstMatch_hit hmatch] at h
      cases h
      exact Nat.zero_le _
    · rw [firstMatch_miss hmatch, Option.map_eq_some_iff] at h
      obtain ⟨q, hq, rfl⟩ := h
      exact Nat.succ_le_succ (ih hq)

variable (hne : search ≠ [])
include hne

theorem leftmostMatches_none (h : firstMatch search text = none) :
    leftmostMatches search text = [] := by
  induction text using match_induction hne with
  | nil => rfl
  | miss c rest hmatch ih =>
    rw [firstMatch_miss hmatch, Option.map_eq_none_iff] at h
    rw [leftmostMatches_cons hmatch, ih h]
    rfl
  | hit rest _ =>
    rw [firstMatch_hit (prefix_append _ _)] at h
    cases h

theorem leftmostMatches_first (h : firstMatch search text = some p) : leftmostMatches search text =
      (leftmostMatches search (search ++ text.drop (p + search.length))).map (· + p) := by
  induction text using match_induction hne generalizing p with
  | nil =>
    rw [firstMatch] at h
    split at h
    · rename_i hmatch
      exact absurd (List.prefix_nil.mp hmatch) hne
    · cases h
  | miss c rest hmatch ih =>
    rw [firstMatch_miss hmatch, Option.map_eq_some_iff] at h
    obtain ⟨q, hq, rfl⟩ := h
    rw [leftmostMatches_cons hmatch, ih hq, map_add_map, Nat.add_right_comm, drop_succ_cons]
  | hit rest _ =>
    rw [firstMatch_hit (prefix_append _ _)] at h
    cases h
    rw [Nat.zero_add, drop_left]
    exact (map_id' _).symm

end First

section Without

def without (gone : Nat → Bool) : List α → List α
  | [] => []
  | c :: rest =>
    if gone 0 then without (fun i => gone (i + 1)) rest
    else c :: without (fun i => gone (i + 1)) rest

def covered (len : Nat) (places : List Nat) (i : Nat) : Bool :=
  places.any fun p => decide (p ≤ i ∧ i < p + len)

def cutOut (len : Nat) (places : List Nat) (text : List α) : List α := without (covered len places) text

variable {gone gone' : Nat → Bool} {len : Nat} {places : List Nat}
omit [DecidableEq α]

theorem without_append (gone : Nat → Bool) (l l' : List α) :
    without gone (l ++ l') = without gone l ++ without (fun i => gone (i + l.length)) l' := by
  induction l generalizing gone with
  | nil => rfl
  | cons c l ih =>
    simp only [cons_append, without, ih, length_cons, Nat.add_assoc]
    split <;> rfl

theorem without_congr (h : ∀ i < text.length, gone i = gone' i) :
    without gone text = without gone' text := by
  induction text generalizing gone gone' with
  | nil => rfl
  | cons c text ih =>
    rw [without, without, h 0 (Nat.succ_pos _), ih fun i hi => h (i + 1) (Nat.succ_lt_succ hi)]

theorem without_none (h : ∀ i < text.length, gone i = false) : without gone text = text := by
  induction text generalizing gone with
  | nil => rfl
  | cons c text ih =>
    rw [without, h 0 (Nat.succ_pos _), ih fun i hi => h (i + 1) (Nat.succ_lt_succ hi)]
    rfl

theorem without_all (h : ∀ i < text.length, gone i = true) : without gone text = [] := by
  induction text generalizing gone with
  | nil => rfl
  | cons c text ih =>
    rw [without, h 0 (Nat.succ_pos _), ih fun i hi => h (i + 1) (Nat.succ_lt_succ hi)]
    rfl

theorem mem_without (h : text[p]? = some c) (hkept : gone p = false) : c ∈ without gone text := by
  induction text generalizing gone p with
  | nil => cases h
  | cons d text ih =>
    rw [without]
    cases p with
    | zero =>
      rw [hkept]
      cases h
      exact mem_cons_self
    | succ p =>
      have hmem : c ∈ without (fun i => gone (i + 1)) text := ih h hkept
      split
      · exact hmem
      · exact mem_cons_of_mem _ hmem

theorem without_subset (gone : Nat → Bool) (text : List α) : without gone text ⊆ text := by
  induction text generalizing gone with
  | nil => exact List.Subset.refl _
  | cons c text ih =>
    rw [without]
    split
    · exact List.Subset.trans (ih _) (subset_cons_self _ _)
    · exact cons_subset_cons _ (ih _)

@[simp] theorem cutOut_nil (len : Nat) (text : List α) : cutOut len [] text = text :=
  without_none fun _ _ => rfl

theorem covered_map_add {n i : Nat} (h : n ≤ i) :
    covered len (places.map (· + n)) i = covered len places (i - n) := by
  rw [covered, covered, any_map]
  congr 1
  funext p
  simp only [Function.comp, decide_eq_decide]
  omega

theorem cutOut_hit (word rest : List α) (places : List Nat) :
    cutOut word.length (0 :: places.map (· + word.length)) (word ++ rest) =
      cutOut word.length places rest := by
  rw [cutOut, without_append]
  have hword : without (covered word.length (0 :: places.map (· + word.length))) word = [] := by
    apply without_all
    intro i hi
    simp [covered, hi]
  rw [hword, nil_append]
  apply without_congr
  intro i _
  have hmore : covered word.length (places.map (· + word.length)) (i + word.length) =
      covered word.length places i := by
    rw [covered_map_add (Nat.le_add_left _ _), Nat.add_sub_cancel]
  have hfirst : decide (0 ≤ i + word.length ∧ i + word.length < 0 + word.length) = false :=
    decide_eq_false (by omega)
  rw [← hmore, covered, any_cons, hfirst, Bool.false_or]
  rfl

theorem cutOut_append (len : Nat) (before rest : List α) (places : List Nat) :
    cutOut len (places.map (· + before.length)) (before ++ rest) =
      before ++ cutOut len places rest := by
  rw [cutOut, without_append]
  congr 1
  · apply without_none
    intro i hi
    rw [covered, any_eq_false]
    intro p hp
    obtain ⟨q, _, rfl⟩ := List.mem_map.mp hp
    simp only [decide_eq_true_eq]
    omega
  · apply without_congr
    intro i _
    rw [covered_map_add (Nat.le_add_left _ _), Nat.add_sub_cancel]

end Without

end Toolwhip.Lib.LeftmostMatches
