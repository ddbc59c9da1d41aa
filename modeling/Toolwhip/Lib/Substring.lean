import Mathlib.Data.List.Infix

/-! # Replacing a substring

The occurrences of a list in another one are found from the left and do not overlap. What
lies between them are the pieces, and to replace the occurrences is to join the pieces
with something else. -/

namespace Toolwhip.Lib.Substring
open List
set_option autoImplicit false

universe u
variable {α : Type u}
variable {word : List α} {p rest : List α}

def join (between : List α) : List (List α) → List α
  | [] => []
  | [s] => s
  | s :: rest => s ++ (between ++ join between rest)

theorem join_cons {between s : List α} {ps : List (List α)} (hps : ps ≠ []) :
    join between (s :: ps) = s ++ (between ++ join between ps) := by
  cases ps with
  | nil => exact absurd rfl hps
  | cons p ps => rfl

def Unbordered (word : List α) : Prop := ∃ c t, word = c :: t ∧ c ∉ t

theorem Unbordered.ne_nil (h : Unbordered word) : word ≠ [] := by
  obtain ⟨c, t, rfl, _⟩ := h
  exact cons_ne_nil c t

/-- A word that starts in what is before it cannot end in the word that was put there. -/
theorem Unbordered.not_prefix (h : Unbordered word) {a : α}
    (habsent : ¬ word <:+: a :: p) : ¬ word <+: a :: p ++ (word ++ rest) := by
  intro hprefix
  obtain ⟨c, t, hword, hc⟩ := h
  rcases Nat.lt_or_ge p.length t.length with hlt | hge
  · -- the word that was put there starts inside of the word, with its first letter
    have hget : ∀ i (hi : i < word.length), word[i]? = (a :: p ++ (word ++ rest))[i]? := by
      intro i hi
      rw [getElem?_eq_getElem hi]
      exact (prefix_iff_getElem?.mp hprefix i hi).symm
    have hlen : word.length = t.length + 1 := by
      rw [hword]
      rfl
    have hstart := hget (p.length + 1) (by omega)
    have hright : (a :: p ++ (word ++ rest))[p.length + 1]? = some c := by
      rw [hword]
      simp
    rw [hright, hword, getElem?_cons_succ] at hstart
    exact hc (mem_of_getElem? hstart)
  · have hshort : word.length ≤ (a :: p).length := by
      rw [hword]
      exact Nat.succ_le_succ hge
    have hwhole : word <+: a :: p :=
      prefix_of_prefix_length_le hprefix (prefix_append _ _) hshort
    exact habsent hwhole.isInfix

theorem length_join_ge {between : List α} {ps : List (List α)} (hbetween : between ≠ [])
    (hps : ps ≠ []) : ps.length ≤ (join between ps).length + 1 := by
  have hpos : 0 < between.length := List.length_pos_iff.mpr hbetween
  induction ps with
  | nil => exact absurd rfl hps
  | cons p ps ih =>
    by_cases hmore : ps = []
    · subst hmore
      exact Nat.le_add_left 1 _
    rw [join_cons hmore]
    have hrest := ih hmore
    simp only [length_cons, length_append]
    omega

variable [DecidableEq α]

def splitFirst (find : List α) : List α → Option (List α × List α)
  | [] => none
  | a :: s =>
    if find.isPrefixOf (a :: s) then some ([], (a :: s).drop find.length)
    else (splitFirst find s).map fun split => (a :: split.1, split.2)

def replaceWithin (find replace : List α) : Nat → List α → List α
  | 0, s => s
  | n + 1, s =>
    match splitFirst find s with
    | none => s
    | some (before, after) => before ++ (replace ++ replaceWithin find replace n after)

def piecesWithin (find : List α) : Nat → List α → List (List α)
  | 0, s => [s]
  | n + 1, s =>
    match splitFirst find s with
    | none => [s]
    | some (before, after) => before :: piecesWithin find n after

def replaceAll (find replace s : List α) : List α := replaceWithin find replace s.length s

def pieces (find s : List α) : List (List α) := piecesWithin find s.length s

variable {find replace replace' s before after : List α} {ps : List (List α)} {n : Nat}

theorem piecesWithin_ne_nil : piecesWithin find n s ≠ [] := by
  cases n with
  | zero => exact cons_ne_nil _ _
  | succ n =>
    unfold piecesWithin
    split
    · exact cons_ne_nil _ _
    · exact cons_ne_nil _ _

theorem replaceWithin_eq_join :
    replaceWithin find replace n s = join replace (piecesWithin find n s) := by
  induction n generalizing s with
  | zero => rfl
  | succ n ih =>
    unfold replaceWithin piecesWithin
    cases splitFirst find s with
    | none => rfl
    | some split =>
      dsimp only
      rw [join_cons piecesWithin_ne_nil, ih]

theorem replaceAll_eq_join : replaceAll find replace s = join replace (pieces find s) :=
  replaceWithin_eq_join

theorem splitFirst_eq (h : splitFirst find s = some (before, after)) : s = before ++ (find ++ after) := by
  induction s generalizing before with
  | nil => cases h
  | cons a s ih =>
    unfold splitFirst at h
    split at h
    case isTrue hprefix =>
      cases h
      obtain ⟨t, ht⟩ := List.isPrefixOf_iff_prefix.mp hprefix
      rw [← ht, drop_left]
      rfl
    case isFalse =>
      obtain ⟨split, hsplit, heq⟩ := Option.map_eq_some_iff.mp h
      cases heq
      rw [ih hsplit]
      rfl

theorem length_replaceWithin_le : (replaceWithin find replace n s).length ≤
    s.length + ((piecesWithin find n s).length - 1) * (replace.length - find.length) := by
  induction n generalizing s with
  | zero => exact Nat.le_add_right _ _
  | succ n ih =>
    unfold replaceWithin piecesWithin
    cases hsplit : splitFirst find s with
    | none => exact Nat.le_add_right _ _
    | some split =>
      obtain ⟨before, after⟩ := split
      have hsome : 0 < (piecesWithin find n after).length :=
        List.length_pos_iff.mpr piecesWithin_ne_nil
      have hlength := congrArg List.length (splitFirst_eq hsplit)
      have hrest := ih (s := after)
      obtain ⟨m, hm⟩ := Nat.exists_eq_add_of_lt hsome
      simp only [length_append, length_cons, hm] at hlength hrest ⊢
      have hmul := Nat.succ_mul m (replace.length - find.length)
      simp only [Nat.zero_add, Nat.add_sub_cancel, Nat.succ_eq_add_one] at hrest hmul ⊢
      omega

theorem splitFirst_none_iff (hfind : find ≠ []) : splitFirst find s = none ↔ ¬ find <:+: s := by
  induction s with
  | nil =>
    refine iff_of_true rfl ?_
    intro hpart
    exact hfind (List.infix_nil.mp hpart)
  | cons a s ih =>
    unfold splitFirst
    rw [infix_cons_iff]
    split
    case isTrue hprefix =>
      refine iff_of_false (Option.some_ne_none _) ?_
      exact not_not.mpr (Or.inl <| List.isPrefixOf_iff_prefix.mp hprefix)
    case isFalse hprefix =>
      rw [Option.map_eq_none_iff, ih]
      constructor
      · intro hno hyes
        rcases hyes with hyes | hyes
        · exact hprefix <| List.isPrefixOf_iff_prefix.mpr hyes
        · exact hno hyes
      · exact fun hno hyes => hno (Or.inr hyes)

theorem infix_of_mem_pieces {p : List α} (hp : p ∈ pieces find s) : p <:+: s := by
  unfold pieces at hp
  generalize s.length = n at hp
  induction n generalizing s with
  | zero => rw [List.mem_singleton.mp hp]
  | succ n ih =>
    unfold piecesWithin at hp
    cases hsplit : splitFirst find s with
    | none =>
      rw [hsplit] at hp
      rw [List.mem_singleton.mp hp]
    | some split =>
      rw [hsplit] at hp
      have heq := splitFirst_eq hsplit
      rcases List.mem_cons.mp hp with rfl | hp
      · exact ⟨[], find ++ split.2, by rw [heq]; rfl⟩
      have hafter : split.2 <:+: s := ⟨split.1 ++ find, [], by rw [heq]; simp⟩
      exact (ih hp).trans hafter

theorem Unbordered.splitFirst (h : Unbordered word)
    (habsent : ¬ word <:+: p) : Substring.splitFirst word (p ++ (word ++ rest)) = some (p, rest) := by
  induction p with
  | nil =>
    obtain ⟨c, t, rfl, _⟩ := h
    have hprefix : (c :: t).isPrefixOf (c :: (t ++ rest)) = true :=
      List.isPrefixOf_iff_prefix.mpr ⟨rest, rfl⟩
    have hdrop : (c :: (t ++ rest)).drop (c :: t).length = rest := drop_left
    show Substring.splitFirst (c :: t) (c :: (t ++ rest)) = _
    unfold Substring.splitFirst
    rw [if_pos hprefix, hdrop]
  | cons a p ih =>
    have hnot : ¬ word <+: a :: (p ++ (word ++ rest)) := h.not_prefix habsent
    have hrest : ¬ word <:+: p := by
      intro hpart
      exact habsent (List.infix_cons_iff.mpr (Or.inr hpart))
    show Substring.splitFirst word (a :: (p ++ (word ++ rest))) = _
    unfold Substring.splitFirst
    rw [if_neg (fun hp => hnot <| List.isPrefixOf_iff_prefix.mp hp), ih hrest]
    rfl

/-- The occurrences of a word that was put between pieces without it are those that were put there. -/
theorem Unbordered.piecesWithin_join (h : Unbordered word) (hps : ps ≠ [])
    (habsent : ∀ p ∈ ps, ¬ word <:+: p) (hn : ps.length ≤ n + 1) :
    piecesWithin word n (join word ps) = ps := by
  induction n generalizing ps with
  | zero =>
    cases ps with
    | nil => exact absurd rfl hps
    | cons p ps =>
      cases ps with
      | nil => rfl
      | cons q ps =>
        simp only [length_cons] at hn
        omega
  | succ n ih =>
    cases ps with
    | nil => exact absurd rfl hps
    | cons p ps =>
      have hp : ¬ word <:+: p := habsent p mem_cons_self
      by_cases hmore : ps = []
      · subst hmore
        have hnone : Substring.splitFirst word p = none := (splitFirst_none_iff h.ne_nil).mpr hp
        show piecesWithin word (n + 1) p = [p]
        unfold piecesWithin
        rw [hnone]
      rw [join_cons hmore]
      unfold piecesWithin
      rw [h.splitFirst hp]
      dsimp only
      rw [ih hmore (fun q hq => habsent q (mem_cons_of_mem p hq))]
      simp only [length_cons] at hn
      omega

theorem replaceAll_replaceAll (h : Unbordered replace) (habsent : ¬ replace <:+: s) :
    replaceAll replace replace' (replaceAll find replace s) = join replace' (pieces find s) := by
  have hps : pieces find s ≠ [] := piecesWithin_ne_nil
  have hall : ∀ p ∈ pieces find s, ¬ replace <:+: p := by
    intro p hp hpart
    exact habsent (hpart.trans (infix_of_mem_pieces hp))
  have hback : pieces replace (join replace (pieces find s)) = pieces find s :=
    h.piecesWithin_join hps hall (length_join_ge h.ne_nil hps)
  rw [replaceAll_eq_join, replaceAll_eq_join, hback]

end Toolwhip.Lib.Substring
