import Mathlib.Data.List.Infix

/-! # Steps back

A walk of letters one of which takes back the last step that has not been taken back. Some letters are
named, and the walk that is meant has only these. The two can be put side by side by counting
alone: a step
is cut by what follows it if some beginning of that has more than half steps back. -/

namespace Toolwhip.Lib.StepsBack
open List
set_option autoImplicit false

universe u
variable {α : Type u} [DecidableEq α] {back c x : α} {l m s t : List α}

def advance (back : α) (s : List α) (c : α) : List α := if c = back then s.dropLast else s ++ [c]

def trail (back : α) (l : List α) : List α := l.foldl (advance back) []

/-- A step before `l` is taken back in it. -/
def Cut (back : α) (l : List α) : Prop := ∃ l₁, l₁ <+: l ∧ l₁.length < 2 * l₁.count back

theorem trail_concat_back : trail back (l ++ [back]) = (trail back l).dropLast := by
  simp [trail, advance]

theorem trail_concat (h : c ≠ back) : trail back (l ++ [c]) = trail back l ++ [c] := by
  simp [trail, advance, h]

theorem cut_concat (h : c ≠ back) : Cut back (l ++ [c]) ↔ Cut back l := by
  constructor
  · rintro ⟨l₁, hprefix, hmany⟩
    rcases prefix_concat_iff.mp hprefix with rfl | hin
    · refine ⟨l, prefix_refl l, ?_⟩
      rw [length_append, length_singleton, count_append, count_singleton,
        if_neg (by simpa using h)] at hmany
      omega
    · exact ⟨l₁, hin, hmany⟩
  · rintro ⟨l₁, hprefix, hmany⟩
    exact ⟨l₁, hprefix.trans (prefix_append l [c]), hmany⟩

theorem cut_concat_back : Cut back (l ++ [back]) ↔ Cut back l ∨ l.length ≤ 2 * l.count back := by
  have hwhole : (l ++ [back]).length < 2 * (l ++ [back]).count back ↔ l.length ≤ 2 * l.count back := by
    simp only [length_append, length_singleton, count_append, count_singleton_self]
    omega
  constructor
  · rintro ⟨l₁, hprefix, hmany⟩
    rcases prefix_concat_iff.mp hprefix with rfl | hin
    · exact Or.inr (hwhole.mp hmany)
    · exact Or.inl ⟨l₁, hin, hmany⟩
  · rintro (⟨l₁, hprefix, hmany⟩ | hmany)
    · exact ⟨l₁, hprefix.trans (prefix_append l [back]), hmany⟩
    · exact ⟨_, prefix_refl _, hwhole.mpr hmany⟩

theorem length_trail (h : ¬ Cut back l) : (trail back l).length + 2 * l.count back = l.length := by
  induction l using List.reverseRecOn with
  | nil => rfl
  | append_singleton l c ih =>
    by_cases hc : c = back
    · subst hc
      obtain ⟨hcut, hmany⟩ := not_or.mp (mt cut_concat_back.mpr h)
      have hlength := ih hcut
      rw [trail_concat_back, length_dropLast, count_append, count_singleton_self, length_append,
        length_singleton]
      omega
    · have hlength := ih (mt (cut_concat hc).mpr h)
      rw [trail_concat hc, length_append, length_append, count_append, count_singleton,
        if_neg (by simpa using hc), length_singleton]
      omega

theorem trail_append (h : ¬ Cut back m) : trail back (l ++ m) = trail back l ++ trail back m := by
  induction m using List.reverseRecOn with
  | nil => simp [trail]
  | append_singleton m c ih =>
    rw [← append_assoc]
    by_cases hc : c = back
    · subst hc
      obtain ⟨hcut, hmany⟩ := not_or.mp (mt cut_concat_back.mpr h)
      have hlength := length_trail hcut
      have hne : trail c m ≠ [] := by
        intro hnil
        rw [hnil, length_nil] at hlength
        omega
      rw [trail_concat_back, trail_concat_back, ih hcut, dropLast_append_of_ne_nil hne]
    · rw [trail_concat hc, trail_concat hc, ih (mt (cut_concat hc).mpr h), append_assoc]

/-- What the walk has left are the steps that are not cut. -/
theorem trail_eq_iff : trail back l = s ++ x :: t ↔
    ∃ a b, l = a ++ x :: b ∧ x ≠ back ∧ ¬ Cut back b ∧ trail back a = s ∧ trail back b = t := by
  constructor
  · intro h
    induction l using List.reverseRecOn generalizing t with
    | nil => simp [trail] at h
    | append_singleton l c ih =>
      by_cases hc : c = back
      · subst hc
        rw [trail_concat_back] at h
        have hne : trail c l ≠ [] := by
          intro hnil
          simp [hnil] at h
        have hwalk : trail c l = s ++ x :: (t ++ [(trail c l).getLast hne]) := by
          conv => lhs; rw [← dropLast_append_getLast hne, h]
          simp
        obtain ⟨a, b, rfl, hx, hcut, ha, hb⟩ := ih hwalk
        have hlength := length_trail hcut
        rw [hb, length_append, length_singleton] at hlength
        refine ⟨a, b ++ [c], by simp, hx, ?_, ha, ?_⟩
        · rw [cut_concat_back]
          rintro (hin | hmany)
          · exact hcut hin
          · omega
        · rw [trail_concat_back, hb, dropLast_concat]
      · rw [trail_concat hc] at h
        rcases eq_nil_or_concat t with rfl | ⟨t', c', rfl⟩
        · obtain ⟨hwalk, hx⟩ := append_inj' h rfl
          rw [singleton_inj] at hx
          subst hx
          refine ⟨l, [], by simp, hc, ?_, hwalk, rfl⟩
          rintro ⟨l₁, hprefix, hmany⟩
          rw [prefix_nil.mp hprefix] at hmany
          simp at hmany
        · rw [concat_eq_append, ← cons_append, ← append_assoc] at h
          obtain ⟨hwalk, hc'⟩ := append_inj' h rfl
          obtain ⟨a, b, rfl, hx, hcut, ha, hb⟩ := ih hwalk
          refine ⟨a, b ++ [c], by simp, hx, mt (cut_concat hc).mp hcut, ha, ?_⟩
          rw [trail_concat hc, hb, hc', concat_eq_append]
  · rintro ⟨a, b, rfl, hx, hcut, rfl, rfl⟩
    rw [append_cons, trail_append hcut, trail_concat hx, append_assoc, singleton_append]

theorem back_not_mem_trail : back ∉ trail back l := by
  intro hmem
  obtain ⟨s, t, hsplit⟩ := append_of_mem hmem
  obtain ⟨a, b, -, hne, -⟩ := trail_eq_iff.mp hsplit
  exact hne rfl

theorem trail_of_not_mem (h : back ∉ l) : trail back l = l := by
  induction l using List.reverseRecOn with
  | nil => rfl
  | append_singleton l c ih =>
    obtain ⟨hl, hc⟩ := not_or.mp (mt List.mem_append.mpr h)
    rw [trail_concat (fun heq => hc (by simp [heq])), ih hl]

theorem trail_append_foldl : trail back (l ++ m) = m.foldl (advance back) (trail back l) := foldl_append

/-! ## Named letters -/

section Named
variable {named : α → Bool}

def namedWalk (back : α) (named : α → Bool) (l : List α) : List α :=
  trail back (l.filter fun c => c = back || named c)

def AtRoot (back : α) (named : α → Bool) (l : List α) : Prop :=
  ∀ a x b, l = a ++ x :: b → named x = true → Cut back b

/-- A step back after `l` would take back a letter that is not named, while a named one is left. -/
def Misplaced (back : α) (named : α → Bool) (l : List α) : Prop :=
  ∃ a x b, l = a ++ x :: b ∧ x ≠ back ∧ named x = false ∧ ¬ Cut back b ∧
    b.length = 2 * b.count back ∧ ∃ c y d, a = c ++ y :: d ∧ named y = true ∧ ¬ Cut back d

/-- After a misplaced step back the root is come to. -/
def Recovers (back : α) (named : α → Bool) (l : List α) : Prop :=
  ∀ p q, l = p ++ back :: q → Misplaced back named p →
    ∃ q₁, q₁ <+: q ∧ AtRoot back named (p ++ back :: q₁)

theorem namedWalk_concat (hc : c ≠ back) : namedWalk back named (l ++ [c]) =
    namedWalk back named l ++ [c].filter named := by
  unfold namedWalk
  rw [filter_append]
  cases hnamed : named c with
  | false => simp [hc, hnamed]
  | true =>
    have hkeep : [c].filter (fun c => c = back || named c) = [c] := by simp [hnamed]
    rw [hkeep, trail_concat hc]
    simp [hnamed]

theorem namedWalk_concat_back :
    namedWalk back named (l ++ [back]) = (namedWalk back named l).dropLast := by
  have hkeep : [back].filter (fun c => c = back || named c) = [back] := by simp
  rw [namedWalk, filter_append, hkeep, trail_concat_back, namedWalk]

theorem recovers_concat (hroot : AtRoot back named (l ++ [c]) → AtRoot back named l)
    (hplace : c = back → ¬ Misplaced back named l) :
    Recovers back named (l ++ [c]) ↔ Recovers back named l := by
  constructor
  · intro h p q hl hmis
    obtain ⟨q₁, hprefix, hq₁⟩ := h p (q ++ [c]) (by rw [hl]; simp) hmis
    rcases prefix_concat_iff.mp hprefix with rfl | hin
    · have hl' : p ++ back :: (q ++ [c]) = l ++ [c] := by rw [hl]; simp
      rw [hl'] at hq₁
      exact ⟨q, prefix_refl q, hl ▸ hroot hq₁⟩
    · exact ⟨q₁, hin, hq₁⟩
  · intro h p q hl hmis
    rcases eq_nil_or_concat q with rfl | ⟨q', d, rfl⟩
    · obtain ⟨rfl, hc⟩ := append_inj' hl rfl
      exact absurd hmis (hplace (singleton_inj.mp hc))
    rw [concat_eq_append, ← cons_append, ← append_assoc] at hl
    obtain ⟨rfl, -⟩ := append_inj' hl rfl
    obtain ⟨q₁, hprefix, hq₁⟩ := h p q' rfl hmis
    exact ⟨q₁, hprefix.trans (by rw [concat_eq_append]; exact prefix_append _ _), hq₁⟩

variable (hback : named back = false)
include hback

theorem atRoot_iff : AtRoot back named l ↔ (trail back l).filter named = [] := by
  rw [filter_eq_nil_iff]
  constructor
  · intro h x hmem hx
    obtain ⟨s, t, hsplit⟩ := append_of_mem hmem
    obtain ⟨a, b, hl, -, hcut, -⟩ := trail_eq_iff.mp hsplit
    exact hcut (h a x b hl hx)
  · intro h a x b hl hx
    by_contra hcut
    have hne : x ≠ back := by
      rintro rfl
      rw [hback] at hx
      cases hx
    refine h x ?_ hx
    rw [trail_eq_iff.mpr ⟨a, b, hl, hne, hcut, rfl, rfl⟩]
    simp

theorem misplaced_iff : Misplaced back named l ↔
    ∃ s x, trail back l = s ++ [x] ∧ named x = false ∧ s.filter named ≠ [] := by
  constructor
  · rintro ⟨a, x, b, hl, hne, hx, hcut, hmany, c, y, d, ha, hy, hcut'⟩
    have hnil : trail back b = [] := by
      have hlength := length_trail hcut
      exact length_eq_zero_iff.mp (by omega)
    refine ⟨trail back a, x, trail_eq_iff.mpr ⟨a, b, hl, hne, hcut, rfl, hnil⟩, hx, ?_⟩
    intro hroot
    exact hcut' ((atRoot_iff hback).mpr hroot c y d ha hy)
  · rintro ⟨s, x, hwalk, hx, hs⟩
    obtain ⟨a, b, hl, hne, hcut, rfl, hnil⟩ := trail_eq_iff.mp hwalk
    have hlength := length_trail hcut
    rw [hnil, length_nil] at hlength
    refine ⟨a, x, b, hl, hne, hx, hcut, by omega, ?_⟩
    by_contra hno
    apply hs
    rw [← atRoot_iff hback]
    intro c y d ha hy
    by_contra hcut'
    exact hno ⟨c, y, d, ha, hy, hcut'⟩

/-- The walk loses no named letter that the one of the named letters keeps. -/
theorem namedWalk_sublist : namedWalk back named l <+ (trail back l).filter named := by
  induction l using List.reverseRecOn with
  | nil => exact Sublist.refl _
  | append_singleton l c ih =>
    by_cases hc : c = back
    · subst hc
      rw [namedWalk_concat_back, trail_concat_back]
      rcases eq_nil_or_concat (trail c l) with hnil | ⟨s, x, hs⟩
      · rw [hnil] at ih ⊢
        rw [sublist_nil.mp ih]
        exact Sublist.refl _
      rw [hs, concat_eq_append, filter_append] at ih
      rw [hs, concat_eq_append, dropLast_concat]
      cases hx : named x with
      | false =>
        rw [filter_cons_of_neg (by simp [hx]), filter_nil, append_nil] at ih
        exact (dropLast_sublist _).trans ih
      | true =>
        rw [filter_cons_of_pos hx, filter_nil] at ih
        have hdrop := (reverse_sublist.mpr ih).tail
        rwa [tail_reverse, tail_reverse, reverse_sublist, dropLast_concat] at hdrop
    · rw [namedWalk_concat hc, trail_concat hc, filter_append]
      exact ih.append (Sublist.refl _)

theorem AtRoot.namedWalk_eq (h : AtRoot back named l) : namedWalk back named l = [] := by
  have hsub := namedWalk_sublist hback (l := l)
  rw [(atRoot_iff hback).mp h] at hsub
  exact sublist_nil.mp hsub

/-- The two walks end alike just when every misplaced step back is followed by a return to the root. -/
theorem filter_trail_eq_iff : (trail back l).filter named = namedWalk back named l ↔
    Recovers back named l := by
  induction l using List.reverseRecOn with
  | nil => simp [trail, namedWalk, Recovers]
  | append_singleton l c ih =>
    by_cases hc : c = back
    · subst hc
      by_cases hroot : AtRoot c named (l ++ [c])
      · refine iff_of_true ?_ ?_
        · rw [(atRoot_iff hback).mp hroot, hroot.namedWalk_eq hback]
        · intro p q hl _
          exact ⟨q, prefix_refl q, hl ▸ hroot⟩
      have hnamed : ((trail c l).dropLast).filter named ≠ [] := by
        rw [← trail_concat_back]
        exact mt (atRoot_iff hback).mpr hroot
      have hsub := namedWalk_sublist hback (l := l)
      rcases eq_nil_or_concat (trail c l) with hnil | ⟨s, x, hs⟩
      · simp [hnil] at hnamed
      rw [concat_eq_append] at hs
      rw [trail_concat_back, namedWalk_concat_back, hs, dropLast_concat]
      rw [hs, dropLast_concat] at hnamed
      rw [hs, filter_append] at hsub
      have hpos := List.length_pos_iff.mpr hnamed
      cases hx : named x with
      | false =>
        -- the walk of the named letters goes back a named one, the other does not
        have hmis := (misplaced_iff hback).mpr ⟨s, x, hs, hx, hnamed⟩
        refine iff_of_false ?_ ?_
        · intro heq
          have hlength := congrArg length heq
          rw [filter_cons_of_neg (by simp [hx]), filter_nil, append_nil] at hsub
          have hle := hsub.length_le
          rw [length_dropLast] at hlength
          omega
        · intro h
          obtain ⟨q₁, hprefix, hq₁⟩ := h l [] rfl hmis
          rw [prefix_nil.mp hprefix] at hq₁
          exact hroot hq₁
      | true =>
        have hplace : ¬ Misplaced c named l := by
          rw [misplaced_iff hback]
          rintro ⟨s', x', hs', hx', -⟩
          obtain ⟨-, heq⟩ := append_inj' (hs.symm.trans hs') rfl
          rw [singleton_inj.mp heq, hx'] at hx
          cases hx
        rw [recovers_concat (fun h => absurd h hroot) fun _ => hplace, ← ih, hs, filter_append]
        rw [filter_cons_of_pos hx, filter_nil] at hsub ⊢
        constructor
        · intro heq
          have hlength := congrArg length heq
          rw [length_dropLast] at hlength
          refine (hsub.eq_of_length ?_).symm
          rw [length_append, length_singleton]
          omega
        · intro heq
          rw [← heq, dropLast_concat]
    · have hroot : AtRoot back named (l ++ [c]) → AtRoot back named l := by
        rw [atRoot_iff hback, atRoot_iff hback, trail_concat hc, filter_append]
        exact fun h => (append_eq_nil_iff.mp h).1
      rw [recovers_concat hroot fun heq => absurd heq hc, ← ih, trail_concat hc, namedWalk_concat hc,
        filter_append, append_left_inj]

theorem AtRoot.recovers (h : AtRoot back named l) : Recovers back named l := by
  rw [← filter_trail_eq_iff hback, (atRoot_iff hback).mp h, h.namedWalk_eq hback]

omit hback in
theorem namedWalk_of_not_mem (h : back ∉ l) : namedWalk back named l = l.filter named := by
  have hkeep : l.filter (fun c => c = back || named c) = l.filter named := by
    apply filter_congr
    intro c hc
    have hne : c ≠ back := fun heq => h (heq ▸ hc)
    simp [hne]
  rw [namedWalk, hkeep, trail_of_not_mem fun hmem => h (mem_of_mem_filter hmem)]

end Named

end Toolwhip.Lib.StepsBack
