import Mathlib.Data.List.Nodup

/-! # Numbers for what is made or seen -/

set_option autoImplicit false

/-! ## Things with numbers of their own

Each gets the next number when it is made, so that no two of them are the same. -/

namespace Toolwhip.Lib.FreshNumbers
open List

universe u
variable {α : Type u} {number : α → Nat}

structure Numbered (number : α → Nat) (next : Nat) (xs : List α) : Prop where
  below : ∀ x ∈ xs, number x < next
  distinct : (xs.map number).Nodup

theorem numbered_nil (number : α → Nat) : Numbered number 0 [] :=
  ⟨fun _ hx => absurd hx not_mem_nil, nodup_nil⟩

section Numbered
variable {next : Nat} {xs ys : List α} (h : Numbered number next xs)
include h

theorem Numbered.perm (hperm : ys.Perm xs) : Numbered number next ys := by
  constructor
  · intro y hy
    exact h.below y (hperm.mem_iff.mp hy)
  · exact (hperm.map number).nodup_iff.mpr h.distinct

theorem Numbered.add {x : α} (hx : number x = next) : Numbered number (next + 1) (x :: xs) := by
  constructor
  · rw [forall_mem_cons]
    refine ⟨by omega, ?_⟩
    intro y hy
    exact Nat.lt_succ_of_lt (h.below y hy)
  · rw [map_cons, nodup_cons]
    refine ⟨?_, h.distinct⟩
    intro hmem
    obtain ⟨y, hy, hsame⟩ := List.mem_map.mp hmem
    have := h.below y hy
    omega

theorem Numbered.nodup : xs.Nodup := List.Nodup.of_map number h.distinct

end Numbered
end Toolwhip.Lib.FreshNumbers

/-! ## Tables that number what they see

A value gets the next number when it is first seen and keeps it. Numbers start at one. -/

namespace Toolwhip.Lib.Interning
open List

universe u
variable {α : Type u}

structure Table (α : Type u) where
  seen : List α

namespace Table

def empty : Table α := ⟨[]⟩

def Length (t : Table α) : Nat := t.seen.length + 1

def get? (t : Table α) : Nat → Option α
  | 0 => none
  | n + 1 => t.seen[n]?

def intern [DecidableEq α] (t : Table α) (a : α) : Table α × Nat :=
  if a ∈ t.seen then (t, t.seen.idxOf a + 1) else (⟨t.seen ++ [a]⟩, t.seen.length + 1)

def Within (t t' : Table α) : Prop := ∀ n a, t.get? n = some a → t'.get? n = some a

variable {t t' t'' : Table α} {n : Nat} {a : α}

theorem Within.refl : Within t t := fun _ _ h => h

theorem Within.trans (h : Within t t') (h' : Within t' t'') : Within t t'' :=
  fun n a hget => h' n a (h n a hget)

theorem get?_isSome_iff : (∃ a, t.get? n = some a) ↔ 0 < n ∧ n < t.Length := by
  cases n with
  | zero => simp [get?]
  | succ n =>
    constructor
    · intro h
      obtain ⟨a, ha⟩ := h
      obtain ⟨hn, _⟩ := List.getElem?_eq_some_iff.mp ha
      exact ⟨Nat.succ_pos n, Nat.succ_lt_succ hn⟩
    · intro h
      exact ⟨_, getElem?_eq_getElem (Nat.lt_of_succ_lt_succ h.2)⟩

theorem pos_of_get? (h : t.get? n = some a) : 0 < n := (get?_isSome_iff.mp ⟨a, h⟩).1

theorem lt_of_get? (h : t.get? n = some a) : n < t.Length := (get?_isSome_iff.mp ⟨a, h⟩).2

variable [DecidableEq α]

theorem intern_within (t : Table α) (a : α) : Within t (t.intern a).1 := by
  intro n b h
  unfold intern
  split
  · exact h
  cases n with
  | zero => cases h
  | succ n =>
    obtain ⟨hn, _⟩ := List.getElem?_eq_some_iff.mp h
    exact (getElem?_append_left hn).trans h

theorem get?_intern (t : Table α) (a : α) : (t.intern a).1.get? (t.intern a).2 = some a := by
  unfold intern
  split
  · rename_i h
    exact getElem?_idxOf h
  · exact getElem?_concat_length

end Table
end Toolwhip.Lib.Interning

/-! ## Pools of interned items

Every item is stored once, as a run of units, behind those that were looked up before it. The
position of an item is the length of what precedes it; it stays when more items come. -/

namespace Toolwhip.Lib.InternedPool
open List

universe u v
variable {α : Type u} {β : Type v} [DecidableEq α]

section Interning
variable {items : List α}

def intern (items : List α) (a : α) : List α := if a ∈ items then items else items ++ [a]

def internAll (items l : List α) : List α := l.foldl intern items

theorem intern_of_mem {a : α} (h : a ∈ items) : intern items a = items := if_pos h

theorem intern_of_not_mem {a : α} (h : a ∉ items) : intern items a = items ++ [a] := if_neg h

theorem prefix_intern (items : List α) (a : α) : items <+: intern items a := by
  unfold intern
  split
  · exact prefix_refl _
  · exact prefix_append _ _

theorem prefix_internAll (items l : List α) : items <+: internAll items l := by
  induction l generalizing items with
  | nil => exact prefix_refl _
  | cons a l ih => exact (prefix_intern items a).trans (ih _)

theorem mem_intern_self (items : List α) (a : α) : a ∈ intern items a := by
  unfold intern
  split
  · assumption
  · simp

theorem mem_intern {a b : α} : b ∈ intern items a ↔ b ∈ items ∨ b = a := by
  unfold intern
  split
  · constructor
    · exact Or.inl
    · rintro (h | rfl) <;> assumption
  · simp

theorem mem_internAll {items l : List α} {b : α} : b ∈ internAll items l ↔ b ∈ items ∨ b ∈ l := by
  induction l generalizing items with
  | nil => simp [internAll]
  | cons a l ih =>
    have hstep : internAll items (a :: l) = internAll (intern items a) l := rfl
    rw [hstep, ih, mem_intern, mem_cons, or_assoc]

theorem nodup_intern (h : items.Nodup) (a : α) : (intern items a).Nodup := by
  unfold intern
  split
  · exact h
  rename_i hnot
  rw [nodup_append]
  refine ⟨h, nodup_singleton a, ?_⟩
  rintro b hb c hc rfl
  rw [mem_singleton] at hc
  exact hnot (hc ▸ hb)

theorem nodup_internAll (h : items.Nodup) (l : List α) : (internAll items l).Nodup := by
  induction l generalizing items with
  | nil => exact h
  | cons a l ih => exact ih (nodup_intern h a)

theorem internAll_append (items l m : List α) :
    internAll items (l ++ m) = internAll (internAll items l) m := foldl_append

end Interning

section Positions
variable (units : α → List β)
variable {items : List α} {a : α}

def content (items : List α) : List β := items.flatMap units

def position (items : List α) (a : α) : Nat :=
  (content units (items.takeWhile (· ≠ a))).length

variable {units}

omit [DecidableEq α] in
theorem content_append (items m : List α) :
    content units (items ++ m) = content units items ++ content units m := flatMap_append

theorem position_append {items m : List α} (h : a ∉ items) :
    position units (items ++ a :: m) a = (content units items).length := by
  unfold position
  rw [takeWhile_append_of_pos]
  · simp
  · intro b hb
    simp only [ne_eq, decide_not, Bool.not_eq_eq_eq_not, Bool.not_true, decide_eq_false_iff_not]
    rintro rfl
    exact h hb

theorem position_extends {items more : List α} (hpre : items <+: more) (h : a ∈ items) :
    position units more a = position units items a := by
  obtain ⟨l, m, rfl, hl⟩ := eq_append_cons_of_mem h
  obtain ⟨r, rfl⟩ := hpre
  rw [append_assoc, cons_append, position_append hl, position_append hl]

theorem units_at (h : a ∈ items) :
    units a <+: (content units items).drop (position units items a) := by
  obtain ⟨l, m, rfl, hl⟩ := eq_append_cons_of_mem h
  rw [position_append hl, content_append, drop_left]
  exact prefix_append _ _

theorem position_add_le (h : a ∈ items) :
    position units items a + (units a).length ≤ (content units items).length := by
  obtain ⟨l, m, rfl, hl⟩ := eq_append_cons_of_mem h
  have hcons : content units (a :: m) = units a ++ content units m := flatMap_cons
  rw [position_append hl, content_append, hcons, length_append, length_append]
  omega

theorem position_lt {a b : α} (hnd : (items ++ [b]).Nodup) (h : a ∈ items)
    {more : List α} (hpre : items ++ [b] <+: more) :
    position units more a + (units a).length ≤ position units more b := by
  have hb : b ∉ items := by
    intro hb
    exact (List.nodup_append.mp hnd).2.2 b hb b (mem_singleton_self b) rfl
  rw [position_extends hpre (mem_append_right _ (mem_singleton_self b)),
    position_extends ((prefix_append items [b]).trans hpre) h, position_append hb]
  exact position_add_le h

/-- Different items do not overlap. -/
theorem position_disjoint {a b : α} (hnd : items.Nodup) (ha : a ∈ items)
    (hb : b ∈ items) (hne : a ≠ b) :
    position units items a + (units a).length ≤ position units items b ∨
      position units items b + (units b).length ≤ position units items a := by
  obtain ⟨l, m, rfl, -⟩ := eq_append_cons_of_mem hb
  have hpre : ∀ c : α, ∀ p q : List α, p ++ [c] <+: p ++ c :: q := by
    intro c p q
    exact ⟨q, by simp⟩
  rcases List.mem_append.mp ha with ha | ha
  · left
    refine position_lt (hnd.sublist (List.IsPrefix.sublist (hpre b l m))) ha (hpre b l m)
  right
  rcases List.mem_cons.mp ha with rfl | ha
  · exact absurd rfl hne
  obtain ⟨p, q, rfl, -⟩ := eq_append_cons_of_mem ha
  have hsplit : l ++ b :: (p ++ a :: q) = (l ++ b :: p) ++ a :: q := by simp
  rw [hsplit] at hnd ⊢
  exact position_lt (hnd.sublist (List.IsPrefix.sublist (hpre a _ q))) (by simp) (hpre a _ q)

omit [DecidableEq α] in
theorem content_dvd {d : Nat} (hd : ∀ a : α, d ∣ (units a).length) (items : List α) :
    d ∣ (content units items).length := by
  induction items with
  | nil => exact Nat.dvd_zero d
  | cons a items ih =>
    have hcons : content units (a :: items) = units a ++ content units items := flatMap_cons
    rw [hcons, length_append]
    exact Nat.dvd_add (hd a) ih

theorem position_dvd {d : Nat} (hd : ∀ a : α, d ∣ (units a).length) (items : List α) (a : α) :
    d ∣ position units items a := content_dvd hd _

omit [DecidableEq α] in
theorem length_content_le {l m : List α} (h : l.Sublist m) :
    (content units l).length ≤ (content units m).length := by
  induction h with
  | slnil => exact Nat.le_refl _
  | @cons l m a _ ih =>
    have hcons : content units (a :: m) = units a ++ content units m := flatMap_cons
    rw [hcons, length_append]
    omega
  | @cons_cons l m a _ ih =>
    have hl : content units (a :: l) = units a ++ content units l := flatMap_cons
    have hm : content units (a :: m) = units a ++ content units m := flatMap_cons
    rw [hl, hm, length_append, length_append]
    omega

/-- Along a run the items appear in the order in which they were first looked up. -/
theorem position_order {l m : List α} {a b : α} (ha : a ∈ l) (hb : b ∉ l) (hbm : b ∈ m) :
    position units (internAll [] (l ++ m)) a + (units a).length ≤
      position units (internAll [] (l ++ m)) b := by
  obtain ⟨p, q, rfl, hp⟩ := eq_append_cons_of_mem hbm
  have hsplit : l ++ (p ++ b :: q) = (l ++ p) ++ b :: q := by simp
  have hlp : b ∉ l ++ p := by
    intro hmem
    rcases List.mem_append.mp hmem with hmem | hmem
    · exact hb hmem
    · exact hp hmem
  have hnot : b ∉ internAll [] (l ++ p) := by
    intro hmem
    rcases mem_internAll.mp hmem with hmem | hmem
    · cases hmem
    · exact hlp hmem
  have hmem : a ∈ internAll [] (l ++ p) :=
    mem_internAll.mpr (Or.inr (mem_append_left p ha))
  have hstep : internAll [] (l ++ p ++ b :: q) =
      internAll (internAll [] (l ++ p) ++ [b]) q := by
    rw [internAll_append, ← intern_of_not_mem hnot]
    rfl
  have hnd : (internAll [] (l ++ p) ++ [b]).Nodup := by
    rw [← intern_of_not_mem hnot]
    exact nodup_intern (nodup_internAll nodup_nil _) b
  rw [hsplit, hstep]
  exact position_lt hnd hmem (prefix_internAll _ q)

end Positions
end Toolwhip.Lib.InternedPool
