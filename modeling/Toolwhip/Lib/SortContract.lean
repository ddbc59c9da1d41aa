import Mathlib.Data.List.Sort

/-! # What a comparison sort promises

A sort called with a strict weak order returns a rearrangement in which nothing
is less than what stands before it. The order is given by a key. -/

set_option autoImplicit false

namespace Toolwhip.Lib.SortContract
open List

universe u v
variable {α : Type u} {κ : Type v} [LinearOrder κ]

/-- The contract of `std::sort`. -/
structure Sorted (lt : α → α → Bool) (input output : List α) : Prop where
  perm : output.Perm input
  pairwise : output.Pairwise fun a b => lt b a = false

def ComparesKey (lt : α → α → Bool) (key : α → κ) : Prop :=
  ∀ a b, lt a b = true ↔ key a < key b

/-- What `std::sort` needs of the comparison of what it sorts. -/
structure StrictWeakOn (lt : α → α → Bool) (present : List α) : Prop where
  irreflexive : ∀ a ∈ present, lt a a = false
  transitive : ∀ a ∈ present, ∀ b ∈ present, ∀ c ∈ present,
    lt a b = true → lt b c = true → lt a c = true
  incomparable : ∀ a ∈ present, ∀ b ∈ present, ∀ c ∈ present,
    lt a b = false → lt b a = false → lt b c = false → lt c b = false →
      lt a c = false ∧ lt c a = false

variable {lt : α → α → Bool} {key : α → κ} {input output : List α}

theorem ComparesKey.strictWeakOn (h : ComparesKey lt key) (present : List α) :
    StrictWeakOn lt present := by
  have hnot : ∀ a b, lt a b = false ↔ key b ≤ key a := by
    intro a b
    rw [← Bool.not_eq_true, h a b, not_lt]
  constructor
  · intro a _
    exact (hnot a a).mpr le_rfl
  · intro a _ b _ c _ hab hbc
    rw [h] at hab hbc ⊢
    exact hab.trans hbc
  · intro a _ b _ c _ hab hba hbc hcb
    rw [hnot] at hab hba hbc hcb
    rw [hnot, hnot]
    exact ⟨hbc.trans hab, hba.trans hcb⟩

theorem sorted_mergeSort (h : ComparesKey lt key) (input : List α) :
    Sorted lt input (input.mergeSort fun a b => !lt b a) := by
  refine ⟨mergeSort_perm _ _, ?_⟩
  have hle : ∀ a b, (!lt b a) = true ↔ key a ≤ key b := by
    intro a b
    rw [Bool.not_eq_true', ← Bool.not_eq_true, h b a, not_lt]
  refine (pairwise_mergeSort ?_ ?_ input).imp ?_
  · intro a b c hab hbc
    rw [hle] at hab hbc ⊢
    exact hab.trans hbc
  · intro a b
    rw [Bool.or_eq_true, hle, hle]
    exact le_total _ _
  · intro a b hab
    simpa using hab

theorem exists_sorted (h : ComparesKey lt key) (input : List α) :
    ∃ output, Sorted lt input output :=
  ⟨_, sorted_mergeSort h input⟩

theorem Sorted.pairwise_key (hs : Sorted lt input output) (h : ComparesKey lt key) :
    output.Pairwise fun a b => key a ≤ key b := by
  refine hs.pairwise.imp ?_
  intro a b hab
  rw [← not_lt, ← h b a, hab]
  exact Bool.false_ne_true

theorem Sorted.pairwise_lt (hs : Sorted lt input output) (h : ComparesKey lt key)
    (hnd : input.Nodup) (hinj : ∀ a ∈ input, ∀ b ∈ input, key a = key b → a = b) :
    output.Pairwise fun a b => key a < key b := by
  have hnd' : output.Pairwise (· ≠ ·) := hs.perm.nodup_iff.mpr hnd
  refine ((hs.pairwise_key h).and hnd').imp_of_mem ?_
  intro a b ha hb hab
  refine lt_of_le_of_ne hab.1 fun hkey => hab.2 ?_
  exact hinj a (hs.perm.mem_iff.mp ha) b (hs.perm.mem_iff.mp hb) hkey

variable {l : List α} {a b : α}

theorem rel_of_key_lt {R : α → α → Prop} (hl : l.Pairwise fun a b => key a < key b)
    (hR : l.Pairwise R) (ha : a ∈ l) (hb : b ∈ l) (hab : key a < key b) : R a b := by
  induction l with
  | nil => cases ha
  | cons x l ih =>
    rw [pairwise_cons] at hl hR
    rcases List.mem_cons.mp ha with rfl | ha' <;> rcases List.mem_cons.mp hb with rfl | hb'
    · exact absurd hab (lt_irrefl _)
    · exact hR.1 b hb'
    · exact absurd (hab.trans (hl.1 a ha')) (lt_irrefl _)
    · exact ih hl.2 hR.2 ha' hb'

theorem idxOf_lt_iff [DecidableEq α] (hl : l.Pairwise fun a b => key a < key b) (ha : a ∈ l)
    (hb : b ∈ l) : l.idxOf a < l.idxOf b ↔ key a < key b := by
  have hmono : ∀ {c d : α}, c ∈ l → d ∈ l → l.idxOf c < l.idxOf d → key c < key d := by
    intro c d hc hd hlt
    have hpair := List.pairwise_iff_getElem.mp hl _ _ (idxOf_lt_length_of_mem hc)
      (idxOf_lt_length_of_mem hd) hlt
    rwa [getElem_idxOf, getElem_idxOf] at hpair
  constructor
  · exact hmono ha hb
  · intro hab
    by_contra hnot
    rcases Nat.lt_or_eq_of_le (Nat.le_of_not_lt hnot) with hba | heq
    · exact absurd (hmono hb ha hba) (lt_asymm hab)
    rw [idxOf_inj hb] at heq
    rw [heq] at hab
    exact lt_irrefl _ hab

theorem eq_of_strict {m : List α} (hl : l.Pairwise fun a b => key a < key b)
    (hm : m.Pairwise fun a b => key a < key b) (hmem : ∀ a, a ∈ l ↔ a ∈ m) : l = m := by
  have hne : ∀ {l : List α}, l.Pairwise (fun a b => key a < key b) → l.Nodup := by
    intro l h
    refine h.imp (S := (· ≠ ·)) ?_
    rintro a b hab rfl
    exact lt_irrefl _ hab
  refine List.Perm.eq_of_pairwise ?_ hl hm ?_
  · intro a b _ _ hab hba
    exact absurd (hab.trans hba) (lt_irrefl _)
  · exact (perm_ext_iff_of_nodup (hne hl) (hne hm)).mpr hmem

/-- What is convex in the order of a list is a contiguous part of it. -/
theorem filter_infix_of_convex {p : α → Bool}
    (h : ∀ l₁ a l₂ b l₃ c l₄, l = l₁ ++ a :: l₂ ++ b :: l₃ ++ c :: l₄ →
      p a = true → p c = true → p b = true) : l.filter p <:+: l := by
  induction l with
  | nil => exact infix_refl []
  | cons x l ih =>
    by_cases hx : p x = true
    · have htake : (x :: l).filter p = (x :: l).takeWhile p := by
        rw [filter_cons_of_pos hx, takeWhile_cons_of_pos hx]
        congr 1
        have hpre : ∀ l₁ b l₂, l = l₁ ++ b :: l₂ → (∃ c ∈ l₂, p c = true) → p b = true := by
          rintro l₁ b l₂ rfl ⟨c, hc, hpc⟩
          obtain ⟨l₃, l₄, rfl⟩ := append_of_mem hc
          exact h [] x l₁ b l₃ c l₄ (by simp) hx hpc
        clear h ih
        induction l with
        | nil => rfl
        | cons y l ih =>
          by_cases hy : p y = true
          · rw [filter_cons_of_pos hy, takeWhile_cons_of_pos hy, ih]
            intro l₁ b l₂ hl hc
            exact hpre (y :: l₁) b l₂ (by rw [hl]; rfl) hc
          · rw [filter_cons_of_neg hy, takeWhile_cons_of_neg hy, filter_eq_nil_iff]
            intro c hc hpc
            exact hy (hpre [] y l rfl ⟨c, hc, hpc⟩)
      rw [htake]
      have hstart := takeWhile_prefix (l := x :: l) p
      exact hstart.isInfix
    · rw [filter_cons_of_neg hx]
      refine (ih ?_).trans (suffix_cons x l).isInfix
      intro l₁ a l₂ b l₃ c l₄ hl
      exact h (x :: l₁) a l₂ b l₃ c l₄ (by rw [hl]; simp)

/-- Two elements with the same key may stand either way round. -/
theorem Sorted.swap (h : ComparesKey lt key) {l₁ l₂ l₃ : List α} (hab : key a = key b)
    (hs : Sorted lt input (l₁ ++ a :: (l₂ ++ b :: l₃))) :
    Sorted lt input (l₁ ++ b :: (l₂ ++ a :: l₃)) := by
  constructor
  · refine List.Perm.trans ?_ hs.perm
    apply List.Perm.append_left
    calc (b :: (l₂ ++ a :: l₃)).Perm (b :: a :: (l₂ ++ l₃)) := List.Perm.cons b perm_middle
      _ |>.Perm (a :: b :: (l₂ ++ l₃)) := List.Perm.swap a b _
      _ |>.Perm (a :: (l₂ ++ b :: l₃)) := List.Perm.cons a List.perm_middle.symm
  · have hkeys := hs.pairwise_key h
    have hle : ((l₁ ++ b :: (l₂ ++ a :: l₃)).map key).Pairwise (· ≤ ·) := by
      simpa only [map_append, map_cons, ← hab] using
        (pairwise_map (f := key) (R := (· ≤ ·))).mpr hkeys
    refine (List.pairwise_map.mp hle).imp ?_
    intro x y hxy
    rw [← Bool.not_eq_true, h y x, not_lt]
    exact hxy

/-- A strictly increasing list whose members are less than all others comes first. -/
theorem Sorted.starts_with {m output : List α} (h : ComparesKey lt key)
    (hs : Sorted lt (l ++ m) output) (hl : l.Pairwise fun a b => key a < key b)
    (hlm : ∀ a ∈ l, ∀ b ∈ m, key a < key b) : l <+: output := by
  induction l generalizing output with
  | nil => exact nil_prefix
  | cons x l ih =>
    obtain ⟨hx, hl⟩ := List.pairwise_cons.mp hl
    cases output with
    | nil => exact absurd hs.perm.length_eq (by simp)
    | cons z output =>
      have hkeys := List.pairwise_cons.mp (hs.pairwise_key h)
      have hz : z ∈ x :: (l ++ m) := hs.perm.mem_iff.mp mem_cons_self
      have hzx : z = x := by
        rcases List.mem_cons.mp hz with hzx | hz
        · exact hzx
        have hless : key x < key z := by
          rcases List.mem_append.mp hz with hz | hz
          · exact hx z hz
          · exact hlm x mem_cons_self z hz
        have hmem : x ∈ z :: output := hs.perm.mem_iff.mpr mem_cons_self
        rcases List.mem_cons.mp hmem with hxz | hmem
        · exact hxz.symm
        · exact absurd (hkeys.1 x hmem) (not_le.mpr hless)
      subst z
      have hrest : Sorted lt (l ++ m) output :=
        ⟨List.Perm.cons_inv hs.perm, (List.pairwise_cons.mp hs.pairwise).2⟩
      rw [cons_prefix_cons]
      exact ⟨rfl, ih hrest hl fun a ha => hlm a (mem_cons_of_mem x ha)⟩

/-- Where every result starts with a list, nothing else could have stood in it. -/
theorem strict_of_starts_with (h : ComparesKey lt key) {l₁ l m : List α} (hnd : l.Nodup)
    (hdisj : ∀ a ∈ l, a ∉ m)
    (hall : ∀ output, Sorted lt (l₁ ++ l ++ m) output → l₁ ++ l <+: output) :
    l.Pairwise (fun a b => key a < key b) ∧ ∀ a ∈ l, ∀ b ∈ m, key a < key b := by
  induction l generalizing l₁ with
  | nil => exact ⟨List.Pairwise.nil, nofun⟩
  | cons x l ih =>
    obtain ⟨hx, hnd⟩ := List.nodup_cons.mp hnd
    obtain ⟨output, hs⟩ := exists_sorted h (l₁ ++ x :: l ++ m)
    obtain ⟨r, rfl⟩ := hall output hs
    have hr : r.Perm m := (perm_append_left_iff _).mp hs.perm
    have hless : ∀ y ∈ l ++ m, key x < key y := by
      intro y hy
      have hyr : y ∈ l ++ r := ((hr.append_left l).mem_iff).mpr hy
      obtain ⟨q, t, hsplit⟩ := append_of_mem hyr
      have hout : l₁ ++ x :: l ++ r = l₁ ++ x :: (q ++ y :: t) := by
        rw [← hsplit]
        simp
      rw [hout] at hs
      have hkeys := (List.pairwise_append.mp (hs.pairwise_key h)).2.1
      have hle : key x ≤ key y := (List.pairwise_cons.mp hkeys).1 y (by simp)
      refine lt_of_le_of_ne hle ?_
      intro heq
      obtain ⟨t', ht'⟩ := hall _ (hs.swap h heq)
      have hxy : x = y := by
        have htail : x :: l ++ t' = y :: (q ++ x :: t) := by
          have hcancel : l₁ ++ (x :: l ++ t') = l₁ ++ (y :: (q ++ x :: t)) := by
            rw [← append_assoc]
            exact ht'
          exact append_cancel_left hcancel
        exact (List.cons.inj htail).1
      subst y
      rcases List.mem_append.mp hy with hy | hy
      · exact hx hy
      · exact hdisj x mem_cons_self hy
    have hrest := @ih (l₁ ++ [x]) hnd (fun a ha => hdisj a (mem_cons_of_mem x ha)) (by
      simpa using hall)
    refine ⟨List.pairwise_cons.mpr ⟨?_, hrest.1⟩, ?_⟩
    · intro y hy
      exact hless y (mem_append_left m hy)
    · intro a ha b hb
      rcases List.mem_cons.mp ha with rfl | ha
      · exact hless b (mem_append_right l hb)
      · exact hrest.2 a ha b hb

end Toolwhip.Lib.SortContract

/-! ## Ranks in lists

The position of a member of a sorted list is the number of members before it. -/

namespace Toolwhip.Lib.Ranks
open SortContract List

universe u v
variable {α : Type u} {κ : Type v} [LinearOrder κ]

/-- Looking up positions `0 .. l.length - 1` in turn is going through the list. -/
theorem filterMap_range {β : Type v} {f : Nat → Option β} {g : α → Option β} {l : List α}
    (h : ∀ i a, l[i]? = some a → f i = g a) :
    (List.range l.length).filterMap f = l.filterMap g := by
  induction l generalizing f with
  | nil => rfl
  | cons a l ih =>
    have htail := ih (f := fun i => f (i + 1)) fun i b hi => h (i + 1) b hi
    have hzero := h 0 a rfl
    rw [length_cons, range_succ_eq_map, filterMap_cons, filterMap_cons,
      filterMap_map, hzero]
    cases g a with
    | none => exact htail
    | some b => exact congrArg (b :: ·) htail

theorem countP_lt_of_imp {p q : α → Bool} {l : List α} (h : ∀ a ∈ l, p a = true → q a = true)
    {b : α} (hb : b ∈ l) (hp : p b = false) (hq : q b = true) : l.countP p < l.countP q := by
  obtain ⟨l₁, l₂, rfl⟩ := append_of_mem hb
  have h₁ : l₁.countP p ≤ l₁.countP q :=
    countP_mono_left fun a ha => h a (mem_append_left _ ha)
  have h₂ : l₂.countP p ≤ l₂.countP q :=
    countP_mono_left fun a ha => h a (mem_append_right _ (mem_cons_of_mem _ ha))
  rw [countP_append, countP_append, countP_cons, countP_cons, hp, hq]
  simp only [Bool.false_eq_true, if_false, if_true]
  omega

theorem eq_of_pairwise {R : α → α → Prop} {l : List α} (h : l.Pairwise R) {a b : α} (ha : a ∈ l)
    (hb : b ∈ l) (hab : ¬ R a b) (hba : ¬ R b a) : a = b := by
  obtain ⟨l₁, l₂, rfl⟩ := append_of_mem ha
  obtain ⟨-, hcons, hbefore⟩ := List.pairwise_append.mp h
  rcases List.mem_append.mp hb with hb | hb
  · exact absurd (hbefore b hb a mem_cons_self) hba
  rcases List.mem_cons.mp hb with hb | hb
  · exact hb.symm
  · exact absurd (rel_of_pairwise_cons hcons hb) hab

/-- Where the keys of the others differ from its own, a member of a sorted
arrangement stands behind those with a smaller key. -/
theorem index_eq_countP {lt : α → α → Bool} {key : α → κ} {input output : List α}
    (hs : Sorted lt input output) (hlt : ComparesKey lt key) (hnd : input.Nodup) {n : Nat} {c : α}
    (hn : output[n]? = some c) (hdiff : ∀ d ∈ input, key d = key c → d = c) :
    n = input.countP fun d => key d < key c := by
  obtain ⟨hlen, hget⟩ := List.getElem?_eq_some_iff.mp hn
  have hsplit : output = output.take n ++ c :: output.drop (n + 1) := by
    rw [← hget, getElem_cons_drop, take_append_drop]
  have hpair := hs.pairwise_key hlt
  have hnodup : output.Nodup := hs.perm.nodup_iff.mpr hnd
  rw [hsplit] at hpair hnodup
  rw [← hs.perm.countP_eq, hsplit, countP_append, countP_cons]
  have hbefore : (output.take n).countP (fun d => decide (key d < key c)) = n := by
    have hall : ∀ d ∈ output.take n, decide (key d < key c) = true := by
      intro d hd
      rw [decide_eq_true_iff]
      refine lt_of_le_of_ne ((List.pairwise_append.mp hpair).2.2 d hd c mem_cons_self) ?_
      intro hkey
      have hdc := hdiff d (hs.perm.mem_iff.mp (mem_of_mem_take hd)) hkey
      exact (List.nodup_append.mp hnodup).2.2 d hd c mem_cons_self hdc
    rw [List.countP_eq_length.mpr hall, length_take]
    omega
  have hafter : (output.drop (n + 1)).countP (fun d => decide (key d < key c)) = 0 := by
    rw [countP_eq_zero]
    intro d hd
    rw [decide_eq_true_iff, not_lt]
    exact rel_of_pairwise_cons (List.pairwise_append.mp hpair).2.1 hd
  rw [hbefore, hafter, decide_eq_false (lt_irrefl _)]
  rfl

end Toolwhip.Lib.Ranks

namespace Toolwhip.Lib.Occurrences
open List

universe u
variable {α : Type u} [DecidableEq α]

/-- The index of the last occurrence of `a`, for a member `a` of `l`. -/
def lastIdxOf (a : α) (l : List α) : Nat := l.length - 1 - l.reverse.idxOf a

@[simp] theorem lastIdxOf_concat_self (a : α) (l : List α) : lastIdxOf a (l ++ [a]) = l.length := by
  simp [lastIdxOf]

variable {a : α} {l : List α}

theorem lastIdxOf_concat_ne {x : α} (hne : x ≠ a) : lastIdxOf a (l ++ [x]) = lastIdxOf a l := by
  unfold lastIdxOf
  rw [reverse_concat, idxOf_cons_ne _ hne]
  simp only [length_append, length_cons, length_nil]
  omega

theorem lastIdxOf_lt (ha : a ∈ l) : lastIdxOf a l < l.length := by
  have := length_pos_of_mem ha
  unfold lastIdxOf
  omega

theorem lastIdxOf_inj {b : α} (ha : a ∈ l) (hb : b ∈ l)
    (h : lastIdxOf a l = lastIdxOf b l) : a = b := by
  have ha' := idxOf_lt_length_of_mem (List.mem_reverse.mpr ha)
  have hb' := idxOf_lt_length_of_mem (List.mem_reverse.mpr hb)
  rw [length_reverse] at ha' hb'
  unfold lastIdxOf at h
  exact (idxOf_inj (List.mem_reverse.mpr ha)).mp (by omega)

end Toolwhip.Lib.Occurrences
