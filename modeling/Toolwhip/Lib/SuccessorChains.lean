import Mathlib.Data.List.Nodup
import Mathlib.Data.List.Pairwise

/-! # Disjoint chains held in a start map and a successor map

A family of disjoint, null-terminated lists is stored as two maps: each member
knows the first member of its list and the member after it. The lemmas say
which changes of the maps are changes of the family. -/

namespace Toolwhip.Lib.SuccessorChains
open Function List
set_option autoImplicit false

universe u
variable {α : Type u} {next next' start start' : α → Option α}

/-- The successors along `l`, where the last member's successor is `e`. -/
def Linked (next : α → Option α) (e : Option α) : List α → Prop
  | [] => True
  | a :: l => next a = l.head?.or e ∧ Linked next e l

@[simp] theorem linked_nil (e : Option α) : Linked next e [] := trivial

variable {e : Option α} {l : List α}

theorem linked_cons {a : α} :
    Linked next e (a :: l) ↔ next a = l.head?.or e ∧ Linked next e l := Iff.rfl

theorem linked_append {m : List α} :
    Linked next e (l ++ m) ↔ Linked next (m.head?.or e) l ∧ Linked next e m := by
  induction l with
  | nil => simp
  | cons a l ih =>
    rw [cons_append, linked_cons, linked_cons, ih, and_assoc]
    cases l <;> simp

theorem Linked.congr (h : Linked next e l)
    (hsame : ∀ a ∈ l, next' a = next a) : Linked next' e l := by
  induction l with
  | nil => trivial
  | cons a l ih =>
    refine ⟨(hsame a mem_cons_self).trans h.1, ih h.2 ?_⟩
    intro b hb
    exact hsame b (mem_cons_of_mem a hb)

theorem Linked.mem_next (h : Linked next none l) {a b : α} (ha : a ∈ l)
    (hb : next a = some b) : b ∈ l := by
  induction l with
  | nil => cases ha
  | cons x l ih =>
    rcases List.mem_cons.mp ha with rfl | ha
    · rw [h.1, Option.or_none] at hb
      exact mem_cons_of_mem a (mem_of_mem_head? hb)
    · exact mem_cons_of_mem x (ih h.2 ha)

theorem exists_split_of_ne_head {a : α} (ha : a ∈ l) (hne : l.head? ≠ some a) :
    ∃ l₁ p l₂, l = l₁ ++ p :: a :: l₂ := by
  obtain ⟨m, n, rfl⟩ := append_of_mem ha
  rcases eq_nil_or_concat m with rfl | ⟨m', p, rfl⟩
  · exact absurd rfl hne
  · exact ⟨m', p, n, by simp⟩

theorem Linked.next_of_split {e : Option α} {l₁ l₂ : List α} {p a : α}
    (h : Linked next e (l₁ ++ p :: a :: l₂)) : next p = some a :=
  (linked_append.mp h).2.1

theorem Linked.head_ne (h : Linked next none l) (hnd : l.Nodup) {p a : α}
    (hp : p ∈ l) (hpa : next p = some a) : l.head? ≠ some a := by
  intro hhead
  obtain ⟨m, n, rfl⟩ := append_of_mem hp
  have hn : n.head? = some a := by
    have hlink := (linked_append.mp h).2.1
    rw [Option.or_none] at hlink
    exact hlink.symm.trans hpa
  have ham : a ∈ m ++ [p] := by
    cases m with
    | nil =>
      cases hhead
      exact mem_cons_self
    | cons z m =>
      cases hhead
      exact mem_cons_self
  rw [show m ++ p :: n = (m ++ [p]) ++ n by simp] at hnd
  exact (disjoint_of_nodup_append hnd) ham (mem_of_mem_head? hn)

theorem Linked.next_injective (h : Linked next none l) (hnd : l.Nodup) {p q a : α}
    (hp : p ∈ l) (hq : q ∈ l) (hpa : next p = some a) (hqa : next q = some a) : p = q := by
  induction l with
  | nil => cases hp
  | cons x l ih =>
    have hhead : next x = l.head? := by rw [h.1, Option.or_none]
    have htail := (List.nodup_cons.mp hnd).2
    rcases List.mem_cons.mp hp with rfl | hp' <;> rcases List.mem_cons.mp hq with rfl | hq'
    · rfl
    · exact absurd (hhead.symm.trans hpa) (h.2.head_ne htail hq' hqa)
    · exact absurd (hhead.symm.trans hqa) (h.2.head_ne htail hp' hpa)
    · exact ih h.2 htail hp' hq'

/-- The two maps store exactly the chains `cs`. -/
structure Represents (cs : List (List α)) (start next : α → Option α) : Prop where
  nodup : cs.flatten.Nodup
  two_le : ∀ l ∈ cs, 2 ≤ l.length
  start_eq : ∀ l ∈ cs, ∀ a ∈ l, start a = l.head?
  linked : ∀ l ∈ cs, Linked next none l
  outside : ∀ a, a ∉ cs.flatten → start a = none ∧ next a = none

namespace Represents

variable {cs : List (List α)}

theorem nil : Represents [] (fun _ : α => none) (fun _ => none) where
  nodup := nodup_nil
  two_le := by simp
  start_eq := by simp
  linked := by simp
  outside _ _ := ⟨rfl, rfl⟩

section
variable (h : Represents cs start next)
include h

theorem mem_of_start {a s : α} (ha : start a = some s) : ∃ l ∈ cs, a ∈ l ∧ l.head? = some s := by
  by_cases hmem : a ∈ cs.flatten
  · obtain ⟨l, hl, hal⟩ := List.mem_flatten.mp hmem
    exact ⟨l, hl, hal, (h.start_eq l hl a hal).symm.trans ha⟩
  · rw [(h.outside a hmem).1] at ha
    cases ha

theorem not_mem_of_start_none {a : α} (ha : start a = none) : a ∉ cs.flatten := by
  intro hmem
  obtain ⟨l, hl, hal⟩ := List.mem_flatten.mp hmem
  have hlen := h.two_le l hl
  rw [h.start_eq l hl a hal, head?_eq_none_iff] at ha
  subst l
  simp at hlen

theorem next_none_of_start_none {a : α} (ha : start a = none) : next a = none :=
  (h.outside a (h.not_mem_of_start_none ha)).2

variable {l : List α}

theorem nodup_of_mem (hl : l ∈ cs) : l.Nodup :=
  (List.nodup_flatten.mp h.nodup).1 l hl

theorem mem_of_next {a b : α} (hb : next a = some b) : ∃ l ∈ cs, a ∈ l ∧ b ∈ l := by
  by_cases hmem : a ∈ cs.flatten
  · obtain ⟨l, hl, hal⟩ := List.mem_flatten.mp hmem
    exact ⟨l, hl, hal, (h.linked l hl).mem_next hal hb⟩
  · rw [(h.outside a hmem).2] at hb
    cases hb

theorem eq_of_mem {m : List α} (hl : l ∈ cs) (hm : m ∈ cs)
    {a : α} (hal : a ∈ l) (ham : a ∈ m) : l = m := by
  by_contra hne
  have : Std.Symm (@List.Disjoint α) := ⟨fun _ _ hd _ h₁ h₂ => hd h₂ h₁⟩
  exact (List.nodup_flatten.mp h.nodup).2.forall hl hm hne hal ham

theorem next_injective {p q a : α} (hp : next p = some a) (hq : next q = some a) : p = q := by
  obtain ⟨l, hl, hpl, hal⟩ := h.mem_of_next hp
  obtain ⟨m, hm, hqm, ham⟩ := h.mem_of_next hq
  obtain rfl := h.eq_of_mem hl hm hal ham
  exact (h.linked l hl).next_injective (h.nodup_of_mem hl) hpl hqm hp hq

theorem next_ne_of_start_self {p a : α} (ha : start a = some a) : next p ≠ some a := by
  intro hp
  obtain ⟨l, hl, hpl, hal⟩ := h.mem_of_next hp
  exact (h.linked l hl).head_ne (h.nodup_of_mem hl) hpl hp ((h.start_eq l hl a hal).symm.trans ha)

theorem next_ne_self {a : α} : next a ≠ some a := by
  intro ha
  obtain ⟨l, hl, hal, -⟩ := h.mem_of_next ha
  obtain ⟨m, n, rfl⟩ := append_of_mem hal
  have hlink := (linked_append.mp (h.linked _ hl)).2
  have hnd := (List.nodup_append.mp (h.nodup_of_mem hl)).2.1
  have hhead := hlink.1
  rw [Option.or_none] at hhead
  exact (List.nodup_cons.mp hnd).1 (mem_of_mem_head? (hhead.symm.trans ha))

theorem exists_prev_of_ne_start {a s : α} (ha : start a = some s)
    (hne : a ≠ s) : ∃ q, next q = some a := by
  obtain ⟨l, hl, hal, hhead⟩ := h.mem_of_start ha
  obtain ⟨l₁, p, l₂, rfl⟩ := exists_split_of_ne_head hal fun hla =>
    hne (Option.some.inj (hla.symm.trans hhead))
  exact ⟨p, (h.linked _ hl).next_of_split⟩

theorem exists_prev {a s : α} (ha : start a = some s)
    (hn : next a = none) : ∃ q, next q = some a ∧ q ≠ a := by
  have hne : a ≠ s := by
    rintro rfl
    obtain ⟨l, hl, hal, hhead⟩ := h.mem_of_start ha
    have hlen := h.two_le l hl
    have hlink := h.linked l hl
    match l, hhead with
    | [_], _ => simp at hlen
    | x :: y :: l', hhead =>
      obtain rfl : x = a := Option.some.inj hhead
      rw [linked_cons, hn] at hlink
      cases hlink.1
  obtain ⟨q, hq⟩ := h.exists_prev_of_ne_start ha hne
  exact ⟨q, hq, fun hqa => h.next_ne_self (hqa ▸ hq)⟩

theorem add (hnd : l.Nodup) (hlen : 2 ≤ l.length)
    (hnew : ∀ a ∈ l, start a = none) (hs : ∀ a ∈ l, start' a = l.head?)
    (hl : Linked next' none l) (hsame : ∀ a, a ∉ l → start' a = start a ∧ next' a = next a) :
    Represents (l :: cs) start' next' := by
  have hout : ∀ a ∈ l, a ∉ cs.flatten := fun a ha => h.not_mem_of_start_none (hnew a ha)
  have hin : ∀ m ∈ cs, ∀ a ∈ m, a ∉ l := by
    intro m hm a ha hal
    exact hout a hal (List.mem_flatten.mpr ⟨m, hm, ha⟩)
  constructor
  · rw [flatten_cons, nodup_append]
    refine ⟨hnd, h.nodup, ?_⟩
    intro a ha b hb hab
    exact hout a ha (hab ▸ hb)
  · intro m hm
    rcases List.mem_cons.mp hm with rfl | hm
    · exact hlen
    · exact h.two_le m hm
  · intro m hm a ha
    rcases List.mem_cons.mp hm with rfl | hm
    · exact hs a ha
    rw [(hsame a (hin m hm a ha)).1]
    exact h.start_eq m hm a ha
  · intro m hm
    rcases List.mem_cons.mp hm with rfl | hm
    · exact hl
    · exact (h.linked m hm).congr fun a ha => (hsame a (hin m hm a ha)).2
  · intro a ha
    rw [flatten_cons, mem_append, not_or] at ha
    rw [(hsame a ha.1).1, (hsame a ha.1).2]
    exact h.outside a ha.2

theorem perm {ds : List (List α)} (hp : cs.Perm ds) : Represents ds start next where
  nodup := hp.flatten.nodup_iff.mp h.nodup
  two_le l hl := h.two_le l (hp.mem_iff.mpr hl)
  start_eq l hl := h.start_eq l (hp.mem_iff.mpr hl)
  linked l hl := h.linked l (hp.mem_iff.mpr hl)
  outside a ha := h.outside a fun hm => ha (hp.flatten.mem_iff.mp hm)

end

theorem tail {l : List α} (h : Represents (l :: cs) start next) [DecidableEq α] :
    Represents cs (fun a => if a ∈ l then none else start a)
      (fun a => if a ∈ l then none else next a) := by
  have hnd := h.nodup
  rw [flatten_cons, nodup_append] at hnd
  have hin : ∀ m ∈ cs, ∀ a ∈ m, a ∉ l := fun m hm a ha hal =>
    hnd.2.2 a hal a (List.mem_flatten.mpr ⟨m, hm, ha⟩) rfl
  constructor
  · exact hnd.2.1
  · exact fun m hm => h.two_le m (mem_cons_of_mem l hm)
  · intro m hm a ha
    rw [if_neg (hin m hm a ha)]
    exact h.start_eq m (mem_cons_of_mem l hm) a ha
  · intro m hm
    exact (h.linked m (mem_cons_of_mem l hm)).congr fun a ha => if_neg (hin m hm a ha)
  · intro a ha
    by_cases hal : a ∈ l
    · exact ⟨if_pos hal, if_pos hal⟩
    rw [if_neg hal, if_neg hal]
    refine h.outside a ?_
    rw [flatten_cons, mem_append, not_or]
    exact ⟨hal, ha⟩

theorem replace [DecidableEq α] (h : Represents cs start next) {l : List α} (l' : List α)
    (hmem : l ∈ cs) (hsub : ∀ a ∈ l, a ∈ l') (hnd : l'.Nodup) (hlen : 2 ≤ l'.length)
    (hnew : ∀ a ∈ l', a ∉ l → start a = none) (hs : ∀ a ∈ l', start' a = l'.head?)
    (hl : Linked next' none l') (hsame : ∀ a, a ∉ l' → start' a = start a ∧ next' a = next a) :
    ∃ ds, Represents ds start' next' := by
  have hp := perm_cons_erase hmem
  refine ⟨_, (h.perm hp).tail.add hnd hlen ?_ hs hl ?_⟩
  · intro a ha
    by_cases hal : a ∈ l
    · rw [if_pos hal]
    rw [if_neg hal]
    exact hnew a ha hal
  · intro a ha
    have hal : a ∉ l := fun hal => ha (hsub a hal)
    rw [if_neg hal, if_neg hal]
    exact hsame a ha

theorem not_mem_of_mem {l : List α} (h : Represents cs start next) (hl : l ∈ cs) {a : α}
    (ha : start a = none) : a ∉ l := fun hal =>
  h.not_mem_of_start_none ha (List.mem_flatten.mpr ⟨l, hl, hal⟩)

section Edits

variable [DecidableEq α] {a b p s : α}

theorem pair (h : Represents cs start next) (hne : a ≠ b) (ha : start a = none)
    (hb : start b = none) : Represents ([a, b] :: cs) (update (update start a (some a)) b (some a))
      (update (update next a (some b)) b none) := by
  refine h.add ?_ (by simp) ?_ ?_ ?_ ?_
  · simp [hne]
  · intro d hd
    rcases List.mem_pair.mp hd with rfl | rfl
    · exact ha
    · exact hb
  · intro d hd
    rcases List.mem_pair.mp hd with rfl | rfl
    · simp [hne]
    · simp
  · refine ⟨?_, ?_, trivial⟩
    · simp [hne]
    · simp
  · intro d hd
    rw [mem_pair, not_or] at hd
    simp [hd.1, hd.2]

/-- A free member goes after the last member of a chain. -/
theorem append_last (h : Represents cs start next) (ha : start a = some s) (hn : next a = none)
    (hb : start b = none) :
    ∃ ds, Represents ds (update start b (some s)) (update (update next a (some b)) b none) := by
  obtain ⟨l, hl, hal, hhead⟩ := h.mem_of_start ha
  have hbl := h.not_mem_of_mem hl hb
  obtain ⟨m, rfl⟩ : ∃ m, l = m ++ [a] := by
    obtain ⟨m, n, rfl⟩ := append_of_mem hal
    have hlink := (linked_append.mp (h.linked _ hl)).2.1
    rw [hn, Option.or_none, eq_comm, head?_eq_none_iff] at hlink
    exact ⟨m, by rw [hlink]⟩
  have hnd := h.nodup_of_mem hl
  simp only [nodup_append, mem_append, mem_singleton, not_or] at hnd hbl
  have hlink := (linked_append.mp (h.linked _ hl)).1
  refine h.replace (m ++ [a, b]) hl (by simp; tauto) ?_ (by simp) ?_ ?_ ?_ ?_
  · simp only [nodup_append, nodup_cons, mem_cons]
    refine ⟨hnd.1, by simp [Ne.symm hbl.2], ?_⟩
    rintro x hx y (rfl | rfl | hy)
    · exact hnd.2.2 x hx _ rfl
    · rintro rfl
      exact hbl.1 hx
    · cases hy
  · intro x hx hxl
    obtain rfl : x = b := by
      simp only [mem_append, mem_cons, not_mem_nil, or_false] at hx hxl
      tauto
    exact hb
  · have hhead' : (m ++ [a, b]).head? = some s := by
      cases m <;> exact hhead
    intro x hx
    rw [hhead']
    by_cases hxb : x = b
    · rw [hxb, update_self]
    rw [update_of_ne hxb]
    refine (h.start_eq _ hl x ?_).trans hhead
    simp only [mem_append, mem_cons, not_mem_nil, or_false] at hx ⊢
    tauto
  · refine linked_append.mpr ⟨hlink.congr ?_, ?_, ?_, trivial⟩
    · intro x hx
      rw [update_of_ne (ne_of_mem_of_not_mem hx hbl.1), update_of_ne (hnd.2.2 x hx a rfl)]
    · simp [Ne.symm hbl.2]
    · simp
  · intro x hx
    simp only [mem_append, mem_cons, not_mem_nil, or_false, not_or] at hx
    rw [update_of_ne hx.2.2, update_of_ne hx.2.2, update_of_ne hx.2.1]
    exact ⟨rfl, rfl⟩

/-- A free member goes between a member and the one after it. -/
theorem insert_between (h : Represents cs start next) (hp : next p = some b)
    (hb : start b = some s) (ha : start a = none) :
    ∃ ds, Represents ds (update start a (some s)) (update (update next a (some b)) p (some a)) := by
  obtain ⟨l, hl, hpl, hbl⟩ := h.mem_of_next hp
  have hhead : l.head? = some s := (h.start_eq l hl b hbl).symm.trans hb
  have hal := h.not_mem_of_mem hl ha
  have hne := (h.linked l hl).head_ne (h.nodup_of_mem hl) hpl hp
  obtain ⟨m, q, n, rfl⟩ := exists_split_of_ne_head hbl hne
  obtain rfl : p = q := h.next_injective hp (h.linked _ hl).next_of_split
  have hnd := h.nodup_of_mem hl
  have hlink := linked_append.mp (h.linked _ hl)
  simp only [mem_append, mem_cons, not_or] at hal
  refine h.replace (m ++ p :: a :: b :: n) hl (by simp; tauto) ?_ (by simp; omega) ?_ ?_ ?_ ?_
  · have hperm : (a :: (m ++ p :: b :: n)).Perm (m ++ p :: a :: b :: n) := by
      refine List.Perm.trans ?_ List.perm_middle.symm
      refine List.Perm.trans (List.perm_middle.cons a) ?_
      exact (List.Perm.swap p a _).trans (List.perm_middle.symm.cons p)
    refine hperm.nodup_iff.mp (List.nodup_cons.mpr ⟨?_, hnd⟩)
    simp only [mem_append, mem_cons, not_or]
    exact hal
  · intro x hx hxl
    obtain rfl : x = a := by
      simp only [mem_append, mem_cons] at hx hxl
      tauto
    exact ha
  · have hhead' : (m ++ p :: a :: b :: n).head? = some s := by
      cases m <;> exact hhead
    intro x hx
    rw [hhead']
    by_cases hxa : x = a
    · rw [hxa, update_self]
    rw [update_of_ne hxa]
    refine (h.start_eq _ hl x ?_).trans hhead
    simp only [mem_append, mem_cons] at hx ⊢
    tauto
  · have hpm : p ∉ m ∧ p ∉ b :: n := by
      rw [nodup_append, nodup_cons] at hnd
      exact ⟨fun hpm => hnd.2.2 p hpm p mem_cons_self rfl, hnd.2.1.1⟩
    have hsame : ∀ x, x ≠ a → x ≠ p → update (update next a (some b)) p (some a) x = next x := by
      intro x hxa hxp
      rw [update_of_ne hxp, update_of_ne hxa]
    refine linked_append.mpr ⟨hlink.1.congr ?_, ?_, ?_, hlink.2.2.congr ?_⟩
    · intro x hx
      exact hsame x (ne_of_mem_of_not_mem hx hal.1) (ne_of_mem_of_not_mem hx hpm.1)
    · simp
    · rw [update_of_ne hal.2.1, update_self]
      rfl
    · intro x hx
      refine hsame x ?_ (ne_of_mem_of_not_mem hx hpm.2)
      rintro rfl
      rcases List.mem_cons.mp hx with hx | hx
      · exact hal.2.2.1 hx
      · exact hal.2.2.2 hx
  · intro x hx
    simp only [mem_append, mem_cons, not_or] at hx
    rw [update_of_ne hx.2.1, update_of_ne hx.2.2.1, update_of_ne hx.2.2.1]
    exact ⟨rfl, rfl⟩

/-- A free member becomes the first one, and every member learns of it. -/
theorem insert_first (h : Represents cs start next) {l : List α} (hl : l ∈ cs)
    (hhead : l.head? = some s) (ha : start a = none) (hs : ∀ x ∈ a :: l, start' x = some a)
    (hsame : ∀ x, x ∉ a :: l → start' x = start x) :
    ∃ ds, Represents ds start' (update next a (some s)) := by
  have hal := h.not_mem_of_mem hl ha
  refine h.replace (a :: l) hl (fun x hx => mem_cons_of_mem a hx) ?_ ?_ ?_ hs ?_ ?_
  · exact List.nodup_cons.mpr ⟨hal, h.nodup_of_mem hl⟩
  · have := h.two_le l hl
    simp only [length_cons]
    omega
  · intro x hx hxl
    rcases List.mem_cons.mp hx with rfl | hx
    · exact ha
    · exact absurd hx hxl
  · refine ⟨?_, (h.linked l hl).congr ?_⟩
    · rw [update_self, hhead]
      rfl
    · intro x hx
      exact update_of_ne (ne_of_mem_of_not_mem hx hal) _ _
  · intro x hx
    refine ⟨hsame x hx, update_of_ne ?_ _ _⟩
    rintro rfl
    exact hx mem_cons_self

end Edits

end Represents

end Toolwhip.Lib.SuccessorChains
