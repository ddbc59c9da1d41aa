import Mathlib.Algebra.BigOperators.Group.Finset.Basic
import Mathlib.Data.Fintype.Card

/-! # Searching a graph -/

set_option autoImplicit false

/-! ## Visiting a graph from a stack

A node is taken from the stack, skipped if it was visited, else visited, and its successors
go on the stack, the last one on top. Nodes are finitely many: outside of a set of them
there are no successors. -/

namespace Toolwhip.Lib.StackSearch
open List

variable {α σ : Type} [DecidableEq α] (next : α → List α) (visit : σ → α → σ)

def search : Nat → List α → List α → σ → σ
  | 0, _, _, acc => acc
  | _ + 1, [], _, acc => acc
  | fuel + 1, n :: stack, visited, acc =>
    if n ∈ visited then search fuel stack visited acc
    else search fuel ((next n).reverse ++ stack) (n :: visited) (visit acc n)

def pops (nodes : Finset α) (stack visited : List α) : Nat :=
  stack.length + ∑ n ∈ nodes.filter (· ∉ visited), (next n).length

/-- The nodes that are visited from now on: those of the stack, and their successors. -/
structure Order (stack visited order : List α) : Prop where
  stack : ∀ n ∈ stack, n ∈ order ∨ n ∈ visited
  next : ∀ n ∈ order, ∀ m ∈ next n, m ∈ order ∨ m ∈ visited

variable {next visit} {nodes : Finset α} {stack visited : List α}

theorem pops_visit (hnodes : ∀ n, n ∉ nodes → next n = []) {n : α} (hn : n ∉ visited) :
    pops next nodes ((next n).reverse ++ stack) (n :: visited) + 1 =
      pops next nodes (n :: stack) visited := by
  have herase : nodes.filter (· ∉ n :: visited) = (nodes.filter (· ∉ visited)).erase n := by
    ext m
    simp only [Finset.mem_filter, Finset.mem_erase, mem_cons, not_or]
    tauto
  have hsum : ∑ m ∈ (nodes.filter (· ∉ visited)).erase n, (next m).length + (next n).length =
      ∑ m ∈ nodes.filter (· ∉ visited), (next m).length := by
    by_cases hmem : n ∈ nodes
    · exact Finset.sum_erase_add _ _ (Finset.mem_filter.mpr ⟨hmem, by simpa using hn⟩)
    have hnot : n ∉ nodes.filter (· ∉ visited) := fun h => hmem (Finset.mem_filter.mp h).1
    rw [Finset.erase_eq_of_notMem hnot, hnodes n hmem]
    rfl
  unfold pops
  rw [herase, ← hsum]
  simp only [length_append, length_reverse, length_cons]
  omega

theorem search_order (nodes : Finset α) (hnodes : ∀ n, n ∉ nodes → next n = []) {fuel : Nat} {a : σ}
    (hfuel : pops next nodes stack visited < fuel) :
    ∃ order, search next visit fuel stack visited a = order.foldl visit a ∧
      Order next stack visited order := by
  induction fuel generalizing stack visited a with
  | zero => omega
  | succ fuel ih =>
    cases stack with
    | nil =>
      refine ⟨[], rfl, ?_, ?_⟩
      · intro n hn
        cases hn
      · intro n hn
        cases hn
    | cons n stack =>
      rw [search]
      by_cases hn : n ∈ visited
      · rw [if_pos hn]
        have hpops : pops next nodes (n :: stack) visited = pops next nodes stack visited + 1 := by
          unfold pops
          rw [length_cons]
          omega
        have hless : pops next nodes stack visited < fuel := by omega
        obtain ⟨order, hsearch, horder⟩ := ih (a := a) hless
        refine ⟨order, hsearch, ?_, horder.next⟩
        intro m hm
        rcases List.mem_cons.mp hm with rfl | hm
        · exact Or.inr hn
        · exact horder.stack m hm
      · rw [if_neg hn]
        have hpops : pops next nodes ((next n).reverse ++ stack) (n :: visited) + 1 =
            pops next nodes (n :: stack) visited := pops_visit hnodes hn
        have hless : pops next nodes ((next n).reverse ++ stack) (n :: visited) < fuel := by omega
        obtain ⟨order, hsearch, horder⟩ := ih (a := visit a n) hless
        have hcons : ∀ {m}, m ∈ order ∨ m ∈ n :: visited → m ∈ n :: order ∨ m ∈ visited := by
          intro m hm
          rcases hm with hm | hm
          · exact Or.inl (mem_cons_of_mem _ hm)
          rcases List.mem_cons.mp hm with rfl | hm
          · exact Or.inl mem_cons_self
          · exact Or.inr hm
        refine ⟨n :: order, hsearch, ?_, ?_⟩
        · intro m hm
          apply hcons
          rcases List.mem_cons.mp hm with rfl | hm
          · exact Or.inr mem_cons_self
          · exact horder.stack m (mem_append_right _ hm)
        · intro k hk m hm
          apply hcons
          rcases List.mem_cons.mp hk with rfl | hk
          · exact horder.stack m (mem_append_left _ (List.mem_reverse.mpr hm))
          · exact horder.next k hk m hm

omit [DecidableEq α] in
theorem Order.reach {n m : α} {order : List α} (h : Order next [n] [] order)
    (hreach : Relation.ReflTransGen (fun a b => b ∈ next a) n m) : m ∈ order := by
  induction hreach with
  | refl =>
    rcases h.stack n mem_cons_self with hn | hn
    · exact hn
    · cases hn
  | tail _ hstep ih =>
    rcases h.next _ ih _ hstep with hm | hm
    · exact hm
    · cases hm

end Toolwhip.Lib.StackSearch

/-! ## Graphs without cycles

Edges are added at one node at a time; a graph stays free of cycles as long as no
cycle goes through the node whose edges were added last. -/

namespace Toolwhip.Lib.CycleCheck
open Relation

variable {α : Type}

def Acyclic (r : α → α → Prop) : Prop := ∀ x, ¬ TransGen r x x

variable {r : α → α → Prop}

theorem acyclic_of_no_edges (h : ∀ x y, ¬ r x y) : Acyclic r := by
  intro x hx
  obtain ⟨y, _, hy⟩ := TransGen.tail'_iff.mp hx
  exact h y x hy

/-- A path over old edges and edges at `a` is a path over old edges, or goes through `a`. -/
theorem path_old_or_through {r' : α → α → Prop} {a : α}
    (hnew : ∀ x y, r' x y → r x y ∨ x = a) {x y : α} (h : TransGen r' x y) :
    TransGen r x y ∨ ReflTransGen r' x a ∧ TransGen r' a y := by
  induction h with
  | single hxy =>
    cases hnew _ _ hxy with
    | inl hold => exact Or.inl (.single hold)
    | inr heq =>
      subst heq
      exact Or.inr ⟨.refl, .single hxy⟩
  | tail hxz hzy ih =>
    cases ih with
    | inl hold =>
      cases hnew _ _ hzy with
      | inl hzy => exact Or.inl (.tail hold hzy)
      | inr heq =>
        subst heq
        exact Or.inr ⟨TransGen.to_reflTransGen hxz, .single hzy⟩
    | inr hthrough => exact Or.inr ⟨hthrough.1, .tail hthrough.2 hzy⟩

theorem acyclic_of_new_edges {r' : α → α → Prop} {a : α} (h : Acyclic r)
    (hnew : ∀ x y, r' x y → r x y ∨ x = a) (hcheck : ¬ TransGen r' a a) : Acyclic r' := by
  intro x hx
  cases path_old_or_through hnew hx with
  | inl hold => exact h x hold
  | inr hthrough => exact hcheck (TransGen.trans_left hthrough.2 hthrough.1)

theorem Acyclic.wellFounded [Finite α] (h : Acyclic r) : WellFounded fun x y => r y x := by
  have hirrefl : Std.Irrefl fun x y => TransGen r y x := ⟨h⟩
  have hwf : WellFounded fun x y => TransGen r y x := Finite.wellFounded_of_trans_of_irrefl _
  apply Subrelation.wf _ hwf
  intro x y hxy
  exact TransGen.single hxy

section Chains
variable [Fintype α] [DecidableEq α]

def unseen (chain : List α) : Nat := (Finset.univ.filter (· ∉ chain)).card

variable {chain : List α} {x : α}

theorem unseen_cons_of_mem (h : x ∈ chain) : unseen (x :: chain) = unseen chain := by
  unfold unseen
  congr 1
  ext y
  simp only [Finset.mem_filter, Finset.mem_univ, true_and, List.mem_cons]
  constructor
  · intro hy hmem
    exact hy (Or.inr hmem)
  · intro hy hmem
    cases hmem with
    | inl heq => exact hy (heq ▸ h)
    | inr hmem => exact hy hmem

theorem unseen_cons_of_not_mem (h : x ∉ chain) : unseen (x :: chain) < unseen chain := by
  apply Finset.card_lt_card
  refine ⟨?_, ?_⟩
  · intro y hy
    simp only [Finset.mem_filter, Finset.mem_univ, true_and, List.mem_cons, not_or] at hy ⊢
    exact hy.2
  · intro hsub
    have hx := hsub (Finset.mem_filter.mpr ⟨Finset.mem_univ x, h⟩)
    exact (Finset.mem_filter.mp hx).2 List.mem_cons_self

theorem unseen_le (chain : List α) : unseen chain ≤ Fintype.card α :=
  Finset.card_le_univ _

/-- How deep a search can go whose next node is never on the chain behind the last one;
the last one itself may be on it. -/
def depthLeft (chain : List α) (x : α) : Nat :=
  2 * unseen chain + if x ∈ chain then 1 else 0

theorem depthLeft_lt {y : α} (h : y ∉ chain) : depthLeft (x :: chain) y < depthLeft chain x := by
  unfold depthLeft
  by_cases hx : x ∈ chain
  · have hy : y ∉ x :: chain := by
      intro hy
      cases List.mem_cons.mp hy with
      | inl heq => exact h (heq ▸ hx)
      | inr hmem => exact h hmem
    rw [unseen_cons_of_mem hx, if_pos hx, if_neg hy]
    omega
  · have := unseen_cons_of_not_mem hx
    split <;> omega

theorem depthLeft_le (chain : List α) (x : α) : depthLeft chain x ≤ 2 * Fintype.card α + 1 := by
  have := unseen_le chain
  unfold depthLeft
  split <;> omega

end Chains
end Toolwhip.Lib.CycleCheck
