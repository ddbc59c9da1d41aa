import Mathlib.Data.List.Perm.Basic

/-! # Insertions that a block forbids

A sequence of events over names: a name is blocked, or it is inserted, which does
nothing once the name has been blocked. -/

namespace Toolwhip.Lib.BlockedInserts
open List
set_option autoImplicit false

inductive InsertEvent (α : Type*) where
  | block (a : α)
  | insert (a : α)
  deriving DecidableEq

section Events
variable {α : Type*} {es es' : List (InsertEvent α)} {e : InsertEvent α} {a : α}

def Stored (es : List (InsertEvent α)) (a : α) : Prop :=
  ∃ before after, es = before ++ .insert a :: after ∧ .block a ∉ before

theorem not_stored_nil : ¬ Stored ([] : List (InsertEvent α)) a := by
  intro h
  obtain ⟨before, after, heq, -⟩ := h
  cases before <;> cases heq

theorem Stored.mem (h : Stored es a) : .insert a ∈ es := by
  obtain ⟨before, after, rfl, -⟩ := h
  simp

theorem stored_concat : Stored (es ++ [e]) a ↔ Stored es a ∨ e = .insert a ∧ .block a ∉ es := by
  constructor
  · intro h
    obtain ⟨before, after, heq, hfree⟩ := h
    rcases eq_nil_or_concat after with rfl | ⟨after, last, rfl⟩
    · obtain ⟨rfl, hlast⟩ := append_inj' heq rfl
      exact Or.inr ⟨List.singleton_inj.mp hlast, hfree⟩
    apply Or.inl
    rw [concat_eq_append, ← cons_append, ← append_assoc] at heq
    exact ⟨before, after, (append_inj' heq rfl).1, hfree⟩
  · intro h
    rcases h with ⟨before, after, rfl, hfree⟩ | ⟨rfl, hfree⟩
    · exact ⟨before, after ++ [e], by simp, hfree⟩
    · exact ⟨es, [], rfl, hfree⟩

theorem stored_of_not_blocked (h : .insert a ∈ es) (hfree : .block a ∉ es) : Stored es a := by
  obtain ⟨before, after, rfl⟩ := append_of_mem h
  exact ⟨before, after, rfl, fun hb => hfree (mem_append_left _ hb)⟩

theorem stored_cons_block {b : α} : Stored (.block b :: es) a ↔ a ≠ b ∧ Stored es a := by
  constructor
  · intro h
    obtain ⟨before, after, heq, hfree⟩ := h
    cases before with
    | nil => cases heq
    | cons e before =>
      obtain ⟨rfl, rfl⟩ := List.cons.inj heq
      refine ⟨?_, before, after, rfl, fun hb => hfree (mem_cons_of_mem _ hb)⟩
      rintro rfl
      exact hfree mem_cons_self
  · intro h
    obtain ⟨hne, before, after, rfl, hfree⟩ := h
    refine ⟨.block b :: before, after, rfl, ?_⟩
    intro hb
    rcases List.mem_cons.mp hb with heq | hb
    · exact hne (InsertEvent.block.inj heq)
    · exact hfree hb

theorem stored_cons_insert : Stored (.insert a :: es) a :=
  ⟨[], es, rfl, not_mem_nil⟩

def OrderFree (es : List (InsertEvent α)) : Prop :=
  ∀ order order', order.Perm es → order'.Perm es → ∀ a, Stored order a ↔ Stored order' a

def Unmixed (es : List (InsertEvent α)) : Prop :=
  ∀ a, .block a ∈ es → .insert a ∉ es

theorem Unmixed.stored_iff (h : Unmixed es) (hperm : es'.Perm es) :
    Stored es' a ↔ .insert a ∈ es := by
  constructor
  · intro hs
    exact hperm.mem_iff.mp hs.mem
  · intro hmem
    apply stored_of_not_blocked (hperm.mem_iff.mpr hmem)
    intro hb
    exact h a (hperm.mem_iff.mp hb) hmem

theorem orderFree_iff [DecidableEq α] : OrderFree es ↔ Unmixed es := by
  constructor
  · intro hfree a hb hi
    have hfirst := perm_cons_erase hb
    have hsecond := perm_cons_erase hi
    have hsame := hfree _ _ hfirst.symm hsecond.symm a
    have hstored : Stored (.block a :: es.erase (.block a)) a := hsame.mpr stored_cons_insert
    exact (stored_cons_block.mp hstored).1 rfl
  · intro h order order' hperm hperm' a
    rw [h.stored_iff hperm, h.stored_iff hperm']

end Events
end Toolwhip.Lib.BlockedInserts
