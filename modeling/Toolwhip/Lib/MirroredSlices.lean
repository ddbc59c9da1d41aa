import Mathlib.Data.List.Forall2

/-! # Blocks of a list that is built forward and reversed

Blocks are appended one after another, and each one's slice is noted. When the whole list is
reversed, the slices are mirrored: the mirrored slice of a block holds the reversed block. -/

namespace Toolwhip.Lib.MirroredSlices
open List
set_option autoImplicit false

universe u
variable {α : Type u}
variable {blocks : List (List α)} {start : Nat}

structure Slice where
  offset : Nat
  count : Nat
  deriving DecidableEq

namespace Slice
variable {total : Nat} {s : Slice}

def of (s : Slice) (l : List α) : List α := (l.drop s.offset).take s.count

def mirror (total : Nat) (s : Slice) : Slice := ⟨total - s.offset - s.count, s.count⟩

def Within (total : Nat) (s : Slice) : Prop := s.offset + s.count ≤ total

def Before (s t : Slice) : Prop := s.offset + s.count ≤ t.offset

def Holds (s : Slice) (i : Nat) : Prop := s.offset ≤ i ∧ i < s.offset + s.count

theorem mirror_within (h : s.Within total) : (s.mirror total).Within total := by
  unfold Within at h ⊢
  dsimp only [mirror]
  omega

theorem mirror_before {s t : Slice} (h : s.Before t) (ht : t.Within total) :
    (t.mirror total).Before (s.mirror total) := by
  unfold Before Within at *
  dsimp only [mirror]
  omega

theorem mirror_holds {total i : Nat} (h : s.Within total) (hi : i < total)
    (hs : s.Holds (total - 1 - i)) : (s.mirror total).Holds i := by
  unfold Holds Within at *
  dsimp only [mirror]
  omega

theorem of_append (before block after : List α) :
    (Slice.mk before.length block.length).of (before ++ (block ++ after)) = block := by
  unfold of
  rw [drop_left, take_left]

theorem mirror_of_append (before block after : List α) :
    ((Slice.mk before.length block.length).mirror (before ++ (block ++ after)).length).of
      (before ++ (block ++ after)).reverse = block.reverse := by
  have hreverse : (before ++ (block ++ after)).reverse
      = after.reverse ++ (block.reverse ++ before.reverse) := by
    simp
  have hlength : (before ++ (block ++ after)).length - before.length - block.length
      = after.reverse.length := by
    simp only [length_append, length_reverse]
    omega
  rw [hreverse]
  unfold mirror
  rw [hlength, ← @List.length_reverse _ block]
  exact of_append after.reverse block.reverse before.reverse

end Slice

/-- The slices of the blocks where the first one starts at `start`. -/
def slices : Nat → List (List α) → List Slice
  | _, [] => []
  | start, block :: blocks => ⟨start, block.length⟩ :: slices (start + block.length) blocks

theorem slices_starts {s : Slice} (hs : s ∈ slices start blocks) : start ≤ s.offset := by
  induction blocks generalizing start with
  | nil => cases hs
  | cons block blocks ih =>
    rcases List.mem_cons.mp hs with rfl | hs
    · exact Nat.le_refl _
    have := ih hs
    omega

theorem slices_within {s : Slice}
    (hs : s ∈ slices start blocks) : s.Within (start + blocks.flatten.length) := by
  induction blocks generalizing start with
  | nil => cases hs
  | cons block blocks ih =>
    rw [flatten_cons, length_append]
    rcases List.mem_cons.mp hs with rfl | hs
    · unfold Slice.Within
      dsimp only
      omega
    · have := ih hs
      unfold Slice.Within at this ⊢
      omega

theorem slices_pairwise (start : Nat) (blocks : List (List α)) :
    (slices start blocks).Pairwise Slice.Before := by
  induction blocks generalizing start with
  | nil => exact List.Pairwise.nil
  | cons block blocks ih =>
    apply List.Pairwise.cons
    · intro s hs
      exact slices_starts hs
    · exact ih _

theorem slices_cover {start i : Nat} (hi : start ≤ i)
    (hend : i < start + blocks.flatten.length) : ∃ s ∈ slices start blocks, s.Holds i := by
  induction blocks generalizing start with
  | nil =>
    rw [flatten_nil, length_nil] at hend
    omega
  | cons block blocks ih =>
    rw [flatten_cons, length_append] at hend
    by_cases hblock : i < start + block.length
    · exact ⟨_, mem_cons_self, hi, hblock⟩
    have hi : start + block.length ≤ i := by omega
    obtain ⟨s, hs, hholds⟩ := ih hi (by omega)
    exact ⟨s, mem_cons_of_mem _ hs, hholds⟩

def mirrored (blocks : List (List α)) : List Slice :=
  (slices 0 blocks).map (Slice.mirror blocks.flatten.length)

section Mirrored
variable {blocks : List (List α)}
variable {s : Slice}

theorem slices_within_total (hs : s ∈ slices 0 blocks) : s.Within blocks.flatten.length := by
  have h := slices_within hs
  rw [Nat.zero_add] at h
  exact h

theorem mirrored_within (hs : s ∈ mirrored blocks) : s.Within blocks.flatten.length := by
  obtain ⟨t, ht, rfl⟩ := List.mem_map.mp hs
  exact Slice.mirror_within (slices_within_total ht)

theorem mirrored_pairwise : (mirrored blocks).Pairwise fun s t => t.Before s := by
  unfold mirrored
  rw [pairwise_map]
  apply (slices_pairwise 0 blocks).imp_of_mem
  intro s t _ ht h
  exact Slice.mirror_before h (slices_within_total ht)

theorem mirrored_cover {i : Nat} (hi : i < blocks.flatten.length) :
    ∃ s ∈ mirrored blocks, s.Holds i := by
  have hend : blocks.flatten.length - 1 - i < 0 + blocks.flatten.length := by omega
  obtain ⟨s, hs, hholds⟩ := slices_cover (Nat.zero_le _) hend
  exact ⟨_, mem_map_of_mem hs, Slice.mirror_holds (slices_within_total hs) hi hholds⟩

end Mirrored

theorem mirror_holds_block (before : List α) (blocks : List (List α)) :
    List.Forall₂ (fun s block => (s.mirror (before ++ blocks.flatten).length).of
        (before ++ blocks.flatten).reverse = block.reverse)
      (slices before.length blocks) blocks := by
  induction blocks generalizing before with
  | nil => exact List.Forall₂.nil
  | cons block blocks ih =>
    apply List.Forall₂.cons
    · exact Slice.mirror_of_append before block blocks.flatten
    · have h := ih (before ++ block)
      rw [append_assoc, @List.length_append _ before block] at h
      exact h

theorem mirrored_holds_block (blocks : List (List α)) :
    List.Forall₂ (fun s block => s.of blocks.flatten.reverse = block.reverse)
      (mirrored blocks) blocks := by
  unfold mirrored
  rw [forall₂_map_left_iff]
  exact mirror_holds_block [] blocks

end Toolwhip.Lib.MirroredSlices
