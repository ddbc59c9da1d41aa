import Mathlib.Data.List.TakeWhile

/-! # The lines of a text

A line ends with a newline, which belongs to it; the last line of a text may lack it.
`pieces` is what `fgets` reads with a buffer that holds `size` characters. -/

namespace Toolwhip.Lib.TextLines
open List
set_option autoImplicit false

section Lines
variable {α : Type*}

def consLine (c : α) : List (List α) → List (List α)
  | [] => [[c]]
  | line :: rest => (c :: line) :: rest

theorem consLine_cons (c : α) (first : List α) (rest : List (List α)) :
    consLine c (first :: rest) = (c :: first) :: rest := rfl

variable [DecidableEq α]

def lines (newline : α) : List α → List (List α)
  | [] => []
  | c :: text =>
    if c = newline then [c] :: lines newline text else consLine c (lines newline text)

/-- `room` is what is left of the buffer. -/
def pieces (newline : α) (size : Nat) : Nat → List α → List (List α)
  | _, [] => []
  | room, c :: text =>
    if c = newline ∨ room ≤ 1 then [c] :: pieces newline size size text
    else consLine c (pieces newline size (room - 1) text)

variable {newline : α} {line text : List α}

theorem lines_append (h : newline ∉ line) :
    lines newline (line ++ newline :: text) = (line ++ [newline]) :: lines newline text := by
  induction line with
  | nil => simp [lines]
  | cons c line ih =>
    have hc : c ≠ newline := fun heq => h (heq ▸ mem_cons_self)
    have hrest : newline ∉ line := fun hmem => h (mem_cons_of_mem c hmem)
    rw [cons_append, lines, if_neg hc, ih hrest]
    rfl

theorem lines_of_not_mem (hne : line ≠ []) (h : newline ∉ line) : lines newline line = [line] := by
  induction line with
  | nil => exact absurd rfl hne
  | cons c line ih =>
    have hc : c ≠ newline := fun heq => h (heq ▸ mem_cons_self)
    have hrest : newline ∉ line := fun hmem => h (mem_cons_of_mem c hmem)
    rw [lines, if_neg hc]
    cases line with
    | nil => rfl
    | cons d line =>
      rw [ih (cons_ne_nil d line) hrest]
      rfl

theorem exists_line (newline : α) (text : List α) : newline ∉ text ∨
    ∃ line rest, newline ∉ line ∧ text = line ++ newline :: rest := by
  by_cases h : newline ∈ text
  · obtain ⟨line, rest, heq, hline⟩ := eq_append_cons_of_mem h
    exact Or.inr ⟨line, rest, hline, heq⟩
  · exact Or.inl h

theorem line_induction (newline : α) {motive : List α → Prop}
    (last : ∀ line, newline ∉ line → motive line)
    (line : ∀ line rest, newline ∉ line → motive rest → motive (line ++ newline :: rest))
    (text : List α) : motive text := by
  induction hn : text.length using Nat.strong_induction_on generalizing text with
  | h n ih =>
    rcases exists_line newline text with h | ⟨first, rest, hfirst, rfl⟩
    · exact last text h
    apply line first rest hfirst
    apply ih rest.length _ rest rfl
    rw [← hn, length_append, length_cons]
    omega

theorem flatten_lines (newline : α) (text : List α) : (lines newline text).flatten = text := by
  induction text with
  | nil => rfl
  | cons c text ih =>
    rw [lines]
    split
    · rw [flatten_cons, ih]
      rfl
    cases hlines : lines newline text with
    | nil =>
      rw [hlines] at ih
      rw [← ih]
      rfl
    | cons first rest =>
      rw [hlines, flatten_cons] at ih
      rw [consLine_cons, flatten_cons, cons_append, ih]

def Fits (size room : Nat) (ls : List (List α)) : Prop :=
  (∀ line ∈ ls, line.length ≤ size) ∧ ∀ line ∈ ls.head?, line.length ≤ room

theorem pieces_eq_lines_of_fits {size room : Nat} (h : Fits size room (lines newline text)) :
    pieces newline size room text = lines newline text := by
  induction text generalizing room with
  | nil => rfl
  | cons c text ih =>
    obtain ⟨hsize, hroom⟩ := h
    by_cases hc : c = newline
    · rw [lines, if_pos hc] at hsize
      rw [pieces, lines, if_pos (Or.inl hc), if_pos hc, ih]
      have hrest : ∀ line ∈ lines newline text, line.length ≤ size :=
        fun line hline => hsize line (mem_cons_of_mem _ hline)
      refine ⟨hrest, ?_⟩
      intro line hline
      exact hrest line (mem_of_mem_head? hline)
    · rw [lines, if_neg hc] at hsize hroom
      cases hlines : lines newline text with
      | nil =>
        have htext : text = [] := by rw [← flatten_lines newline text, hlines]; rfl
        subst htext
        rw [pieces, lines, if_neg hc, hlines]
        split <;> rfl
      | cons first rest =>
        rw [hlines, consLine_cons] at hsize hroom
        have hfirst := hroom (c :: first) rfl
        rw [length_cons] at hfirst
        have hpos : first ≠ [] := by
          intro hnil
          cases text with
          | nil => cases hlines
          | cons d text =>
            rw [lines] at hlines
            split at hlines
            · rw [hnil] at hlines
              cases hlines
            · cases hrest : lines newline text <;> rw [hrest, hnil] at hlines <;> cases hlines
        have hlong := List.length_pos_iff.mpr hpos
        have hcut : ¬ (c = newline ∨ room ≤ 1) := by
          intro h
          rcases h with h | h
          · exact hc h
          · omega
        rw [pieces, lines, if_neg hcut, if_neg hc, ih, hlines]
        rw [hlines]
        constructor
        · intro line hline
          rcases List.mem_cons.mp hline with rfl | hline
          · have := hsize (c :: line) mem_cons_self
            rw [length_cons] at this
            omega
          · exact hsize line (mem_cons_of_mem _ hline)
        · intro line hline
          cases hline
          omega

/-- Where every line fits the buffer, `fgets` reads the lines. -/
theorem pieces_eq_lines {size : Nat} (h : ∀ line ∈ lines newline text, line.length ≤ size) :
    pieces newline size size text = lines newline text :=
  pieces_eq_lines_of_fits ⟨h, fun line hline => h line (mem_of_mem_head? hline)⟩

theorem pieces_line {size room : Nat} (h : newline ∉ line) (hroom : line.length + 1 ≤ room) :
    pieces newline size room (line ++ newline :: text) =
      (line ++ [newline]) :: pieces newline size size text := by
  induction line generalizing room with
  | nil =>
    rw [nil_append, pieces, if_pos (Or.inl rfl)]
    rfl
  | cons c line ih =>
    rw [length_cons] at hroom
    rw [mem_cons, not_or] at h
    have hcut : ¬ (c = newline ∨ room ≤ 1) := by
      rw [not_or]
      exact ⟨fun heq => h.1 heq.symm, by omega⟩
    rw [cons_append, pieces, if_neg hcut, ih h.2 (by omega)]
    rfl

/-- A line that does not fit is cut where the room ends. -/
theorem pieces_long {size room : Nat} (h : newline ∉ line) (hpos : 0 < room)
    (hroom : room ≤ line.length) :
    ∃ more, pieces newline size room (line ++ text) = line.take room :: more := by
  induction line generalizing room with
  | nil => exact absurd (Nat.lt_of_lt_of_le hpos hroom) (Nat.lt_irrefl 0)
  | cons c line ih =>
    rw [length_cons] at hroom
    rw [mem_cons, not_or] at h
    by_cases hone : room ≤ 1
    · obtain rfl : room = 1 := by omega
      exact ⟨_, by rw [cons_append, pieces, if_pos (Or.inr hone)]; rfl⟩
    have hcut : ¬ (c = newline ∨ room ≤ 1) := by
      rw [not_or]
      exact ⟨fun heq => h.1 heq.symm, hone⟩
    obtain ⟨more, hmore⟩ := ih h.2 (show 0 < room - 1 by omega) (by omega)
    obtain ⟨k, rfl⟩ : ∃ k, room = k + 1 := ⟨room - 1, by omega⟩
    refine ⟨more, ?_⟩
    rw [cons_append, pieces, if_neg hcut, hmore]
    rfl

end Lines
end Toolwhip.Lib.TextLines
