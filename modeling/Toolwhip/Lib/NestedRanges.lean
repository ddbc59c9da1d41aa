
/-! # Nested ranges

Some elements of a list open a range and some close one. A range has the number of its
opening element, and every element belongs to the innermost range that is open. -/

namespace Toolwhip.Lib.NestedRanges
open List
set_option autoImplicit false

universe u v

inductive Mark where
  | opens | closes | inside
  deriving DecidableEq

variable {α : Type u} {β : Type v} (mark : α → Mark)

/-- The elements with their ranges: `next` ranges have been opened, and `stack` are open. -/
def tags : Nat → List Nat → List α → List (α × Option Nat)
  | _, _, [] => []
  | next, stack, a :: rest =>
    match mark a with
    | .opens => (a, some next) :: tags (next + 1) (next :: stack) rest
    | .closes => (a, stack.head?) :: tags next stack.tail rest
    | .inside => (a, stack.head?) :: tags next stack rest

/-- `depth` ranges are open, and every range is closed. -/
def Balanced : Nat → List α → Prop
  | depth, [] => depth = 0
  | depth, a :: rest =>
    match mark a with
    | .opens => Balanced (depth + 1) rest
    | .closes => 0 < depth ∧ Balanced (depth - 1) rest
    | .inside => Balanced depth rest

/-- Every closing element has the range that was opened last and is still open. -/
def Closes : List Nat → List (α × Option Nat) → Prop
  | stack, [] => stack = []
  | stack, (a, range) :: rest =>
    match mark a with
    | .opens => ∃ k, range = some k ∧ Closes (k :: stack) rest
    | .closes => ∃ k below, range = some k ∧ stack = k :: below ∧ Closes below rest
    | .inside => Closes stack rest

section Steps
variable {mark} {a : α} {rest : List α} {next depth : Nat} {stack : List Nat}

theorem tags_opens (h : mark a = .opens) : tags mark next stack (a :: rest) =
    (a, some next) :: tags mark (next + 1) (next :: stack) rest := by
  rw [tags, h]

theorem tags_closes (h : mark a = .closes) : tags mark next stack (a :: rest) =
    (a, stack.head?) :: tags mark next stack.tail rest := by
  rw [tags, h]

theorem tags_inside (h : mark a = .inside) : tags mark next stack (a :: rest) =
    (a, stack.head?) :: tags mark next stack rest := by
  rw [tags, h]

theorem balanced_opens (h : mark a = .opens) :
    Balanced mark depth (a :: rest) ↔ Balanced mark (depth + 1) rest := by
  rw [Balanced, h]

theorem balanced_closes (h : mark a = .closes) :
    Balanced mark depth (a :: rest) ↔ 0 < depth ∧ Balanced mark (depth - 1) rest := by
  rw [Balanced, h]

theorem balanced_inside (h : mark a = .inside) :
    Balanced mark depth (a :: rest) ↔ Balanced mark depth rest := by
  rw [Balanced, h]

theorem tags_map_fst (l : List α) : (tags mark next stack l).map Prod.fst = l := by
  induction l generalizing next stack with
  | nil => rfl
  | cons a rest ih =>
    cases h : mark a with
    | opens => rw [tags_opens h, map_cons, ih]
    | closes => rw [tags_closes h, map_cons, ih]
    | inside => rw [tags_inside h, map_cons, ih]

end Steps

/-- What is left of the elements when some ranges are taken away: the opening element of such a
range leaves none, and its closing element leaves nothing. -/
structure Removes (gone : Nat → Prop) (left : α × Option Nat → Option α) : Prop where
  opens_kept : ∀ a k, mark a = .opens → ¬ gone k → ∃ b, left (a, some k) = some b ∧ mark b = .opens
  opens_gone : ∀ a k b, mark a = .opens → gone k → left (a, some k) = some b → mark b = .inside
  closes_kept : ∀ a k, mark a = .closes → ¬ gone k → ∃ b, left (a, some k) = some b ∧ mark b = .closes
  closes_gone : ∀ a k, mark a = .closes → gone k → left (a, some k) = none
  inside : ∀ a range b, mark a = .inside → left (a, range) = some b → mark b = .inside

def leftTags (left : α × Option Nat → Option α) (l : List (α × Option Nat)) :
    List (α × Option Nat) :=
  l.filterMap fun t => (left t).map fun b => (b, t.2)

section Removal
variable {mark} {gone : Nat → Prop} {left : α × Option Nat → Option α} {stack : List Nat}
  {rest : List (α × Option Nat)} {t : α × Option Nat} {b : α}

theorem leftTags_none (h : left t = none) : leftTags left (t :: rest) = leftTags left rest := by
  unfold leftTags
  rw [filterMap_cons_none]
  rw [h, Option.map_none]

theorem leftTags_some (h : left t = some b) :
    leftTags left (t :: rest) = (b, t.2) :: leftTags left rest := by
  unfold leftTags
  rw [filterMap_cons_some]
  rw [h, Option.map_some]

theorem closes_inside {a : α} {range : Option Nat} (h : mark a = .inside) :
    Closes mark stack ((a, range) :: rest) ↔ Closes mark stack rest := by
  rw [Closes, h]

theorem closes_opens {a : α} {k : Nat} (h : mark a = .opens) (hrest : Closes mark (k :: stack) rest) :
    Closes mark stack ((a, some k) :: rest) := by
  rw [Closes, h]
  exact ⟨k, rfl, hrest⟩

theorem closes_closes {a : α} {k : Nat} (h : mark a = .closes) (hrest : Closes mark stack rest) :
    Closes mark (k :: stack) ((a, some k) :: rest) := by
  rw [Closes, h]
  exact ⟨k, stack, rfl, rfl, hrest⟩

/-- The ranges that are left are nested. -/
theorem closes_leftTags [DecidablePred gone] (hremoves : Removes mark gone left) {l : List α}
    {next : Nat} (h : Balanced mark stack.length l) :
    Closes mark (stack.filter fun k => ¬ gone k) (leftTags left (tags mark next stack l)) := by
  induction l generalizing next stack with
  | nil =>
    have hempty : stack = [] := eq_nil_of_length_eq_zero h
    rw [hempty]
    rfl
  | cons a rest ih =>
    cases hmark : mark a with
    | opens =>
      rw [balanced_opens hmark] at h
      have hrest := @ih (next :: stack) (next + 1) h
      rw [tags_opens hmark]
      by_cases hgone : gone next
      · rw [filter_cons_of_neg (by simpa using hgone)] at hrest
        cases hleft : left (a, some next) with
        | none =>
          rw [leftTags_none hleft]
          exact hrest
        | some b =>
          rw [leftTags_some hleft, closes_inside (hremoves.opens_gone a next b hmark hgone hleft)]
          exact hrest
      · rw [filter_cons_of_pos (by simpa using hgone)] at hrest
        obtain ⟨b, hleft, hb⟩ := hremoves.opens_kept a next hmark hgone
        rw [leftTags_some hleft]
        exact closes_opens hb hrest
    | closes =>
      rw [balanced_closes hmark] at h
      cases stack with
      | nil => exact absurd h.1 (Nat.lt_irrefl 0)
      | cons k below =>
        have hrest := @ih below next h.2
        rw [tags_closes hmark, head?_cons, tail_cons]
        by_cases hgone : gone k
        · rw [leftTags_none (hremoves.closes_gone a k hmark hgone),
            filter_cons_of_neg (by simpa using hgone)]
          exact hrest
        · obtain ⟨b, hleft, hb⟩ := hremoves.closes_kept a k hmark hgone
          rw [leftTags_some hleft, filter_cons_of_pos (by simpa using hgone)]
          exact closes_closes hb hrest
    | inside =>
      rw [balanced_inside hmark] at h
      have hrest := @ih stack next h
      rw [tags_inside hmark]
      cases hleft : left (a, stack.head?) with
      | none =>
        rw [leftTags_none hleft]
        exact hrest
      | some b =>
        rw [leftTags_some hleft, closes_inside (hremoves.inside a _ b hmark hleft)]
        exact hrest

theorem balanced_of_closes {l : List (α × Option Nat)} (h : Closes mark stack l) :
    Balanced mark stack.length (l.map Prod.fst) := by
  induction l generalizing stack with
  | nil => exact congrArg List.length h
  | cons t rest ih =>
    obtain ⟨a, range⟩ := t
    rw [map_cons]
    cases hmark : mark a with
    | opens =>
      rw [Closes, hmark] at h
      obtain ⟨k, _, hrest⟩ := h
      exact (balanced_opens hmark).mpr (ih hrest)
    | closes =>
      rw [Closes, hmark] at h
      obtain ⟨k, below, _, hstack, hrest⟩ := h
      rw [balanced_closes hmark, hstack]
      exact ⟨Nat.succ_pos _, ih hrest⟩
    | inside => exact (balanced_inside hmark).mpr (ih ((closes_inside hmark).mp h))

theorem leftTags_map_fst (l : List (α × Option Nat)) :
    (leftTags left l).map Prod.fst = l.filterMap left := by
  unfold leftTags
  rw [map_filterMap]
  congr 1
  funext t
  cases left t <;> rfl

theorem balanced_map {f : β → α} {g : β → Mark} (h : ∀ b, mark (f b) = g b) {depth : Nat} {l : List β} :
    Balanced mark depth (l.map f) ↔ Balanced g depth l := by
  induction l generalizing depth with
  | nil => rfl
  | cons b rest ih =>
    rw [map_cons]
    cases hmark : g b with
    | opens => rw [balanced_opens ((h b).trans hmark), balanced_opens hmark, ih]
    | closes => rw [balanced_closes ((h b).trans hmark), balanced_closes hmark, ih]
    | inside => rw [balanced_inside ((h b).trans hmark), balanced_inside hmark, ih]

end Removal
end Toolwhip.Lib.NestedRanges
