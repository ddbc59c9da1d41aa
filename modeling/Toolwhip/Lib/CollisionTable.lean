import Mathlib.Data.List.Basic

/-! # A hash table that marks collisions

The first value of a key is kept and a second one puts nothing in its place, so that a key
with several values is told from one with none. A look-up that scans the values of such a
key finds what a scan of all values finds. -/

namespace Toolwhip.Lib.CollisionTable
open List
set_option autoImplicit false

universe u v
variable {α : Type u} {κ : Type v} [DecidableEq κ]

/-- The inner `none` is a collision. -/
abbrev Table (κ : Type v) (α : Type u) := κ → Option (Option α)

def record (t : Table κ α) (k : κ) (a : α) : Table κ α :=
  Function.update t k (match t k with
    | none => some (some a)
    | some _ => some none)

def mark : List α → Option (Option α)
  | [] => none
  | [a] => some (some a)
  | _ :: _ :: _ => some none

theorem mark_concat (l : List α) (a : α) : mark (l ++ [a]) = match mark l with
      | none => some (some a)
      | some _ => some none := by
  cases l with
  | nil => rfl
  | cons b l =>
    cases l with
    | nil => rfl
    | cons c l => rfl

def Holds (key : α → Option κ) (l : List α) (t : Table κ α) : Prop :=
  ∀ k, t k = mark (l.filter fun a => key a = some k)

variable {key : α → Option κ} {l : List α} {t : Table κ α} {a : α}

theorem holds_nil : Holds key [] (fun _ => none : Table κ α) := by
  intro k
  rfl

theorem Holds.record {k : κ} (h : Holds key l t) (hk : key a = some k) :
    Holds key (l ++ [a]) (record t k a) := by
  intro k'
  rw [filter_append]
  unfold CollisionTable.record
  by_cases hkk : k' = k
  · subst hkk
    rw [Function.update_self, h k']
    simp only [hk, decide_true, filter_cons_of_pos, filter_nil]
    exact (mark_concat _ _).symm
  have hne : key a ≠ some k' := by
    rw [hk]
    intro heq
    exact hkk (Option.some.inj heq).symm
  rw [Function.update_of_ne hkk, h k', filter_cons_of_neg (by simpa using hne),
    filter_nil, append_nil]

theorem Holds.skip (h : Holds key l t) (hk : key a = none) : Holds key (l ++ [a]) t := by
  intro k
  rw [filter_append, filter_cons_of_neg (by simp [hk]), filter_nil,
    append_nil]
  exact h k

/-- The value of a key if it is an acceptable one, and `scan` if the key has several. -/
def search (t : Table κ α) (k : κ) (accept : α → Bool) (scan : Option α) : Option α :=
  match t k with
  | none => none
  | some none => scan
  | some (some a) => if accept a then some a else none

theorem search_eq_find (h : Holds key l t) (k : κ) (accept : α → Bool) :
    search t k accept (l.find? fun a => decide (key a = some k) && accept a) =
      l.find? fun a => decide (key a = some k) && accept a := by
  have hfind : (l.find? fun a => decide (key a = some k) && accept a) =
      (l.filter fun a => key a = some k).find? accept := by
    simp
  unfold search
  rw [h k, hfind]
  cases l.filter fun a => key a = some k with
  | nil => rfl
  | cons b rest =>
    cases rest with
    | nil =>
      dsimp only [mark]
      rw [find?_cons, find?_nil]
      cases accept b <;> rfl
    | cons c rest => rfl

end Toolwhip.Lib.CollisionTable
