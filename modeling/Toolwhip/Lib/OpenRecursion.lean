import Mathlib.Order.WellFounded

/-! # Recursion with a limit on its depth

A function is given by what one call does, with the results of the calls that it makes as a parameter.
The calls at the limit give up. Where the calls go down in a well-founded order, the limit makes no
difference once it is large enough, and the results solve the recursive equation. -/

namespace Toolwhip.Lib.OpenRecursion
set_option autoImplicit false

universe u v w
variable {ε : Type u} {α : Type v} {β γ : Type w}

def Settles (run : Nat → β) (outcome : β) : Prop :=
  ∃ enough, ∀ limit, enough ≤ limit → run limit = outcome

namespace Settles
variable {run : Nat → β} {outcome outcome' : β}

theorem const (outcome : β) : Settles (fun _ => outcome) outcome := ⟨0, fun _ _ => rfl⟩

theorem unique (h : Settles run outcome) (h' : Settles run outcome') : outcome = outcome' := by
  obtain ⟨enough, h⟩ := h
  obtain ⟨enough', h'⟩ := h'
  rw [← h _ (Nat.le_max_left enough enough'), h' _ (Nat.le_max_right enough enough')]

theorem of_succ (h : Settles (fun limit => run (limit + 1)) outcome) : Settles run outcome := by
  obtain ⟨enough, h⟩ := h
  refine ⟨enough + 1, ?_⟩
  intro limit hle
  cases limit with
  | zero => exact absurd hle (Nat.not_succ_le_zero enough)
  | succ limit => exact h limit (Nat.le_of_succ_le_succ hle)

theorem bind {x : Nat → Except ε β} {first : Except ε β} {f : Nat → β → Except ε γ} {g : β → Except ε γ}
    (h : Settles x first) (hnext : ∀ b, first = .ok b → Settles (fun limit => f limit b) (g b)) :
    Settles (fun limit => x limit >>= f limit) (first >>= g) := by
  obtain ⟨enough, h⟩ := h
  cases first with
  | error e =>
    refine ⟨enough, ?_⟩
    intro limit hle
    simp only [h limit hle]
    rfl
  | ok b =>
    obtain ⟨enough', hnext⟩ := hnext b rfl
    refine ⟨max enough enough', ?_⟩
    intro limit hle
    simp only [h limit (Nat.le_trans (Nat.le_max_left _ _) hle)]
    exact hnext limit (Nat.le_trans (Nat.le_max_right _ _) hle)

theorem mapM {f : Nat → α → Except ε β} {g : α → Except ε β} {l : List α}
    (h : ∀ a ∈ l, Settles (fun limit => f limit a) (g a)) :
    Settles (fun limit => l.mapM (f limit)) (l.mapM g) := by
  induction l with
  | nil => exact .const _
  | cons a l ih =>
    simp only [List.mapM_cons]
    apply (h a List.mem_cons_self).bind
    intro b _
    apply (ih fun a' ha' => h a' (List.mem_cons_of_mem a ha')).bind
    intro bs _
    exact .const _

end Settles

section Limit
variable {C : Type v} {R : Type w}

def limited (step : (C → R) → C → R) (deepest : R) : Nat → C → R
  | 0, _ => deepest
  | limit + 1, c => step (limited step deepest limit) c

/-- A call only makes calls of a smaller rank. -/
def GoesDown {ρ : Type*} [LT ρ] (rank : C → ρ) (step : (C → R) → C → R) : Prop :=
  ∀ (run : Nat → C → R) (result : C → R) (c : C),
    (∀ c', rank c' < rank c → Settles (fun limit => run limit c') (result c')) →
    Settles (fun limit => step (run limit) c) (step result c)

theorem settles_of_goesDown {ρ : Type*} [LT ρ] [WellFoundedLT ρ] {rank : C → ρ}
    {step : (C → R) → C → R} (hdown : GoesDown rank step) (deepest : R) :
    ∃ result : C → R, (∀ c, Settles (fun limit => limited step deepest limit c) (result c)) ∧
      ∀ c, result c = step result c := by
  classical
  have hresult : ∃ result : C → R, ∀ c,
    (∃ outcome, Settles (fun limit => limited step deepest limit c) outcome) →
      Settles (fun limit => limited step deepest limit c) (result c) := by
    refine ⟨fun c => if h : ∃ outcome, Settles (fun limit => limited step deepest limit c) outcome
      then h.choose else deepest, ?_⟩
    intro c h
    simp only [dif_pos h]
    exact h.choose_spec
  obtain ⟨result, hresult⟩ := hresult
  have hall : ∀ r : ρ, ∀ c, rank c = r →
      Settles (fun limit => limited step deepest limit c) (result c) := by
    intro r
    induction r using WellFoundedLT.induction with
    | ind r ih =>
      intro c hr
      apply hresult
      refine ⟨step result c, Settles.of_succ (hdown _ result c ?_)⟩
      intro c' hlt
      exact ih (rank c') (hr ▸ hlt) c' rfl
  refine ⟨result, fun c => hall _ c rfl, ?_⟩
  intro c
  apply (hall _ c rfl).unique
  exact Settles.of_succ (hdown _ result c fun c' _ => hall _ c' rfl)

end Limit
end Toolwhip.Lib.OpenRecursion
