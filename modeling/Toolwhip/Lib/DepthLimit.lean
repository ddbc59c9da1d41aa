import Mathlib.Data.Set.Finite.Lattice

/-! # Recursion that may not return

A function that works on a state and calls itself. The body of a call says what is done up
to the next call from it, and what is done with the result of that call. A call returns if
some recursion depth is enough for it. -/

namespace Toolwhip.Lib.DepthLimit
set_option autoImplicit false

universe u v w
variable {C : Type u} {S : Type v} {R : Type w}

inductive Body (C : Type u) (S : Type v) (R : Type w) where
  | ret (result : R) (s : S)
  | call (c : C) (s : S) (next : R → S → Body C S R)

def runBody (visit : C → S → Option (R × S)) : Body C S R → Option (R × S)
  | .ret result s => some (result, s)
  | .call c s next =>
    match visit c s with
    | none => none
    | some (result, s') => runBody visit (next result s')

section Eval
variable (body : C → S → Body C S R)

def eval : Nat → C → S → Option (R × S)
  | 0, _, _ => none
  | depth + 1, c, s => runBody (eval depth) (body c s)

def Returns (c : C) (s : S) (x : R × S) : Prop := ∃ depth, eval body depth c s = some x

/-- The calls that a body comes to. -/
inductive Made : Body C S R → C → S → Prop
  | here {c : C} {s : S} {next : R → S → Body C S R} : Made (.call c s next) c s
  | later {c c' : C} {s s' s₁ : S} {next : R → S → Body C S R} {result : R}
      (hret : Returns body c s (result, s')) (h : Made (next result s') c' s₁) :
      Made (.call c s next) c' s₁

/-- The calls of a run, whether or not it returns. -/
inductive Reaches : C → S → C → S → Prop
  | refl (c : C) (s : S) : Reaches c s c s
  | step {c c₁ c₂ : C} {s s₁ s₂ : S} (hmade : Made body (body c s) c₁ s₁)
      (h : Reaches c₁ s₁ c₂ s₂) : Reaches c s c₂ s₂

end Eval

variable {body : C → S → Body C S R} {c c₁ : C} {s s₁ : S} {x y : R × S} {b : Body C S R}

theorem runBody_mono {visit visit' : C → S → Option (R × S)}
    (hv : ∀ c s x, visit c s = some x → visit' c s = some x) (h : runBody visit b = some x) :
    runBody visit' b = some x := by
  induction b with
  | ret result s => exact h
  | call c s next ih =>
    rw [runBody] at h ⊢
    cases hc : visit c s with
    | none =>
      rw [hc] at h
      cases h
    | some y =>
      rw [hc] at h
      rw [hv c s y hc]
      exact ih y.1 y.2 h

theorem eval_succ {depth : Nat} (h : eval body depth c s = some x) :
    eval body (depth + 1) c s = some x := by
  induction depth generalizing c s x with
  | zero => cases h
  | succ depth ih => exact runBody_mono (fun _ _ _ hv => ih hv) h

theorem eval_mono {depth depth' : Nat} (hle : depth ≤ depth') (h : eval body depth c s = some x) :
    eval body depth' c s = some x := by
  induction hle with
  | refl => exact h
  | step _ ih => exact eval_succ ih

theorem Returns.unique (h : Returns body c s x) (h' : Returns body c s y) : x = y := by
  obtain ⟨depth, h⟩ := h
  obtain ⟨depth', h'⟩ := h'
  have hx := eval_mono (Nat.le_max_left depth depth') h
  have hy := eval_mono (Nat.le_max_right depth depth') h'
  exact Option.some.inj (hx.symm.trans hy)

theorem runBody_of_made (h : ∀ c₁ s₁, Made body b c₁ s₁ → ∃ x, Returns body c₁ s₁ x) :
    ∃ depth x, runBody (eval body depth) b = some x := by
  induction b with
  | ret result s => exact ⟨0, _, rfl⟩
  | call c s next ih =>
    obtain ⟨⟨result, s'⟩, hret⟩ := h c s .here
    obtain ⟨depth', y, hnext⟩ := ih result s' fun c₁ s₁ hmade => h c₁ s₁ (.later hret hmade)
    obtain ⟨depth, heval⟩ := hret
    refine ⟨max depth depth', y, ?_⟩
    rw [runBody, eval_mono (Nat.le_max_left depth depth') heval]
    exact runBody_mono (fun _ _ _ hv => eval_mono (Nat.le_max_right depth depth') hv) hnext

/-- A call returns if something well-founded decreases with every call of its run. -/
theorem returns_of_rank {ρ : Type*} [LT ρ] [WellFoundedLT ρ] (rank : C → S → ρ)
    (h : ∀ c' s', Reaches body c s c' s' → ∀ c₁ s₁, Made body (body c' s') c₁ s₁ →
      rank c₁ s₁ < rank c' s') : ∃ x, Returns body c s x := by
  have hall : ∀ r : ρ, ∀ c s, rank c s = r →
      (∀ c' s', Reaches body c s c' s' → ∀ c₁ s₁, Made body (body c' s') c₁ s₁ →
        rank c₁ s₁ < rank c' s') → ∃ x, Returns body c s x := by
    intro r
    induction r using WellFoundedLT.induction with
    | ind r ih =>
      intro c s hr h
      have hmade : ∀ c₁ s₁, Made body (body c s) c₁ s₁ → ∃ x, Returns body c₁ s₁ x := by
        intro c₁ s₁ hm
        refine ih (rank c₁ s₁) (hr ▸ h c s (.refl c s) c₁ s₁ hm) c₁ s₁ rfl ?_
        intro c' s' hreach
        exact h c' s' (.step hm hreach)
      obtain ⟨depth, x, hrun⟩ := runBody_of_made hmade
      exact ⟨x, depth + 1, hrun⟩
  exact hall (rank c s) c s rfl h

section Level
variable {ρ : Type*} [Preorder ρ] (level : S → ρ)

def Under (bound : ρ) : Body C S R → Prop
  | .ret _ s => level s ≤ bound
  | .call _ s next => level s ≤ bound ∧ ∀ result s', level s' ≤ level s → Under bound (next result s')

variable {level} {bound : ρ}

theorem runBody_level {visit : C → S → Option (R × S)}
    (hv : ∀ c s result s', visit c s = some (result, s') → level s' ≤ level s)
    (hb : Under level bound b) {result : R} {s' : S} (h : runBody visit b = some (result, s')) :
    level s' ≤ bound := by
  induction b with
  | ret result₀ s =>
    obtain ⟨rfl, rfl⟩ := Prod.mk.inj (Option.some.inj h)
    exact hb
  | call c s next ih =>
    rw [runBody] at h
    cases hc : visit c s with
    | none =>
      rw [hc] at h
      cases h
    | some y =>
      obtain ⟨result₁, s₁⟩ := y
      rw [hc] at h
      exact ih result₁ s₁ (hb.2 result₁ s₁ (hv c s result₁ s₁ hc)) h

theorem eval_level (hbody : ∀ c s, Under level (level s) (body c s)) {depth : Nat} {result : R}
    {s' : S} (h : eval body depth c s = some (result, s')) : level s' ≤ level s := by
  induction depth generalizing c s result s' with
  | zero => cases h
  | succ depth ih => exact runBody_level (fun _ _ _ _ hv => ih hv) (hbody c s) h

theorem Made.level_le (hbody : ∀ c s, Under level (level s) (body c s)) (hb : Under level bound b)
    (h : Made body b c₁ s₁) : level s₁ ≤ bound := by
  induction h with
  | here => exact hb.1
  | later hret _ ih =>
    obtain ⟨depth, heval⟩ := hret
    exact ih (hb.2 _ _ (eval_level hbody heval))

end Level

def Each (P : C → Prop) : Body C S R → Prop
  | .ret _ _ => True
  | .call c _ next => P c ∧ ∀ result s', Each P (next result s')

theorem Made.each {P : C → Prop} (hb : Each P b) (h : Made body b c₁ s₁) : P c₁ := by
  induction h with
  | here => exact hb.1
  | later _ _ ih => exact ih (hb.2 _ _)

theorem Reaches.each {P : C → Prop} (hbody : ∀ c s, Each P (body c s))
    (h : Reaches body c s c₁ s₁) : c₁ = c ∨ P c₁ := by
  induction h with
  | refl => exact Or.inl rfl
  | step hmade _ ih =>
    rcases ih with rfl | hc
    · exact Or.inr (hmade.each (hbody _ _))
    · exact Or.inr hc

end Toolwhip.Lib.DepthLimit
