
/-! # Words and the arguments of options

A command line is read from left to right; some words take the next one as their argument. -/

namespace Toolwhip.Lib.OptionWalk
open List
set_option autoImplicit false

universe u v
variable {α : Type u} {β : Type v}

inductive Role where
  | own
  | argument
  deriving DecidableEq, Repr

def roleAfter (takes : α → Bool) (a : α) : Role := if takes a then .argument else .own

def roles (takes : α → Bool) : Role → List α → List Role
  | _, [] => []
  | .argument, _ :: rest => .argument :: roles takes .own rest
  | .own, a :: rest => .own :: roles takes (roleAfter takes a) rest

def nextRole (takes : α → Bool) : Role → List α → Role
  | role, [] => role
  | .argument, _ :: rest => nextRole takes .own rest
  | .own, a :: rest => nextRole takes (roleAfter takes a) rest

def Dangles (takes : α → Bool) (words : List α) : Prop := nextRole takes .own words = .argument

instance (takes : α → Bool) (words : List α) : Decidable (Dangles takes words) :=
  inferInstanceAs (Decidable (_ = _))

def units (takes : α → Bool) : List α → List (α × Option α)
  | [] => []
  | [a] => [(a, none)]
  | a :: x :: rest =>
    if takes a then (a, some x) :: units takes rest else (a, none) :: units takes (x :: rest)

def byRole (takes : α → Bool) (change : Role → α → β) (words : List α) : List β :=
  List.zipWith change (roles takes .own words) words

variable {takes takes' : α → Bool} {a x : α} {rest words : List α}

theorem walk_induction {motive : List α → Prop} (takes : α → Bool) (nil : motive [])
    (word : ∀ a rest, takes a = false → motive rest → motive (a :: rest))
    (taking : ∀ a x rest, takes a = true → motive rest → motive (a :: x :: rest))
    (last : ∀ a, takes a = true → motive [a]) (words : List α) : motive words := by
  induction hlen : words.length using Nat.strongRecOn generalizing words with
  | ind n ih =>
    subst hlen
    cases words with
    | nil => exact nil
    | cons a rest =>
      cases ha : takes a with
      | false => exact word a rest ha (ih rest.length (Nat.lt_succ_self _) rest rfl)
      | true =>
        cases rest with
        | nil => exact last a ha
        | cons x rest =>
          apply taking a x rest ha
          apply ih rest.length _ rest rfl
          simp only [length_cons]
          omega

section Steps

@[simp] theorem not_dangles_nil : ¬ Dangles takes ([] : List α) := nofun

theorem dangles_word (h : takes a = false) : Dangles takes (a :: rest) ↔ Dangles takes rest := by
  simp [Dangles, nextRole, roleAfter, h]

theorem dangles_taking (h : takes a = true) :
    Dangles takes (a :: x :: rest) ↔ Dangles takes rest := by
  simp [Dangles, nextRole, roleAfter, h]

theorem dangles_last (h : takes a = true) : Dangles takes [a] := by
  simp [Dangles, nextRole, roleAfter, h]

theorem units_word (h : takes a = false) : units takes (a :: rest) = (a, none) :: units takes rest := by
  cases rest with
  | nil => rfl
  | cons x rest => simp [units, h]

theorem units_taking (h : takes a = true) :
    units takes (a :: x :: rest) = (a, some x) :: units takes rest := by
  simp [units, h]

variable {change : Role → α → β}

theorem byRole_word (h : takes a = false) :
    byRole takes change (a :: rest) = change .own a :: byRole takes change rest := by
  simp [byRole, roles, roleAfter, h]

theorem byRole_taking (h : takes a = true) : byRole takes change (a :: x :: rest) =
    change .own a :: change .argument x :: byRole takes change rest := by
  simp [byRole, roles, roleAfter, h]

end Steps

@[simp] theorem roles_length (takes : α → Bool) (role : Role) (words : List α) :
    (roles takes role words).length = words.length := by
  induction words generalizing role with
  | nil => cases role <;> rfl
  | cons a rest ih => cases role <;> simp [roles, ih]

/-- Two readings agree where each word comes out the same in its two roles. -/
theorem byRole_eq_iff {change change' : Role → α → β} :
    byRole takes change words = byRole takes' change' words ↔
      ∀ (p : Nat) (a : α) (role role' : Role), words[p]? = some a →
        (roles takes .own words)[p]? = some role → (roles takes' .own words)[p]? = some role' →
          change role a = change' role' a := by
  unfold byRole
  constructor
  · intro h p a role role' ha hrole hrole'
    have hp := congrArg (·[p]?) h
    simp only [getElem?_zipWith, ha, hrole, hrole', Option.some_inj] at hp
    exact hp
  · intro h
    apply ext_getElem?
    intro p
    rw [getElem?_zipWith, getElem?_zipWith]
    by_cases hp : p < words.length
    · have hrole := getElem?_eq_getElem ((roles_length takes .own words).symm ▸ hp)
      have hrole' := getElem?_eq_getElem ((roles_length takes' .own words).symm ▸ hp)
      have ha := getElem?_eq_getElem hp
      rw [hrole, hrole', ha]
      exact congrArg some (h p _ _ _ ha hrole hrole')
    · have hend : words[p]? = none := getElem?_eq_none (Nat.le_of_not_lt hp)
      rw [hend]
      cases (roles takes .own words)[p]? <;> cases (roles takes' .own words)[p]? <;> rfl

section Units

theorem units_append {before : List α} (h : ¬ Dangles takes before) :
    units takes (before ++ words) = units takes before ++ units takes words := by
  induction before using walk_induction takes with
  | nil => rfl
  | word a rest htakes ih =>
    rw [dangles_word htakes] at h
    rw [cons_append, units_word htakes, units_word htakes, ih h, cons_append]
  | taking a x rest htakes ih =>
    rw [dangles_taking htakes] at h
    rw [cons_append, cons_append, units_taking htakes, units_taking htakes, ih h,
      cons_append]
  | last a htakes => exact absurd (dangles_last htakes) h

def splitUnit (takes : α → Bool) : α × Option α → List (α × Option α)
  | (a, some x) => if takes a then [(a, some x)] else [(a, none), (x, none)]
  | (a, none) => [(a, none)]

theorem mem_splitUnit {u v : α × Option α} (h : v ∈ splitUnit takes u) :
    v.1 = u.1 ∨ (takes u.1 = false ∧ u.2 = some v.1) := by
  obtain ⟨a, arg⟩ := u
  cases arg with
  | none => exact Or.inl (congrArg Prod.fst (List.mem_singleton.mp h))
  | some x =>
    rw [splitUnit] at h
    split at h
    · exact Or.inl (congrArg Prod.fst (List.mem_singleton.mp h))
    rename_i hnot
    rcases List.mem_cons.mp h with rfl | h
    · exact Or.inl rfl
    rw [List.mem_singleton.mp h]
    exact Or.inr ⟨by simpa using hnot, rfl⟩

theorem first_mem_splitUnit (takes : α → Bool) (u : α × Option α) :
    ∃ v ∈ splitUnit takes u, v.1 = u.1 := by
  obtain ⟨a, arg⟩ := u
  cases arg with
  | none => exact ⟨(a, none), mem_cons_self, rfl⟩
  | some x =>
    rw [splitUnit]
    split
    · exact ⟨(a, some x), mem_cons_self, rfl⟩
    · exact ⟨(a, none), mem_cons_self, rfl⟩

theorem splitUnit_some (h : takes a = false) :
    splitUnit takes (a, some x) = [(a, none), (x, none)] := by
  rw [splitUnit, h]
  rfl

/-- An argument that is read as a word is no matter to the rest, unless it takes the next word. -/
theorem units_finer (hfiner : ∀ a, takes' a = true → takes a = true) (h : ¬ Dangles takes words)
    (hargs : ∀ a x, (a, some x) ∈ units takes words → takes' a = false → takes' x = false) :
    ¬ Dangles takes' words ∧ units takes' words = (units takes words).flatMap (splitUnit takes') := by
  induction words using walk_induction takes with
  | nil => exact ⟨not_dangles_nil, rfl⟩
  | word a rest htakes ih =>
    have htakes' : takes' a = false := by
      rw [← Bool.not_eq_true]
      intro htrue
      rw [hfiner a htrue] at htakes
      cases htakes
    rw [dangles_word htakes] at h
    rw [units_word htakes] at hargs ⊢
    obtain ⟨hend, hunits⟩ := ih h fun b x hmem => hargs b x (mem_cons_of_mem _ hmem)
    rw [dangles_word htakes', units_word htakes', hunits, flatMap_cons]
    exact ⟨hend, rfl⟩
  | taking a x rest htakes ih =>
    rw [dangles_taking htakes] at h
    rw [units_taking htakes] at hargs ⊢
    obtain ⟨hend, hunits⟩ := ih h fun b y hmem => hargs b y (mem_cons_of_mem _ hmem)
    rw [flatMap_cons]
    cases htakes' : takes' a with
    | true =>
      rw [dangles_taking htakes', units_taking htakes', hunits, splitUnit, if_pos htakes']
      exact ⟨hend, rfl⟩
    | false =>
      have hx := hargs a x mem_cons_self htakes'
      rw [dangles_word htakes', dangles_word hx, units_word htakes', units_word hx, hunits,
        splitUnit_some htakes']
      exact ⟨hend, rfl⟩
  | last a htakes => exact absurd (dangles_last htakes) h

theorem unit_argument (h : ¬ Dangles takes words) {u : α × Option α} (hu : u ∈ units takes words) :
    (takes u.1 = true ∧ ∃ x, u.2 = some x) ∨ (takes u.1 = false ∧ u.2 = none) := by
  induction words using walk_induction takes with
  | nil => cases hu
  | word a rest htakes ih =>
    rw [dangles_word htakes] at h
    rw [units_word htakes, mem_cons] at hu
    rcases hu with rfl | hu
    · exact Or.inr ⟨htakes, rfl⟩
    · exact ih h hu
  | taking a x rest htakes ih =>
    rw [dangles_taking htakes] at h
    rw [units_taking htakes, mem_cons] at hu
    rcases hu with rfl | hu
    · exact Or.inl ⟨htakes, x, rfl⟩
    · exact ih h hu
  | last a htakes => exact absurd (dangles_last htakes) h

/-- The words up to one that takes an argument. -/
theorem units_split (h : (a, some x) ∈ units takes words) :
    ∃ before after, words = before ++ a :: x :: after ∧ ¬ Dangles takes before ∧
      units takes words = units takes before ++ (a, some x) :: units takes after := by
  induction words using walk_induction takes with
  | nil => cases h
  | word b rest htakes ih =>
    rw [units_word htakes, mem_cons] at h
    rcases h with heq | h
    · cases heq
    obtain ⟨before, after, rfl, hend, hunits⟩ := ih h
    refine ⟨b :: before, after, rfl, ?_, ?_⟩
    · rw [dangles_word htakes]
      exact hend
    · rw [units_word htakes, units_word htakes, hunits, cons_append]
  | taking b y rest htakes ih =>
    rw [units_taking htakes, mem_cons] at h
    rcases h with heq | h
    · cases heq
      exact ⟨[], rest, rfl, not_dangles_nil, units_taking htakes⟩
    obtain ⟨before, after, rfl, hend, hunits⟩ := ih h
    refine ⟨b :: y :: before, after, rfl, ?_, ?_⟩
    · rw [dangles_taking htakes]
      exact hend
    · rw [units_taking htakes, units_taking htakes, hunits, cons_append]
  | last b htakes =>
    cases List.mem_singleton.mp h

end Units
end Toolwhip.Lib.OptionWalk
