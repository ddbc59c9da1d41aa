import Toolwhip.Distcc.Arg

/-! # Runs of the scan

The scan goes over options with their arguments. A run over a first part is a run over
the whole that has come to the rest, and the first word that sets the input or the output
splits a run in two. -/

namespace Toolwhip.Distcc
open Lib.CNumber Lib.ThrowingFold List
set_option autoImplicit false

section Words
variable {remote : RemoteAssemble} {a : Arg}

theorem kind_opt_o : kind remote (ascii "-o") = .opt_o := by
  cases remote <;> decide

theorem kind_joined (c : UInt8) (t : Arg) : kind remote (45 :: 111 :: c :: t) = .joined := by
  unfold kind
  rfl

theorem kind_dash_M (t : Arg) : kind remote (45 :: 77 :: 120 :: t) = .refused := by
  unfold kind
  rfl

theorem startswith_o : str_startswith (ascii "-o") a = true ↔ ∃ t, a = 45 :: 111 :: t := by
  unfold str_startswith
  refine isPrefixOf_iff_prefix.trans ?_
  constructor
  · intro ⟨t, h⟩
    exact ⟨t, h.symm⟩
  · intro ⟨t, h⟩
    exact ⟨t, h.symm⟩

variable (remote) in
theorem kind_of_startswith (h : str_startswith (ascii "-o") a = true) :
    a = ascii "-o" ∧ kind remote a = .opt_o ∨ a ≠ ascii "-o" ∧ kind remote a = .joined := by
  obtain ⟨t, rfl⟩ := startswith_o.mp h
  cases t with
  | nil => exact Or.inl ⟨rfl, kind_opt_o⟩
  | cons c t =>
    refine Or.inr ⟨?_, kind_joined c t⟩
    intro heq
    have hlen := congrArg List.length heq
    cases hlen

theorem kind_no_dash (h : a.head? ≠ some 45) : kind remote a =
    if dcc_is_source remote a then .source
    else if str_endswith (ascii ".o") a then .object else .plain := by
  unfold kind
  rw [if_neg h]

theorem of_ite {P : Kind → Prop} {c : Prop} [Decidable c] {x y : Kind} (hx : P x) (hy : P y) :
    P (if c then x else y) := by
  split
  · exact hx
  · exact hy

variable (remote) in
theorem kind_other_option (h : a.head? = some 45) (ho : ¬ str_startswith (ascii "-o") a = true) :
    kind remote a ∉ [Kind.source, .object, .opt_o, .joined] := by
  have hne : a ≠ ascii "-o" := by
    intro heq
    rw [heq] at ho
    exact ho (by decide)
  unfold kind
  rw [if_pos h, if_neg hne, if_neg ho]
  repeat' apply of_ite (P := fun k => k ∉ [Kind.source, .object, .opt_o, .joined])
  all_goals decide

theorem kind_dash (h : a.head? = some 45) : kind remote a ≠ .source ∧ kind remote a ≠ .object ∧
    (kind remote a = .opt_o → a = ascii "-o") ∧
    (kind remote a = .joined → str_startswith (ascii "-o") a = true) := by
  by_cases ho : str_startswith (ascii "-o") a = true
  · rcases kind_of_startswith remote ho with ⟨heq, _⟩ | ⟨_, hkind⟩
    · simp [heq, kind_opt_o]
    · simp [hkind, ho]
  have := kind_other_option remote h ho
  simp only [mem_cons, not_mem_nil, or_false, not_or] at this
  obtain ⟨hsource, hobject, hoption, hjoined⟩ := this
  exact ⟨hsource, hobject, fun h => absurd h hoption, fun h => absurd h hjoined⟩

variable (remote) in
theorem kind_no_dash_ne (h : a.head? ≠ some 45) :
    kind remote a = .source ∨ kind remote a = .object ∨ kind remote a = .plain := by
  rw [kind_no_dash h]
  split_ifs <;> simp

theorem eq_of_opt_o (h : kind remote a = .opt_o) : a = ascii "-o" := by
  by_cases hdash : a.head? = some 45
  · exact (kind_dash hdash).2.2.1 h
  have := kind_no_dash_ne remote hdash
  simp [h] at this

theorem startswith_of_joined (h : kind remote a = .joined) :
    str_startswith (ascii "-o") a = true := by
  by_cases hdash : a.head? = some 45
  · exact (kind_dash hdash).2.2.2 h
  have := kind_no_dash_ne remote hdash
  simp [h] at this

theorem source_iff : kind remote a = .source ↔
    a.head? ≠ some 45 ∧ dcc_is_source remote a = true := by
  constructor
  · intro h
    have hdash : a.head? ≠ some 45 := fun hdash => (kind_dash hdash).1 h
    refine ⟨hdash, ?_⟩
    rw [kind_no_dash hdash] at h
    split_ifs at h with hsource
    exact hsource
  · intro ⟨hdash, hsource⟩
    rw [kind_no_dash hdash, if_pos hsource]

end Words

section Steps
variable {remote : RemoteAssemble} {i : Nat} {k : Kind} {next : Option Arg} {a : Arg}
  {seen seen₁ seen₂ : Seen} {l arg rest : List Arg}

def Kind.arity (k : Kind) : Nat := if k.takesNext then 1 else 0

theorem lookAt_next (h : k.takesNext = false) (next' : Option Arg) :
    lookAt i k next seen = lookAt i k next' seen := by
  cases k <;> simp_all [lookAt, Kind.takesNext]

theorem scanWords_word (arg : List Arg) (harity : arg.length = (kind remote a).arity)
    (hlook : lookAt i (kind remote a) arg.head? seen = .ok seen₁) (rest : List Arg) :
    scanWords remote i (a :: (arg ++ rest)) seen =
      scanWords remote (i + 1 + arg.length) rest seen₁ := by
  rw [scanWords]
  unfold Kind.arity at harity
  cases htakes : (kind remote a).takesNext with
  | false =>
    simp only [htakes, Bool.false_eq_true, if_false, length_eq_zero_iff] at harity
    subst harity
    rw [lookAt_next htakes none]
    have hlook : lookAt i (kind remote a) none seen = .ok seen₁ := hlook
    rw [hlook]
    rfl
  | true =>
    simp only [htakes, if_true, length_eq_one_iff] at harity
    obtain ⟨x, rfl⟩ := harity
    have hlook : lookAt i (kind remote a) (some x) seen = .ok seen₁ := hlook
    simp only [singleton_append, head?_cons, hlook]
    rfl

theorem scanWords_cons (h : scanWords remote i (a :: l) seen = .ok seen₂) :
    ∃ arg rest seen₁, l = arg ++ rest ∧ arg.length = (kind remote a).arity ∧
      lookAt i (kind remote a) arg.head? seen = .ok seen₁ ∧
      scanWords remote (i + 1 + arg.length) rest seen₁ = .ok seen₂ := by
  rw [scanWords, bind_eq_ok] at h
  obtain ⟨seen₁, hlook, h⟩ := h
  unfold Kind.arity
  cases htakes : (kind remote a).takesNext with
  | false =>
    simp only [htakes, Bool.false_eq_true, if_false] at h ⊢
    exact ⟨[], l, seen₁, rfl, rfl, (lookAt_next htakes none).symm.trans hlook, h⟩
  | true =>
    simp only [htakes, if_true] at h ⊢
    cases l with
    | nil => cases h
    | cons x rest => exact ⟨[x], rest, seen₁, rfl, rfl, hlook, h⟩

variable (remote) in
theorem run_induction {motive : Nat → List Arg → Seen → Seen → Prop}
    (nil : ∀ i seen, motive i [] seen seen)
    (word : ∀ i a arg rest seen seen₁ seen₂, arg.length = (kind remote a).arity →
      lookAt i (kind remote a) arg.head? seen = .ok seen₁ →
      scanWords remote (i + 1 + arg.length) rest seen₁ = .ok seen₂ →
      motive (i + 1 + arg.length) rest seen₁ seen₂ → motive i (a :: (arg ++ rest)) seen seen₂) :
    ∀ (l : List Arg) (i : Nat) (seen seen₂ : Seen), scanWords remote i l seen = .ok seen₂ →
      motive i l seen seen₂ := by
  intro l
  induction hlen : l.length using Nat.strong_induction_on generalizing l with
  | _ n ih =>
    intro i seen seen₂ h
    cases l with
    | nil =>
      rw [scanWords] at h
      rw [← Except.ok.inj h]
      exact nil i seen
    | cons a l =>
      obtain ⟨arg, rest, seen₁, rfl, harity, hlook, hrest⟩ := scanWords_cons h
      rw [length_cons, length_append] at hlen
      apply word i a arg rest seen seen₁ seen₂ harity hlook hrest
      exact ih rest.length (by omega) rest rfl _ _ _ hrest

theorem scanWords_append {pre : List Arg} (h : scanWords remote i pre seen = .ok seen₁)
    (rest : List Arg) : scanWords remote i (pre ++ rest) seen =
      scanWords remote (i + pre.length) rest seen₁ := by
  revert h
  apply run_induction remote (motive := fun i pre seen seen₁ =>
    scanWords remote i (pre ++ rest) seen = scanWords remote (i + pre.length) rest seen₁)
  · intro i seen
    rfl
  · intro i a arg l seen seen₁ seen₂ harity hlook _ ih
    rw [cons_append, append_assoc, scanWords_word arg harity hlook, ih, length_cons,
      length_append]
    congr 1
    omega

theorem run_invariant {P : Nat → Seen → Prop}
    (step : ∀ i a next seen seen₁ j, lookAt i (kind remote a) next seen = .ok seen₁ →
      i < j → i + (kind remote a).arity < j → P i seen → P j seen₁)
    (h : scanWords remote i l seen = .ok seen₁) (hP : P i seen) : P (i + l.length) seen₁ := by
  revert h hP
  apply run_induction remote (motive := fun i l seen seen₁ => P i seen → P (i + l.length) seen₁)
  · intro i seen hP
    exact hP
  · intro i a arg rest seen seen₁ seen₂ harity hlook _ ih hP
    have hstep := step i a _ seen seen₁ (i + 1 + arg.length) hlook (by omega) (by omega) hP
    have hend : i + (a :: (arg ++ rest)).length = i + 1 + arg.length + rest.length := by
      rw [length_cons, length_append]
      omega
    rw [hend]
    exact ih hstep

theorem run_first {P : Seen → Prop} (h : scanWords remote i l seen = .ok seen₂)
    (hnot : ¬ P seen) (hP : P seen₂) :
    ∃ pre a arg rest before after, l = pre ++ a :: (arg ++ rest) ∧
      scanWords remote i pre seen = .ok before ∧ ¬ P before ∧
      arg.length = (kind remote a).arity ∧
      lookAt (i + pre.length) (kind remote a) arg.head? before = .ok after ∧ P after ∧
      scanWords remote (i + pre.length + 1 + arg.length) rest after = .ok seen₂ := by
  revert h hnot hP
  apply run_induction remote (motive := fun i l seen seen₂ => ¬ P seen → P seen₂ →
    ∃ pre a arg rest before after, l = pre ++ a :: (arg ++ rest) ∧
      scanWords remote i pre seen = .ok before ∧ ¬ P before ∧
      arg.length = (kind remote a).arity ∧
      lookAt (i + pre.length) (kind remote a) arg.head? before = .ok after ∧ P after ∧
      scanWords remote (i + pre.length + 1 + arg.length) rest after = .ok seen₂)
  · intro i seen hnot hP
    exact absurd hP hnot
  · intro i a arg rest seen seen₁ seen₂ harity hlook hrest ih hnot hP
    by_cases hnow : P seen₁
    · exact ⟨[], a, arg, rest, seen, seen₁, rfl, rfl, hnot, harity, hlook, hnow, hrest⟩
    obtain ⟨pre, b, arg', rest', before, after, rfl, hpre, hbefore, harity', hlook', hafter,
      hrest'⟩ := ih hnow hP
    have hlen : i + (a :: (arg ++ pre)).length = i + 1 + arg.length + pre.length := by
      rw [length_cons, length_append]
      omega
    refine ⟨a :: (arg ++ pre), b, arg', rest', before, after, by simp, ?_, hbefore, harity', ?_,
      hafter, ?_⟩
    · rw [scanWords_word arg harity hlook, hpre]
    · rw [hlen, hlook']
    · rw [hlen, hrest']

theorem lookAt_opt_x (h : lookAt i .opt_x next seen = .ok seen₁) :
    ∃ ext, seen₁ = { seen with optx_ext := some ext } := by
  cases next with
  | none => cases h
  | some lang =>
    simp only [lookAt, giveUp] at h
    split_ifs at h
    split at h
    · cases h
    · exact ⟨_, (Except.ok.inj h).symm⟩

theorem gotOutput_ok {place : Place} : gotOutput place seen = .ok seen₁ ↔
    seen.output = none ∧ seen₁ = { seen with output := some place } := by
  unfold gotOutput giveUp
  cases seen.output with
  | none => simp [eq_comm]
  | some p => simp

theorem lookAt_source : lookAt i .source next seen = .ok seen₁ ↔
    seen.input = none ∧ seen₁ = { seen with input := some i } := by
  unfold lookAt giveUp
  cases seen.input with
  | none => simp [eq_comm]
  | some p => simp

theorem lookAt_input (h : lookAt i k next seen = .ok seen₁) :
    (k = .source ∧ seen.input = none ∧ seen₁ = { seen with input := some i }) ∨
    (k ≠ .source ∧ seen₁.input = seen.input) := by
  cases k with
  | source => exact Or.inl ⟨rfl, lookAt_source.mp h⟩
  | refused => cases h
  | opt_x =>
    obtain ⟨ext, rfl⟩ := lookAt_opt_x h
    exact Or.inr ⟨by simp, rfl⟩
  | opt_o | joined | object =>
    obtain ⟨_, rfl⟩ := gotOutput_ok.mp h
    exact Or.inr ⟨by simp, rfl⟩
  | plain | withArgument | opt_c | opt_S =>
    rw [← Except.ok.inj h]
    exact Or.inr ⟨by simp, rfl⟩

def Kind.givesOutput : Kind → Bool
  | .opt_o | .joined | .object => true
  | _ => false

/-- The place of the output that the word at `i` gives. -/
def placeOf (i : Nat) : Kind → Place
  | .opt_o => .element (i + 1)
  | .joined => .suffix i
  | _ => .element i

theorem lookAt_output (h : lookAt i k next seen = .ok seen₁) :
    (k.givesOutput = true ∧ seen.output = none ∧
      seen₁ = { seen with output := some (placeOf i k) }) ∨
    (k.givesOutput = false ∧ seen₁.output = seen.output) := by
  cases k with
  | opt_o | joined | object => exact Or.inl ⟨rfl, gotOutput_ok.mp h⟩
  | refused => cases h
  | opt_x =>
    obtain ⟨ext, rfl⟩ := lookAt_opt_x h
    exact Or.inr ⟨rfl, rfl⟩
  | source =>
    obtain ⟨_, rfl⟩ := lookAt_source.mp h
    exact Or.inr ⟨rfl, rfl⟩
  | plain | withArgument | opt_c | opt_S =>
    rw [← Except.ok.inj h]
    exact Or.inr ⟨rfl, rfl⟩

theorem lookAt_gives (hgives : k.givesOutput = true) : lookAt i k next seen = .ok seen₁ ↔
    seen.output = none ∧ seen₁ = { seen with output := some (placeOf i k) } := by
  cases k <;> first | exact gotOutput_ok | cases hgives

end Steps
end Toolwhip.Distcc
