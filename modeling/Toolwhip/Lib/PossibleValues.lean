import Toolwhip.Lib.ThrowingFold

/-! # Sets of values that are computed or thrown

A computation that throws or returns all the values that something can have. Its specification says
when it returns, and what is then among the values; the rules follow the ways to put such computations
together. -/

namespace Toolwhip.Lib.PossibleValues
open ThrowingFold List
set_option autoImplicit false

universe u v
variable {ε : Type u} {α β : Type v}

variable {l : List α}
variable {f : α → Except ε β} {out : List β}

theorem mapM_ok : l.mapM f = .ok out ↔ List.Forall₂ (fun a b => f a = .ok b) l out := by
  induction l generalizing out with
  | nil =>
    constructor
    · intro h
      cases h
      exact .nil
    · intro h
      cases h
      rfl
  | cons a l ih =>
    simp only [mapM_cons, bind_eq_ok, ih]
    constructor
    · rintro ⟨b, hb, bs, hbs, hout⟩
      cases hout
      exact .cons hb hbs
    · intro h
      cases h with
      | cons hb hbs => exact ⟨_, hb, _, hbs, rfl⟩

theorem mapM_returns (h : ∀ a ∈ l, ∃ b, f a = .ok b) : ∃ out, l.mapM f = .ok out := by
  induction l with
  | nil => exact ⟨[], rfl⟩
  | cons a l ih =>
    obtain ⟨b, hb⟩ := h a mem_cons_self
    obtain ⟨bs, hbs⟩ := ih fun a' ha' => h a' (mem_cons_of_mem a ha')
    exact ⟨b :: bs, mapM_ok.mpr (.cons hb (mapM_ok.mp hbs))⟩

theorem exists_of_forall₂ {R : α → β → Prop} (h : List.Forall₂ R l out) :
    (∀ a ∈ l, ∃ b ∈ out, R a b) ∧ ∀ b ∈ out, ∃ a ∈ l, R a b := by
  induction h with
  | nil => exact ⟨nofun, nofun⟩
  | cons hab _ ih =>
    constructor
    · rw [forall_mem_cons]
      refine ⟨⟨_, mem_cons_self, hab⟩, ?_⟩
      intro a ha
      obtain ⟨b, hb, hR⟩ := ih.1 a ha
      exact ⟨b, mem_cons_of_mem _ hb, hR⟩
    · rw [forall_mem_cons]
      refine ⟨⟨_, mem_cons_self, hab⟩, ?_⟩
      intro b hb
      obtain ⟨a, ha, hR⟩ := ih.2 b hb
      exact ⟨a, mem_cons_of_mem _ ha, hR⟩

/-- It returns exactly if `c` holds, and then the values that satisfy `P`. -/
structure Computes (x : Except ε (List α)) (c : Prop) (P : α → Prop) : Prop where
  returns : c → ∃ values, x = .ok values
  onlyIf : ∀ values, x = .ok values → c
  exact : ∀ values, x = .ok values → ∀ v, v ∈ values ↔ P v

namespace Computes
variable {x y : Except ε (List α)} {c c' : Prop} {P Q : α → Prop}
variable {z : List α → Except ε (List β)} {f : β → Except ε (List α)} {σ : Type v}

theorem congr (h : Computes x c P) (hc : c ↔ c') (hP : ∀ v, P v ↔ Q v) : Computes x c' Q where
  returns hc' := h.returns (hc.mpr hc')
  onlyIf values hvalues := hc.mp (h.onlyIf values hvalues)
  exact values hvalues v := (h.exact values hvalues v).trans (hP v)

theorem pure (values : List α) : Computes (ε := ε) (.ok values) True (· ∈ values) where
  returns _ := ⟨values, rfl⟩
  onlyIf _ _ := trivial
  exact _ h v := by
    cases h
    exact Iff.rfl

theorem throw (e : ε) (P : α → Prop) : Computes (.error e) False P where
  returns h := h.elim
  onlyIf _ h := nomatch h
  exact _ h := nomatch h

variable {R : β → Prop}

theorem bind (h : Computes x c P)
    (hnext : ∀ values, (∀ v, v ∈ values ↔ P v) → Computes (z values) c' R) :
    Computes (x >>= z) (c ∧ c') R where
  returns hc := by
    obtain ⟨values, hvalues⟩ := h.returns hc.1
    obtain ⟨out, hout⟩ := (hnext values (h.exact values hvalues)).returns hc.2
    exact ⟨out, bind_eq_ok.mpr ⟨values, hvalues, hout⟩⟩
  onlyIf out hout := by
    obtain ⟨values, hvalues, hout⟩ := bind_eq_ok.mp hout
    exact ⟨h.onlyIf values hvalues, (hnext values (h.exact values hvalues)).onlyIf out hout⟩
  exact out hout := by
    obtain ⟨values, hvalues, hout⟩ := bind_eq_ok.mp hout
    exact (hnext values (h.exact values hvalues)).exact out hout

theorem andThen {k : List α → List β} (h : Computes x c P)
    (hk : ∀ values, (∀ v, v ∈ values ↔ P v) → ∀ w, w ∈ k values ↔ R w) :
    Computes (x >>= fun values => .ok (k values)) c R := by
  have hboth : Computes (x >>= fun values => .ok (k values)) (c ∧ True) R := by
    apply h.bind
    intro values hvalues
    exact (pure _).congr Iff.rfl (hk values hvalues)
  exact hboth.congr (iff_of_eq (and_true c)) fun _ => Iff.rfl

theorem map (h : Computes x c P) (g : α → β) :
    Computes (x >>= fun values => .ok (values.map g)) c (fun w => ∃ v, P v ∧ g v = w) := by
  apply h.andThen
  intro values hvalues w
  simp only [mem_map, hvalues]

theorem last {y : Except ε σ} {k : σ → List α}
    (h : Computes ((y >>= fun s => .ok (k s)) >>= z) c R) : Computes (y >>= fun s => z (k s)) c R := by
  cases y with
  | error e => exact h
  | ok s => exact h

theorem append (h : Computes x c P) (h' : Computes y c' Q) :
    Computes (x >>= fun values => y >>= fun values' => .ok (values ++ values')) (c ∧ c')
      (fun v => P v ∨ Q v) := by
  apply h.bind
  intro values hvalues
  apply h'.andThen
  intro values' hvalues' v
  rw [mem_append, hvalues, hvalues']

theorem once {y : Except ε σ} {z : σ → Except ε (List α)} {c : σ → Prop}
    {P : σ → α → Prop} (h : ∀ s, y = .ok s → Computes (z s) (c s) (P s)) :
    Computes (y >>= z) (∃ s, y = .ok s ∧ c s) (fun v => ∃ s, y = .ok s ∧ P s v) := by
  cases y with
  | error e =>
    apply (throw e _).congr
    · exact iff_of_false id nofun
    · exact fun v => iff_of_false id nofun
  | ok s =>
    apply (h s rfl).congr
    · simp
    · simp

theorem collect (l : List β) (f : β → Except ε α) :
    Computes (l.mapM f) (∀ b ∈ l, ∃ v, f b = .ok v) (fun v => ∃ b ∈ l, f b = .ok v) where
  returns := mapM_returns
  onlyIf out hout b hb := by
    obtain ⟨v, _, hv⟩ := (exists_of_forall₂ (mapM_ok.mp hout)).1 b hb
    exact ⟨v, hv⟩
  exact out hout v := by
    obtain ⟨hleft, hright⟩ := exists_of_forall₂ (mapM_ok.mp hout)
    constructor
    · exact hright v
    · rintro ⟨b, hb, hv⟩
      obtain ⟨v', hmem, hv'⟩ := hleft b hb
      cases hv.symm.trans hv'
      exact hmem

/-- A set for each element of a list. -/
theorem each {l : List β} {c : β → Prop} {P : β → α → Prop}
    {γ : Type v} {z : List (List α) → Except ε (List γ)} {R : γ → Prop}
    (h : ∀ b ∈ l, Computes (f b) (c b) (P b))
    (hnext : ∀ sets, List.Forall₂ (fun b values => ∀ v, v ∈ values ↔ P b v) l sets →
      Computes (z sets) c' R) :
    Computes (l.mapM f >>= z) ((∀ b ∈ l, c b) ∧ c') R := by
  have hall : ∀ {sets}, l.mapM f = .ok sets →
      (∀ b ∈ l, c b) ∧ List.Forall₂ (fun b values => ∀ v, v ∈ values ↔ P b v) l sets := by
    intro sets hsets
    have hforall := mapM_ok.mp hsets
    constructor
    · intro b hb
      obtain ⟨values, _, hvalues⟩ := (exists_of_forall₂ hforall).1 b hb
      exact (h b hb).onlyIf values hvalues
    · clear hsets hnext
      induction hforall with
      | nil => exact .nil
      | cons hb _ ih =>
        refine .cons ?_ (ih fun b hmem => h b (mem_cons_of_mem _ hmem))
        exact (h _ mem_cons_self).exact _ hb
  constructor
  · intro hc
    obtain ⟨sets, hsets⟩ := mapM_returns fun b hb => (h b hb).returns (hc.1 b hb)
    obtain ⟨out, hout⟩ := (hnext sets (hall hsets).2).returns hc.2
    exact ⟨out, bind_eq_ok.mpr ⟨sets, hsets, hout⟩⟩
  · intro out hout
    obtain ⟨sets, hsets, hout⟩ := bind_eq_ok.mp hout
    exact ⟨(hall hsets).1, (hnext sets (hall hsets).2).onlyIf out hout⟩
  · intro out hout
    obtain ⟨sets, hsets, hout⟩ := bind_eq_ok.mp hout
    exact (hnext sets (hall hsets).2).exact out hout

/-- The union over a list. -/
theorem union {l : List β} {c : β → Prop} {P : β → α → Prop}
    (h : ∀ b ∈ l, Computes (f b) (c b) (P b)) :
    Computes (l.mapM f >>= fun sets => .ok sets.flatten) (∀ b ∈ l, c b) (fun v => ∃ b ∈ l, P b v) where
  returns hc := by
    obtain ⟨sets, hsets⟩ := mapM_returns fun b hb => (h b hb).returns (hc b hb)
    exact ⟨sets.flatten, bind_eq_ok.mpr ⟨sets, hsets, rfl⟩⟩
  onlyIf out hout b hb := by
    obtain ⟨sets, hsets, _⟩ := bind_eq_ok.mp hout
    obtain ⟨values, _, hvalues⟩ := (exists_of_forall₂ (mapM_ok.mp hsets)).1 b hb
    exact (h b hb).onlyIf values hvalues
  exact out hout v := by
    obtain ⟨sets, hsets, hflat⟩ := bind_eq_ok.mp hout
    cases hflat
    obtain ⟨hleft, hright⟩ := exists_of_forall₂ (mapM_ok.mp hsets)
    rw [mem_flatten]
    constructor
    · rintro ⟨values, hmem, hv⟩
      obtain ⟨b, hb, hvalues⟩ := hright values hmem
      exact ⟨b, hb, ((h b hb).exact values hvalues v).mp hv⟩
    · rintro ⟨b, hb, hv⟩
      obtain ⟨values, hmem, hvalues⟩ := hleft b hb
      exact ⟨values, hmem, ((h b hb).exact values hvalues v).mpr hv⟩

end Computes
end Toolwhip.Lib.PossibleValues
