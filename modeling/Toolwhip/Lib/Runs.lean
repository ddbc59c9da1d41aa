import Mathlib.Logic.Relation

/-! # Runs and their events -/

set_option autoImplicit false

/-! ## Runs that record their steps

A state keeps the list of the events of its run. A step appends to it, so what
is known of a run's new events is known of each step's. -/

namespace Toolwhip.Lib.History
open Relation List

universe u v
variable {σ : Type u} {ε : Type v} (events : σ → List ε)

/-- The events of `t` that `s` has not seen. -/
def since (s t : σ) : List ε := (events t).drop (events s).length

variable {events} {Step : σ → σ → Prop}

theorem events_eq_append {s t : σ} (h : events s <+: events t) :
    events t = events s ++ since events s t := by
  obtain ⟨es, hes⟩ := h
  rw [since, ← hes, drop_left]

theorem since_eq {s t : σ} {es : List ε} (h : events t = events s ++ es) :
    since events s t = es := by
  rw [since, h, drop_left]

theorem since_append {s t u : σ} (hst : events s <+: events t) (htu : events t <+: events u) :
    since events s u = since events s t ++ since events t u := by
  apply since_eq
  rw [← append_assoc, ← events_eq_append hst, ← events_eq_append htu]

theorem run_appends (events : σ → List ε) (hgrow : ∀ s t, Step s t → events s <+: events t) {s t : σ}
    (h : ReflTransGen Step s t) : events s <+: events t := by
  induction h with
  | refl => exact prefix_refl _
  | tail _ hstep ih => exact ih.trans (hgrow _ _ hstep)

/-- An invariant that a step preserves when its events are all `ok` is preserved
by a run whose events are. -/
theorem run_invariant (events : σ → List ε) {ok : ε → Prop} {P : σ → Prop}
    (hgrow : ∀ s t, Step s t → events s <+: events t)
    (hstep : ∀ s t, Step s t → (∀ e ∈ since events s t, ok e) → P s → P t) {s t : σ}
    (h : ReflTransGen Step s t) (hok : ∀ e ∈ since events s t, ok e) (hs : P s) : P t := by
  induction h with
  | refl => exact hs
  | @tail t u hrun hlast ih =>
    have hsince := since_append (run_appends events hgrow hrun) (hgrow t u hlast)
    rw [hsince] at hok
    apply hstep t u hlast
    · intro e he
      exact hok e (mem_append_right _ he)
    · apply ih
      intro e he
      exact hok e (mem_append_left _ he)

end Toolwhip.Lib.History

/-! ## Runs that leave events

A run leaves events and ends with a value, or stops before it. What all events of a run
satisfy is proved along its binds. -/

namespace Toolwhip.Lib.EventRun

universe u v w x
variable {E : Type u} {S : Type v} {α β : Type w}

structure Traced (E : Type u) (S : Type v) (α : Type w) where
  events : List E
  result : Except S α

namespace Traced

def done (a : α) : Traced E S α := ⟨[], .ok a⟩

def stop (s : S) : Traced E S α := ⟨[], .error s⟩

def emit (e : E) (r : Traced E S α) : Traced E S α := ⟨e :: r.events, r.result⟩

def andThen (r : Traced E S α) (f : α → Traced E S β) : Traced E S β :=
  match r.result with
  | .error s => ⟨r.events, .error s⟩
  | .ok a => ⟨r.events ++ (f a).events, (f a).result⟩

instance : Monad (Traced E S) where
  pure := done
  bind := andThen

/-- What holds of all events, of a stop and of the value. -/
structure Satisfies (r : Traced E S α) (event : E → Prop) (stopped : S → Prop) (value : α → Prop) :
    Prop where
  events : ∀ e ∈ r.events, event e
  stops : ∀ s, r.result = .error s → stopped s
  values : ∀ a, r.result = .ok a → value a

variable {r : Traced E S α} {f : α → Traced E S β} {event : E → Prop} {stopped : S → Prop}
  {value : α → Prop} {post : β → Prop} {a : α} {s : S} {e : E}

theorem bind_def : (r >>= f) = r.andThen f := rfl

theorem satisfies_done (h : value a) : (done a : Traced E S α).Satisfies event stopped value where
  events := by simp [done]
  stops := by
    intro s hs
    cases hs
  values := by
    intro b hb
    cases hb
    exact h

theorem satisfies_pure (h : value a) :
    (pure a : Traced E S α).Satisfies event stopped value := satisfies_done h

theorem satisfies_stop (h : stopped s) : (stop s : Traced E S α).Satisfies event stopped value where
  events := by simp [stop]
  stops := by
    intro t ht
    cases ht
    exact h
  values := by
    intro a ha
    cases ha

theorem Satisfies.emit (h : r.Satisfies event stopped value) (he : event e) :
    (r.emit e).Satisfies event stopped value where
  events := by
    intro e' he'
    rcases List.mem_cons.mp he' with rfl | he'
    · exact he
    · exact h.events e' he'
  stops := h.stops
  values := h.values

theorem Satisfies.andThen (h : r.Satisfies event stopped value)
    (hf : ∀ a, value a → (f a).Satisfies event stopped post) :
    (r.andThen f).Satisfies event stopped post := by
  unfold Traced.andThen
  cases hr : r.result with
  | error s =>
    exact ⟨h.events, fun t ht => by cases ht; exact h.stops s hr, fun b hb => by cases hb⟩
  | ok a =>
    have hnext := hf a (h.values a hr)
    refine ⟨?_, hnext.stops, hnext.values⟩
    intro e he
    rcases List.mem_append.mp he with he | he
    · exact h.events e he
    · exact hnext.events e he

theorem Satisfies.bind (h : r.Satisfies event stopped value)
    (hf : ∀ a, value a → (f a).Satisfies event stopped post) :
    (r >>= f).Satisfies event stopped post := h.andThen hf

theorem Satisfies.total (h : r.Satisfies event (fun _ => False) value) :
    ∃ a, r.result = .ok a ∧ value a := by
  cases hr : r.result with
  | error s => exact (h.stops s hr).elim
  | ok a => exact ⟨a, rfl, h.values a hr⟩

theorem events_bind_left (he : e ∈ r.events) : e ∈ (r >>= f).events := by
  rw [bind_def]
  unfold Traced.andThen
  split
  · exact he
  · exact List.mem_append_left _ he

theorem events_bind_right (hr : r.result = .ok a) (he : e ∈ (f a).events) :
    e ∈ (r >>= f).events := by
  rw [bind_def]
  unfold Traced.andThen
  rw [hr]
  exact List.mem_append_right _ he

end Traced
end Toolwhip.Lib.EventRun
