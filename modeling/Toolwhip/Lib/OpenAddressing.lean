
/-! # Linear probing

A table of places that hold a key with its value, or nothing. Where every key can be come to, probing
finds the first place with the key from the start on, around the end; the scan of the whole table begins
elsewhere, and differs from it if both parts of the table hold the key. -/

namespace Toolwhip.Lib.OpenAddressing
open List
set_option autoImplicit false

universe u v
variable {κ : Type u} {α : Type v} [DecidableEq κ]

abbrev Table (κ : Type u) (α : Type v) := Nat → Option (κ × α)

def valueAt (table : Table κ α) (key : κ) (i : Nat) : Option α :=
  (table i).bind fun e => if e.1 = key then some e.2 else none

/-- Stops at a place with the key, or with nothing. -/
def probeList (table : Table κ α) (key : κ) : List Nat → Option α
  | [] => none
  | i :: rest =>
    match table i with
    | none => none
    | some e => if e.1 = key then some e.2 else probeList table key rest

def probe (table : Table κ α) (capacity start : Nat) (key : κ) : Option α :=
  probeList table key ((List.range capacity).map fun t => (start + t) % capacity)

def firstIn (table : Table κ α) (key : κ) (places : List Nat) : Option α :=
  places.findSome? (valueAt table key)

/-- Nothing is empty on the way to a key. -/
def Reachable (table : Table κ α) (capacity : Nat) (start : κ → Nat) : Prop :=
  ∀ i, i < capacity → ∀ e ∈ table i, ∀ t, t < capacity → (start e.1 + t) % capacity = i →
    ∀ t', t' < t → table ((start e.1 + t') % capacity) ≠ none

instance (table : Table κ α) (capacity : Nat) (start : κ → Nat) :
    Decidable (Reachable table capacity start) :=
  inferInstanceAs (Decidable (∀ i, i < capacity → ∀ e ∈ table i, ∀ t, t < capacity →
    (start e.1 + t) % capacity = i → ∀ t', t' < t → table ((start e.1 + t') % capacity) ≠ none))

variable {table : Table κ α} {key : κ} {places : List Nat} {capacity start : Nat}

theorem probeList_eq_firstIn
    (h : places.Pairwise fun i j => table i = none → valueAt table key j = none) :
    probeList table key places = firstIn table key places := by
  induction places with
  | nil => rfl
  | cons i rest ih =>
    obtain ⟨hfirst, hrest⟩ := List.pairwise_cons.mp h
    rw [probeList, firstIn, findSome?_cons]
    cases hi : table i with
    | none =>
      have hnone : rest.findSome? (valueAt table key) = none :=
        List.findSome?_eq_none_iff.mpr fun j hj => hfirst j hj hi
      simp [valueAt, hi, hnone]
    | some e =>
      by_cases hkey : e.1 = key
      · simp [valueAt, hi, hkey]
      simp only [valueAt, hi, Option.bind_some, if_neg hkey]
      exact ih hrest

/-- The places from the start on, then those before it -/
theorem probed_places (h : start < capacity) :
    (List.range capacity).map (fun t => (start + t) % capacity) =
    List.range' start (capacity - start) ++ List.range start := by
  have hsplit : List.range capacity =
      List.range (capacity - start) ++ (List.range start).map (capacity - start + ·) := by
    rw [← range_add]
    congr 1
    omega
  rw [hsplit, map_append, map_map, range'_eq_map_range]
  congr 1
  · apply map_congr_left
    intro t ht
    exact Nat.mod_eq_of_lt (by have := List.mem_range.mp ht; omega)
  · conv => rhs; rw [← map_id (List.range start)]
    apply map_congr_left
    intro t ht
    have ht := List.mem_range.mp ht
    have hround : start + (capacity - start + t) = t + capacity := by omega
    simp only [Function.comp_apply, hround, Nat.add_mod_right, id]
    exact Nat.mod_eq_of_lt (by omega)

theorem probe_eq {place : κ → Nat} (hreach : Reachable table capacity place)
    (hstart : place key < capacity) : probe table capacity (place key) key =
      (firstIn table key (List.range' (place key) (capacity - place key))).or
        (firstIn table key (List.range (place key))) := by
  rw [probe, probeList_eq_firstIn, probed_places hstart, firstIn, findSome?_append]
  · rfl
  · refine List.pairwise_map.mpr (List.pairwise_lt_range.imp_of_mem ?_)
    intro t' t _ ht hlt hempty
    have ht := List.mem_range.mp ht
    cases hvalue : valueAt table key ((place key + t) % capacity) with
    | none => rfl
    | some v =>
      obtain ⟨e, he, hkey⟩ := Option.bind_eq_some_iff.mp hvalue
      split at hkey
      · rename_i heq
        subst heq
        exact absurd hempty (hreach _ (Nat.mod_lt _ (by omega)) e he t ht rfl t' hlt)
      · simp at hkey

/-- A scan of the table finds what probing finds unless there is the key on both sides of the start, with
different values. -/
theorem scan_eq_probe_iff {place : κ → Nat} (hreach : Reachable table capacity place)
    (hstart : place key < capacity) :
    firstIn table key (List.range capacity) = probe table capacity (place key) key ↔
      ∀ v v', firstIn table key (List.range (place key)) = some v →
        firstIn table key (List.range' (place key) (capacity - place key)) = some v' → v = v' := by
  have hscan : firstIn table key (List.range capacity) =
      (firstIn table key (List.range (place key))).or
        (firstIn table key (List.range' (place key) (capacity - place key))) := by
    have hsplit : List.range capacity =
        List.range (place key) ++ List.range' (place key) (capacity - place key) := by
      rw [range'_eq_map_range, ← range_add]
      congr 1
      omega
    rw [hsplit, firstIn, findSome?_append]
    rfl
  rw [hscan, probe_eq hreach hstart]
  cases firstIn table key (List.range (place key)) <;>
    cases firstIn table key (List.range' (place key) (capacity - place key)) <;> simp

end Toolwhip.Lib.OpenAddressing
