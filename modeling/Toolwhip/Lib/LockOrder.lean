/-! # Two locks in order

A log of what a process does with its locks, of which it may hold a remote and a local
one. The remote lock is taken first and given back last. -/

namespace Toolwhip.Lib.LockOrder
set_option autoImplicit false
universe u

inductive LockKind where
  | remote
  /-- the local one -/
  | near
  deriving DecidableEq, Repr

inductive Event (Fd : Type u) where
  | acquire (kind : LockKind) (fd : Fd)
  | release (fd : Fd)
  deriving DecidableEq, Repr

/-- The locks that are held. -/
structure Held (Fd : Type u) where
  remote : Option Fd
  near : Option Fd
  deriving DecidableEq, Repr

section Order
variable {Fd : Type u} [DecidableEq Fd]

def Held.nothing : Held Fd := ⟨none, none⟩

/-- What is held after an event that keeps the order. -/
def Held.step (held : Held Fd) : Event Fd → Option (Held Fd)
  | .acquire .remote fd =>
    if held.remote = none ∧ held.near = none then some { held with remote := some fd } else none
  | .acquire .near fd => if held.near = none then some { held with near := some fd } else none
  | .release fd =>
    if held.near = some fd then some { held with near := none }
    else if held.remote = some fd ∧ held.near = none then some { held with remote := none }
    else none

def holding (events : List (Event Fd)) : Option (Held Fd) :=
  events.foldlM Held.step Held.nothing

def Disciplined (events : List (Event Fd)) : Prop := holding events = some Held.nothing

instance (events : List (Event Fd)) : Decidable (Disciplined events) :=
  inferInstanceAs (Decidable (holding events = some Held.nothing))

variable {events later : List (Event Fd)} {held : Held Fd} {fd : Fd}

theorem holding_append : holding (events ++ later) =
    (holding events).bind fun held => later.foldlM Held.step held := by
  unfold holding
  rw [List.foldlM_append]
  rfl

theorem holding_snoc (h : holding events = some held) (e : Event Fd) :
    holding (events ++ [e]) = held.step e := by
  rw [holding_append, h]
  simp

theorem acquire_remote (h : holding events = some Held.nothing) :
    holding (events ++ [.acquire .remote fd]) = some ⟨some fd, none⟩ := by
  rw [holding_snoc h]
  rfl

theorem acquire_local {r : Option Fd} (h : holding events = some ⟨r, none⟩) :
    holding (events ++ [.acquire .near fd]) = some ⟨r, some fd⟩ := by
  rw [holding_snoc h]
  rfl

theorem release_local {r : Option Fd} (h : holding events = some ⟨r, some fd⟩) :
    holding (events ++ [.release fd]) = some ⟨r, none⟩ := by
  rw [holding_snoc h]
  simp [Held.step]

theorem release_remote (h : holding events = some ⟨some fd, none⟩) :
    holding (events ++ [.release fd]) = some Held.nothing := by
  rw [holding_snoc h]
  simp [Held.step, Held.nothing]

theorem release_early {r l : Fd} (h : holding events = some ⟨some r, some l⟩) (hne : r ≠ l) :
    holding (events ++ [.release r]) = none := by
  rw [holding_snoc h]
  simp [Held.step, hne.symm]

theorem release_stale (h : holding events = some held) (hremote : held.remote ≠ some fd)
    (hnear : held.near ≠ some fd) : holding (events ++ [.release fd]) = none := by
  rw [holding_snoc h]
  simp [Held.step, hremote, hnear]

end Order
end Toolwhip.Lib.LockOrder
