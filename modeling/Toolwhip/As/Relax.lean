import Mathlib.Algebra.Order.Group.Nat
import Toolwhip.Lib.SettlingPasses

/-! # Relaxation of a section

`relax_section` of layout.c for the machines that have a relax table. A `long` has `w` bits, and all
addresses are taken modulo `2 ^ w`. A read through a null pointer or outside the table is `none`. -/

namespace Toolwhip.As.Relax
open Lib.SettlingPasses
set_option autoImplicit false

inductive RelaxState where
  | rs_fill
  | rs_align
  | rs_org
  | rs_machine_dependent
  deriving DecidableEq, Repr

/-- A frag of this chain, or `zero_address_frag` or one of another section, whose address stays. -/
inductive Place (w : Nat) where
  | chain (i : Nat)
  | elsewhere (fr_address : BitVec w)
  deriving DecidableEq, Repr

structure Symbol (w : Nat) where
  sy_value : BitVec w
  sy_frag : Place w
  deriving DecidableEq, Repr

structure Frag (w : Nat) where
  fr_address : BitVec w
  fr_fix : BitVec w
  fr_var : BitVec w
  fr_symbol : Option (Symbol w)
  fr_offset : BitVec w
  fr_type : RelaxState
  fr_subtype : BitVec w
  deriving DecidableEq, Repr

structure RelaxType (w : Nat) where
  rlx_forward : BitVec w
  rlx_backward : BitVec w
  rlx_length : UInt8
  rlx_more : BitVec w
  deriving DecidableEq, Repr

/-- `md_relax_table`: every link leads to a longer form. -/
structure RelaxTable (w : Nat) where
  entries : List (RelaxType w)
  inside : ∀ t ∈ entries, t.rlx_more.toNat < entries.length
  longer : ∀ t ∈ entries, t.rlx_more ≠ 0 → ∀ more, entries[t.rlx_more.toNat]? = some more →
    t.rlx_length < more.rlx_length

variable {w : Nat}

def relax_align (address alignment : BitVec w) : BitVec w :=
  let mask := ~~~ (BitVec.allOnes w <<< alignment.toNat)
  let new_address := (address + mask) &&& ~~~ mask
  new_address - address

/-! ## The first guess -/

structure Guess (w : Nat) where
  frags : List (Frag w)
  address : BitVec w
  align : BitVec 32

/-- `md_estimate_size_before_relax`: what it leaves of the frag, and its size -/
abbrev Estimate (w : Nat) := List (Frag w) → Nat → Frag w × BitVec w

def guessFrag (md_estimate_size_before_relax : Estimate w) (i : Nat) (g : Guess w) :
    Option (Guess w) :=
  match g.frags[i]? with
  | none => none
  | some fragP =>
    let f := { fragP with fr_address := g.address }
    let frags := g.frags.set i f
    let address := g.address + f.fr_fix
    match f.fr_type with
    | .rs_fill => some { g with frags := frags, address := address + f.fr_offset * f.fr_var }
    | .rs_align =>
      let offset := relax_align address f.fr_offset
      if f.fr_subtype ≠ 0 then
        if f.fr_subtype.slt offset then some { g with frags := frags, address := address }
        else
          let align := if g.align.setWidth w < f.fr_offset then f.fr_offset.setWidth 32 else g.align
          some ⟨frags, address + offset, align⟩
      else some { g with frags := frags, address := address + offset }
    | .rs_org => some { g with frags := frags, address := address }
    | .rs_machine_dependent =>
      let (estimated, size) := md_estimate_size_before_relax frags i
      some { g with frags := frags.set i estimated, address := address + size }

/-- The frags before the `k`-th have been guessed. -/
def guessTo (md_estimate_size_before_relax : Estimate w) (frags : List (Frag w)) (align : BitVec 32) :
    Nat → Option (Guess w)
  | 0 => some ⟨frags, 0, align⟩
  | k + 1 => (guessTo md_estimate_size_before_relax frags align k).bind
      (guessFrag md_estimate_size_before_relax k)

/-! ## A pass -/

section Pass
variable (table : RelaxTable w)

def addressOf (frags : List (Frag w)) : Place w → Option (BitVec w)
  | .chain j => frags[j]?.map Frag.fr_address
  | .elsewhere address => some address

def targetOf (frags : List (Frag w)) (f : Frag w) : Option (BitVec w) :=
  match f.fr_symbol with
  | none => some f.fr_offset
  | some symbol => (addressOf frags symbol.sy_frag).map (f.fr_offset + symbol.sy_value + ·)

/-- `oldoff` and `newoff` -/
def paddingAt (f : Frag w) (address : BitVec w) : BitVec w :=
  let off := relax_align (address + f.fr_fix) f.fr_offset
  if f.fr_subtype ≠ 0 ∧ f.fr_subtype < off then 0 else off

/-- We can't .org backwards. -/
def forwards (target after : BitVec w) : BitVec w :=
  if (0 : BitVec w).slt (target - after) then target - after else 0

def orgGrowth (frags : List (Frag w)) (i : Nat) (f : Frag w) (stretch : BitVec w) : Option (BitVec w) :=
  (targetOf frags f).bind fun target =>
    frags[i + 1]?.map fun next => forwards target next.fr_address - stretch

def entry (state : BitVec w) : Option (RelaxType w) := table.entries[state.toNat]?

def growTo (fits : RelaxType w → Bool) : Nat → BitVec w → Option (BitVec w)
  | 0, _ => none
  | fuel + 1, this_state =>
    match entry table this_state with
    | none => none
    | some this_type =>
      if this_type.rlx_more = 0 ∨ fits this_type = true then some this_state
      else growTo fits fuel this_type.rlx_more

def is_down_range (i : Nat) : Place w → Bool
  | .chain j => i < j
  | .elsewhere _ => false

/-- If the target has yet to be reached on this pass, assume it will move by `stretch`. -/
def stretchOf (frags : List (Frag w)) (i : Nat) (was_address : BitVec w) (f : Frag w)
    (stretch : BitVec w) : BitVec w :=
  match f.fr_symbol with
  | none => 0
  | some symbol =>
    match addressOf frags symbol.sy_frag with
    | none => 0
    | some address =>
      if was_address ≤ address ∧ is_down_range i symbol.sy_frag = true then stretch else 0

def machineGrowth (frags : List (Frag w)) (i : Nat) (was_address : BitVec w) (f : Frag w)
    (stretch : BitVec w) : Option (BitVec w × BitVec w) :=
  match targetOf frags f, entry table f.fr_subtype with
  | some target, some start_type =>
    let aim := target + stretchOf frags i was_address f stretch - f.fr_address - f.fr_fix
    let fits (t : RelaxType w) : Bool :=
      if aim.slt 0 then t.rlx_backward.sle aim else aim.sle t.rlx_forward
    match growTo table fits 256 f.fr_subtype with
    | none => none
    | some this_state =>
      (entry table this_state).map fun this_type =>
        let growth := BitVec.ofNat w this_type.rlx_length.toNat -
          BitVec.ofNat w start_type.rlx_length.toNat
        (growth, if growth ≠ 0 then this_state else f.fr_subtype)
  | _, _ => none

/-- The growth of a frag that has been moved, and its subtype then. -/
def growthOf (frags : List (Frag w)) (i : Nat) (was_address : BitVec w) (f : Frag w)
    (stretch : BitVec w) :
    Option (BitVec w × BitVec w) :=
  match f.fr_type with
  | .rs_fill => some (0, f.fr_subtype)
  | .rs_align => some (paddingAt f f.fr_address - paddingAt f was_address, f.fr_subtype)
  | .rs_org => (orgGrowth frags i f stretch).map fun growth => (growth, f.fr_subtype)
  | .rs_machine_dependent => machineGrowth table frags i was_address f stretch

structure Pass (w : Nat) where
  frags : List (Frag w)
  stretch : BitVec w
  stretched : Bool

def relaxFrag (i : Nat) (p : Pass w) : Option (Pass w) :=
  match p.frags[i]? with
  | none => none
  | some fragP =>
    let f := { fragP with fr_address := fragP.fr_address + p.stretch }
    (growthOf table (p.frags.set i f) i fragP.fr_address f p.stretch).map fun (growth, subtype) =>
      { frags := p.frags.set i { f with fr_subtype := subtype }
        stretch := p.stretch + growth
        stretched := p.stretched || growth != 0 }

/-- A pass before it comes to the `k`-th frag. -/
def passTo (frags : List (Frag w)) : Nat → Option (Pass w)
  | 0 => some ⟨frags, 0, false⟩
  | k + 1 => (passTo frags k).bind (relaxFrag table k)

def pass (frags : List (Frag w)) : Option (List (Frag w) × Bool) :=
  (passTo table frags frags.length).map fun p => (p.frags, p.stretched)

/-- The frags, and the alignment of the section -/
def relax_section (md_estimate_size_before_relax : Estimate w) (passes : Nat) (frags : List (Frag w))
    (align : BitVec 32) : Option (List (Frag w) × BitVec 32) :=
  (guessTo md_estimate_size_before_relax frags align frags.length).bind fun g =>
    (loop (pass table) passes g.frags).map fun frags => (frags, g.align)

end Pass

end Toolwhip.As.Relax
