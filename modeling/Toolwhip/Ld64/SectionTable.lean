import Mathlib.Algebra.Order.Monoid.WithTop
import Mathlib.Data.Prod.Lex
import Toolwhip.Lib.SortContract

/-! # The sections of the linker

`Section::find` makes one section for each pair of a section and a segment name. `assignIndexes`
sorts them by segment and numbers them. -/

namespace Toolwhip.Ld64.SectionTable
open Lib.SortContract List
set_option autoImplicit false

structure Section where
  fSectionName : String
  fSegmentName : String
  fZeroFill : Bool
  fIndex : Nat
  deriving DecidableEq, Inhabited

namespace Section

def Named (s : Section) (sectionName segmentName : String) : Prop :=
  s.fSectionName = sectionName ∧ s.fSegmentName = segmentName

def isNamed (s : Section) (sectionName segmentName : String) : Bool :=
  s.fSectionName == sectionName && s.fSegmentName == segmentName

theorem isNamed_iff {s : Section} {sectionName segmentName : String} :
    s.isNamed sectionName segmentName = true ↔ s.Named sectionName segmentName := by
  simp [isNamed, Named]

end Section

/-- The static members. A pointer to a section is its place in `objects`, where the sections are in
the order in which they were allocated. -/
structure Statics where
  objects : List Section := []
  fgMapping : String → Option Nat := fun _ => none
  fgSections : List Nat := []
  fgSegmentDiscoverOrder : List (String × Nat) := []

section Find

def known (t : Statics) (sectionName segmentName : String) : Option Nat :=
  match t.fgMapping sectionName with
  | none => none
  | some pos =>
    if (t.objects[pos]?).any (·.fSegmentName == segmentName) then some pos
    else t.fgSections.find? fun it => (t.objects[it]?).any (·.isNamed sectionName segmentName)

def make (t : Statics) (sectionName segmentName : String) (zeroFill : Bool) : Statics :=
  { t with
    objects := t.objects ++ [⟨sectionName, segmentName, zeroFill, t.fgSections.length⟩]
    fgMapping := Function.update t.fgMapping sectionName (some t.objects.length)
    fgSections := t.fgSections ++ [t.objects.length] }

variable (sizeAfter : Bool)

/-- Whether `size()` is evaluated after `operator[]` has made the entry, the language leaves open. -/
def firstOrder : Nat := if sizeAfter then 1 else 0

def remember (t : Statics) (segmentName : String) : Statics :=
  if t.fgSegmentDiscoverOrder.any (·.1 == segmentName) then t
  else
    { t with
      fgSegmentDiscoverOrder := t.fgSegmentDiscoverOrder ++
        [(segmentName, firstOrder sizeAfter + t.fgSegmentDiscoverOrder.length)] }

/-- With what happens between the new section and the segment's order. -/
def findThen (special : Statics → Statics) (t : Statics) (sectionName segmentName : String)
    (zeroFill : Bool) : Statics × Nat :=
  match known t sectionName segmentName with
  | some sect => (t, sect)
  | none =>
    (remember sizeAfter (special (make t sectionName segmentName zeroFill)) segmentName,
      t.objects.length)

def find (t : Statics) (sectionName segmentName : String) (zeroFill : Bool) : Statics × Nat :=
  findThen sizeAfter
    (fun t =>
      if sectionName = "__text" ∧ segmentName = "__TEXT" then
        (findThen sizeAfter id t "__textcoal_nt" "__TEXT" false).1
      else t)
    t sectionName segmentName zeroFill

structure Call where
  sectionName : String
  segmentName : String
  zeroFill : Bool

def run (t : Statics) : List Call → Statics × List Nat
  | [] => (t, [])
  | c :: calls =>
    let (t, sect) := find sizeAfter t c.sectionName c.segmentName c.zeroFill
    let (t, sects) := run t calls
    (t, sect :: sects)

end Find

section Assign

/-- `INT_MAX` stands above the order of every segment there is. -/
def segmentOrdinal (t : Statics) (segName : String) : WithTop Nat :=
  if segName = "__PAGEZERO" then WithTop.some 1
  else if segName = "__TEXT" then WithTop.some 2
  else if segName = "__DATA" then WithTop.some 3
  else if segName = "__OBJC" then WithTop.some 4
  else if segName = "__OBJC2" then WithTop.some 5
  else if segName = "__LINKEDIT" then ⊤
  else WithTop.some ((t.fgSegmentDiscoverOrder.lookup segName).getD 0 + 6)

def Sorter (t : Statics) (left right : Section) : Bool :=
  let leftSegOrdinal := segmentOrdinal t left.fSegmentName
  let rightSegOrdinal := segmentOrdinal t right.fSegmentName
  if leftSegOrdinal < rightSegOrdinal then true
  else if rightSegOrdinal < leftSegOrdinal then false
  else if !left.fZeroFill && right.fZeroFill then true
  else if left.fZeroFill && !right.fZeroFill then false
  else left.fIndex < right.fIndex

def deref (t : Statics) (p : Nat) : Section := t.objects.getD p default

theorem deref_of_getElem? {t : Statics} {p : Nat} {s : Section} (h : t.objects[p]? = some s) :
    deref t p = s := by
  rw [deref, getD_eq_getElem?_getD, h]
  rfl

/-- The sorter as `std::sort` calls it. -/
def sorterAt (t : Statics) (left right : Nat) : Bool := Sorter t (deref t left) (deref t right)

def number (newOrder : Nat) : List Nat → List Section → List Section
  | [], objects => objects
  | it :: rest, objects =>
    number (newOrder + 1) rest (objects.modify it fun s => { s with fIndex := newOrder })

/-- `sorted` is what `std::sort` has made of `fgSections`. -/
def assignIndexes (t : Statics) (sorted : List Nat) : Statics :=
  { t with fgSections := sorted, objects := number 1 sorted t.objects }

end Assign
section Consistent

structure Consistent (t : Statics) : Prop where
  sections : t.fgSections = List.range t.objects.length
  index : ∀ (p : Nat) (s : Section), t.objects[p]? = some s → s.fIndex = p
  distinct : ∀ (p q : Nat) (a b : Section), t.objects[p]? = some a → t.objects[q]? = some b →
    a.Named b.fSectionName b.fSegmentName → p = q
  mapped : ∀ name (p : Nat), t.fgMapping name = some p →
    ∃ s : Section, t.objects[p]? = some s ∧ s.fSectionName = name
  mapsAll : ∀ s ∈ t.objects, t.fgMapping s.fSectionName ≠ none

variable {t : Statics} {sectionName segmentName : String} {zeroFill : Bool} {p : Nat}

theorem known_some (h : Consistent t) (hknown : known t sectionName segmentName = some p) :
    ∃ s : Section, t.objects[p]? = some s ∧ s.Named sectionName segmentName := by
  unfold known at hknown
  split at hknown
  · cases hknown
  rename_i pos hpos
  split at hknown
  · rename_i hsegment
    cases hknown
    obtain ⟨s, hs, hname⟩ := h.mapped _ _ hpos
    rw [hs, Option.any_some, beq_iff_eq] at hsegment
    exact ⟨s, hs, hname, hsegment⟩
  · have hfound := find?_some hknown
    rw [Option.any_eq_true] at hfound
    obtain ⟨s, hs, hnamed⟩ := hfound
    exact ⟨s, hs, Section.isNamed_iff.mp hnamed⟩

theorem known_none (h : Consistent t) (hknown : known t sectionName segmentName = none) :
    ∀ s ∈ t.objects, ¬ s.Named sectionName segmentName := by
  intro s hs hnamed
  unfold known at hknown
  split at hknown
  · rename_i hpos
    apply h.mapsAll s hs
    rw [hnamed.1]
    exact hpos
  split at hknown
  · cases hknown
  rw [find?_eq_none] at hknown
  obtain ⟨p, hp⟩ := getElem?_of_mem hs
  have hmem : p ∈ t.fgSections := by
    rw [h.sections, mem_range]
    exact (List.getElem?_eq_some_iff.mp hp).1
  apply hknown p hmem
  rw [hp, Option.any_some]
  exact Section.isNamed_iff.mpr hnamed

theorem consistent_empty : Consistent {} where
  sections := rfl
  index := nofun
  distinct := nofun
  mapped := nofun
  mapsAll := nofun

theorem objects_make (t : Statics) (sectionName segmentName : String) (zeroFill : Bool) :
    (make t sectionName segmentName zeroFill).objects =
      t.objects ++ [⟨sectionName, segmentName, zeroFill, t.fgSections.length⟩] := rfl

theorem getElem?_make {q : Nat} {s : Section}
    (hq : (make t sectionName segmentName zeroFill).objects[q]? = some s) : t.objects[q]? = some s ∨
      q = t.objects.length ∧ s = ⟨sectionName, segmentName, zeroFill, t.fgSections.length⟩ := by
  rw [objects_make, getElem?_append] at hq
  split at hq
  · exact Or.inl hq
  rw [getElem?_singleton] at hq
  split at hq
  · cases hq
    exact Or.inr ⟨by omega, rfl⟩
  · cases hq

theorem consistent_make (h : Consistent t) (hnew : ∀ s ∈ t.objects, ¬ s.Named sectionName segmentName) :
    Consistent (make t sectionName segmentName zeroFill) where
  sections := by
    rw [objects_make, length_append, length_singleton, range_succ, ← h.sections]
    rfl
  index := by
    intro q s hq
    rcases getElem?_make hq with hold | ⟨rfl, rfl⟩
    · exact h.index q s hold
    · simp only [h.sections, length_range]
  distinct := by
    intro q r a b hq hr hnamed
    rcases getElem?_make hq with hqold | ⟨hqnew, ha⟩
    · rcases getElem?_make hr with hrold | ⟨hrnew, hb⟩
      · exact h.distinct q r a b hqold hrold hnamed
      subst b
      exact absurd hnamed (hnew a (mem_of_getElem? hqold))
    · rcases getElem?_make hr with hrold | ⟨hrnew, hb⟩
      · subst a
        exact absurd ⟨hnamed.1.symm, hnamed.2.symm⟩ (hnew b (mem_of_getElem? hrold))
      · omega
  mapped := by
    intro name q hq
    by_cases hname : name = sectionName
    · subst name
      have hlast : q = t.objects.length := by
        simpa [make] using hq.symm
      subst q
      exact ⟨_, by rw [objects_make, getElem?_concat_length], rfl⟩
    · have hold : t.fgMapping name = some q := by
        simpa [make, Function.update_of_ne hname] using hq
      obtain ⟨s, hs, hs'⟩ := h.mapped name q hold
      obtain ⟨hlen, _⟩ := List.getElem?_eq_some_iff.mp hs
      exact ⟨s, by rw [objects_make, getElem?_append_left hlen, hs], hs'⟩
  mapsAll := by
    intro s hs
    by_cases hname : s.fSectionName = sectionName
    · simp [make, hname]
    rw [objects_make, mem_append, mem_singleton] at hs
    rcases hs with hs | rfl
    · simpa [make, Function.update_of_ne hname] using h.mapsAll s hs
    · exact absurd rfl hname

end Consistent

section Orders
variable {special : Statics → Statics}

/-- Segments have orders of their own, and every section's segment has one: some of them, `soon`, get
theirs later. -/
structure Ordered (sizeAfter : Bool) (soon : String → Prop) (t : Statics) : Prop extends
    Consistent t where
  orders : t.fgSegmentDiscoverOrder.map Prod.snd =
    List.range' (firstOrder sizeAfter) t.fgSegmentDiscoverOrder.length
  discovered : ∀ s ∈ t.objects,
    soon s.fSegmentName ∨ s.fSegmentName ∈ t.fgSegmentDiscoverOrder.map Prod.fst

variable {sizeAfter : Bool} {soon : String → Prop} {t : Statics}
  {sectionName segmentName : String} {zeroFill : Bool}

theorem ordered_empty : Ordered sizeAfter soon {} :=
  { consistent_empty with
    orders := rfl
    discovered := nofun }

theorem ordered_make (zeroFill : Bool) (h : Ordered sizeAfter soon t)
    (hnew : ∀ s ∈ t.objects, ¬ s.Named sectionName segmentName) :
    Ordered sizeAfter (fun name => soon name ∨ name = segmentName)
      (make t sectionName segmentName zeroFill) :=
  { consistent_make h.toConsistent hnew with
    orders := h.orders
    discovered := by
      intro s hs
      rw [objects_make, mem_append, mem_singleton] at hs
      rcases hs with hs | rfl
      · rcases h.discovered s hs with hsoon | hmem
        · exact Or.inl (Or.inl hsoon)
        · exact Or.inr hmem
      · exact Or.inl (Or.inr rfl) }

theorem any_order_iff : t.fgSegmentDiscoverOrder.any (·.1 == segmentName) = true ↔
    segmentName ∈ t.fgSegmentDiscoverOrder.map Prod.fst := by
  rw [any_eq_true, mem_map]
  simp only [beq_iff_eq]

theorem objects_remember : (remember sizeAfter t segmentName).objects = t.objects := by
  unfold remember
  split
  · rfl
  · rfl

theorem consistent_remember (h : Consistent t) : Consistent (remember sizeAfter t segmentName) := by
  unfold remember
  split
  · exact h
  · exact { h with }

theorem ordered_remember (h : Ordered sizeAfter (fun name => soon name ∨ name = segmentName) t) :
    Ordered sizeAfter soon (remember sizeAfter t segmentName) := by
  refine { consistent_remember h.toConsistent with orders := ?_, discovered := ?_ }
  · unfold remember
    split
    · exact h.orders
    simp only [map_append, map_cons, map_nil, length_append,
      length_singleton, h.orders, range'_concat, Nat.one_mul]
  · intro s hs
    rw [objects_remember] at hs
    unfold remember
    split
    · rename_i hmem
      rcases h.discovered s hs with (hsoon | rfl) | hmem'
      · exact Or.inl hsoon
      · exact Or.inr (any_order_iff.mp hmem)
      · exact Or.inr hmem'
    simp only [map_append, map_cons, map_nil, mem_append,
      mem_singleton]
    rcases h.discovered s hs with (hsoon | hseg) | hmem
    · exact Or.inl hsoon
    · exact Or.inr (Or.inr hseg)
    · exact Or.inr (Or.inl hmem)

def Keeps (sizeAfter : Bool) (step : Statics → Statics) : Prop :=
  ∀ soon t, Ordered sizeAfter soon t → Ordered sizeAfter soon (step t) ∧ t.objects <+: (step t).objects

theorem keeps_id : Keeps sizeAfter id := fun _ _ h => ⟨h, prefix_refl _⟩

theorem findThen_keeps (hspecial : Keeps sizeAfter special)
    (sectionName segmentName : String) (zeroFill : Bool) : Keeps sizeAfter fun t =>
      (findThen sizeAfter special t sectionName segmentName zeroFill).1 := by
  intro soon t h
  simp only [findThen]
  split
  · exact ⟨h, prefix_refl _⟩
  rename_i hknown
  have hmade := ordered_make zeroFill h (known_none h.toConsistent hknown)
  obtain ⟨hafter, hgrown⟩ := hspecial _ _ hmade
  refine ⟨ordered_remember hafter, ?_⟩
  rw [objects_remember]
  exact (prefix_append _ _).trans hgrown

theorem findThen_named (hspecial : Keeps sizeAfter special) (h : Ordered sizeAfter soon t) :
    ∃ s : Section, (findThen sizeAfter special t sectionName segmentName zeroFill).1.objects[
        (findThen sizeAfter special t sectionName segmentName zeroFill).2]? = some s ∧
      s.Named sectionName segmentName := by
  unfold findThen
  split
  · rename_i hknown
    exact known_some h.toConsistent hknown
  rename_i hknown
  have hmade := ordered_make zeroFill h (known_none h.toConsistent hknown)
  obtain ⟨_, rest, hrest⟩ := hspecial _ _ hmade
  refine ⟨⟨sectionName, segmentName, zeroFill, t.fgSections.length⟩, ?_, rfl, rfl⟩
  simp only [objects_remember, ← hrest, objects_make, append_assoc]
  rw [getElem?_append_right (Nat.le_refl _), Nat.sub_self]
  rfl

theorem special_keeps (sectionName segmentName : String) : Keeps sizeAfter fun t =>
    if sectionName = "__text" ∧ segmentName = "__TEXT" then
      (findThen sizeAfter id t "__textcoal_nt" "__TEXT" false).1
    else t := by
  intro soon t h
  split
  · exact findThen_keeps keeps_id "__textcoal_nt" "__TEXT" false soon t h
  · exact ⟨h, prefix_refl _⟩

theorem find_keeps (sectionName segmentName : String) (zeroFill : Bool) :
    Keeps sizeAfter fun t => (find sizeAfter t sectionName segmentName zeroFill).1 :=
  findThen_keeps (special_keeps sectionName segmentName) sectionName segmentName zeroFill

theorem find_named (sectionName segmentName : String) (zeroFill : Bool)
    (h : Ordered sizeAfter soon t) :
    ∃ s : Section, (find sizeAfter t sectionName segmentName zeroFill).1.objects[
        (find sizeAfter t sectionName segmentName zeroFill).2]? = some s ∧
      s.Named sectionName segmentName :=
  findThen_named (special_keeps sectionName segmentName) h

theorem run_keeps (calls : List Call) : Keeps sizeAfter fun t => (run sizeAfter t calls).1 := by
  induction calls with
  | nil => exact keeps_id
  | cons c calls ih =>
    intro soon t h
    obtain ⟨hfind, hgrown⟩ := find_keeps c.sectionName c.segmentName c.zeroFill soon t h
    obtain ⟨hrest, hgrown'⟩ := ih soon _ hfind
    exact ⟨hrest, hgrown.trans hgrown'⟩

theorem getElem?_of_grown {l m : List Section} (h : l <+: m) {p : Nat} {s : Section}
    (hp : l[p]? = some s) : m[p]? = some s := by
  obtain ⟨rest, rfl⟩ := h
  rw [getElem?_append_left (List.getElem?_eq_some_iff.mp hp).1, hp]

theorem run_named (calls : List Call) (h : Ordered sizeAfter soon t) {i : Nat} {c : Call}
    (hi : calls[i]? = some c) : ∃ p s, (run sizeAfter t calls).2[i]? = some p ∧
      (run sizeAfter t calls).1.objects[p]? = some s ∧ s.Named c.sectionName c.segmentName := by
  induction calls generalizing t i with
  | nil => cases hi
  | cons d calls ih =>
    obtain ⟨hfind, _⟩ := find_keeps d.sectionName d.segmentName d.zeroFill soon t h
    cases i with
    | zero =>
      cases hi
      obtain ⟨s, hs, hnamed⟩ := find_named c.sectionName c.segmentName c.zeroFill h
      obtain ⟨_, hgrown⟩ := run_keeps calls soon _ hfind
      exact ⟨_, s, rfl, getElem?_of_grown hgrown hs, hnamed⟩
    | succ i => exact ih hfind hi

end Orders

section Order
variable {a b : String} {n : WithTop Nat}

def sectionKey (t : Statics) (s : Section) : WithTop Nat ×ₗ Bool ×ₗ Nat :=
  toLex (segmentOrdinal t s.fSegmentName, toLex (s.fZeroFill, s.fIndex))

theorem sectionKey_lt {t : Statics} {a b : Section} : sectionKey t a < sectionKey t b ↔
    segmentOrdinal t a.fSegmentName < segmentOrdinal t b.fSegmentName ∨
      segmentOrdinal t a.fSegmentName = segmentOrdinal t b.fSegmentName ∧
        (a.fZeroFill < b.fZeroFill ∨ a.fZeroFill = b.fZeroFill ∧ a.fIndex < b.fIndex) := by
  simp only [sectionKey, Prod.Lex.toLex_lt_toLex]

theorem sorter_comparesKey (t : Statics) : ComparesKey (Sorter t) (sectionKey t) := by
  intro a b
  rw [sectionKey_lt]
  simp only [Sorter]
  rcases lt_trichotomy (segmentOrdinal t a.fSegmentName) (segmentOrdinal t b.fSegmentName) with
    hlt | heq | hgt
  · rw [if_pos hlt]
    exact iff_of_true rfl (Or.inl hlt)
  · rw [heq, if_neg (lt_irrefl _), if_neg (lt_irrefl _)]
    cases a.fZeroFill <;> cases b.fZeroFill <;> simp
  rw [if_neg (lt_asymm hgt), if_pos hgt]
  refine iff_of_false Bool.false_ne_true ?_
  intro hlt
  rcases hlt with hlt | ⟨heq, _⟩
  · exact lt_asymm hgt hlt
  · exact hgt.ne heq.symm

theorem sorterAt_comparesKey (t : Statics) :
    ComparesKey (sorterAt t) fun p => sectionKey t (deref t p) :=
  fun a b => sorter_comparesKey t (deref t a) (deref t b)

/-! ### Segments and their ordinals -/

def fixedOrdinals : List (String × WithTop Nat) :=
  [("__PAGEZERO", WithTop.some 1), ("__TEXT", WithTop.some 2), ("__DATA", WithTop.some 3),
    ("__OBJC", WithTop.some 4), ("__OBJC2", WithTop.some 5), ("__LINKEDIT", ⊤)]

theorem segmentOrdinal_cases (t : Statics) (segName : String) :
    (segName, segmentOrdinal t segName) ∈ fixedOrdinals ∨
      segName ∉ fixedOrdinals.map Prod.fst ∧ segmentOrdinal t segName =
        WithTop.some ((t.fgSegmentDiscoverOrder.lookup segName).getD 0 + 6) := by
  by_cases hfixed : segName ∈ fixedOrdinals.map Prod.fst
  · left
    simp only [fixedOrdinals, map_cons, map_nil, mem_cons, not_mem_nil,
      or_false] at hfixed
    rcases hfixed with rfl | rfl | rfl | rfl | rfl | rfl <;>
      simp [segmentOrdinal, fixedOrdinals]
  refine Or.inr ⟨hfixed, ?_⟩
  simp only [fixedOrdinals, map_cons, map_nil, mem_cons, not_mem_nil,
    or_false, not_or] at hfixed
  obtain ⟨h₁, h₂, h₃, h₄, h₅, h₆⟩ := hfixed
  unfold segmentOrdinal
  rw [if_neg h₁, if_neg h₂, if_neg h₃, if_neg h₄, if_neg h₅, if_neg h₆]

theorem name_eq_of_nodup {α : Type} {l : List (String × α)} (hnodup : (l.map Prod.snd).Nodup)
    {n : α} (ha : (a, n) ∈ l) (hb : (b, n) ∈ l) : a = b :=
  (Prod.mk.inj (inj_on_of_nodup_map hnodup ha hb rfl)).1

theorem fixedOrdinals_inj (ha : (a, n) ∈ fixedOrdinals) (hb : (b, n) ∈ fixedOrdinals) : a = b :=
  name_eq_of_nodup (by decide) ha hb

theorem fixedOrdinals_small : ∀ e ∈ fixedOrdinals, e.2 = ⊤ ∨ e.2 < WithTop.some 6 := by decide

theorem fixedOrdinals_ne {a : String} (ha : (a, n) ∈ fixedOrdinals) (k : Nat) :
    n ≠ WithTop.some (k + 6) := by
  rintro rfl
  rcases fixedOrdinals_small _ ha with htop | hsmall
  · exact WithTop.coe_ne_top htop
  have : k + 6 < 6 := WithTop.coe_lt_coe.mp hsmall
  omega

variable {sizeAfter : Bool} {t : Statics} (h : Ordered sizeAfter (fun _ => False) t)
include h

theorem lookup_inj {k : Nat} (ha : t.fgSegmentDiscoverOrder.lookup a = some k)
    (hb : t.fgSegmentDiscoverOrder.lookup b = some k) : a = b := by
  obtain ⟨l₁, l₂, hl, _⟩ := List.lookup_eq_some_iff.mp ha
  obtain ⟨m₁, m₂, hm, _⟩ := List.lookup_eq_some_iff.mp hb
  have hnodup : (t.fgSegmentDiscoverOrder.map Prod.snd).Nodup := by
    rw [h.orders]
    exact nodup_range'
  apply name_eq_of_nodup hnodup
  · rw [hl]
    exact mem_append_right _ mem_cons_self
  · rw [hm]
    exact mem_append_right _ mem_cons_self

theorem lookup_of_mem {s : Section} (hs : s ∈ t.objects) :
    ∃ k, t.fgSegmentDiscoverOrder.lookup s.fSegmentName = some k := by
  rcases h.discovered s hs with hfalse | hmem
  · exact hfalse.elim
  obtain ⟨e, he, hname⟩ := List.mem_map.mp hmem
  rw [← Option.isSome_iff_exists, lookup_isSome_iff]
  exact ⟨e, he, beq_iff_eq.mpr hname.symm⟩

theorem segmentOrdinal_inj {a b : Section} (ha : a ∈ t.objects) (hb : b ∈ t.objects)
    (heq : segmentOrdinal t a.fSegmentName = segmentOrdinal t b.fSegmentName) :
    a.fSegmentName = b.fSegmentName := by
  rcases segmentOrdinal_cases t a.fSegmentName with hfixed | ⟨_, hother⟩
  · rcases segmentOrdinal_cases t b.fSegmentName with hfixed' | ⟨_, hother'⟩
    · rw [heq] at hfixed
      exact fixedOrdinals_inj hfixed hfixed'
    · exact absurd (heq.trans hother') (fixedOrdinals_ne hfixed _)
  rcases segmentOrdinal_cases t b.fSegmentName with hfixed' | ⟨_, hother'⟩
  · exact absurd (heq.symm.trans hother) (fixedOrdinals_ne hfixed' _)
  obtain ⟨k, hk⟩ := lookup_of_mem h ha
  obtain ⟨l, hl⟩ := lookup_of_mem h hb
  rw [hother, hother', hk, hl] at heq
  have hsix : k + 6 = l + 6 := WithTop.coe_inj.mp heq
  have hsame : k = l := by omega
  subst l
  exact lookup_inj h hk hl

omit h in
theorem segmentOrdinal_lt_top {segName : String} (hne : segName ≠ "__LINKEDIT") :
    segmentOrdinal t segName < segmentOrdinal t "__LINKEDIT" := by
  have htop : segmentOrdinal t "__LINKEDIT" = ⊤ := by
    simp [segmentOrdinal]
  rw [htop]
  rcases segmentOrdinal_cases t segName with hfixed | ⟨_, hother⟩
  · rw [lt_top_iff_ne_top]
    intro heq
    rw [heq] at hfixed
    exact hne (fixedOrdinals_inj hfixed (by simp [fixedOrdinals]))
  · rw [hother]
    exact WithTop.coe_lt_top _

end Order

section Numbered

def OneForEachPair (calls : List Call) (results : List Nat) : Prop :=
  results.length = calls.length ∧
    ∀ (i j : Nat) (c d : Call), calls[i]? = some c → calls[j]? = some d →
      (results[i]? = results[j]? ↔
        c.sectionName = d.sectionName ∧ c.segmentName = d.segmentName)

structure WellNumbered (sections : List Section) : Prop where
  indexes : (sections.map (·.fIndex)).Perm (List.range' 1 sections.length)
  contiguous : ∀ a ∈ sections, ∀ b ∈ sections, ∀ c ∈ sections, a.fSegmentName = c.fSegmentName →
    a.fIndex < b.fIndex → b.fIndex < c.fIndex → b.fSegmentName = a.fSegmentName
  zeroFillLast : ∀ a ∈ sections, ∀ b ∈ sections, a.fSegmentName = b.fSegmentName →
    a.fZeroFill = false → b.fZeroFill = true → a.fIndex < b.fIndex
  linkeditLast : ∀ a ∈ sections, ∀ b ∈ sections, a.fSegmentName ≠ "__LINKEDIT" →
    b.fSegmentName = "__LINKEDIT" → a.fIndex < b.fIndex

theorem getElem?_number {sorted : List Nat} (hnodup : sorted.Nodup) (newOrder : Nat)
    (objects : List Section) (p : Nat) :
    (number newOrder sorted objects)[p]? = (objects[p]?).map fun s =>
      if p ∈ sorted then { s with fIndex := newOrder + sorted.idxOf p } else s := by
  induction sorted generalizing newOrder objects with
  | nil => simp [number]
  | cons it rest ih =>
    obtain ⟨hit, hrest⟩ := List.nodup_cons.mp hnodup
    rw [number, ih hrest, getElem?_modify]
    by_cases heq : it = p
    · subst p
      simp [hit, Option.map_map, Function.comp_def]
    simp only [mem_cons, Ne.symm heq, false_or, idxOf_cons_ne rest heq, if_neg heq]
    cases objects[p]? with
    | none => rfl
    | some s =>
      simp only [Option.map_some, Option.map_eq_map, Nat.succ_eq_add_one, Nat.add_assoc,
        Nat.add_comm 1]

variable {sizeAfter : Bool} {t : Statics} {sorted : List Nat}
  (h : Ordered sizeAfter (fun _ => False) t) (hsorted : Sorted (sorterAt t) t.fgSections sorted)
include h hsorted

theorem sorted_strict :
    sorted.Pairwise fun p q => sectionKey t (deref t p) < sectionKey t (deref t q) := by
  apply hsorted.pairwise_lt (sorterAt_comparesKey t)
  · rw [h.sections]
    exact nodup_range
  · intro p hp q hq hkey
    rw [h.sections, mem_range] at hp hq
    have hindex : (deref t p).fIndex = (deref t q).fIndex := by
      simp only [sectionKey, toLex_inj, Prod.mk.injEq] at hkey
      exact hkey.2.2
    have hown : ∀ r, r < t.objects.length → (deref t r).fIndex = r := by
      intro r hr
      have hget := getElem?_eq_getElem hr
      rw [deref_of_getElem? hget]
      exact h.index r _ hget
    rw [hown p hp, hown q hq] at hindex
    exact hindex

theorem mem_sorted {p : Nat} : p ∈ sorted ↔ p < t.objects.length := by
  rw [hsorted.perm.mem_iff, h.sections, mem_range]

theorem sorted_nodup : sorted.Nodup := by
  rw [hsorted.perm.nodup_iff, h.sections]
  exact nodup_range

theorem getElem?_assigned (p : Nat) : (assignIndexes t sorted).objects[p]? =
    (t.objects[p]?).map fun s => { s with fIndex := 1 + sorted.idxOf p } := by
  unfold assignIndexes
  rw [getElem?_number (sorted_nodup h hsorted)]
  cases hp : t.objects[p]? with
  | none => rfl
  | some s =>
    have hmem : p ∈ sorted := (mem_sorted h hsorted).mpr (List.getElem?_eq_some_iff.mp hp).1
    rw [Option.map_some, Option.map_some, if_pos hmem]

theorem length_assigned : (assignIndexes t sorted).objects.length = t.objects.length := by
  have hend : ∀ n, (assignIndexes t sorted).objects.length ≤ n ↔ t.objects.length ≤ n := by
    intro n
    rw [← getElem?_eq_none_iff, ← getElem?_eq_none_iff, getElem?_assigned h hsorted,
      Option.map_eq_none_iff]
  exact Nat.le_antisymm ((hend _).mpr (Nat.le_refl _)) ((hend _).mp (Nat.le_refl _))

theorem exists_of_assigned {s : Section} (hs : s ∈ (assignIndexes t sorted).objects) :
    ∃ p, ∃ a ∈ t.objects, deref t p = a ∧ p ∈ sorted ∧ s = { a with fIndex := 1 + sorted.idxOf p } := by
  obtain ⟨p, hp⟩ := getElem?_of_mem hs
  rw [getElem?_assigned h hsorted, Option.map_eq_some_iff] at hp
  obtain ⟨a, ha, rfl⟩ := hp
  refine ⟨p, a, mem_of_getElem? ha, deref_of_getElem? ha, ?_, rfl⟩
  exact (mem_sorted h hsorted).mpr (List.getElem?_eq_some_iff.mp ha).1

theorem index_lt_iff {p q : Nat} (hp : p ∈ sorted) (hq : q ∈ sorted) :
    1 + sorted.idxOf p < 1 + sorted.idxOf q ↔
      sectionKey t (deref t p) < sectionKey t (deref t q) := by
  rw [← idxOf_lt_iff (sorted_strict h hsorted) hp hq]
  omega

theorem indexes_assigned : ((assignIndexes t sorted).objects.map (·.fIndex)).Perm
    (List.range' 1 (assignIndexes t sorted).objects.length) := by
  have hmap : (assignIndexes t sorted).objects.map (·.fIndex) =
      (List.range t.objects.length).map fun p => 1 + sorted.idxOf p := by
    apply ext_getElem?
    intro p
    rw [getElem?_map, getElem?_assigned h hsorted, getElem?_map]
    by_cases hp : p < t.objects.length
    · rw [getElem?_eq_getElem hp, getElem?_range hp]
      rfl
    have hend : (List.range t.objects.length).length ≤ p := by
      rw [length_range]
      exact Nat.le_of_not_lt hp
    rw [getElem?_eq_none (Nat.le_of_not_lt hp), getElem?_eq_none hend]
    rfl
  have hplaces : (sorted.map fun p => 1 + sorted.idxOf p) = List.range' 1 sorted.length := by
    apply ext_getElem
    · rw [length_map, length_range']
    · intro n hn _
      rw [length_map] at hn
      rw [getElem_map, (sorted_nodup h hsorted).idxOf_getElem n hn, getElem_range',
        Nat.one_mul]
  have hlen : sorted.length = t.objects.length := by
    rw [hsorted.perm.length_eq, h.sections, length_range]
  rw [hmap, length_assigned h hsorted, ← h.sections, ← hlen, ← hplaces]
  exact (hsorted.perm.map _).symm

theorem wellNumbered_assignIndexes : WellNumbered (assignIndexes t sorted).objects := by
  constructor
  · exact indexes_assigned h hsorted
  · intro a' ha' b' hb' c' hc' hac hab hbc
    obtain ⟨p, a, ha, hpa, hp, rfl⟩ := exists_of_assigned h hsorted ha'
    obtain ⟨q, b, hb, hqb, hq, rfl⟩ := exists_of_assigned h hsorted hb'
    obtain ⟨r, c, hc, hrc, hr, rfl⟩ := exists_of_assigned h hsorted hc'
    have hlt := (index_lt_iff h hsorted hp hq).mp hab
    have hlt' := (index_lt_iff h hsorted hq hr).mp hbc
    rw [hpa, hqb, sectionKey_lt] at hlt
    rw [hqb, hrc, sectionKey_lt] at hlt'
    apply segmentOrdinal_inj h hb ha
    have hle : segmentOrdinal t a.fSegmentName ≤ segmentOrdinal t b.fSegmentName := by
      rcases hlt with hlt | ⟨heq, _⟩
      · exact hlt.le
      · exact heq.le
    have hle' : segmentOrdinal t b.fSegmentName ≤ segmentOrdinal t a.fSegmentName := by
      rw [hac]
      rcases hlt' with hlt' | ⟨heq, _⟩
      · exact hlt'.le
      · exact heq.le
    exact le_antisymm hle' hle
  · intro a' ha' b' hb' hsegment hfill hfill'
    obtain ⟨p, a, _, hpa, hp, rfl⟩ := exists_of_assigned h hsorted ha'
    obtain ⟨q, b, _, hqb, hq, rfl⟩ := exists_of_assigned h hsorted hb'
    refine (index_lt_iff h hsorted hp hq).mpr ?_
    rw [hpa, hqb, sectionKey_lt]
    refine Or.inr ⟨congrArg _ hsegment, Or.inl ?_⟩
    rw [hfill, hfill']
    decide
  · intro a' ha' b' hb' hother hlinkedit
    obtain ⟨p, a, _, hpa, hp, rfl⟩ := exists_of_assigned h hsorted ha'
    obtain ⟨q, b, _, hqb, hq, rfl⟩ := exists_of_assigned h hsorted hb'
    refine (index_lt_iff h hsorted hp hq).mpr ?_
    rw [hpa, hqb, sectionKey_lt]
    left
    rw [hlinkedit]
    exact segmentOrdinal_lt_top hother

omit h hsorted in
theorem run_oneForEachPair (h : Ordered sizeAfter (fun _ => False) t) (calls : List Call) :
    OneForEachPair calls (run sizeAfter t calls).2 := by
  constructor
  · clear h
    induction calls generalizing t with
    | nil => rfl
    | cons c calls ih => exact congrArg (· + 1) ih
  · intro i j c d hi hj
    obtain ⟨p, s, hp, hs, hnamed⟩ := run_named calls h hi
    obtain ⟨q, s', hq, hs', hnamed'⟩ := run_named calls h hj
    obtain ⟨hafter, _⟩ := run_keeps calls (fun _ => False) t h
    rw [hp, hq, Option.some_inj, ← hnamed.1, ← hnamed.2, ← hnamed'.1, ← hnamed'.2]
    constructor
    · rintro rfl
      rw [hs] at hs'
      cases hs'
      exact ⟨rfl, rfl⟩
    · exact hafter.distinct p q s s' hs hs'

end Numbered

def textAndData : List Call :=
  [⟨"__bss", "__DATA", true⟩, ⟨"__data", "__DATA", false⟩, ⟨"__text", "__TEXT", false⟩,
    ⟨"__textcoal_nt", "__TEXT", false⟩]

end Toolwhip.Ld64.SectionTable
