import Toolwhip.Ld64.ObjectFile
import Toolwhip.Lib.SuccessorChains

/-! # The cluster-building pass of Linker::sortAtoms

Follow-on references put atoms into clusters. `followOnStarts` maps an atom of
a cluster to its first atom, `followOnNexts` to the one after it. The loops of
the pass follow `followOnNexts` and may run forever, so they carry fuel. -/

namespace Toolwhip.Ld64
open Function List
set_option autoImplicit false
variable {fuel : Nat}

/-- `operator[]` creates a `NULL` entry for a key it does not find, so both maps
are read as total functions; the key `NULL` itself only ever holds `NULL`. -/
structure Clusters where
  followOnStarts : AtomPtr → Option AtomPtr := fun _ => none
  followOnNexts : AtomPtr → Option AtomPtr := fun _ => none

/-- `while (followOnNexts[originalPrevious] != targetAtom)`: past the end of the
chain it keeps reading the entry of `NULL`. -/
def findPrevious (nexts : AtomPtr → Option AtomPtr) (targetAtom : AtomPtr) :
    Nat → Option AtomPtr → Option AtomPtr
  | 0, _ => none
  | fuel + 1, none => findPrevious nexts targetAtom fuel none
  | fuel + 1, some previous =>
    if nexts previous = some targetAtom then some previous
    else findPrevious nexts targetAtom fuel (nexts previous)

/-- The loop that makes `atom` the start of everything from it on. -/
def relabelStarts (nexts : AtomPtr → Option AtomPtr) (atom : AtomPtr) :
    Nat → Option AtomPtr → (AtomPtr → Option AtomPtr) → Option (AtomPtr → Option AtomPtr)
  | 0, _, _ => none
  | _ + 1, none, starts => some starts
  | fuel + 1, some nextAtom, starts =>
    relabelStarts nexts atom fuel (nexts nextAtom) (update starts nextAtom (some atom))

/-- The loop that looks for what precedes the alias and puts `atom` after it. -/
def insertBeforeAlias (atom originalPrevious : AtomPtr) :
    Nat → Option AtomPtr → (AtomPtr → Option AtomPtr) → Option (AtomPtr → Option AtomPtr)
  | 0, _, _ => none
  | _ + 1, none, nexts => some nexts
  | fuel + 1, some a, nexts =>
    if nexts a = some originalPrevious then some (update nexts a (some atom))
    else insertBeforeAlias atom originalPrevious fuel (nexts a) nexts

/-- There already is an atom that says `targetAtom` must be its follow-on. -/
def insertIntoCluster (objs : Objects) (fuel : Nat) (c : Clusters)
    (atom targetAtom originalStart : AtomPtr) : Option Clusters :=
  match findPrevious c.followOnNexts targetAtom fuel (some originalStart) with
  | none => none
  | some originalPrevious =>
    if (objs.atom originalPrevious).getSize ≠ 0 ∧ (objs.atom atom).getSize ≠ 0 then
      some c
    else if (objs.atom originalPrevious).getSize = 0 then
      let nexts := update c.followOnNexts atom (some originalPrevious)
      if originalPrevious = originalStart then
        (relabelStarts nexts atom fuel (some atom) c.followOnStarts).map fun starts =>
          ⟨starts, nexts⟩
      else
        (insertBeforeAlias atom originalPrevious fuel (some originalStart) nexts).map fun nexts =>
          ⟨update c.followOnStarts atom (some originalStart), nexts⟩
    else
      some
        { followOnStarts := update c.followOnStarts atom (some originalStart)
          followOnNexts := update (update c.followOnNexts atom (c.followOnNexts originalPrevious))
            originalPrevious (some atom) }

/-- One follow-on reference from `atom` to `targetAtom`. -/
def processFollowOn (objs : Objects) (fuel : Nat) (c : Clusters) (ref : AtomPtr × AtomPtr) :
    Option Clusters :=
  let (atom, targetAtom) := ref
  match c.followOnStarts atom, c.followOnStarts targetAtom, c.followOnNexts atom with
  | none, none, _ =>
    some
      { followOnStarts := update (update c.followOnStarts atom (some atom)) targetAtom (some atom)
        followOnNexts := update (update c.followOnNexts atom (some targetAtom)) targetAtom none }
  | some start, none, none =>
    some
      { followOnStarts := update c.followOnStarts targetAtom (some start)
        followOnNexts := update (update c.followOnNexts atom (some targetAtom)) targetAtom none }
  | _, _, some _ => some c
  | _, some originalStart, none => insertIntoCluster objs fuel c atom targetAtom originalStart

def followOnRefs (objs : Objects) (fAllAtoms : List AtomPtr) : List (AtomPtr × AtomPtr) :=
  fAllAtoms.flatMap fun atom => (objs.atom atom).getReferences.filterMap fun ref =>
    if ref.getKind = kFollowOn then ref.fToTarget.map fun target => (atom, target) else none

def buildClusters (objs : Objects) (fuel : Nat) (c : Clusters)
    (refs : List (AtomPtr × AtomPtr)) : Option Clusters :=
  refs.foldlM (processFollowOn objs fuel) c

section Loops

variable {nexts : AtomPtr → Option AtomPtr} {atom targetAtom originalPrevious : AtomPtr}
variable {fuel : Nat} {nexts' : AtomPtr → Option AtomPtr} {from' : Option AtomPtr} {p : AtomPtr}

theorem findPrevious_spec
    (h : findPrevious nexts targetAtom fuel from' = some p) : nexts p = some targetAtom := by
  induction fuel generalizing from' with
  | zero => cases h
  | succ fuel ih =>
    cases from' with
    | none => exact ih h
    | some q =>
      simp only [findPrevious] at h
      split at h
      · rename_i hq
        cases h
        exact hq
      · exact ih h

theorem findPrevious_diverges (h : ∀ p, nexts p ≠ some targetAtom) (fuel : Nat)
    (from' : Option AtomPtr) : findPrevious nexts targetAtom fuel from' = none := by
  induction fuel generalizing from' with
  | zero => rfl
  | succ fuel ih =>
    cases from' with
    | none => exact ih none
    | some q =>
      simp only [findPrevious, if_neg (h q)]
      exact ih (nexts q)

variable {fuel' : Nat}

theorem findPrevious_mono
    (hle : fuel ≤ fuel') (h : findPrevious nexts targetAtom fuel from' = some p) :
    findPrevious nexts targetAtom fuel' from' = some p := by
  induction fuel generalizing fuel' from' with
  | zero => cases h
  | succ fuel ih =>
    obtain ⟨fuel', rfl⟩ : ∃ k, fuel' = k + 1 := ⟨fuel' - 1, by omega⟩
    cases from' with
    | none => exact ih (by omega) h
    | some q =>
      simp only [findPrevious] at h ⊢
      split at h
      · rename_i hq
        rw [if_pos hq]
        exact h
      · rename_i hq
        rw [if_neg hq]
        exact ih (by omega) h

variable {cur : Option AtomPtr}

theorem relabelStarts_mono {starts starts' : AtomPtr → Option AtomPtr} (hle : fuel ≤ fuel')
    (h : relabelStarts nexts atom fuel cur starts = some starts') :
    relabelStarts nexts atom fuel' cur starts = some starts' := by
  induction fuel generalizing fuel' cur starts with
  | zero => cases h
  | succ fuel ih =>
    obtain ⟨fuel', rfl⟩ : ∃ k, fuel' = k + 1 := ⟨fuel' - 1, by omega⟩
    cases cur with
    | none => exact h
    | some q => exact @ih fuel' _ _ (by omega) h

theorem insertBeforeAlias_mono (hle : fuel ≤ fuel')
    (h : insertBeforeAlias atom originalPrevious fuel cur nexts = some nexts') :
    insertBeforeAlias atom originalPrevious fuel' cur nexts = some nexts' := by
  induction fuel generalizing fuel' cur with
  | zero => cases h
  | succ fuel ih =>
    obtain ⟨fuel', rfl⟩ : ∃ k, fuel' = k + 1 := ⟨fuel' - 1, by omega⟩
    cases cur with
    | none => exact h
    | some q =>
      simp only [insertBeforeAlias] at h ⊢
      split at h
      · rename_i hq
        rw [if_pos hq]
        exact h
      · rename_i hq
        rw [if_neg hq]
        exact ih (by omega) h

theorem relabelStarts_eq_or {cur : Option AtomPtr} {starts starts' : AtomPtr → Option AtomPtr}
    (h : relabelStarts nexts atom fuel cur starts = some starts') (b : AtomPtr) :
    starts' b = starts b ∨ starts' b = some atom := by
  induction fuel generalizing cur starts with
  | zero => cases h
  | succ fuel ih =>
    cases cur with
    | none =>
      cases h
      exact Or.inl rfl
    | some q =>
      rcases ih h with hb | hb
      · by_cases hq : b = q
        · subst b
          rw [hb, update_self]
          exact Or.inr rfl
        · rw [hb, update_of_ne hq]
          exact Or.inl rfl
      · exact Or.inr hb

theorem relabelStarts_self {starts starts' : AtomPtr → Option AtomPtr}
    (h : relabelStarts nexts atom fuel (some atom) starts = some starts') :
    starts' atom = some atom := by
  cases fuel with
  | zero => cases h
  | succ fuel =>
    rcases @relabelStarts_eq_or _ _ fuel _ _ _ h atom with ha | ha
    · rw [ha, update_self]
    · exact ha

theorem insertBeforeAlias_spec
    (h : insertBeforeAlias atom originalPrevious fuel cur nexts = some nexts') :
    nexts' = nexts ∨ ∃ r, nexts r = some originalPrevious ∧ nexts' = update nexts r (some atom) := by
  induction fuel generalizing cur with
  | zero => cases h
  | succ fuel ih =>
    cases cur with
    | none =>
      cases h
      exact Or.inl rfl
    | some q =>
      simp only [insertBeforeAlias] at h
      split at h
      · rename_i hq
        cases h
        exact Or.inr ⟨q, hq, rfl⟩
      · exact ih h

end Loops

variable {fuel' : Nat} {c' : Clusters}

theorem insertIntoCluster_mono {objs : Objects} {c : Clusters}
    {atom targetAtom originalStart : AtomPtr} (hle : fuel ≤ fuel')
    (h : insertIntoCluster objs fuel c atom targetAtom originalStart = some c') :
    insertIntoCluster objs fuel' c atom targetAtom originalStart = some c' := by
  unfold insertIntoCluster at h ⊢
  cases hp : findPrevious c.followOnNexts targetAtom fuel (some originalStart) with
  | none =>
    rw [hp] at h
    cases h
  | some p =>
    rw [hp] at h
    rw [findPrevious_mono hle hp]
    simp only at h ⊢
    split at h
    · rename_i hs
      rw [if_pos hs]
      exact h
    rename_i hs
    rw [if_neg hs]
    split at h
    · rename_i ho
      rw [if_pos ho]
      split at h
      · rename_i he
        rw [if_pos he]
        obtain ⟨starts, hr, rfl⟩ := Option.map_eq_some_iff.mp h
        rw [relabelStarts_mono hle hr]
        rfl
      · rename_i he
        rw [if_neg he]
        obtain ⟨nexts, hr, rfl⟩ := Option.map_eq_some_iff.mp h
        rw [insertBeforeAlias_mono hle hr]
        rfl
    · rename_i ho
      rw [if_neg ho]
      exact h

section Branches

variable {objs : Objects} {fuel : Nat} {c : Clusters} {atom targetAtom : AtomPtr}

theorem processFollowOn_new (ha : c.followOnStarts atom = none)
    (ht : c.followOnStarts targetAtom = none) : processFollowOn objs fuel c (atom, targetAtom) =
      some ⟨update (update c.followOnStarts atom (some atom)) targetAtom (some atom),
        update (update c.followOnNexts atom (some targetAtom)) targetAtom none⟩ := by
  simp only [processFollowOn, ha, ht]

theorem processFollowOn_append {start : AtomPtr} (ha : c.followOnStarts atom = some start)
    (ht : c.followOnStarts targetAtom = none) (hn : c.followOnNexts atom = none) :
    processFollowOn objs fuel c (atom, targetAtom) =
      some ⟨update c.followOnStarts targetAtom (some start),
        update (update c.followOnNexts atom (some targetAtom)) targetAtom none⟩ := by
  simp only [processFollowOn, ha, ht, hn]

theorem processFollowOn_second {start next : AtomPtr}
    (ha : c.followOnStarts atom = some start) (hn : c.followOnNexts atom = some next) :
    processFollowOn objs fuel c (atom, targetAtom) = some c := by
  simp only [processFollowOn, ha, hn]

theorem processFollowOn_insert {originalStart : AtomPtr}
    (ht : c.followOnStarts targetAtom = some originalStart) (hn : c.followOnNexts atom = none) :
    processFollowOn objs fuel c (atom, targetAtom) =
      insertIntoCluster objs fuel c atom targetAtom originalStart := by
  cases ha : c.followOnStarts atom <;> simp only [processFollowOn, ha, ht, hn]

end Branches

variable {ref : AtomPtr × AtomPtr}

theorem processFollowOn_mono {objs : Objects} {c : Clusters} (hle : fuel ≤ fuel')
    (h : processFollowOn objs fuel c ref = some c') :
    processFollowOn objs fuel' c ref = some c' := by
  unfold processFollowOn at h ⊢
  cases ha : c.followOnStarts ref.1 <;> cases ht : c.followOnStarts ref.2 <;>
    cases hn : c.followOnNexts ref.1 <;> simp only [ha, ht, hn] at h ⊢ <;>
    first
      | exact h
      | exact insertIntoCluster_mono hle h

theorem processFollowOn_unique {objs : Objects} {c c₁ c₂ : Clusters}
    (h₁ : processFollowOn objs fuel c ref = some c₁)
    (h₂ : processFollowOn objs fuel' c ref = some c₂) : c₁ = c₂ := by
  have h₁' := processFollowOn_mono (Nat.le_max_left fuel fuel') h₁
  have h₂' := processFollowOn_mono (Nat.le_max_right fuel fuel') h₂
  exact Option.some.inj (h₁'.symm.trans h₂')

/-! ## When the cluster-building pass succeeds

One reference after the other keeps the two maps a family of disjoint chains as
long as no target already starts a cluster and no clusters have to be joined
around an alias. -/

open Lib.SuccessorChains

def Clusters.WellFormed (c : Clusters) : Prop :=
  ∃ chains, Represents chains c.followOnStarts c.followOnNexts

/-- What the pass must find before it processes the reference `atom → targetAtom`:
if `atom` still wants a follow-on and the target is in a cluster, then the target
is not its first atom, and `atom` is in no cluster unless neither it nor the
target's predecessor is an alias. -/
def StepSafe (objs : Objects) (c : Clusters) (ref : AtomPtr × AtomPtr) : Prop :=
  c.followOnNexts ref.1 = none → ∀ start, c.followOnStarts ref.2 = some start →
    ref.2 ≠ start ∧ (c.followOnStarts ref.1 = none ∨
      ((objs.atom ref.1).getSize ≠ 0 ∧
        ∀ previous, c.followOnNexts previous = some ref.2 → (objs.atom previous).getSize ≠ 0))

/-- Every step of the pass over `refs`, begun in `c`, is safe. -/
def StepsSafe (objs : Objects) : Clusters → List (AtomPtr × AtomPtr) → Prop
  | _, [] => True
  | c, ref :: refs => StepSafe objs c ref ∧
    ∀ fuel c', processFollowOn objs fuel c ref = some c' → StepsSafe objs c' refs

section Loops

variable {nexts : AtomPtr → Option AtomPtr} {atom targetAtom : AtomPtr}
variable {l₁ l₂ : List AtomPtr}

theorem findPrevious_of_linked {p : AtomPtr} (hl : Linked nexts none (l₁ ++ p :: targetAtom :: l₂))
    (hnd : (l₁ ++ p :: targetAtom :: l₂).Nodup) {fuel : Nat} (hf : l₁.length < fuel) :
    findPrevious nexts targetAtom fuel (l₁ ++ p :: targetAtom :: l₂).head? = some p := by
  induction l₁ generalizing fuel with
  | nil =>
    obtain ⟨fuel, rfl⟩ : ∃ k, fuel = k + 1 := ⟨fuel - 1, by omega⟩
    simp only [nil_append, head?_cons, findPrevious]
    rw [if_pos (@Linked.next_of_split _ _ _ [] _ _ _ hl)]
  | cons x l ih =>
    obtain ⟨fuel, rfl⟩ : ∃ k, fuel = k + 1 := ⟨fuel - 1, by omega⟩
    simp only [cons_append, head?_cons, findPrevious]
    rw [cons_append, linked_cons, Option.or_none] at hl
    have hne : nexts x ≠ some targetAtom := by
      intro hx
      refine hl.2.head_ne (List.nodup_cons.mp hnd).2 (p := p) ?_ hl.2.next_of_split ?_
      · simp
      · rw [← hl.1, hx]
    rw [if_neg hne, hl.1]
    exact ih hl.2 (List.nodup_cons.mp hnd).2 (by simpa using hf)

theorem relabelStarts_of_linked {l : List AtomPtr} (hl : Linked nexts none l) {fuel : Nat}
    (hf : l.length < fuel) (starts : AtomPtr → Option AtomPtr) :
    ∃ starts', relabelStarts nexts atom fuel l.head? starts = some starts' ∧
      (∀ b ∈ l, starts' b = some atom) ∧ ∀ b, b ∉ l → starts' b = starts b := by
  induction l generalizing fuel starts with
  | nil =>
    obtain ⟨fuel, rfl⟩ : ∃ k, fuel = k + 1 := ⟨fuel - 1, by omega⟩
    exact ⟨starts, rfl, by simp, fun _ _ => rfl⟩
  | cons x l ih =>
    obtain ⟨fuel, rfl⟩ : ∃ k, fuel = k + 1 := ⟨fuel - 1, by omega⟩
    rw [linked_cons, Option.or_none] at hl
    obtain ⟨starts', hr, hin, hout⟩ := @ih hl.2 fuel (by simpa using hf)
      (update starts x (some atom))
    refine ⟨starts', ?_, ?_, ?_⟩
    · simp only [head?_cons, relabelStarts, hl.1]
      exact hr
    · intro b hb
      by_cases hbl : b ∈ l
      · exact hin b hbl
      rcases List.mem_cons.mp hb with rfl | hb
      · rw [hout b hbl, update_self]
      · exact absurd hb hbl
    · intro b hb
      rw [mem_cons, not_or] at hb
      rw [hout b hb.2, update_of_ne hb.1]

theorem insertBeforeAlias_of_linked {q p : AtomPtr}
    (hl : Linked nexts none (l₁ ++ q :: p :: l₂)) (hnd : (l₁ ++ q :: p :: l₂).Nodup)
    {fuel : Nat} (hf : l₁.length < fuel) :
    insertBeforeAlias atom p fuel (l₁ ++ q :: p :: l₂).head? nexts =
      some (update nexts q (some atom)) := by
  induction l₁ generalizing fuel with
  | nil =>
    obtain ⟨fuel, rfl⟩ : ∃ k, fuel = k + 1 := ⟨fuel - 1, by omega⟩
    simp only [nil_append, head?_cons, insertBeforeAlias]
    rw [if_pos (@Linked.next_of_split _ _ _ [] _ _ _ hl)]
  | cons x l ih =>
    obtain ⟨fuel, rfl⟩ : ∃ k, fuel = k + 1 := ⟨fuel - 1, by omega⟩
    simp only [cons_append, head?_cons, insertBeforeAlias]
    rw [cons_append, linked_cons, Option.or_none] at hl
    have hne : nexts x ≠ some p := by
      intro hx
      refine hl.2.head_ne (List.nodup_cons.mp hnd).2 (p := q) ?_ hl.2.next_of_split ?_
      · simp
      · rw [← hl.1, hx]
    rw [if_neg hne, hl.1]
    exact ih hl.2 (List.nodup_cons.mp hnd).2 (by simpa using hf)

end Loops

variable {objs : Objects} {c : Clusters} {atom targetAtom : AtomPtr}

/-- From `bound` on, every amount of fuel gives the same well-formed clusters. -/
def Succeeds (objs : Objects) (c : Clusters) (ref : AtomPtr × AtomPtr) : Prop :=
  ∃ bound c', (∀ fuel, bound ≤ fuel → processFollowOn objs fuel c ref = some c') ∧ c'.WellFormed

theorem succeeds_insert {chains : List (List AtomPtr)} {originalStart : AtomPtr}
    (h : Represents chains c.followOnStarts c.followOnNexts)
    (ht : c.followOnStarts targetAtom = some originalStart) (hn : c.followOnNexts atom = none)
    (hsafe : StepSafe objs c (atom, targetAtom)) : Succeeds objs c (atom, targetAtom) := by
  obtain ⟨hne, hfree⟩ := hsafe hn originalStart ht
  obtain ⟨l, hl, htl, hhead⟩ := h.mem_of_start ht
  have hnd := h.nodup_of_mem hl
  have hlink := h.linked l hl
  obtain ⟨l₁, p, l₂, rfl⟩ := exists_split_of_ne_head htl (fun hh =>
    hne (Option.some.inj (hh.symm.trans hhead)))
  have hp : c.followOnNexts p = some targetAtom := hlink.next_of_split
  have hfind : ∀ fuel, l₁.length < fuel →
      findPrevious c.followOnNexts targetAtom fuel (some originalStart) = some p := by
    intro fuel hf
    rw [← hhead]
    exact findPrevious_of_linked hlink hnd hf
  by_cases hwarn : (objs.atom p).getSize ≠ 0 ∧ (objs.atom atom).getSize ≠ 0
  · refine ⟨l₁.length + 1, c, ?_, chains, h⟩
    intro fuel hf
    rw [processFollowOn_insert ht hn, insertIntoCluster, hfind fuel (by omega)]
    simp only [if_pos hwarn]
  have ha : c.followOnStarts atom = none := by
    rcases hfree with ha | ⟨hsize, hprev⟩
    · exact ha
    · exact absurd ⟨hprev p hp, hsize⟩ hwarn
  have hal := h.not_mem_of_mem hl ha
  by_cases hother : (objs.atom p).getSize = 0
  · by_cases hfirst : p = originalStart
    · have hlink' : Linked (update c.followOnNexts atom (some p)) none
          (atom :: (l₁ ++ p :: targetAtom :: l₂)) := by
        refine ⟨?_, hlink.congr fun x hx => update_of_ne (ne_of_mem_of_not_mem hx hal) _ _⟩
        rw [update_self, hhead, hfirst]
        rfl
      obtain ⟨starts, hrel, hin, hout⟩ := @relabelStarts_of_linked _ atom _ hlink' _
        (Nat.lt_succ_self _) c.followOnStarts
      refine ⟨l₁.length + (atom :: (l₁ ++ p :: targetAtom :: l₂)).length + 1,
        ⟨starts, update c.followOnNexts atom (some p)⟩, ?_, ?_⟩
      · intro fuel hf
        rw [processFollowOn_insert ht hn, insertIntoCluster, hfind fuel (by omega)]
        have hrel' := relabelStarts_mono (by omega : _ ≤ fuel) hrel
        simp only [head?_cons] at hrel'
        simp only [if_neg hwarn, if_pos hother, if_pos hfirst, hrel', Option.map_some]
      · exact h.insert_first hl (hfirst ▸ hhead) ha hin hout
    · obtain ⟨l₃, q, l₄, hsplit⟩ := exists_split_of_ne_head (l := l₁ ++ p :: targetAtom :: l₂)
        (a := p) (by simp) (fun hh => hfirst (Option.some.inj (hh.symm.trans hhead)))
      rw [hsplit] at hlink hnd hhead hal
      have hq : c.followOnNexts q = some p := hlink.next_of_split
      have hstart : c.followOnStarts p = some originalStart :=
        (h.start_eq _ hl p (by simp)).trans (hsplit ▸ hhead)
      obtain ⟨ds, hds⟩ := h.insert_between hq hstart ha
      refine ⟨l₁.length + l₃.length + 1, ⟨update c.followOnStarts atom (some originalStart),
        update (update c.followOnNexts atom (some p)) q (some atom)⟩, ?_, ds, hds⟩
      intro fuel hf
      rw [processFollowOn_insert ht hn, insertIntoCluster, hfind fuel (by omega)]
      have hins : insertBeforeAlias atom p fuel (some originalStart)
          (update c.followOnNexts atom (some p)) =
          some (update (update c.followOnNexts atom (some p)) q (some atom)) := by
        rw [← hhead]
        exact insertBeforeAlias_of_linked
          (hlink.congr fun x hx => update_of_ne (ne_of_mem_of_not_mem hx hal) _ _) hnd (by omega)
      simp only [if_neg hwarn, if_pos hother, if_neg hfirst, hins, Option.map_some]
  · obtain ⟨ds, hds⟩ := h.insert_between hp ht ha
    refine ⟨l₁.length + 1, ⟨update c.followOnStarts atom (some originalStart),
      update (update c.followOnNexts atom (some targetAtom)) p (some atom)⟩, ?_, ds, hds⟩
    intro fuel hf
    rw [processFollowOn_insert ht hn, insertIntoCluster, hfind fuel (by omega)]
    simp only [if_neg hwarn, if_neg hother, hp]

theorem succeeds_of_stepSafe (h : c.WellFormed) (hne : atom ≠ targetAtom)
    (hsafe : StepSafe objs c (atom, targetAtom)) : Succeeds objs c (atom, targetAtom) := by
  obtain ⟨chains, hc⟩ := h
  cases hn : c.followOnNexts atom with
  | some next =>
    have ha : ∃ start, c.followOnStarts atom = some start := by
      cases ha : c.followOnStarts atom with
      | some start => exact ⟨start, rfl⟩
      | none =>
        rw [hc.next_none_of_start_none ha] at hn
        cases hn
    obtain ⟨start, ha⟩ := ha
    exact ⟨0, c, fun fuel _ => processFollowOn_second ha hn, chains, hc⟩
  | none =>
    cases ht : c.followOnStarts targetAtom with
    | some originalStart => exact succeeds_insert hc ht hn hsafe
    | none =>
      cases ha : c.followOnStarts atom with
      | none =>
        exact ⟨0, _, fun fuel _ => processFollowOn_new ha ht, _, hc.pair hne ha ht⟩
      | some start =>
        obtain ⟨ds, hds⟩ := hc.append_last ha hn ht
        exact ⟨0, _, fun fuel _ => processFollowOn_append ha ht hn, ds, hds⟩

theorem not_wellFormed_of_two {a p q : AtomPtr} (hne : p ≠ q)
    (hp : c.followOnNexts p = some a) (hq : c.followOnNexts q = some a) : ¬ c.WellFormed := by
  rintro ⟨chains, h⟩
  exact hne (h.next_injective hp hq)

/-- A step that is not safe searches forever or leaves something other than chains. -/
theorem not_wellFormed_of_not_stepSafe (h : c.WellFormed)
    (hne : atom ≠ targetAtom) (hnotSafe : ¬ StepSafe objs c (atom, targetAtom))
    (hc' : processFollowOn objs fuel c (atom, targetAtom) = some c') : ¬ c'.WellFormed := by
  obtain ⟨chains, hc⟩ := h
  unfold StepSafe at hnotSafe
  push Not at hnotSafe
  obtain ⟨hn, originalStart, ht, hnotSafe⟩ := hnotSafe
  rw [processFollowOn_insert ht hn] at hc'
  unfold insertIntoCluster at hc'
  cases hfind : findPrevious c.followOnNexts targetAtom fuel (some originalStart) with
  | none =>
    rw [hfind] at hc'
    cases hc'
  | some p =>
    have hp := findPrevious_spec hfind
    have hts : targetAtom ≠ originalStart := by
      rintro rfl
      exact hc.next_ne_of_start_self ht hp
    obtain ⟨hcluster, halias⟩ := hnotSafe hts
    obtain ⟨start, ha⟩ := Option.ne_none_iff_exists'.mp hcluster
    obtain ⟨q, hq, hqa⟩ := hc.exists_prev ha hn
    have hpa : p ≠ atom := by
      rintro rfl
      rw [hn] at hp
      cases hp
    have hpq : p ≠ q := by
      rintro rfl
      exact hne (Option.some.inj (hq.symm.trans hp))
    have hwarn : ¬ ((objs.atom p).getSize ≠ 0 ∧ (objs.atom atom).getSize ≠ 0) := by
      rintro ⟨hsp, hsa⟩
      obtain ⟨p', hp', hsp'⟩ := halias hsa
      rw [← hc.next_injective hp hp'] at hsp'
      exact hsp hsp'
    rw [hfind] at hc'
    simp only [if_neg hwarn] at hc'
    split at hc'
    · split at hc'
      · obtain ⟨starts, hrel, rfl⟩ := Option.map_eq_some_iff.mp hc'
        rintro ⟨ds, hds⟩
        refine hds.next_ne_of_start_self (relabelStarts_self hrel) (p := q) ?_
        exact (update_of_ne hqa _ _).trans hq
      rename_i hfirst
      obtain ⟨nexts, hins, rfl⟩ := Option.map_eq_some_iff.mp hc'
      rcases insertBeforeAlias_spec hins with rfl | ⟨r, hr, rfl⟩
      · have hstart : c.followOnStarts p = some originalStart := by
          obtain ⟨l, hl, hpl, htl⟩ := hc.mem_of_next hp
          rw [hc.start_eq l hl p hpl, ← hc.start_eq l hl targetAtom htl, ht]
        obtain ⟨r, hr⟩ := hc.exists_prev_of_ne_start hstart hfirst
        refine not_wellFormed_of_two (a := p) (p := atom) (q := r) ?_ (update_self _ _ _) ?_
        · rintro rfl
          rw [hn] at hr
          cases hr
        · refine (update_of_ne ?_ _ _).trans hr
          rintro rfl
          rw [hn] at hr
          cases hr
      · by_cases hra : r = atom
        · subst r
          rintro ⟨ds, hds⟩
          exact hds.next_ne_self (a := atom) (update_self _ _ _)
        rw [update_of_ne hra] at hr
        refine not_wellFormed_of_two (a := atom) (p := r) (q := q) ?_ (update_self _ _ _) ?_
        · rintro rfl
          exact hpa (Option.some.inj (hr.symm.trans hq))
        · have hqr : q ≠ r := by
            rintro rfl
            exact hpa (Option.some.inj (hr.symm.trans hq))
          simp only [update_of_ne hqr, update_of_ne hqa, hq]
    · cases hc'
      refine not_wellFormed_of_two (a := atom) (p := p) (q := q) hpq (update_self _ _ _) ?_
      simp only [update_of_ne (Ne.symm hpq), update_of_ne hqa, hq]

/-- The pass over `refs` terminates and leaves disjoint chains. -/
def ClustersOn (objs : Objects) (c : Clusters) (refs : List (AtomPtr × AtomPtr)) : Prop :=
  ∃ fuel c', buildClusters objs fuel c refs = some c' ∧ c'.WellFormed

variable {refs : List (AtomPtr × AtomPtr)}

theorem buildClusters_cons : buildClusters objs fuel c (ref :: refs) = some c' ↔
      ∃ d, processFollowOn objs fuel c ref = some d ∧ buildClusters objs fuel d refs = some c' := by
  exact Option.bind_eq_some_iff

theorem buildClusters_mono (hle : fuel ≤ fuel')
    (h : buildClusters objs fuel c refs = some c') : buildClusters objs fuel' c refs = some c' := by
  induction refs generalizing c with
  | nil => exact h
  | cons ref refs ih =>
    obtain ⟨d, hd, hrest⟩ := buildClusters_cons.mp h
    exact buildClusters_cons.mpr ⟨d, processFollowOn_mono hle hd, ih hrest⟩

theorem clustersOn_of_stepsSafe (h : c.WellFormed)
    (hself : ∀ ref ∈ refs, ref.1 ≠ ref.2) (hsafe : StepsSafe objs c refs) :
    ClustersOn objs c refs := by
  induction refs generalizing c with
  | nil => exact ⟨0, c, rfl, h⟩
  | cons ref refs ih =>
    obtain ⟨bound, d, hd, hwf⟩ :=
      succeeds_of_stepSafe h (hself ref mem_cons_self) hsafe.1
    obtain ⟨fuel, c', hc', hwf'⟩ := ih hwf
      (fun ref' hr => hself ref' (mem_cons_of_mem ref hr))
      (hsafe.2 bound d (hd bound (Nat.le_refl _)))
    refine ⟨max bound fuel, c', buildClusters_cons.mpr ⟨d, ?_, ?_⟩, hwf'⟩
    · exact hd _ (Nat.le_max_left _ _)
    · exact buildClusters_mono (Nat.le_max_right _ _) hc'

theorem stepsSafe_of_clustersOn (h : c.WellFormed) (hself : ∀ ref ∈ refs, ref.1 ≠ ref.2)
    (hall : ∀ refs', refs' <+: refs → ClustersOn objs c refs') : StepsSafe objs c refs := by
  induction refs generalizing c with
  | nil => trivial
  | cons ref refs ih =>
    obtain ⟨fuel, c', hc', hwf⟩ := hall [ref] (by simp)
    obtain ⟨d, hd, hdc⟩ := buildClusters_cons.mp hc'
    obtain rfl : d = c' := Option.some.inj hdc
    refine ⟨?_, ?_⟩
    · by_contra hnotSafe
      exact not_wellFormed_of_not_stepSafe h (hself ref mem_cons_self) hnotSafe hd hwf
    · intro fuel' d' hd'
      obtain rfl := processFollowOn_unique hd hd'
      refine ih hwf (fun ref' hr => hself ref' (mem_cons_of_mem ref hr)) ?_
      intro refs' hpre
      obtain ⟨fuel'', c'', hc'', hwf''⟩ := hall (ref :: refs') (by simpa using hpre)
      obtain ⟨e, he, hrest⟩ := buildClusters_cons.mp hc''
      obtain rfl := processFollowOn_unique hd he
      exact ⟨fuel'', c'', hrest, hwf''⟩

theorem wellFormed_empty : Clusters.WellFormed {} := ⟨[], Represents.nil⟩

theorem StepsSafe.of_append {rest : List (AtomPtr × AtomPtr)}
    (h : StepsSafe objs c (refs ++ rest)) : StepsSafe objs c refs := by
  induction refs generalizing c with
  | nil => trivial
  | cons ref refs ih => exact ⟨h.1, fun fuel c' hc' => ih (h.2 fuel c' hc')⟩

/-- The pass over every prefix of the references terminates in disjoint chains
exactly when every one of its steps is safe. -/
theorem buildClusters_iff (objs : Objects) (fAllAtoms : List AtomPtr)
    (hself : ∀ ref ∈ followOnRefs objs fAllAtoms, ref.1 ≠ ref.2) :
    (∀ refs, refs <+: followOnRefs objs fAllAtoms → ClustersOn objs {} refs) ↔
      StepsSafe objs {} (followOnRefs objs fAllAtoms) := by
  constructor
  · exact stepsSafe_of_clustersOn wellFormed_empty hself
  · rintro hsafe refs ⟨rest, hrest⟩
    rw [← hrest] at hself hsafe
    refine clustersOn_of_stepsSafe wellFormed_empty ?_ hsafe.of_append
    intro ref hr
    exact hself ref (mem_append_left rest hr)

def OneFollowOn (objs : Objects) (fAllAtoms : List AtomPtr) : Prop :=
  ∀ a t t', (a, t) ∈ followOnRefs objs fAllAtoms → (a, t') ∈ followOnRefs objs fAllAtoms → t = t'

def FollowOnAcyclic (objs : Objects) (fAllAtoms : List AtomPtr) : Prop :=
  ∀ a, ¬ Relation.TransGen (fun x y => (x, y) ∈ followOnRefs objs fAllAtoms) a a

def followOnTo (t : AtomPtr) : Reference where
  getKind := kFollowOn
  fToTarget := some t
  hasTarget := Or.inr rfl
  toByName := Or.inl rfl

/-- Atoms of four bytes, each followed by the atom `follow` gives. -/
def followOnAtoms (follow : AtomPtr → Option AtomPtr) : Objects where
  atom a :=
    { getName := none, getScope := .scopeTranslationUnit, getDefinitionKind := .kRegularDefinition
      getSize := 4
      getReferences := (follow a).toList.map followOnTo }

def inOrder : Objects := followOnAtoms fun a =>
  if a = 1 then some 2 else if a = 2 then some 3 else none

theorem buildClusters_inOrder :
    (∀ refs, refs <+: followOnRefs inOrder [1, 2, 3] → ClustersOn inOrder {} refs) ↔
      StepsSafe inOrder {} (followOnRefs inOrder [1, 2, 3]) :=
  buildClusters_iff inOrder [1, 2, 3] (by decide)

/-- `1` is followed by `3`, and `2` by `1`, which then heads a cluster. -/
def targetHeads : Objects := followOnAtoms fun a =>
  if a = 1 then some 3 else if a = 2 then some 1 else none

theorem buildClusters_hangs :
    OneFollowOn targetHeads [1, 2, 3] ∧ FollowOnAcyclic targetHeads [1, 2, 3] ∧
      ∀ fuel, buildClusters targetHeads fuel {} (followOnRefs targetHeads [1, 2, 3]) = none := by
  have hrefs : followOnRefs targetHeads [1, 2, 3] = [(1, 3), (2, 1)] := by decide
  refine ⟨?_, ?_, ?_⟩
  · intro a t t' ht ht'
    rw [hrefs] at ht ht'
    simp only [mem_cons, Prod.mk.injEq, not_mem_nil, or_false] at ht ht'
    rcases ht with ⟨rfl, rfl⟩ | ⟨rfl, rfl⟩ <;> simp_all
  · -- the chain `2, 1, 3` is what every reference respects
    let position : AtomPtr → Nat := fun a => if a = 2 then 0 else if a = 1 then 1 else 2
    have hlt : ∀ x y, (x, y) ∈ followOnRefs targetHeads [1, 2, 3] → position x < position y := by
      intro x y hxy
      rw [hrefs] at hxy
      simp only [mem_cons, Prod.mk.injEq, not_mem_nil, or_false] at hxy
      rcases hxy with ⟨rfl, rfl⟩ | ⟨rfl, rfl⟩ <;> decide
    intro a ha
    have hpos : ∀ y, Relation.TransGen (fun x y => (x, y) ∈ followOnRefs targetHeads [1, 2, 3]) a y →
        position a < position y := by
      intro y hy
      induction hy with
      | single hxy => exact hlt _ _ hxy
      | tail _ hxy ih => exact Nat.lt_trans ih (hlt _ _ hxy)
    exact Nat.lt_irrefl _ (hpos a ha)
  · intro fuel
    have hc := Represents.nil.pair (a := 1) (b := 3) (by decide) rfl rfl
    rw [hrefs, buildClusters, foldlM_cons, processFollowOn_new rfl rfl]
    simp only [Option.bind_eq_bind, Option.bind_some, foldlM_cons]
    rw [@processFollowOn_insert _ _ _ _ _ 1 rfl rfl, insertIntoCluster,
      findPrevious_diverges fun p => hc.next_ne_of_start_self rfl]
    rfl

end Toolwhip.Ld64
