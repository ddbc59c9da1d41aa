import Toolwhip.Lib.CountedLoop
import Toolwhip.Ld64.LinkerDemand

/-! # The recursions of loading end

The model gives up only where the linker would not return, and of what is called while atoms
are loaded only `markDead` recurs: it follows the groups. -/

set_option autoImplicit false

namespace Toolwhip.Ld64
open Lib.ThrowingFold

variable {σ : Type}
variable {α : Type}

def Objects.groupMembers (objs : Objects) (a : AtomPtr) : List AtomPtr :=
  (objs.slots a).filterMap fun sl =>
    if sl.side = .target ∧ (objs.reference sl).map Reference.getKind = some kGroupSubordinate
    then objs.initialBinding sl else none

/-- Groups are nested at most `depth` deep. -/
structure GroupsNest (objs : Objects) (rank : AtomPtr → Nat) (depth : Nat) : Prop where
  bounded : ∀ a, rank a ≤ depth
  nested : ∀ a, ∀ b ∈ objs.groupMembers a, rank b < rank a

def Ends {α : Type} (x : Except LinkError α) : Prop := x ≠ .error .outOfFuel

theorem Ends.ok (a : α) : Ends (.ok a) := nofun

theorem Ends.thrown (message : String) : Ends (.error (.thrown message) : Except LinkError α) :=
  nofun

theorem Ends.bind {α β : Type} {x : Except LinkError α} {f : α → Except LinkError β} (hx : Ends x)
    (hf : ∀ a, x = .ok a → Ends (f a)) : Ends (x >>= f) := by
  intro h
  rcases bind_eq_error.mp h with h | ⟨a, ha, h⟩
  · exact hx h
  · exact hf a ha h

theorem Ends.foldlM {α τ : Type} {P : τ → Prop} {f : τ → α → Except LinkError τ} {l : List α}
    {s : τ} (hstep : ∀ u a v, a ∈ l → P u → f u a = .ok v → P v) (hs : P s)
    (hends : ∀ u, ∀ a ∈ l, P u → Ends (f u a)) : Ends (l.foldlM f s) := by
  intro h
  obtain ⟨u, a, ha, hu, herr⟩ := foldlM_error_under hstep hs h
  exact hends u a ha hu herr

theorem SymbolTable.add_ends {objs : Objects} {mode : CommonsMode} {scope : Scope} {t : SymbolTable}
    {a : AtomPtr} : Ends (SymbolTable.add objs mode scope t a) := by
  have huse : ∀ existing, Ends (SymbolTable.useNew objs mode existing a) := by
    intro existing
    unfold SymbolTable.useNew
    cases (objs.atom existing).getDefinitionKind <;> cases (objs.atom a).getDefinitionKind <;>
      first
      | exact Ends.ok _
      | exact Ends.thrown _
      | (unfold SymbolTable.commonsKeepCommon
         cases mode <;> first | exact Ends.ok _ | exact Ends.thrown _)
  unfold SymbolTable.add
  dsimp only
  split
  · exact Ends.ok _
  apply Ends.bind (huse _)
  intro b _
  cases b <;> exact Ends.ok _

namespace Linker
variable {ld : Linker σ} {s : LinkerState σ} {rank : AtomPtr → Nat} {depth : Nat}
variable {name : String} {a : AtomPtr}

theorem groupSubordinates_eq (hs : s.bound = ld.objs.initialBinding) (a : AtomPtr) :
    ld.groupSubordinates s a = ld.objs.groupMembers a := by
  unfold groupSubordinates Objects.groupMembers
  rw [hs]

theorem markDead_ends (hgroups : GroupsNest ld.objs rank depth) {fuel : Nat}
    (hfuel : rank a < fuel) (hs : s.bound = ld.objs.initialBinding) :
    Ends (ld.markDead fuel s a) := by
  induction fuel generalizing s a with
  | zero => omega
  | succ fuel ih =>
    unfold markDead
    rw [groupSubordinates_eq hs]
    refine Ends.foldlM (P := fun u => u.bound = ld.objs.initialBinding) ?_ hs ?_
    · intro u b v _ hu hv
      rw [(markDead_spec hv).1.frame]
      exact hu
    · intro u b hb hu
      have := hgroups.nested a b hb
      exact ih (by omega) hu

variable (hgroups : GroupsNest ld.objs rank depth) (hfuel : depth < ld.fuel)
include hgroups hfuel

theorem addToSymbolTable_ends (hs : s.bound = ld.objs.initialBinding) :
    Ends (ld.addToSymbolTable s a) := by
  apply Ends.bind SymbolTable.add_ends
  intro r _
  split
  · exact Ends.ok _
  rename_i dead _
  have := hgroups.bounded dead
  exact markDead_ends hgroups (by omega) hs

theorem addAtom_ends (hs : s.bound = ld.objs.initialBinding) : Ends (ld.addAtom s a) := by
  have hlist : (ld.listAtom s a).bound = ld.objs.initialBinding := by
    rw [(listAtom_spec ld s a).frame]
    exact hs
  unfold addAtom
  dsimp only
  split
  · exact Ends.ok _
  rename_i name _
  split
  · exact Ends.ok _
  split
  · apply addToSymbolTable_ends hgroups hfuel
    obtain ⟨scope, heq, -⟩ := restrictScope_frame ld (ld.listAtom s a) a name
    rw [heq]
    exact hlist
  · exact Ends.ok _

omit hgroups hfuel in
theorem noteSupplier_ends (s : LinkerState σ) (a : AtomPtr) (i : Nat) :
    Ends (ld.noteSupplier s a i) := by
  have hconstraint : ∀ reader current, Ends (ld.addObjcConstraint reader current) := by
    intro reader current
    unfold addObjcConstraint
    split
    · exact Ends.ok _
    cases ld.files.getObjCConstraint reader <;> cases current <;>
      first | exact Ends.ok _ | exact Ends.thrown _
  unfold noteSupplier
  dsimp only
  split
  · exact Ends.bind (hconstraint _ _) fun _ _ => Ends.ok _
  · exact Ends.ok _

theorem addAtoms_ends {atoms : List AtomPtr} (hs : s.bound = ld.objs.initialBinding) :
    Ends (ld.addAtoms s atoms) := by
  refine Ends.foldlM (P := fun u => u.bound = ld.objs.initialBinding) ?_ hs ?_
  · intro u p v _ hu hv
    obtain ⟨t, ht, hv⟩ := bind_eq_ok.mp hv
    have hloads : Loads ld u v := (noteSupplier_loads ht).trans (addAtom_loads hv)
    rw [hloads.walkKept.bound]
    exact hu
  · intro u p _ hu
    apply Ends.bind (noteSupplier_ends u p.1 p.2)
    intro t ht
    apply addAtom_ends hgroups hfuel
    rw [(noteSupplier_loads ht).walkKept.bound]
    exact hu

theorem askSuppliers_ends {suppliers : List Supplier}
    (hs : s.bound = ld.objs.initialBinding) : Ends (ld.askSuppliers name suppliers s) := by
  induction suppliers generalizing s with
  | nil => exact Ends.ok _
  | cons supplier rest ih =>
    rw [askSuppliers]
    split
    · exact ih hs
    refine Ends.bind (addAtoms_ends hgroups hfuel ?_) ?_
    · exact hs
    intro t ht
    split
    · apply ih
      rw [(addAtoms_loads ht).walkKept.bound]
      exact hs
    · exact Ends.ok _

theorem addProxy_ends (hs : s.bound = ld.objs.initialBinding) : Ends (ld.addProxy name s) := by
  unfold addProxy
  dsimp only
  split
  · exact Ends.ok _
  · exact addAtom_ends hgroups hfuel hs

theorem loadUndefine_ends (hs : s.bound = ld.objs.initialBinding) :
    Ends (ld.loadUndefine s name) := by
  have hload : Ends (ld.addJustInTimeAtoms name false s) := by
    apply Ends.bind (askSuppliers_ends hgroups hfuel hs)
    rintro ⟨found, t⟩ ht
    have htbound : t.bound = ld.objs.initialBinding := by
      rw [(askSuppliers_loads ht).walkKept.bound]
      exact hs
    cases found with
    | some atoms => exact Ends.ok _
    | none =>
      dsimp only
      split
      · exact Ends.bind (addProxy_ends hgroups hfuel htbound) fun _ _ => Ends.ok _
      · exact Ends.ok _
  unfold loadUndefine
  split
  · exact Ends.bind hload fun _ _ => Ends.ok _
  · exact Ends.ok _

theorem loadUndefineAll_ends {l : List String} (hs : s.bound = ld.objs.initialBinding) :
    Ends (l.foldlM ld.loadUndefine s) := by
  refine Ends.foldlM (P := fun u => u.bound = ld.objs.initialBinding) ?_ hs ?_
  · intro u name v _ hu hv
    rw [(loadUndefine_loads hv).walkKept.bound]
    exact hu
  · intro u name _ hu
    exact loadUndefine_ends hgroups hfuel hu

end Linker
/-! ## loadUndefines

The loop ends, and then every demanded name is in the table and a name without an atom is one
that no reader has. -/

open Lib.CountedLoop List

variable {σ : Type}

namespace Linker
variable {s : LinkerState σ} {ld : Linker σ} {name : String}

def Available (ld : Linker σ) (supply : ReaderPtr → String → Option (List AtomPtr))
    (a : AtomPtr) : Prop :=
  a ∈ ld.files.writerAtoms ∨ (∃ reader ∈ ld.files.fInputFiles, a ∈ ld.files.getAtoms reader) ∨
    (∃ atoms ∈ ld.files.extraSections, a ∈ atoms) ∨
    (∃ reader name atoms, supply reader name = some atoms ∧ a ∈ atoms) ∨
    ∃ name files, (ld.files.getUndefinedProxyAtom name files).1 = some a

/-- Each reader is a fixed map from names to atoms, an answer defines the name it is for, and
all that the atoms refer to is among `names`. -/
structure Supplied (ld : Linker σ) (supply : ReaderPtr → String → Option (List AtomPtr))
    (names : Finset String) : Prop where
  fixed : ∀ reader name files,
    (ld.files.getJustInTimeAtomsFor reader name files).1 = supply reader name
  defines : ∀ supplier ∈ ld.suppliers false, ∀ name atoms,
    supply supplier.reader name = some atoms → ∃ a ∈ atoms, ld.Defines a name
  undefines : ∀ name ∈ ld.fOptions.initialUndefines, name ∈ names
  references : ∀ a, ld.Available supply a → ∀ name, References ld.objs a name → name ∈ names

section Loads
variable {ld : Linker σ} {supply : ReaderPtr → String → Option (List AtomPtr)}
  {names : Finset String} {s s' : LinkerState σ}
  (hoff : ld.fOptions.deadStrip = .kDeadStripOff) (hsmall : names.card < 2 ^ 32)
  (hsupplied : ld.Supplied supply names)
variable {name : String}
include hoff hsmall hsupplied

theorem askSuppliers_demands {suppliers : List Supplier}
    {found : Option (List AtomPtr)} (hsub : ∀ supplier ∈ suppliers, supplier ∈ ld.suppliers false)
    (h : ld.askSuppliers name suppliers s = .ok (found, s')) :
    Demands ld names s s' ∧ ∀ required, Counted ld names required s → s'.find name = none →
      ∀ supplier ∈ suppliers, supply supplier.reader name = none := by
  induction suppliers generalizing s with
  | nil =>
    cases h
    refine ⟨Demands.refl _, ?_⟩
    intro _ _ _ supplier hmem
    cases hmem
  | cons supplier rest ih =>
    rw [askSuppliers] at h
    have hask : Demands ld names s
        { s with files := (ld.files.getJustInTimeAtomsFor supplier.reader name s.files).2 } :=
      Demands.of_same rfl rfl rfl rfl
    have hrest : ∀ other ∈ rest, other ∈ ld.suppliers false :=
      fun other hother => hsub other (mem_cons_of_mem _ hother)
    have hfixed := hsupplied.fixed supplier.reader name s.files
    rw [hfixed] at h
    cases hanswer : supply supplier.reader name with
    | none =>
      rw [hanswer] at h
      obtain ⟨hdemands, hnone⟩ := ih hrest h
      refine ⟨hask.trans hdemands, ?_⟩
      intro required hs hfind other hother
      obtain ⟨r, -, hr⟩ := hask.counted required hs
      rcases List.mem_cons.mp hother with rfl | hother
      · exact hanswer
      · exact hnone r hr hfind other hother
    | some atoms =>
      rw [hanswer] at h
      obtain ⟨t, ht, h⟩ := bind_eq_ok.mp h
      have hnames : ∀ a ∈ atoms, ∀ n, References ld.objs a n → n ∈ names := by
        intro a ha
        exact hsupplied.references a
          (Or.inr (Or.inr (Or.inr (Or.inl ⟨supplier.reader, name, atoms, hanswer, ha⟩))))
      have hadded := addAtoms_demands hoff hsmall hnames ht
      have hafter : Demands ld names t s' := by
        split at h
        · exact (ih hrest h).1
        cases h
        exact Demands.refl _
      refine ⟨hask.trans (hadded.trans hafter), ?_⟩
      intro required hs hfind
      obtain ⟨a, ha, hdef⟩ := hsupplied.defines supplier
        (hsub supplier mem_cons_self) name atoms hanswer
      obtain ⟨r, -, hr⟩ := hask.counted required hs
      have hdefined := hafter.defined name (addAtoms_defines hoff hsmall hnames hr ha hdef ht)
      rw [hfind] at hdefined
      cases hdefined

theorem addProxy_demands (h : ld.addProxy name s = .ok s') : Demands ld names s s' := by
  have hask : Demands ld names s
      { s with files := (ld.files.getUndefinedProxyAtom name s.files).2 } :=
    Demands.of_same rfl rfl rfl rfl
  unfold addProxy at h
  dsimp only at h
  split at h
  · cases h
    exact hask
  rename_i proxy hproxy
  refine hask.trans (addAtom_demands hoff hsmall ?_ h)
  exact hsupplied.references proxy
    (Or.inr (Or.inr (Or.inr (Or.inr ⟨name, s.files, hproxy⟩))))

theorem addJustInTimeAtoms_demands {r : Option (List AtomPtr) × LinkerState σ}
    (h : ld.addJustInTimeAtoms name false s = .ok r) :
    Demands ld names s r.2 ∧ ∀ required, Counted ld names required s → r.2.find name = none →
      ∀ supplier ∈ ld.suppliers false, supply supplier.reader name = none := by
  obtain ⟨⟨found, t⟩, ht, h⟩ := bind_eq_ok.mp h
  obtain ⟨hasked, hnone⟩ :=
    askSuppliers_demands hoff hsmall hsupplied (fun _ hmem => hmem) ht
  have hafter : Demands ld names t r.2 := by
    cases found with
    | some atoms =>
      cases h
      exact Demands.refl _
    | none =>
      dsimp only at h
      split at h
      · obtain ⟨u, hu, h⟩ := bind_eq_ok.mp h
        cases h
        exact addProxy_demands hoff hsmall hsupplied hu
      · cases h
        exact Demands.refl _
  refine ⟨hasked.trans hafter, ?_⟩
  intro required hs hfind
  apply hnone required hs
  cases hfound : t.find name with
  | none => rfl
  | some a =>
    have hdefined := hafter.defined name (by rw [hfound]; rfl)
    rw [hfind] at hdefined
    cases hdefined

theorem loadUndefine_demands (h : ld.loadUndefine s name = .ok s') :
    Demands ld names s s' ∧ ∀ required, Counted ld names required s → s'.find name = none →
      ∀ supplier ∈ ld.suppliers false, supply supplier.reader name = none := by
  unfold loadUndefine at h
  split at h
  · obtain ⟨r, hr, h⟩ := bind_eq_ok.mp h
    cases h
    exact addJustInTimeAtoms_demands hoff hsmall hsupplied hr
  rename_i hwanted
  cases h
  refine ⟨Demands.refl _, ?_⟩
  intro _ _ hfind
  unfold isWanted at hwanted
  rw [hfind] at hwanted
  exact absurd rfl hwanted

theorem loadUndefineAll_demands {l : List String} (h : l.foldlM ld.loadUndefine s = .ok s') :
    Demands ld names s s' ∧ ∀ required, Counted ld names required s → ∀ name ∈ l,
      s'.find name = none → ∀ supplier ∈ ld.suppliers false, supply supplier.reader name = none := by
  have hfold : ∀ {l : List String} {s s' : LinkerState σ}, l.foldlM ld.loadUndefine s = .ok s' →
      Demands ld names s s' := by
    intro l s s' hl
    exact Demands.foldlM (fun _ _ _ _ hv => (loadUndefine_demands hoff hsmall hsupplied hv).1) hl
  refine ⟨hfold h, ?_⟩
  intro required hs name hname hfind
  obtain ⟨l₁, l₂, rfl⟩ := append_of_mem hname
  obtain ⟨u, hu, h⟩ := foldlM_append_ok.mp h
  obtain ⟨v, hv, ht⟩ := foldlM_cons_ok.mp h
  obtain ⟨r, -, hr⟩ := (hfold hu).counted required hs
  refine (loadUndefine_demands hoff hsmall hsupplied hv).2 r hr ?_
  cases hfound : v.find name with
  | none => rfl
  | some a =>
    have hdefined := (hfold ht).defined name (by rw [hfound]; rfl)
    rw [hfind] at hdefined
    cases hdefined

omit hoff hsupplied in
theorem requireAll_demands {l : List String} (hl : ∀ name ∈ l, name ∈ names)
    (s : LinkerState σ) : Demands ld names s (l.foldl LinkerState.require s) := by
  induction l generalizing s with
  | nil => exact Demands.refl _
  | cons name l ih =>
    obtain ⟨hext, -⟩ := @require_extends σ ld names hsmall s name (hl name mem_cons_self)
    have hfirst : Demands ld names s (s.require name) :=
      { hext with
        bound := rfl
        closed := fun _ hclosed a ha n hn => hext.keys n (hclosed a ha n hn) }
    exact hfirst.trans (ih (fun n hn => hl n (mem_cons_of_mem _ hn)) _)

theorem buildAtomList_demands (h : ld.buildAtomList s = .ok s') : Demands ld names s s' := by
  obtain ⟨t, ht, h⟩ := bind_eq_ok.mp h
  obtain ⟨u, hu, h⟩ := bind_eq_ok.mp h
  have hrequire : Demands ld names s (ld.fOptions.initialUndefines.foldl LinkerState.require s) :=
    requireAll_demands hsmall hsupplied.undefines s
  have hwriter : Demands ld names _ t :=
    addAtoms_demands hoff hsmall (fun a ha => hsupplied.references a (Or.inl ha)) ht
  have hreaders : Demands ld names t u := by
    refine Demands.foldlM ?_ hu
    intro _ reader hreader _ hv
    exact addAtoms_demands hoff hsmall
      (fun a ha => hsupplied.references a (Or.inr (Or.inl ⟨reader, hreader, ha⟩))) hv
  have hextra : Demands ld names u s' := by
    refine Demands.foldlM ?_ h
    intro _ atoms hatoms _ hv
    exact addAtoms_demands hoff hsmall
      (fun a ha => hsupplied.references a (Or.inr (Or.inr (Or.inl ⟨atoms, hatoms, ha⟩)))) hv
  exact hrequire.trans (hwriter.trans (hreaders.trans hextra))

end Loads

def Between (ld : Linker σ) (names : Finset String) (s : LinkerState σ) : Prop :=
  Closed ld s ∧ ∃ required, Counted ld names required s

theorem Between.demands {names : Finset String} {s s' : LinkerState σ}
    (hs : ld.Between names s) (h : Demands ld names s s') : ld.Between names s' := by
  obtain ⟨hclosed, required, hr⟩ := hs
  obtain ⟨required', -, hr'⟩ := h.counted required hr
  exact ⟨h.closed hr.bound hclosed, required', hr'⟩

theorem between_init (ld : Linker σ) (names : Finset String) (files : σ) :
    ld.Between names (ld.init files) := by
  refine ⟨?_, ∅, rfl, fun _ => Iff.rfl, Finset.empty_subset _, ?_, rfl, ?_⟩
  · intro a ha
    cases ha
  · intro name hname
    cases hname
  · intro name hname
    cases hname

def requireCount (s : LinkerState σ) : Nat := s.fGlobalSymbolTable.fRequireCount

def round (ld : Linker σ) (s : LinkerState σ) : Except LinkError (LinkerState σ) :=
  (ld.neededNames s).foldlM ld.loadUndefine s

theorem loadUndefinesLoop_eq (ld : Linker σ) (fuel last : Nat) (s : LinkerState σ) :
    ld.loadUndefinesLoop fuel last s =
      loop requireCount ld.round .outOfFuel fuel last s := by
  induction fuel generalizing last s with
  | zero => rfl
  | succ fuel ih =>
    unfold loadUndefinesLoop loop requireCount round
    simp only [ih]
    rfl

theorem mem_neededNames (ld : Linker σ)
    (h : s.fGlobalSymbolTable.Undefined name) : name ∈ ld.neededNames s := by
  unfold neededNames
  rw [(ld.tableOrder_perm _).mem_iff]
  exact h.mem_getNeededNames

/-- What is known of the table when `loadUndefines` returns. -/
structure Resolved (ld : Linker σ) (supply : ReaderPtr → String → Option (List AtomPtr))
    (s : LinkerState σ) : Prop where
  keys : ∀ a ∈ s.fAllAtoms, ∀ name, References ld.objs a name → s.fGlobalSymbolTable.HasKey name
  unsupplied : ∀ name, s.fGlobalSymbolTable.Undefined name →
    ∀ supplier ∈ ld.suppliers false, supply supplier.reader name = none

section Loop
variable {ld : Linker σ} {supply : ReaderPtr → String → Option (List AtomPtr)}
  {names : Finset String} {s s' : LinkerState σ}

theorem round_resolves (hoff : ld.fOptions.deadStrip = .kDeadStripOff)
    (hsmall : names.card < 2 ^ 32) (hsupplied : ld.Supplied supply names)
    (hs : ld.Between names s) (h : ld.round s = .ok s') (hcount : requireCount s = requireCount s') :
    ld.Resolved supply s' := by
  obtain ⟨hdemands, hnone⟩ := loadUndefineAll_demands hoff hsmall hsupplied h
  obtain ⟨hclosed, required, hr⟩ := hs
  obtain ⟨required', hsub, hr'⟩ := hdemands.counted required hr
  have hsame : required = required' := by
    apply Finset.eq_of_subset_of_card_le hsub
    unfold requireCount at hcount
    rw [← hr'.count, ← hr.count, hcount]
  refine ⟨hdemands.closed hr.bound hclosed, ?_⟩
  intro name hundef
  have hmem := hr'.undefined name hundef
  rw [← hsame] at hmem
  have hbefore : s.fGlobalSymbolTable.Undefined name := by
    apply (hr.keys name hmem).undefined
    cases hfound : s.fGlobalSymbolTable.find name with
    | none => rfl
    | some a =>
      have hdefined := hdemands.defined name (by unfold LinkerState.find; rw [hfound]; rfl)
      rw [LinkerState.find, hundef.find] at hdefined
      cases hdefined
  exact hnone required hr name (ld.mem_neededNames hbefore) hundef.find

/-- With fewer names than the counter can tell from its first value, groups that are not part
of themselves and answers that define what they are for, `loadUndefines` returns or throws, and
what it returns is resolved. -/
theorem loadUndefines_resolves {rank : AtomPtr → Nat} {depth : Nat} {files : σ}
    (hoff : ld.fOptions.deadStrip = .kDeadStripOff) (hsupplied : ld.Supplied supply names)
    (hsmall : names.card < 2 ^ 32 - 1) (hgroups : GroupsNest ld.objs rank depth)
    (hfuel : names.card + depth + 2 ≤ ld.fuel) (h : ld.buildAtomList (ld.init files) = .ok s) :
    ld.loadUndefines s ≠ .error .outOfFuel ∧
      ∀ s', ld.loadUndefines s = .ok s' → ld.Resolved supply s' := by
  have hsmall' : names.card < 2 ^ 32 := by omega
  have hs : ld.Between names s :=
    (between_init ld names files).demands (buildAtomList_demands hoff hsmall' hsupplied h)
  have hround : ∀ u v, ld.Between names u → ld.round u = .ok v → ld.Between names v := by
    intro u v hu hv
    exact hu.demands (loadUndefineAll_demands hoff hsmall' hsupplied hv).1
  have hbound : ∀ u, ld.Between names u → requireCount u ≤ names.card := by
    rintro u ⟨-, required, hr⟩
    unfold requireCount
    rw [hr.count]
    exact Finset.card_le_card hr.subset
  unfold loadUndefines
  constructor
  · rw [loadUndefinesLoop_eq]
    apply loop_ne_stop hround ?_ hbound ?_ hs
    · omega
    · rintro u ⟨-, required, hr⟩
      exact loadUndefineAll_ends hgroups (by omega) hr.bound
    · rintro u v ⟨-, required, hr⟩ hv
      obtain ⟨required', hsub, hr'⟩ :=
        (loadUndefineAll_demands hoff hsmall' hsupplied hv).1.counted required hr
      unfold requireCount
      rw [hr.count, hr'.count]
      exact Finset.card_le_card hsub
  · intro s' hs'
    rw [loadUndefinesLoop_eq] at hs'
    have hfirst : 0xFFFFFFFF ≠ requireCount s := by
      have := hbound s hs
      omega
    obtain ⟨u, hu, hlast, hcount⟩ := loop_last_round hround hs hfirst hs'
    exact round_resolves hoff hsmall' hsupplied hu hlast hcount

end Loop

/-! ### Small links

The first object refers to one name, and the one archive has an answer for it. -/

def refersTo (kind : Nat) (name : Option String) (target fromTarget : Option AtomPtr)
    (htarget : name.isSome ∨ target.isSome) (hname : name = none ∨ target = none) : Reference where
  getKind := kind
  fToTargetName := name
  fToTarget := target
  fFromTarget := fromTarget
  hasTarget := htarget
  toByName := hname
  fromByName := Or.inl rfl

def mainAtom (undefined : String) : Atom :=
  { getName := some "_main", getScope := .scopeGlobal, getDefinitionKind := .kRegularDefinition,
    getReferences := [refersTo 0 (some undefined) none none (Or.inl rfl) (Or.inr rfl)] }

def regularAtom (name sectionName : String) : Atom :=
  { getName := some name, getScope := .scopeGlobal, getDefinitionKind := .kRegularDefinition,
    getSectionName := some sectionName }

def archiveSupply (undefined : String) (answer : List AtomPtr) (_ : ReaderPtr) (name : String) :
    Option (List AtomPtr) :=
  if name = undefined then some answer else none

def archiveFiles (undefined : String) (initial answer : List AtomPtr) : Files Unit where
  fInputFiles := [7]
  getAtoms _ := initial
  getJustInTimeAtomsFor reader name _ := (archiveSupply undefined answer reader name, ())

def callLink : Linker Unit where
  objs := { atom := fun | 0 => mainAtom "_f" | _ + 1 => regularAtom "_f" "__text" }
  files := archiveFiles "_f" [0] [1]
  fuel := 3

theorem callLink_supplied : callLink.Supplied (archiveSupply "_f" [1]) {"_f"} := by
  refine ⟨fun _ _ _ => rfl, ?_, nofun, ?_⟩
  · intro supplier _ name atoms h
    unfold archiveSupply at h
    split at h
    · cases h
      subst name
      exact ⟨1, mem_singleton_self 1, rfl, nofun, rfl⟩
    · cases h
  · rintro a - name ⟨sl, hsl, hname⟩
    cases a with
    | zero =>
      rcases List.mem_pair.mp hsl with rfl | rfl
      · cases hname
        exact Finset.mem_singleton_self "_f"
      · cases hname
    | succ a => cases hsl

theorem callLink_groups : GroupsNest callLink.objs (fun _ => 0) 0 := by
  refine ⟨fun _ => Nat.le_refl 0, ?_⟩
  intro a b hb
  cases a <;> cases hb

theorem archive_answer_resolves : ∃ s, callLink.buildAtomList (callLink.init ()) = .ok s ∧
      callLink.loadUndefines s ≠ .error .outOfFuel ∧
      ∀ s', callLink.loadUndefines s = .ok s' → callLink.Resolved (archiveSupply "_f" [1]) s' :=
  ⟨_, rfl, loadUndefines_resolves rfl callLink_supplied (by decide) callLink_groups (by decide) rfl⟩

def ehFrameLink : Linker Unit where
  objs := { atom := fun | 0 => mainAtom "_f.eh" | _ + 1 => regularAtom "_f.eh" "__eh_frame" }
  fOptions := { outputKind := .kObjectFile }
  files := archiveFiles "_f.eh" [0] [1]
  fuel := 3

/-- `_f` is a weak definition whose group has itself as a member; another `_f` comes with `_g`. -/
def groupLink (fuel : Nat) : Linker Unit where
  objs :=
    { atom := fun
        | 0 => mainAtom "_g"
        | 1 =>
          { getName := some "_f", getScope := .scopeGlobal, getDefinitionKind := .kWeakDefinition,
            getReferences := [refersTo kGroupSubordinate none (some 1) none (Or.inr rfl) (Or.inl rfl)] }
        | 2 => regularAtom "_f" "__text"
        | _ + 3 => regularAtom "_g" "__text" }
  files := archiveFiles "_g" [0, 1] [2, 3]
  fuel := fuel

theorem markDead_self {fuel : Nat} {a : AtomPtr}
    (hself : ld.objs.groupMembers a = [a]) (hs : s.bound = ld.objs.initialBinding) :
    ld.markDead fuel s a = .error .outOfFuel := by
  induction fuel generalizing s with
  | zero => rfl
  | succ fuel ih =>
    have hdead : (s.insertDead a).bound = ld.objs.initialBinding := hs
    unfold markDead
    rw [groupSubordinates_eq hs, hself, foldlM_cons, ih hdead]
    rfl

theorem loadUndefine_of_thrown
    {supplier : Supplier} {rest : List Supplier} {atoms : List AtomPtr} {e : LinkError}
    (hwanted : ld.isWanted s name = true) (hsuppliers : ld.suppliers false = supplier :: rest)
    (hanswer : ld.files.getJustInTimeAtomsFor supplier.reader name s.files = (some atoms, s.files))
    (hadd : ld.addAtoms s atoms = .error e) : ld.loadUndefine s name = .error e := by
  have hask : ld.askSuppliers name (supplier :: rest) s = .error e := by
    rw [askSuppliers, hanswer]
    dsimp only
    rw [hadd]
    rfl
  unfold loadUndefine addJustInTimeAtoms
  rw [if_pos hwanted, hsuppliers, hask]
  rfl

theorem groupLink_never (fuel : Nat) :
    ∃ s, (groupLink fuel).buildAtomList ((groupLink fuel).init ()) = .ok s ∧
      (groupLink fuel).loadUndefines s = .error .outOfFuel := by
  obtain ⟨s, t, u, hs, hnote, hadd, hu, hneeded, hwanted, hcount⟩ : ∃ s t u : LinkerState Unit,
      (groupLink fuel).buildAtomList ((groupLink fuel).init ()) = .ok s ∧
      (groupLink fuel).noteSupplier s 2 0 = .ok t ∧
      (groupLink fuel).addAtom t 2 = (groupLink fuel).markDead fuel u 1 ∧
      u.bound = (groupLink fuel).objs.initialBinding ∧
      (groupLink fuel).neededNames s = ["_g"] ∧ (groupLink fuel).isWanted s "_g" = true ∧
      requireCount s = 1 := by
    refine ⟨_, _, ?u, rfl, rfl, ?_, ?_, rfl, rfl, rfl⟩
    rotate_left
    · rfl
    · rfl
  refine ⟨s, hs, ?_⟩
  rw [markDead_self rfl hu] at hadd
  have hadds : (groupLink fuel).addAtoms s [2, 3] = .error .outOfFuel := by
    unfold addAtoms
    rw [zipIdx_cons, foldlM_cons]
    unfold addSupplied
    rw [hnote]
    dsimp only [bind, Except.bind]
    rw [hadd]
  unfold loadUndefines
  rw [loadUndefinesLoop_eq]
  cases fuel with
  | zero => rfl
  | succ fuel =>
    have hfuel : (groupLink (fuel + 1)).fuel = fuel + 1 := rfl
    rw [hfuel, loop, hcount, if_neg (by decide)]
    unfold round
    rw [hneeded, foldlM_cons, loadUndefine_of_thrown hwanted rfl rfl hadds]
    rfl

/-- In an `ld -r` the atom that the archive has for `_f.eh` does not enter the table, and with
a group that has itself as a member `loadUndefines` does not return. -/
theorem loadUndefines_falls_short :
    (∃ s s', ehFrameLink.buildAtomList (ehFrameLink.init ()) = .ok s ∧
      ehFrameLink.loadUndefines s = .ok s' ∧ s'.fGlobalSymbolTable.Undefined "_f.eh" ∧
      ∃ supplier ∈ ehFrameLink.suppliers false,
        archiveSupply "_f.eh" [1] supplier.reader "_f.eh" = some [1]) ∧
    ∀ fuel, ∃ s, (groupLink fuel).buildAtomList ((groupLink fuel).init ()) = .ok s ∧
      (groupLink fuel).loadUndefines s = .error .outOfFuel :=
  ⟨⟨_, _, rfl, rfl, rfl, ⟨7, false⟩, mem_cons_self, rfl⟩, groupLink_never⟩

end Linker
end Toolwhip.Ld64
