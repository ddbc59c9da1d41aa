import Toolwhip.Ld64.Stubs
import Toolwhip.Lib.Layout

/-! # What a visit does

One case for each way in which `synthesizeStubs` leaves a reference. -/

namespace Toolwhip.Ld64.Stubs
open Function Lib.ThrowingFold Reloc.Fixups List
set_option autoImplicit false

section Walk
variable {A : Architecture} {w : StubWriter} {objs : Objects A}
variable {st st' : Synthesis A} {β : Type}

def Synthesis.makeAll (st : Synthesis A) (parts : List (SynthesizedKind × String)) : Synthesis A :=
  parts.foldl (fun st part => st.make part.1 part.2) st

def IsStubPart (A : Architecture) (part : SynthesizedKind × String) : Prop :=
  (∃ forLazyDylib, part.1 = .lazyPointer forLazyDylib) ∨ (A = .x86_64 ∧ part.1 = .stubHelper)

theorem makeAll_frame {f : Synthesis A → β}
    (hmake : ∀ (st : Synthesis A) kind name, f (st.make kind name) = f st) (st : Synthesis A)
    (parts : List (SynthesizedKind × String)) : f (st.makeAll parts) = f st := by
  induction parts generalizing st with
  | nil => rfl
  | cons part parts ih => exact (ih _).trans (hmake st part.1 part.2)

theorem make_frame {f : Synthesis A → β} (st : Synthesis A) (kind : SynthesizedKind)
    (name : String) (hf : ∀ made stubs helpers lazies lazyDylibs nonLazies,
      f { st with
        made := made
        fAllSynthesizedStubs := stubs
        fAllSynthesizedStubHelpers := helpers
        fAllSynthesizedLazyPointers := lazies
        fAllSynthesizedLazyDylibPointers := lazyDylibs
        fAllSynthesizedNonLazyPointers := nonLazies } = f st) : f (st.make kind name) = f st := by
  cases kind with
  | lazyPointer fForLazyDylib => cases fForLazyDylib <;> apply hf
  | _ => apply hf

theorem isStubPart_lazyPointer (A : Architecture) (forLazyDylib : Bool) (name : String) :
    IsStubPart A (.lazyPointer forLazyDylib, name) := Or.inl ⟨forLazyDylib, rfl⟩

theorem makeStubParts_ok {target : AtomPtr} {forLazyDylib : Bool}
    (h : makeStubParts w objs st target forLazyDylib = .ok st') :
    ∃ parts, st' = st.makeAll parts ∧ ∀ part ∈ parts, IsStubPart A part := by
  have hpointer : ∀ named, st' = makeLazyPointer objs st named forLazyDylib →
      ∃ parts, st' = st.makeAll parts ∧ ∀ part ∈ parts, IsStubPart A part := by
    intro named hst
    refine ⟨[(.lazyPointer forLazyDylib, nameOf objs named ++ "$lazy_pointer")], hst, ?_⟩
    rw [forall_mem_singleton]
    exact isStubPart_lazyPointer A forLazyDylib _
  unfold makeStubParts at h
  cases A with
  | ppc =>
    dsimp only at h
    split at h
    · exact hpointer target (Except.ok.inj h).symm
    obtain ⟨helper, -, h⟩ := bind_eq_ok.mp h
    exact hpointer helper (Except.ok.inj h).symm
  | ppc64 =>
    obtain ⟨helper, -, h⟩ := bind_eq_ok.mp h
    exact hpointer helper (Except.ok.inj h).symm
  | x86 =>
    dsimp only at h
    split at h
    · exact ⟨[], (Except.ok.inj h).symm, fun part hpart => absurd hpart not_mem_nil⟩
    obtain ⟨helper, -, h⟩ := bind_eq_ok.mp h
    exact hpointer target (Except.ok.inj h).symm
  | x86_64 =>
    obtain ⟨helper, -, h⟩ := bind_eq_ok.mp h
    refine ⟨[(.lazyPointer forLazyDylib, nameOf objs target ++ "$lazy_pointer"),
      (.stubHelper, nameOf objs target ++ "$stubHelper")], (Except.ok.inj h).symm, ?_⟩
    rw [forall_mem_cons, forall_mem_singleton]
    exact ⟨isStubPart_lazyPointer _ forLazyDylib _, Or.inr ⟨rfl, rfl⟩⟩
  | arm =>
    dsimp only at h
    split at h
    · exact hpointer target (Except.ok.inj h).symm
    obtain ⟨helper, -, h⟩ := bind_eq_ok.mp h
    exact hpointer helper (Except.ok.inj h).symm

section Retargeted
variable (w objs) (st : Synthesis A) (atom : AtomPtr) (ref : Reference A AtomPtr)

def newStub : Synthesized :=
  ⟨st.made, .stub (some ref.getTarget) (forLazyDylib objs ref.getTarget),
    nameOf objs ref.getTarget ++ "$stub"⟩

def newPointer : Synthesized :=
  ⟨st.made, .nonLazyPointer, nameOf objs ref.getTarget ++ "$non_lazy_pointer"⟩

/-- The states that `retarget` can lead to. -/
inductive Retargeted : Synthesis A → Prop
  | stub (stub : Synthesized) (hneeds : needsStub w objs atom ref = true)
      (hmap : st.fStubsMap ref.getTarget = some stub) :
      Retargeted (st.see atom (ref.setTarget (.synthesized stub) 0))
  | newStub (parts : List (SynthesizedKind × String)) (hneeds : needsStub w objs atom ref = true)
      (hmap : st.fStubsMap ref.getTarget = none) (hparts : ∀ part ∈ parts, IsStubPart A part) :
      Retargeted (Synthesis.see
        { (st.make (newStub objs st ref).kind (newStub objs st ref).getName).makeAll parts with
          fStubsMap := update st.fStubsMap ref.getTarget (some (newStub objs st ref)) }
        atom (ref.setTarget (.synthesized (newStub objs st ref)) 0))
  | pointer (nlp : Synthesized) (hneeds : needsStub w objs atom ref = false)
      (hmap : st.fGOTMap ref.getTarget = some nlp) :
      Retargeted (st.see atom (ref.setTarget (.synthesized nlp) ref.getTargetOffset))
  | newPointer (hneeds : needsStub w objs atom ref = false)
      (hmap : st.fGOTMap ref.getTarget = none) :
      Retargeted (Synthesis.see
        { st.make (newPointer objs st ref).kind (newPointer objs st ref).getName with
          fGOTMap := update st.fGOTMap ref.getTarget (some (newPointer objs st ref)) }
        atom (ref.setTarget (.synthesized (newPointer objs st ref)) ref.getTargetOffset))
  | kept (hneeds : needsStub w objs atom ref = false) : Retargeted (keepTarget st atom ref)

end Retargeted

theorem make_fStubsMap (st : Synthesis A) (kind : SynthesizedKind) (name : String) :
    (st.make kind name).fStubsMap = st.fStubsMap :=
  make_frame st kind name fun _ _ _ _ _ _ => rfl

theorem retarget_ok {atom : AtomPtr} {ref : Reference A AtomPtr}
    (h : retarget w objs st atom ref = .ok st') : Retargeted w objs st atom ref st' := by
  unfold retarget at h
  cases hneeds : needsStub w objs atom ref with
  | true =>
    rw [hneeds, if_pos rfl] at h
    unfold useStub at h
    dsimp only at h
    cases hmap : st.fStubsMap ref.getTarget with
    | some stub =>
      rw [hmap] at h
      obtain rfl := Except.ok.inj h
      exact .stub stub hneeds hmap
    | none =>
      rw [hmap] at h
      obtain ⟨parts, hparts, h⟩ := bind_eq_ok.mp h
      obtain ⟨names, rfl, hnames⟩ := makeStubParts_ok hparts
      obtain rfl := Except.ok.inj h
      have hstubs : ∀ st : Synthesis A, (st.makeAll names).fStubsMap = st.fStubsMap :=
        fun st => makeAll_frame make_fStubsMap st names
      rw [hstubs, make_fStubsMap]
      exact .newStub names hneeds hmap hnames
  | false =>
    rw [hneeds, if_neg Bool.false_ne_true] at h
    split at h
    · cases h
    split at h
    · obtain rfl := Except.ok.inj h
      unfold useNonLazyPointer
      dsimp only
      cases hmap : st.fGOTMap ref.getTarget with
      | some nlp => exact .pointer nlp hneeds hmap
      | none =>
        exact .newPointer hneeds hmap
    · obtain rfl := Except.ok.inj h
      exact .kept hneeds

end Walk
/-! ## Fast stubs and cache lines

A fast stub of i386 has five bytes. Laid out from a multiple of 64 it crosses a cache line in four of
every 64 slots, and the dummy stubs are to keep the real ones out of these. -/

open Lib.RunningLayout Lib.SortContract

section Layout
variable (w : StubWriter)

def stubSize (stub : Synthesized) : Nat :=
  match stub.kind with
  | .stub _ forLazyDylib =>
    if w.slowx86Stubs || forLazyDylib then if w.fSlideable then 20 else 16 else 5
  | _ => 0

def stubAlignment (stub : Synthesized) : Nat :=
  match stub.kind with
  | .stub _ forLazyDylib => if w.slowx86Stubs || forLazyDylib then 2 else 0
  | _ => 0

def placeStub (stub : Synthesized) (offset : Nat) : Nat :=
  (offset + 2 ^ stubAlignment w stub - 1) / 2 ^ stubAlignment w stub * 2 ^ stubAlignment w stub

def isRealStub (stub : Synthesized) : Bool :=
  match stub.kind with
  | .stub (some _) _ => true
  | _ => false

def InLine (address size : Nat) : Prop := address / 64 = (address + size - 1) / 64

/-- The real import stubs are there in their order, and each is in one cache line. -/
structure FastStubsRight (st : Synthesis .x86) : Prop where
  order : (importStubs w (insertDummyStubs st)).filter isRealStub = importStubs w st
  inLine : ∀ base, 64 ∣ base → ∀ placed ∈ offsets (placeStub w) (stubSize w) base
    (importStubs w (insertDummyStubs st)), isRealStub placed.1 = true →
      InLine placed.2 (stubSize w placed.1)

end Layout

/-! ### Slots -/

def crossesLine (slot : Nat) : Bool :=
  slot % 64 == 12 || slot % 64 == 25 || slot % 64 == 38 || slot % 64 == 51

theorem inLine_residue : ∀ residue < 64,
    (5 * residue / 64 = (5 * residue + 4) / 64 ↔ crossesLine residue = false) := by decide

theorem inLine_slot {base : Nat} (hbase : 64 ∣ base) (slot : Nat) :
    InLine (base + 5 * slot) 5 ↔ crossesLine slot = false := by
  obtain ⟨line, rfl⟩ := hbase
  have hresidue := inLine_residue (slot % 64) (Nat.mod_lt slot (by decide))
  have hslot : 64 * line + 5 * slot = 64 * (line + 5 * (slot / 64)) + 5 * (slot % 64) := by omega
  unfold crossesLine at hresidue ⊢
  rw [Nat.mod_mod] at hresidue
  rw [← hresidue]
  unfold InLine
  rw [hslot, Nat.add_sub_assoc (by decide), Nat.add_assoc, Nat.mul_add_div (by decide),
    Nat.mul_add_div (by decide), Nat.add_left_cancel_iff]

/-- The number of the better stubs when `n` stubs were added to them. -/
def betterCount (n : Nat) : Nat := n + (n - 1) / 12 - (n - 1) / 60

/-- Where stub `n` goes: one dummy before every twelfth, but for every sixtieth. -/
def betterSlot (n : Nat) : Nat := n + n / 12 - n / 60

theorem betterCount_succ (n : Nat) : betterCount (n + 1) = betterSlot n + 1 := by
  unfold betterCount betterSlot
  omega

theorem betterSlot_eq (q j i : Nat) (hj : j < 5) (hi : i < 12) :
    betterSlot (60 * q + (12 * j + i)) = 64 * q + (13 * j + i) := by
  unfold betterSlot
  omega

theorem sixties (n : Nat) : ∃ q j i, j < 5 ∧ i < 12 ∧ n = 60 * q + (12 * j + i) :=
  ⟨n / 60, n % 60 / 12, n % 12, by omega, by omega, by omega⟩

theorem betterSlot_inLine (n : Nat) : crossesLine (betterSlot n) = false := by
  obtain ⟨q, j, i, hj, hi, rfl⟩ := sixties n
  rw [betterSlot_eq q j i hj hi]
  unfold crossesLine
  simp only [Bool.or_eq_false_iff, beq_eq_false_iff_ne, Nat.mul_add_mod]
  rcases (by omega : j = 0 ∨ j = 1 ∨ j = 2 ∨ j = 3 ∨ j = 4) with rfl | rfl | rfl | rfl | rfl
  all_goals omega

theorem betterSlot_next (n : Nat) :
    betterSlot n = betterCount n + (if crossesLine (betterCount n) then 1 else 0) := by
  cases n with
  | zero => rfl
  | succ n =>
    obtain ⟨q, j, i, hj, hi, rfl⟩ := sixties n
    rw [betterCount_succ, betterSlot_eq q j i hj hi]
    have hcrosses : crossesLine (64 * q + (13 * j + i) + 1) = decide (i = 11 ∧ j < 4) := by
      unfold crossesLine
      rw [Bool.eq_iff_iff, Nat.add_assoc, Nat.mul_add_mod]
      simp only [Bool.or_eq_true, beq_iff_eq, decide_eq_true_eq]
      rcases (by omega : j = 0 ∨ j = 1 ∨ j = 2 ∨ j = 3 ∨ j = 4) with rfl | rfl | rfl | rfl | rfl
      all_goals omega
    rw [hcrosses]
    simp only [decide_eq_true_eq]
    unfold betterSlot
    split <;> omega

/-! ### The better stubs -/

def dummyStub (number : Nat) : Synthesized :=
  ⟨number, .stub none false, "cache-line-crossing-stub"⟩

theorem addBetterStub_eq (better : List Synthesized × Nat) (stub : Synthesized) :
    addBetterStub better stub =
      if crossesLine better.1.length then
        (better.1 ++ [dummyStub better.2, stub], better.2 + 1)
      else (better.1 ++ [stub], better.2) := by
  unfold addBetterStub crossesLine dummyStub
  split
  case h_5 h12 h25 h38 h51 =>
    simp only [Bool.or_eq_true, beq_iff_eq]
    rw [if_neg]
    rintro (((h | h) | h) | h)
    exacts [h12 h, h25 h, h38 h, h51 h]
  all_goals
    rename_i h
    rw [h, append_assoc]
    rfl

/-- What comes behind the first `count` of the better stubs. -/
def padded : Nat → Nat → List Synthesized → List Synthesized
  | _, _, [] => []
  | count, made, stub :: rest =>
    if crossesLine count then dummyStub made :: stub :: padded (count + 2) (made + 1) rest
    else stub :: padded (count + 1) made rest

theorem foldl_addBetterStub (stubs : List Synthesized) (better : List Synthesized × Nat) :
    (stubs.foldl addBetterStub better).1 = better.1 ++ padded better.1.length better.2 stubs := by
  induction stubs generalizing better with
  | nil => exact (append_nil _).symm
  | cons stub rest ih =>
    rw [foldl_cons, ih, addBetterStub_eq, padded]
    split
    · rw [append_assoc, length_append]
      rfl
    · rw [append_assoc, length_append]
      rfl

theorem betterStubs_eq (st : Synthesis .x86) :
    (insertDummyStubs st).fAllSynthesizedStubs = padded 0 st.made st.fAllSynthesizedStubs :=
  foldl_addBetterStub st.fAllSynthesizedStubs ([], st.made)

section Imports
variable {w : StubWriter}

def isFast (w : StubWriter) (stub : Synthesized) : Bool := !isTextStub w .x86 stub

variable {stub : Synthesized}

theorem isTextStub_kind {A : Architecture} {target : Option AtomPtr}
    {forLazyDylib : Bool} (h : stub.kind = .stub target forLazyDylib) :
    isTextStub w A stub = !isFastStub w A forLazyDylib := by
  have htext : (Segment.fgTextSegment.getName == "__TEXT") = true := by decide
  have himport : (Segment.fgImportSegment.getName == "__TEXT") = false := by decide
  unfold isTextStub getSegment
  rw [h]
  dsimp only
  cases isFastStub w A forLazyDylib with
  | false => exact htext
  | true => cases w.readOnlyx86Stubs <;> assumption

theorem isTextStub_stub (number : Nat) (target : Option AtomPtr) (forLazyDylib : Bool)
    (name : String) : isTextStub w .x86 ⟨number, .stub target forLazyDylib, name⟩ =
      (w.slowx86Stubs || forLazyDylib) := by
  rw [isTextStub_kind rfl]
  unfold isFastStub
  cases w.slowx86Stubs || forLazyDylib <;> rfl

theorem stubSize_fast (hstub : ∃ target lazy, stub.kind = .stub target lazy)
    (hfast : isFast w stub = true) : stubSize w stub = 5 ∧ stubAlignment w stub = 0 := by
  obtain ⟨target, lazy, hkind⟩ := hstub
  cases stub with
  | mk number kind name =>
    subst hkind
    unfold isFast at hfast
    rw [isTextStub_stub, Bool.not_eq_true'] at hfast
    unfold stubSize stubAlignment
    simp only [hfast, Bool.false_eq_true, if_false, and_self]

/-- The real ones among the stubs from slot `slot` on are not moved onto a line's end. -/
def SlotsRight : Nat → List Synthesized → Prop
  | _, [] => True
  | slot, stub :: rest =>
    (isRealStub stub = true → crossesLine slot = false) ∧ SlotsRight (slot + 1) rest

variable {stubs : List Synthesized}

theorem offsets_inLine {base : Nat} (hbase : 64 ∣ base) (slot : Nat)
    (hstubs : ∀ stub ∈ stubs, stubSize w stub = 5 ∧ stubAlignment w stub = 0) :
    (∀ placed ∈ offsets (placeStub w) (stubSize w) (base + 5 * slot) stubs,
      isRealStub placed.1 = true → InLine placed.2 (stubSize w placed.1)) ↔
      SlotsRight slot stubs := by
  induction stubs generalizing slot with
  | nil =>
    constructor
    · intro _
      trivial
    · intro _ placed hplaced
      cases hplaced
  | cons stub rest ih =>
    obtain ⟨hsize, halignment⟩ := hstubs stub mem_cons_self
    have hplace : placeStub w stub (base + 5 * slot) = base + 5 * slot := by
      unfold placeStub
      rw [halignment]
      omega
    have hrest := ih (slot + 1) fun s hs => hstubs s (mem_cons_of_mem _ hs)
    rw [offsets, forall_mem_cons, hplace, hsize, inLine_slot hbase, Nat.add_assoc,
      ← Nat.mul_succ, SlotsRight, ← hrest]

/-- The stubs from number `n` on, of which `t` are in `__TEXT`, are not moved to a bad slot. -/
def MovedRight (w : StubWriter) : Nat → Nat → List Synthesized → Prop
  | _, _, [] => True
  | n, t, stub :: rest =>
    (isFast w stub = true → crossesLine (betterSlot n - t) = false) ∧
      MovedRight w (n + 1) (if isFast w stub then t else t + 1) rest

theorem slotsRight_padded (hslow : w.slowx86Stubs = false) {n t slot made : Nat}
    (hreal : ∀ stub ∈ stubs, isRealStub stub = true)
    (hcount : betterCount n = slot + t) :
    SlotsRight slot ((padded (betterCount n) made stubs).filter (isFast w)) ↔
      MovedRight w n t stubs := by
  induction stubs generalizing n t slot made with
  | nil => exact Iff.rfl
  | cons stub rest ih =>
    have hstub := hreal stub mem_cons_self
    have hrest := fun s hs => hreal s (mem_cons_of_mem _ hs)
    have hnext := betterSlot_next n
    have hsucc := betterCount_succ n
    have hdummy : isFast w (dummyStub made) = true := by
      unfold isFast dummyStub
      rw [isTextStub_stub, hslow]
      rfl
    rw [padded, MovedRight]
    cases hcrosses : crossesLine (betterCount n) with
    | true =>
      rw [hcrosses, if_pos rfl] at hnext
      rw [if_pos rfl, filter_cons, if_pos hdummy, SlotsRight, filter_cons,
        show betterCount n + 2 = betterCount (n + 1) by omega]
      cases hfast : isFast w stub with
      | true =>
        rw [if_pos rfl, if_pos rfl, SlotsRight, ih (t := t) hrest (by omega),
          show betterSlot n - t = slot + 1 by omega]
        simp only [hstub, forall_const]
        constructor
        · intro h
          exact h.2
        · intro h
          exact ⟨fun hfalse => absurd hfalse Bool.false_ne_true, h⟩
      | false =>
        rw [if_neg Bool.false_ne_true, if_neg Bool.false_ne_true, ih (t := t + 1) hrest (by omega)]
        constructor
        · intro h
          exact ⟨fun hfalse => absurd hfalse Bool.false_ne_true, h.2⟩
        · intro h
          exact ⟨fun hfalse => absurd hfalse Bool.false_ne_true, h.2⟩
    | false =>
      rw [hcrosses, if_neg Bool.false_ne_true, Nat.add_zero] at hnext
      rw [if_neg Bool.false_ne_true, filter_cons,
        show betterCount n + 1 = betterCount (n + 1) by omega]
      cases hfast : isFast w stub with
      | true =>
        rw [if_pos rfl, if_pos rfl, SlotsRight, ih (t := t) hrest (by omega),
          show betterSlot n - t = slot by omega]
        simp only [hstub, forall_const]
      | false =>
        rw [if_neg Bool.false_ne_true, if_neg Bool.false_ne_true, ih (t := t + 1) hrest (by omega)]
        simp only [Bool.false_eq_true, false_implies, true_and]

theorem movedRight_iff (n t : Nat) (stubs : List Synthesized) :
    MovedRight w n t stubs ↔ ∀ before stub after, stubs = before ++ stub :: after →
      isFast w stub = true →
        crossesLine (betterSlot (n + before.length) -
          (t + before.countP (isTextStub w .x86))) = false := by
  induction stubs generalizing n t with
  | nil =>
    constructor
    · intro _ before stub after h
      exact absurd h.symm (append_ne_nil_of_right_ne_nil _ (cons_ne_nil _ _))
    · intro _
      trivial
  | cons first rest ih =>
    have hcount : ∀ before : List Synthesized,
        (if isFast w first then t else t + 1) + before.countP (isTextStub w .x86) =
          t + (first :: before).countP (isTextStub w .x86) := by
      intro before
      rw [countP_cons]
      unfold isFast
      cases isTextStub w .x86 first with
      | true =>
        rw [Bool.not_true, if_neg Bool.false_ne_true, if_pos rfl]
        omega
      | false =>
        rw [Bool.not_false, if_pos rfl, if_neg Bool.false_ne_true]
        omega
    have hlength : ∀ before : List Synthesized,
        n + 1 + before.length = n + (first :: before).length := by
      intro before
      rw [length_cons]
      omega
    rw [MovedRight, ih]
    constructor
    · rintro ⟨hfirst, hrest⟩ before stub after h hstub
      cases before with
      | nil =>
        obtain ⟨rfl, rfl⟩ := h
        exact hfirst hstub
      | cons head before =>
        rw [cons_append, List.cons.injEq] at h
        obtain ⟨rfl, h⟩ := h
        rw [← hcount, ← hlength]
        exact hrest before stub after h hstub
    · intro h
      constructor
      · exact h [] first rest rfl
      · intro before stub after hsplit hstub
        rw [hcount, hlength]
        exact h (first :: before) stub after (by rw [hsplit]; rfl) hstub

theorem real_padded (count made : Nat) (keep : Synthesized → Bool)
    (hreal : ∀ stub ∈ stubs, isRealStub stub = true) :
    ((padded count made stubs).filter keep).filter isRealStub = stubs.filter keep := by
  induction stubs generalizing count made with
  | nil => rfl
  | cons stub rest ih =>
    have hstub := hreal stub mem_cons_self
    have hrest := fun count made => ih count made fun s hs => hreal s (mem_cons_of_mem _ hs)
    have hdummy : isRealStub (dummyStub made) = false := rfl
    simp only [filter_filter] at hrest ⊢
    rw [padded]
    split
    · rw [filter_cons, filter_cons, filter_cons, hdummy, hstub, Bool.false_and,
        Bool.true_and, hrest]
      rfl
    · rw [filter_cons, filter_cons, hstub, Bool.true_and, hrest]

theorem mem_padded {count made : Nat} (h : stub ∈ padded count made stubs) :
    stub ∈ stubs ∨ ∃ number, stub = dummyStub number := by
  induction stubs generalizing count made with
  | nil => cases h
  | cons first rest ih =>
    rw [padded] at h
    have hrest : ∀ {count made}, stub ∈ first :: padded count made rest →
        stub ∈ first :: rest ∨ ∃ number, stub = dummyStub number := by
      intro count made h
      rcases List.mem_cons.mp h with rfl | h
      · exact Or.inl mem_cons_self
      · exact (ih h).imp_left (mem_cons_of_mem _)
    split at h
    · rcases List.mem_cons.mp h with rfl | h
      · exact Or.inr ⟨made, rfl⟩
      · exact hrest h
    · exact hrest h

theorem isReal_kind (h : isRealStub stub = true) :
    ∃ target lazy, stub.kind = .stub target lazy := by
  unfold isRealStub at h
  split at h
  · rename_i target lazy hkind
    exact ⟨some target, lazy, hkind⟩
  · cases h

theorem isFast_slow (hslow : w.slowx86Stubs = true)
    (hstub : ∃ target lazy, stub.kind = .stub target lazy) : isFast w stub = false := by
  obtain ⟨target, lazy, hkind⟩ := hstub
  cases stub with
  | mk number kind name =>
    subst hkind
    unfold isFast
    rw [isTextStub_stub, hslow]
    rfl

theorem fastStubsRight_iff {st : Synthesis .x86}
    (hreal : ∀ stub ∈ st.fAllSynthesizedStubs, isRealStub stub = true) :
    FastStubsRight w st ↔ MovedRight w 0 0 st.fAllSynthesizedStubs := by
  have himports : importStubs w (insertDummyStubs st) =
      (padded (betterCount 0) st.made st.fAllSynthesizedStubs).filter (isFast w) := by
    unfold importStubs
    rw [betterStubs_eq]
    rfl
  have hkind : ∀ stub ∈ importStubs w (insertDummyStubs st),
      isFast w stub = true ∧ ∃ target lazy, stub.kind = .stub target lazy := by
    rw [himports]
    intro stub hstub
    rw [mem_filter] at hstub
    refine ⟨hstub.2, ?_⟩
    rcases mem_padded hstub.1 with h | ⟨number, rfl⟩
    · exact isReal_kind (hreal stub h)
    · exact ⟨none, false, rfl⟩
  have hsizes : ∀ stub ∈ importStubs w (insertDummyStubs st),
      stubSize w stub = 5 ∧ stubAlignment w stub = 0 := by
    intro stub hstub
    exact stubSize_fast (hkind stub hstub).2 (hkind stub hstub).1
  have horder : (importStubs w (insertDummyStubs st)).filter isRealStub = importStubs w st := by
    rw [himports]
    exact real_padded _ _ _ hreal
  have hslots : SlotsRight 0 (importStubs w (insertDummyStubs st)) ↔
      MovedRight w 0 0 st.fAllSynthesizedStubs := by
    cases hslow : w.slowx86Stubs with
    | false =>
      rw [himports]
      exact slotsRight_padded hslow hreal rfl
    | true =>
      have hnone : importStubs w (insertDummyStubs st) = [] := by
        apply List.eq_nil_iff_forall_not_mem.mpr
        intro stub hstub
        have hfast := (hkind stub hstub).1
        rw [isFast_slow hslow (hkind stub hstub).2] at hfast
        cases hfast
      rw [hnone, movedRight_iff]
      constructor
      · intro _ before stub after hsplit hfast
        have hstub := hreal stub (by rw [hsplit]; exact mem_append_cons_self)
        rw [isFast_slow hslow (isReal_kind hstub)] at hfast
        cases hfast
      · intro _
        trivial
  rw [← hslots]
  constructor
  · intro h
    rw [← offsets_inLine (Nat.dvd_zero 64) 0 hsizes]
    exact h.inLine _ (Nat.dvd_zero 64)
  · intro h
    refine ⟨horder, ?_⟩
    intro base hbase
    rw [← offsets_inLine hbase 0 hsizes] at h
    exact h

end Imports

section Whole
variable (w : StubWriter) (st : Synthesis .x86)

/-- The fast stubs stay in their order and within cache lines exactly if none of them is moved onto
the end of a line by the text stubs before it, which count for the dummies and are not there. -/
theorem fast_stubs_right_iff (hreal : ∀ stub ∈ st.fAllSynthesizedStubs, isRealStub stub = true) :
    FastStubsRight w st ↔ ∀ before stub after,
      st.fAllSynthesizedStubs = before ++ stub :: after → isTextStub w .x86 stub = false →
        crossesLine (before.length + before.length / 12 - before.length / 60 -
          before.countP (isTextStub w .x86)) = false := by
  rw [fastStubsRight_iff hreal, movedRight_iff]
  simp only [Nat.zero_add, betterSlot, isFast, Bool.not_eq_true']

end Whole

def plainWriter : StubWriter := { sort := nameSort, sort_spec := nameSort_spec }

def thirteenStubs (lazyDylib : Nat) : List Synthesized :=
  ["_a$stub", "_b$stub", "_c$stub", "_d$stub", "_e$stub", "_f$stub", "_g$stub", "_h$stub",
    "_i$stub", "_j$stub", "_k$stub", "_l$stub", "_m$stub"].zipIdx.map fun (name, i) =>
      ⟨i, .stub (some i) (i < lazyDylib), name⟩

theorem thirteen_fast_stubs_right :
    FastStubsRight plainWriter { fAllSynthesizedStubs := thirteenStubs 0 } := by
  apply (fast_stubs_right_iff plainWriter { fAllSynthesizedStubs := thirteenStubs 0 }
    (by decide)).mpr
  intro before stub after hsplit _
  have hnone : (thirteenStubs 0).countP (isTextStub plainWriter .x86) = 0 := by decide
  rw [show thirteenStubs 0 = before ++ stub :: after from hsplit, countP_append] at hnone
  rw [Nat.eq_zero_of_add_eq_zero_right hnone]
  exact betterSlot_inLine before.length

theorem mixed_stub_crosses_line : Sorted atomByNameSorter (thirteenStubs 1) (thirteenStubs 1) ∧
      (∀ stub ∈ thirteenStubs 1, isRealStub stub = true) ∧
      ¬ FastStubsRight plainWriter { fAllSynthesizedStubs := thirteenStubs 1 } := by
  have hreal : ∀ stub ∈ thirteenStubs 1, isRealStub stub = true := by decide
  refine ⟨⟨List.Perm.refl _, by decide⟩, hreal, ?_⟩
  intro h
  rw [fastStubsRight_iff hreal, movedRight_iff] at h
  have hcrosses := h ((thirteenStubs 1).take 12) ⟨12, .stub (some 12) false, "_m$stub"⟩ []
    (by decide) (by decide)
  exact absurd hcrosses (by decide)

end Toolwhip.Ld64.Stubs
