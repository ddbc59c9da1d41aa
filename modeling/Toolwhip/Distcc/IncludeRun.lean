import Toolwhip.Distcc.IncludeAnalyzer

/-! # The include analyzer, step by step

The same recursion with the calls under way kept in a list, so that every state between
two steps can be spoken of. What `FindNode` returns, these steps come to. -/

namespace Toolwhip.Distcc
open Lib.DepthLimit
set_option autoImplicit false

/-- A call under way: the calls for the present include that are not done, the one being
made included, the symbols the include depends on, and the includes that are left. -/
structure Visit (Dir Name Real Symbol Expr : Type) where
  node : Nat
  dummy : Bool
  fp_dirname : Dir
  calls : List (Call Dir Name Real)
  symbols : List Symbol
  left : List (Item Name Expr)

inductive Control (Dir Name Real : Type) where
  | enter (call : Call Dir Name Real)
  | revalidate (support_record : Nat) (fp_real : Real)
  | parse (fp_real : Real)
  | items
  | calls
  | ret (result : Option Nat)

structure Config (Dir Name Real Symbol Table Expr : Type) where
  control : Control Dir Name Real
  frames : List (Visit Dir Name Real Symbol Expr)
  caches : Caches Dir Name Real Symbol Table

variable {Dir Name Real Symbol Table Expr : Type} [DecidableEq Dir] [DecidableEq Name]
  [DecidableEq Real] [DecidableEq Symbol]

section Machine
variable (w : World Dir Name Real Symbol Table Expr)

def stepFile (key : Key Dir Name Real) (isResolved : Bool) (node support_record : Nat)
    (fp : Dir × Name) (fp_real : Real) (fs : List (Visit Dir Name Real Symbol Expr))
    (s : Caches Dir Name Real Symbol Table) : Config Dir Name Real Symbol Table Expr :=
  let (fp_dirname, fp_dirname_real) := w.dirname fp
  let fs' := ⟨node, false, fp_dirname, [], [], items (w.parse fp_real)⟩ :: fs
  if isResolved then ⟨.revalidate support_record fp_real, fs', s⟩
  else
    match s.nodes (.real fp_real fp_dirname_real), s.valid support_record with
    | some found, true => ⟨.ret (some found), fs, s.setNode key found⟩
    | _, _ => ⟨.revalidate support_record fp_real, fs',
        s.setNode (.real fp_real fp_dirname_real) node⟩

def stepNode (call : Call Dir Name Real) (key : Key Dir Name Real)
    (found : Option ((Dir × Name) × Real)) (support_record : Nat)
    (fs : List (Visit Dir Name Real Symbol Expr)) (s : Caches Dir Name Real Symbol Table) :
    Config Dir Name Real Symbol Table Expr :=
  let node := s.made.length
  let s := (s.newNode ⟨found.map Prod.snd, found.map Prod.fst, [], support_record⟩).setNode key node
  match found, call with
  | none, .next fp file_dir =>
    ⟨.calls, ⟨node, true, file_dir, nextCalls w fp file_dir, [], []⟩ :: fs, s⟩
  | none, _ => ⟨.ret (some node), fs, s⟩
  | some (fp, fp_real), .resolved _ => stepFile w key true node support_record fp fp_real fs s
  | some (fp, fp_real), _ => stepFile w key false node support_record fp fp_real fs s

def stepEnter (call : Call Dir Name Real) (fs : List (Visit Dir Name Real Symbol Expr))
    (s : Caches Dir Name Real Symbol Table) : Config Dir Name Real Symbol Table Expr :=
  match keyOf call with
  | none => ⟨.ret none, fs, s⟩
  | some key =>
    match s.nodes key with
    | none => stepNode w call key (resolveCall w call) s.records.length fs s.newRecord
    | some node =>
      match s.made[node]? with
      | none => ⟨.ret (some node), fs, s⟩
      | some found =>
        if s.valid found.support_record then ⟨.ret (some node), fs, s⟩
        else stepNode w call key (resolutionOf found) found.support_record fs s

def stepItems (f : Visit Dir Name Real Symbol Expr) (fs : List (Visit Dir Name Real Symbol Expr))
    (s : Caches Dir Name Real Symbol Table) : Config Dir Name Real Symbol Table Expr :=
  match f.left with
  | [] => ⟨.ret (some f.node), fs, s⟩
  | item :: left =>
    let (calls, symbols) := callsFor w f.fp_dirname s item
    ⟨.calls, { f with calls := calls, symbols := symbols, left := left } :: fs, s⟩

def stepCalls (f : Visit Dir Name Real Symbol Expr) (fs : List (Visit Dir Name Real Symbol Expr))
    (s : Caches Dir Name Real Symbol Table) : Config Dir Name Real Symbol Table Expr :=
  match f.calls with
  | [] =>
    if f.dummy then ⟨.ret (some f.node), fs, s⟩
    else ⟨.items, f :: fs, s.update (s.recordOf f.node) f.symbols⟩
  | c :: _ => ⟨.enter c, f :: fs, s⟩

def stepRet (result : Option Nat) (f : Visit Dir Name Real Symbol Expr)
    (fs : List (Visit Dir Name Real Symbol Expr)) (s : Caches Dir Name Real Symbol Table) :
    Config Dir Name Real Symbol Table Expr :=
  ⟨.calls, { f with calls := f.calls.tail } :: fs, s.addChild f.node f.dummy result⟩

def step : Config Dir Name Real Symbol Table Expr → Option (Config Dir Name Real Symbol Table Expr)
  | ⟨.enter call, fs, s⟩ => some (stepEnter w call fs s)
  | ⟨.revalidate support_record fp_real, fs, s⟩ =>
    some ⟨.parse fp_real, fs, s.setValid support_record⟩
  | ⟨.parse fp_real, fs, s⟩ => some ⟨.items, fs, parseFile w fp_real s⟩
  | ⟨.items, f :: fs, s⟩ => some (stepItems w f fs s)
  | ⟨.calls, f :: fs, s⟩ => some (stepCalls f fs s)
  | ⟨.ret result, f :: fs, s⟩ => some (stepRet result f fs s)
  | ⟨_, [], _⟩ => none

def Steps : Config Dir Name Real Symbol Table Expr → Config Dir Name Real Symbol Table Expr → Prop :=
  Relation.ReflTransGen fun cfg cfg' => step w cfg = some cfg'

end Machine

variable {w : World Dir Name Real Symbol Table Expr} {s s' : Caches Dir Name Real Symbol Table}
  {fs : List (Visit Dir Name Real Symbol Expr)} {result : Option Nat} {depth : Nat}
  {cfg cfg' cfg'' : Config Dir Name Real Symbol Table Expr}

theorem Steps.one (h : step w cfg = some cfg') : Steps w cfg cfg' := Relation.ReflTransGen.single h

theorem Steps.first (h : step w cfg = some cfg') (h' : Steps w cfg' cfg'') : Steps w cfg cfg'' :=
  Relation.ReflTransGen.head h h'

def CallsReturn (w : World Dir Name Real Symbol Table Expr) (depth : Nat) : Prop :=
  ∀ call s result s', FindNode w depth call s = some (result, s') →
    ∀ fs : List (Visit Dir Name Real Symbol Expr),
      Steps w ⟨.enter call, fs, s⟩ ⟨.ret result, fs, s'⟩

section
variable (hcalls : CallsReturn w depth)
variable {node support_record : Nat} {key : Key Dir Name Real} {fp_real : Real}
include hcalls

theorem visitAll_steps (f : Visit Dir Name Real Symbol Expr)
    (fs : List (Visit Dir Name Real Symbol Expr))
    {after : Caches Dir Name Real Symbol Table → NodeBody Dir Name Real Symbol Table}
    (h : runBody (FindNode w depth) (visitAll f.node f.dummy f.calls s after) = some (result, s')) :
    ∃ s₁, runBody (FindNode w depth) (after s₁) = some (result, s') ∧
      Steps w ⟨.calls, f :: fs, s⟩ ⟨.calls, { f with calls := [] } :: fs, s₁⟩ := by
  obtain ⟨node, dummy, fp_dirname, calls, symbols, left⟩ := f
  induction calls generalizing s with
  | nil => exact ⟨s, h, Relation.ReflTransGen.refl⟩
  | cons c calls ih =>
    rw [visitAll, runBody] at h
    cases hc : FindNode w depth c s with
    | none =>
      rw [hc] at h
      cases h
    | some y =>
      obtain ⟨child, s₁⟩ := y
      rw [hc] at h
      obtain ⟨s₂, hafter, hsteps⟩ := ih h
      refine ⟨s₂, hafter, ?_⟩
      apply Steps.first rfl
      exact (hcalls c s child s₁ hc _).trans (Steps.first rfl hsteps)

theorem visitIncludes_steps (f : Visit Dir Name Real Symbol Expr) (hdummy : f.dummy = false)
    (h : runBody (FindNode w depth) (visitIncludes w f.node f.fp_dirname f.left s) =
      some (result, s')) : Steps w ⟨.items, f :: fs, s⟩ ⟨.ret result, fs, s'⟩ := by
  obtain ⟨node, dummy, fp_dirname, calls, symbols, left⟩ := f
  obtain rfl : dummy = false := hdummy
  induction left generalizing s calls symbols with
  | nil =>
    obtain ⟨rfl, rfl⟩ := Prod.mk.inj (Option.some.inj h)
    exact Steps.one rfl
  | cons item left ih =>
    let f' : Visit Dir Name Real Symbol Expr := ⟨node, false, fp_dirname,
      (callsFor w fp_dirname s item).1, (callsFor w fp_dirname s item).2, left⟩
    obtain ⟨s₁, hafter, hsteps⟩ := visitAll_steps hcalls f' fs h
    apply Steps.first rfl
    apply hsteps.trans
    exact Steps.first rfl (ih _ _ hafter)

theorem expand_steps {fp_dirname : Dir} (h : runBody (FindNode w depth)
      (expand w node support_record fp_real fp_dirname s) = some (result, s')) :
    Steps w ⟨.revalidate support_record fp_real,
      ⟨node, false, fp_dirname, [], [], items (w.parse fp_real)⟩ :: fs, s⟩
      ⟨.ret result, fs, s'⟩ := by
  apply Steps.first rfl
  apply Steps.first rfl
  exact visitIncludes_steps hcalls ⟨node, false, fp_dirname, [], [], items (w.parse fp_real)⟩ rfl h

theorem enterFile_steps {isResolved : Bool}
    {fp : Dir × Name} (h : runBody (FindNode w depth)
      (enterFile w key isResolved node support_record fp fp_real s) = some (result, s')) :
    Steps w (stepFile w key isResolved node support_record fp fp_real fs s)
      ⟨.ret result, fs, s'⟩ := by
  unfold enterFile at h
  unfold stepFile
  dsimp only at h ⊢
  split at h
  · rename_i hresolved
    rw [if_pos hresolved]
    exact expand_steps hcalls h
  rename_i hresolved
  rw [if_neg hresolved]
  cases hfound : s.nodes (.real fp_real (w.dirname fp).2) with
  | none =>
    rw [hfound] at h
    exact expand_steps hcalls h
  | some found =>
    rw [hfound] at h
    cases hvalid : s.valid support_record with
    | false =>
      rw [hvalid] at h
      exact expand_steps hcalls h
    | true =>
      rw [hvalid] at h
      obtain ⟨rfl, rfl⟩ := Prod.mk.inj (Option.some.inj h)
      exact Relation.ReflTransGen.refl

theorem makeNode_steps {call : Call Dir Name Real}
    {found : Option ((Dir × Name) × Real)} {support_record : Nat}
    (h : runBody (FindNode w depth) (makeNode w call key found support_record s) =
      some (result, s')) :
    Steps w (stepNode w call key found support_record fs s) ⟨.ret result, fs, s'⟩ := by
  cases found with
  | some found =>
    unfold makeNode at h
    cases call <;> exact enterFile_steps hcalls h
  | none =>
    cases call with
    | next fp file_dir =>
      obtain ⟨s₁, hafter, hsteps⟩ := visitAll_steps (s := (s.newNode _).setNode key _)
        hcalls ⟨s.made.length, true, file_dir, nextCalls w fp file_dir, [], []⟩ fs h
      obtain ⟨rfl, rfl⟩ := Prod.mk.inj (Option.some.inj hafter)
      exact hsteps.trans (Steps.one rfl)
    | resolved _ =>
      obtain ⟨rfl, rfl⟩ := Prod.mk.inj (Option.some.inj h)
      exact Relation.ReflTransGen.refl
    | quote _ _ =>
      obtain ⟨rfl, rfl⟩ := Prod.mk.inj (Option.some.inj h)
      exact Relation.ReflTransGen.refl
    | angle _ _ =>
      obtain ⟨rfl, rfl⟩ := Prod.mk.inj (Option.some.inj h)
      exact Relation.ReflTransGen.refl

end

theorem FindNode_steps (w : World Dir Name Real Symbol Table Expr) (depth : Nat) :
    CallsReturn w depth := by
  induction depth with
  | zero =>
    intro call s result s' h
    cases h
  | succ depth ih =>
    intro call s result s' h fs
    apply Steps.first rfl
    have h : runBody (FindNode w depth) (findNodeBody w call s) = some (result, s') := h
    unfold findNodeBody at h
    unfold stepEnter
    cases hkey : keyOf call with
    | none =>
      simp only [hkey] at h ⊢
      obtain ⟨rfl, rfl⟩ := Prod.mk.inj (Option.some.inj h)
      exact Relation.ReflTransGen.refl
    | some key =>
      simp only [hkey] at h ⊢
      cases hnode : s.nodes key with
      | none =>
        simp only [hnode] at h ⊢
        exact makeNode_steps ih h
      | some node =>
        simp only [hnode] at h ⊢
        cases hfound : s.made[node]? with
        | none =>
          simp only [hfound] at h ⊢
          obtain ⟨rfl, rfl⟩ := Prod.mk.inj (Option.some.inj h)
          exact Relation.ReflTransGen.refl
        | some found =>
          simp only [hfound] at h ⊢
          cases hvalid : s.valid found.support_record with
          | true =>
            rw [hvalid, if_pos rfl] at h
            obtain ⟨rfl, rfl⟩ := Prod.mk.inj (Option.some.inj h)
            exact Relation.ReflTransGen.refl
          | false =>
            rw [hvalid, if_neg Bool.false_ne_true] at h
            exact makeNode_steps ih h

end Toolwhip.Distcc
