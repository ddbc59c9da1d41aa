import Mathlib.Combinatorics.Pigeonhole
import Toolwhip.Lib.GraphSearch
import Toolwhip.Distcc.IncludeRun

/-! # The include closure of a translation unit

`RunAlgorithm` and `_CalculateIncludeClosureExceptSystem` of
include_analyzer_memoizing_node.py. -/

set_option autoImplicit false

namespace Toolwhip.Distcc
open Lib.StackSearch List
set_option linter.unusedSectionVars false

/-- The macro definitions of the command line, whose texts are given, and the system
directories. -/
structure Server (Dir Real Symbol Table Text : Type) where
  /-- the symbol of a left-hand side, and what becomes of the symbol table -/
  symbol : Text → Symbol
  InsertMacroDefInTable : Text → Text → Table → Table
  starts_with_systemdir : Real → Bool
  rooted : Dir → Bool

structure TranslationUnit (Dir Name Real Text : Type) where
  d_opts : List (List Text)
  filepath_resolved_pair : Dir × Name
  filepath_real : Real

abbrev IncludeClosure (Dir Name Real : Type) := Real → Option (List (Dir × Name))

variable {Dir Name Real Symbol Table Expr Text : Type} [DecidableEq Dir] [DecidableEq Name]
  [DecidableEq Real] [DecidableEq Symbol]

section Server
variable (srv : Server Dir Real Symbol Table Text)

def insertMacroDef (lhs rhs : Text) (s : Caches Dir Name Real Symbol Table) :
    Caches Dir Name Real Symbol Table :=
  { s with symbol_table := srv.InsertMacroDefInTable lhs rhs s.symbol_table }.invalidate
    [srv.symbol lhs]

def processOption (s : Caches Dir Name Real Symbol Table) :
    List Text → Caches Dir Name Real Symbol Table
  | [lhs, rhs] => insertMacroDef srv lhs rhs s
  | _ => s

def Caches.childrenOf (s : Caches Dir Name Real Symbol Table) (node : Nat) : List Nat :=
  match s.made[node]? with
  | some n => n.children
  | none => []

/-- What is done for a node that is visited the first time. -/
def addToClosure (s : Caches Dir Name Real Symbol Table)
    (include_closure : IncludeClosure Dir Name Real) (node : Nat) : IncludeClosure Dir Name Real :=
  match s.made[node]? with
  | none => include_closure
  | some n =>
    match n.real, n.resolved with
    | some fp_real, some fp =>
      if srv.starts_with_systemdir fp_real then include_closure
      else
        let pairs := (include_closure fp_real).getD []
        Function.update include_closure fp_real
          (some (if srv.rooted fp.1 then pairs ++ [fp] else pairs))
    | _, _ => include_closure

def CalculateIncludeClosureExceptSystem (s : Caches Dir Name Real Symbol Table) :
    Option Nat → IncludeClosure Dir Name Real
  | none => fun _ => none
  | some node =>
    -- a child goes on the stack once for each time it is a child
    search s.childrenOf (addToClosure srv s) (2 + (s.made.map fun n => n.children.length).sum)
      [node] [] fun _ => none

/-- With at most this recursion depth. -/
def RunAlgorithm (w : World Dir Name Real Symbol Table Expr) (depth : Nat)
    (tu : TranslationUnit Dir Name Real Text) (s : Caches Dir Name Real Symbol Table) :
    Option (IncludeClosure Dir Name Real × Caches Dir Name Real Symbol Table) :=
  (FindNode w depth (.resolved (some (tu.filepath_resolved_pair, tu.filepath_real)))
    (tu.d_opts.foldl (processOption srv) s)).map fun found =>
      (CalculateIncludeClosureExceptSystem srv found.2 found.1, found.2)

end Server

variable {srv : Server Dir Real Symbol Table Text} {s : Caches Dir Name Real Symbol Table}
  {fp_real : Real} {node : Nat}

def IsFile (s : Caches Dir Name Real Symbol Table) (node : Nat) (fp_real : Real) : Prop :=
  ∃ n fp, s.made[node]? = some n ∧ n.real = some fp_real ∧ n.resolved = some fp

theorem addToClosure_isSome {include_closure : IncludeClosure Dir Name Real} :
    (addToClosure srv s include_closure node fp_real).isSome = true ↔
      (include_closure fp_real).isSome = true ∨
        IsFile s node fp_real ∧ srv.starts_with_systemdir fp_real = false := by
  unfold addToClosure IsFile
  cases hn : s.made[node]? with
  | none => simp
  | some n =>
    dsimp only
    cases hreal : n.real with
    | none => simp [hreal]
    | some r =>
      cases hfp : n.resolved with
      | none => simp [hfp]
      | some fp =>
        by_cases hr : fp_real = r
        · subst hr
          cases hsystem : srv.starts_with_systemdir fp_real with
          | false =>
            have hpair : ∃ d name, fp = (d, name) := ⟨fp.1, fp.2, rfl⟩
            simp [hsystem, hreal, hfp, hpair]
          | true => simp [hsystem]
        · have hne : ¬ r = fp_real := fun h => hr h.symm
          cases hsystem : srv.starts_with_systemdir r with
          | false => simp [hsystem, hreal, hr, hne]
          | true => simp [hsystem, hreal, hne]

theorem foldl_addToClosure_isSome {order : List Nat} {include_closure : IncludeClosure Dir Name Real} :
    (order.foldl (addToClosure srv s) include_closure fp_real).isSome = true ↔
      (include_closure fp_real).isSome = true ∨
        ∃ node ∈ order, IsFile s node fp_real ∧ srv.starts_with_systemdir fp_real = false := by
  induction order generalizing include_closure with
  | nil => simp
  | cons node order ih =>
    rw [foldl_cons, ih, addToClosure_isSome, or_assoc]
    simp only [mem_cons, exists_eq_or_imp]

theorem sum_children (made : List (Node Dir Name Real)) : ∑ n ∈ Finset.range made.length,
        (match made[n]? with | some n => n.children | none => []).length =
      (made.map fun n => n.children.length).sum := by
  induction made with
  | nil => rfl
  | cons n made ih =>
    rw [length_cons, Finset.sum_range_succ', map_cons, sum_cons, ← ih, Nat.add_comm]
    rfl

theorem search_childrenOf (srv : Server Dir Real Symbol Table Text)
    (s : Caches Dir Name Real Symbol Table) (node : Nat) :
    ∃ order, CalculateIncludeClosureExceptSystem srv s (some node) =
        order.foldl (addToClosure srv s) (fun _ => none) ∧
      Order s.childrenOf [node] [] order := by
  apply search_order (Finset.range s.made.length)
  · intro n hn
    rw [Finset.mem_range, not_lt] at hn
    unfold Caches.childrenOf
    rw [getElem?_eq_none hn]
  · have hsum : ∑ n ∈ Finset.range s.made.length, (s.childrenOf n).length =
        (s.made.map fun n => n.children.length).sum := by
      exact sum_children s.made
    have hle : ∑ n ∈ (Finset.range s.made.length).filter (· ∉ ([] : List Nat)),
        (s.childrenOf n).length ≤ ∑ n ∈ Finset.range s.made.length, (s.childrenOf n).length :=
      Finset.sum_le_sum_of_ne_zero fun n hn _ => (Finset.mem_filter.mp hn).1
    unfold pops
    rw [length_singleton]
    omega

theorem closure_of_reach {n : Nat} (hfile : IsFile s n fp_real)
    (hsystem : srv.starts_with_systemdir fp_real = false)
    (hreach : Relation.ReflTransGen (fun a b => b ∈ s.childrenOf a) node n) :
    (CalculateIncludeClosureExceptSystem srv s (some node) fp_real).isSome = true := by
  obtain ⟨order, hsearch, horder⟩ := search_childrenOf srv s node
  rw [hsearch, foldl_addToClosure_isSome]
  exact Or.inr ⟨n, horder.reach hreach, hfile, hsystem⟩

theorem isFile_of_closure {result : Option Nat}
    (h : (CalculateIncludeClosureExceptSystem srv s result fp_real).isSome = true) :
    ∃ n, IsFile s n fp_real ∧ srv.starts_with_systemdir fp_real = false := by
  cases result with
  | none => cases h
  | some node =>
    obtain ⟨order, hsearch, _⟩ := search_childrenOf srv s node
    rw [hsearch, foldl_addToClosure_isSome] at h
    rcases h with h | ⟨n, _, hfile⟩
    · cases h
    · exact ⟨n, hfile⟩

end Toolwhip.Distcc

/-! ## What a node of the cache stands for

A node that is in use and valid has a child for every include of its file, under the
symbol table as it is, but for the includes that are left. -/

namespace Toolwhip.Distcc
set_option linter.unusedSectionVars false

variable {Dir Name Real Symbol Table Expr : Type} [DecidableEq Dir] [DecidableEq Name]
  [DecidableEq Real] [DecidableEq Symbol]

namespace Caches
variable (s : Caches Dir Name Real Symbol Table) (node : Nat)

def fileOf : Option ((Dir × Name) × Real) :=
  match s.made[node]? with
  | some n => resolutionOf n
  | none => none

def validNode : Bool := s.valid (s.recordOf node)

end Caches

/-- A node that is under a key, being made or being returned, or is a child of such a node;
an invalid one is not used. -/
inductive Held (cfg : Config Dir Name Real Symbol Table Expr) : Nat → Prop
  | key {key : Key Dir Name Real} {n : Nat} (h : cfg.caches.nodes key = some n)
      (hvalid : cfg.caches.validNode n = true) : Held cfg n
  | visit {f : Visit Dir Name Real Symbol Expr} (h : f ∈ cfg.frames)
      (hvalid : cfg.caches.validNode f.node = true) : Held cfg f.node
  | result {n : Nat} (h : cfg.control = .ret (some n))
      (hvalid : cfg.caches.validNode n = true) : Held cfg n
  | child {n m : Nat} (h : Held cfg n) (hchild : m ∈ cfg.caches.childrenOf n) : Held cfg m

def Left (cfg : Config Dir Name Real Symbol Table Expr) (n : Nat) (item : Item Name Expr) : Prop :=
  ∃ f ∈ cfg.frames, f.node = n ∧ item ∈ f.left

section Conditions
variable (w : World Dir Name Real Symbol Table Expr)

/-- New definitions make a node in use invalid if they change what one of its includes
stands for or make a child invalid. -/
def Supported (cfg : Config Dir Name Real Symbol Table Expr)
    (s' : Caches Dir Name Real Symbol Table) : Prop :=
  ∀ n, Held cfg n → s'.validNode n = true →
    (∀ m ∈ cfg.caches.childrenOf n, s'.validNode m = true) ∧
    ∀ fp fp_real, cfg.caches.fileOf n = some (fp, fp_real) →
      ∀ item ∈ items (w.parse fp_real), ¬ Left cfg n item →
        (callsFor w (w.dirname fp).1 s' item).1 ⊆ (callsFor w (w.dirname fp).1 cfg.caches item).1

/-- Nothing but the node on top is under a key or being made with this record. -/
def Unshared (cfg : Config Dir Name Real Symbol Table Expr) (support_record : Nat) : Prop :=
  (∀ key n, cfg.caches.nodes key = some n → cfg.caches.recordOf n = support_record →
    ∃ f ∈ cfg.frames.head?, f.node = n) ∧
  ∀ f ∈ cfg.frames.tail, cfg.caches.recordOf f.node ≠ support_record

def StepMeets (cfg : Config Dir Name Real Symbol Table Expr) : Prop :=
  match cfg.control with
  | .ret (some n) => cfg.caches.validNode n = true
  | .revalidate support_record _ => Unshared cfg support_record
  | .parse fp_real => Supported w cfg (parseFile w fp_real cfg.caches)
  | _ => True

end Conditions

def idle (s : Caches Dir Name Real Symbol Table) : Config Dir Name Real Symbol Table Expr :=
  ⟨.items, [], s⟩

def startOf {Text : Type} (tu : TranslationUnit Dir Name Real Text) : Call Dir Name Real :=
  .resolved (some (tu.filepath_resolved_pair, tu.filepath_real))

section Unit
variable {Text : Type} (srv : Server Dir Real Symbol Table Text)
  (w : World Dir Name Real Symbol Table Expr)

def OptionsMeet (s : Caches Dir Name Real Symbol Table) : List (List Text) → Prop
  | [] => True
  | d_opt :: d_opts =>
    Supported w (idle s) (processOption srv s d_opt) ∧ OptionsMeet (processOption srv s d_opt) d_opts

def UnitMeets (tu : TranslationUnit Dir Name Real Text) (s : Caches Dir Name Real Symbol Table) :
    Prop :=
  OptionsMeet srv w s tu.d_opts ∧
    ∀ cfg, Steps w ⟨.enter (startOf tu), [], tu.d_opts.foldl (processOption srv) s⟩ cfg →
      StepMeets w cfg

end Unit

section Given
variable (w : World Dir Name Real Symbol Table Expr)

def realPair (found : (Dir × Name) × Real) : Real × Real := (found.2, (w.dirname found.1).2)

/-- A name that is found has one real path. -/
def FileSystem (real_path : Dir × Name → Real) : Prop :=
  ∀ d fp d' fp_real, w.locate d fp = some (d', fp_real) → real_path (d', fp) = fp_real

/-- The names of a file's includes, whose symbols stand for what they do in `table`. -/
def Includes.names (found : Includes Name Expr) (table : Table) : Set Name :=
  {name | name ∈ found.quote_includes ∨ name ∈ found.angle_includes ∨
    name ∈ found.next_includes ∨ ∃ e ∈ found.expr_includes, .quote name ∈ w.evaluate e table}

/-- `name` leads to the same file from both directories. -/
structure Alike (fp fp' : Dir × Name) (name : Name) : Prop where
  locate :
    (w.locate (w.dirname fp).1 name).map (fun found => realPair w ((found.1, name), found.2)) =
      (w.locate (w.dirname fp').1 name).map fun found => realPair w ((found.1, name), found.2)
  fallback :
    w.framework_fallback name (w.dirname fp).1 = w.framework_fallback name (w.dirname fp').1

/-- A file that both caches know under the same real directory is included from alike. -/
def NamesAlike (s s' : Caches Dir Name Real Symbol Table) : Prop :=
  ∀ n file n' file', s.fileOf n = some file → s'.fileOf n' = some file' →
    realPair w file = realPair w file' →
    ∀ name ∈ (w.parse file.2).names w s.symbol_table, Alike w file.1 file'.1 name

/-- The order is what is defined; a value stays possible with more definitions. -/
structure Definitions [Preorder Table] : Prop where
  le_insert : ∀ fp_real table, table ≤ w.insert fp_real table
  insert_le : ∀ fp_real table table' t, w.insert fp_real t ≤ table' → table ≤ table' →
    w.insert fp_real table ≤ table'
  evaluate : ∀ e table table', table ≤ table' → w.evaluate e table ⊆ w.evaluate e table'

end Given

end Toolwhip.Distcc
