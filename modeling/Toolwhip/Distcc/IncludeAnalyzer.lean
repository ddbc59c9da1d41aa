import Toolwhip.Lib.DepthLimit

/-! # The include analyzer

`FindNode` of include_analyzer_memoizing_node.py for one include configuration, `Resolve` of
cache_basics.py and `ResolveExpr` of macro_eval.py. What is on the disk, what a file
contains and what an expression evaluates to are given; the mirrored paths, of which
nothing else depends, are left out. An index of a map is what it stands for. -/

namespace Toolwhip.Distcc
open Lib.DepthLimit
set_option autoImplicit false

/-- What `Parse` finds in a file. -/
structure Includes (Name Expr : Type) where
  quote_includes : List Name
  angle_includes : List Name
  expr_includes : List Expr
  next_includes : List Name

/-- A possible value of an expression; any other has the symbols that are left in it. -/
inductive Value (Name Symbol : Type) where
  | quote (fp : Name)
  | angle (fp : Name)
  | other (symbols : List Symbol)

/-- The disk and the files on it, and the include configuration. A directory and an include
path are names; a real path is the same for all names of a file or directory. -/
structure World (Dir Name Real Symbol Table Expr : Type) where
  currdir : Dir
  quote_dirs : List Dir
  angle_dirs : List Dir
  absolute : Name → Bool
  /-- whether there is a file of that name, in which directory (another one for a header
  map), and its real path -/
  locate : Dir → Name → Option (Dir × Real)
  /-- a name of `PATH_MAX` bytes or more is not found -/
  finite_located : {p : Dir × Name | (locate p.1 p.2).isSome = true}.Finite
  /-- the subframework directories for an including directory -/
  framework_fallback : Name → Dir → List Dir
  /-- `dirname_cache.Lookup` -/
  dirname : Dir × Name → Dir × Real
  parse : Real → Includes Name Expr
  /-- the symbols that the file defines, and what becomes of the symbol table -/
  defines : Real → List Symbol
  insert : Real → Table → Table
  evaluate : Expr → Table → List (Value Name Symbol)

/-- The arguments of `FindNode`; `fp_real_idx` comes with a resolved path. -/
inductive Call (Dir Name Real : Type) where
  | quote (fp : Name) (file_dir : Dir)
  | angle (fp : Name) (file_dir : Dir)
  | next (fp : Name) (file_dir : Dir)
  | resolved (fp : Option ((Dir × Name) × Real))

inductive Key (Dir Name Real : Type) where
  | quote (fp : Name) (file_dir : Dir)
  | angle (fp : Name) (file_dir : Dir)
  | next (fp : Name) (file_dir : Dir)
  | resolved (fp : Dir × Name)
  | real (file dir : Real)
  deriving DecidableEq

structure SupportRecord (Symbol : Type) where
  valid : Bool
  support : List Symbol

/-- A node; a child and a support record are given by their number. -/
structure Node (Dir Name Real : Type) where
  real : Option Real
  resolved : Option (Dir × Name)
  children : List Nat
  support_record : Nat

/-- The node cache of the include configuration, the nodes and the support records that
have been made, the files that have been parsed, and the symbol table. -/
structure Caches (Dir Name Real Symbol Table : Type) where
  nodes : Key Dir Name Real → Option Nat
  made : List (Node Dir Name Real)
  records : List (SupportRecord Symbol)
  file_cache : Real → Bool
  symbol_table : Table

section Analyzer
variable {Dir Name Real Symbol Table Expr : Type} [DecidableEq Dir] [DecidableEq Name]
  [DecidableEq Real] [DecidableEq Symbol]

namespace Caches
variable (s : Caches Dir Name Real Symbol Table)

def valid (support_record : Nat) : Bool :=
  match s.records[support_record]? with
  | some r => r.valid
  | none => true

def support (support_record : Nat) : List Symbol :=
  match s.records[support_record]? with
  | some r => r.support
  | none => []

def update (support_record : Nat) (symbols : List Symbol) : Caches Dir Name Real Symbol Table :=
  { s with records := s.records.modify support_record fun r =>
      { r with support := r.support.union symbols } }

/-- `support_record.valid = True` -/
def setValid (support_record : Nat) : Caches Dir Name Real Symbol Table :=
  { s with records := s.records.modify support_record fun r => { r with valid := true } }

/-- `nodes_for_incl_config[key] = node` -/
def setNode (key : Key Dir Name Real) (node : Nat) : Caches Dir Name Real Symbol Table :=
  { s with nodes := Function.update s.nodes key (some node) }

def newNode (node : Node Dir Name Real) : Caches Dir Name Real Symbol Table :=
  { s with made := s.made ++ [node] }

def newRecord : Caches Dir Name Real Symbol Table :=
  { s with records := s.records ++ [⟨true, []⟩] }

def recordOf (node : Nat) : Nat :=
  match s.made[node]? with
  | some n => n.support_record
  | none => s.records.length

/-- `children.append(node_)`, and for all but the dummies the support of the child. -/
def addChild (node : Nat) (dummy : Bool) (child : Option Nat) :
    Caches Dir Name Real Symbol Table :=
  match child with
  | none => s
  | some child =>
    let s := { s with made := s.made.modify node fun n => { n with children := n.children ++ [child] } }
    if dummy then s else s.update (s.recordOf node) (s.support (s.recordOf child))

def invalidate (symbols : List Symbol) : Caches Dir Name Real Symbol Table :=
  { s with records := s.records.map fun r =>
      if symbols.any r.support.contains then { r with valid := false } else r }

end Caches

variable (w : World Dir Name Real Symbol Table Expr)

def Resolve (fp : Name) (searchdir : Option Dir) (searchlist : List Dir) (includer_dir : Dir) :
    Option ((Dir × Name) × Real) :=
  if w.absolute fp then none
  else (searchdir.toList ++ searchlist ++ w.framework_fallback fp includer_dir).findSome? fun d =>
    (w.locate d fp).map fun found => ((found.1, fp), found.2)

def resolveValue (searchdir : Dir) :
    Value Name Symbol → Option (Option ((Dir × Name) × Real))
  | .quote fp => some (Resolve w fp (some searchdir) w.quote_dirs w.currdir)
  | .angle fp => some (Resolve w fp none w.angle_dirs w.currdir)
  | .other _ => none

/-- The resolvants, `none` for a path that is not found, and the symbols. -/
def ResolveExpr (expr : Expr) (searchdir : Dir) (symbol_table : Table) :
    List (Option ((Dir × Name) × Real)) × List Symbol :=
  let values := w.evaluate expr symbol_table
  (values.filterMap (resolveValue w searchdir), values.flatMap fun
    | .other symbols => symbols
    | _ => [])

abbrev NodeBody (Dir Name Real Symbol Table : Type) :=
  Body (Call Dir Name Real) (Caches Dir Name Real Symbol Table) (Option Nat)

def visitAll (node : Nat) (dummy : Bool) (calls : List (Call Dir Name Real))
    (s : Caches Dir Name Real Symbol Table)
    (after : Caches Dir Name Real Symbol Table → NodeBody Dir Name Real Symbol Table) :
    NodeBody Dir Name Real Symbol Table :=
  match calls with
  | [] => after s
  | c :: calls => .call c s fun child s =>
    visitAll node dummy calls (s.addChild node dummy child) after

/-- An include of a file. -/
inductive Item (Name Expr : Type) where
  | quote (fp : Name)
  | angle (fp : Name)
  | expr (e : Expr)
  | next (fp : Name)

def items (found : Includes Name Expr) : List (Item Name Expr) :=
  found.quote_includes.map .quote ++ found.angle_includes.map .angle ++
    found.expr_includes.map .expr ++ found.next_includes.map .next

/-- The calls for an include, and the symbols that it depends on. -/
def callsFor (fp_dirname : Dir) (s : Caches Dir Name Real Symbol Table) :
    Item Name Expr → List (Call Dir Name Real) × List Symbol
  | .quote fp => ([.quote fp fp_dirname], [])
  | .angle fp => ([.angle fp fp_dirname], [])
  | .expr e =>
    let (files, symbols) := ResolveExpr w e fp_dirname s.symbol_table
    (files.map .resolved, symbols)
  | .next fp => ([.next fp fp_dirname], [])

def visitIncludes (node : Nat) (fp_dirname : Dir) (left : List (Item Name Expr))
    (s : Caches Dir Name Real Symbol Table) : NodeBody Dir Name Real Symbol Table :=
  match left with
  | [] => .ret (some node) s
  | item :: left =>
    let (calls, symbols) := callsFor w fp_dirname s item
    visitAll node false calls s fun s =>
      visitIncludes node fp_dirname left (s.update (s.recordOf node) symbols)

def parseFile (fp_real : Real) (s : Caches Dir Name Real Symbol Table) :
    Caches Dir Name Real Symbol Table :=
  if s.file_cache fp_real then s
  else
    let s := s.invalidate (w.defines fp_real)
    { s with
      file_cache := Function.update s.file_cache fp_real true
      symbol_table := w.insert fp_real s.symbol_table }

def expand (node support_record : Nat) (fp_real : Real) (fp_dirname : Dir)
    (s : Caches Dir Name Real Symbol Table) : NodeBody Dir Name Real Symbol Table :=
  visitIncludes w node fp_dirname (items (w.parse fp_real))
    (parseFile w fp_real (s.setValid support_record))

/-- The part for a resolved path; `key` is what the node is under already. -/
def enterFile (key : Key Dir Name Real) (isResolved : Bool) (node support_record : Nat)
    (fp : Dir × Name) (fp_real : Real) (s : Caches Dir Name Real Symbol Table) :
    NodeBody Dir Name Real Symbol Table :=
  let (fp_dirname, fp_dirname_real) := w.dirname fp
  if isResolved then expand w node support_record fp_real fp_dirname s
  else
    match s.nodes (.real fp_real fp_dirname_real), s.valid support_record with
    | some found, true => .ret (some found) (s.setNode key found)
    | _, _ => expand w node support_record fp_real fp_dirname
        (s.setNode (.real fp_real fp_dirname_real) node)

def nextCalls (fp : Name) (file_dir : Dir) : List (Call Dir Name Real) :=
  w.quote_dirs.filterMap fun d =>
    (Resolve w fp none [d] file_dir).map fun found => .resolved (some found)

def makeNode (call : Call Dir Name Real) (key : Key Dir Name Real)
    (found : Option ((Dir × Name) × Real)) (support_record : Nat)
    (s : Caches Dir Name Real Symbol Table) : NodeBody Dir Name Real Symbol Table :=
  let node := s.made.length
  let s := (s.newNode ⟨found.map Prod.snd, found.map Prod.fst, [], support_record⟩).setNode key node
  match found, call with
  | none, .next fp file_dir =>
    visitAll node true (nextCalls w fp file_dir) s fun s => .ret (some node) s
  | none, _ => .ret (some node) s
  | some (fp, fp_real), .resolved _ => enterFile w key true node support_record fp fp_real s
  | some (fp, fp_real), _ => enterFile w key false node support_record fp fp_real s

def keyOf : Call Dir Name Real → Option (Key Dir Name Real)
  | .quote fp file_dir => some (.quote fp file_dir)
  | .angle fp file_dir => some (.angle fp file_dir)
  | .next fp file_dir => some (.next fp file_dir)
  | .resolved none => none
  | .resolved (some (fp, _)) => some (.resolved fp)

def resolveCall : Call Dir Name Real → Option ((Dir × Name) × Real)
  | .quote fp file_dir => Resolve w fp (some file_dir) w.quote_dirs file_dir
  | .angle fp file_dir => Resolve w fp none w.angle_dirs file_dir
  | .next _ _ => none
  | .resolved fp => fp

def resolutionOf (node : Node Dir Name Real) : Option ((Dir × Name) × Real) :=
  match node.resolved, node.real with
  | some fp, some fp_real => some (fp, fp_real)
  | _, _ => none

def findNodeBody (call : Call Dir Name Real) (s : Caches Dir Name Real Symbol Table) :
    NodeBody Dir Name Real Symbol Table :=
  match keyOf call with
  | none => .ret none s
  | some key =>
    match s.nodes key with
    | none => makeNode w call key (resolveCall w call) s.records.length s.newRecord
    | some node =>
      match s.made[node]? with
      | none => .ret (some node) s
      | some found =>
        if s.valid found.support_record then .ret (some node) s
        else makeNode w call key (resolutionOf found) found.support_record s

def emptyCaches (symbol_table : Table) : Caches Dir Name Real Symbol Table :=
  ⟨fun _ => none, [], [], fun _ => false, symbol_table⟩

/-- `FindNode` with at most this recursion depth. -/
def FindNode (depth : Nat) (call : Call Dir Name Real) (s : Caches Dir Name Real Symbol Table) :
    Option (Option Nat × Caches Dir Name Real Symbol Table) :=
  eval (findNodeBody w) depth call s

end Analyzer
end Toolwhip.Distcc
