import Toolwhip.Distcc.IncludeCoverage

/-! # The node cache against a run without it -/

namespace Toolwhip.Distcc
set_option autoImplicit false
set_option linter.unusedSectionVars false

variable {Dir Name Real Symbol Table Expr Text : Type} [DecidableEq Dir] [DecidableEq Name]
  [DecidableEq Real] [DecidableEq Symbol]
  {srv : Server Dir Real Symbol Table Text} {w : World Dir Name Real Symbol Table Expr}
  {real_path : Dir × Name → Real} {start : Call Dir Name Real}
  {s s' : Caches Dir Name Real Symbol Table}

def withoutNodes (s : Caches Dir Name Real Symbol Table) : Caches Dir Name Real Symbol Table :=
  ⟨fun _ => none, [], [], s.file_cache, s.symbol_table⟩

/-- What translation units whose steps meet the conditions leave behind. -/
inductive Analysed (srv : Server Dir Real Symbol Table Text)
    (w : World Dir Name Real Symbol Table Expr) (real_path : Dir × Name → Real) :
    Caches Dir Name Real Symbol Table → Prop
  | start (table : Table) : Analysed srv w real_path (emptyCaches table)
  | unit {tu : TranslationUnit Dir Name Real Text} {s s' : Caches Dir Name Real Symbol Table}
      {depth : Nat} {closure : IncludeClosure Dir Name Real} (h : Analysed srv w real_path s)
      (hreal : real_path tu.filepath_resolved_pair = tu.filepath_real)
      (hmeets : UnitMeets srv w tu s)
      (hrun : RunAlgorithm srv w depth tu s = some (closure, s')) : Analysed srv w real_path s'

theorem isFile_iff {n : Nat} {fp_real : Real} :
    IsFile s n fp_real ↔ ∃ fp, s.fileOf n = some (fp, fp_real) := by
  unfold IsFile Caches.fileOf resolutionOf
  constructor
  · rintro ⟨nd, fp, hn, hreal, hresolved⟩
    rw [hn]
    simp only [hreal, hresolved]
    exact ⟨fp, rfl⟩
  · rintro ⟨fp, h⟩
    cases hn : s.made[n]? with
    | none =>
      rw [hn] at h
      cases h
    | some nd =>
      rw [hn] at h
      cases hresolved : nd.resolved with
      | none =>
        simp only [hresolved] at h
        cases h
      | some fp' =>
        cases hreal : nd.real with
        | none =>
          simp only [hresolved, hreal] at h
          cases h
        | some fp_real' =>
          simp only [hresolved, hreal] at h
          obtain ⟨_, rfl⟩ := Prod.mk.inj (Option.some.inj h)
          exact ⟨nd, fp', rfl, hreal, hresolved⟩

section Table
variable {c : Call Dir Name Real} {key : Key Dir Name Real} {node support_record : Nat}
  {fs : List (Visit Dir Name Real Symbol Expr)}

theorem stepFile_table {isResolved : Bool} {fp : Dir × Name} {fp_real : Real} :
    (stepFile w key isResolved node support_record fp fp_real fs s).caches.symbol_table =
      s.symbol_table := by
  unfold stepFile
  dsimp only
  split
  · rfl
  split
  · rfl
  · rfl

theorem stepNode_table {found : Option ((Dir × Name) × Real)} :
    (stepNode w c key found support_record fs s).caches.symbol_table = s.symbol_table := by
  unfold stepNode
  split
  · rfl
  · rfl
  · exact stepFile_table
  · exact stepFile_table

theorem stepEnter_table : (stepEnter w c fs s).caches.symbol_table = s.symbol_table := by
  unfold stepEnter
  split
  · rfl
  split
  · exact stepNode_table
  split
  · rfl
  split
  · rfl
  · exact stepNode_table

theorem step_table_le [Preorder Table] (hdefs : Definitions w)
    {cfg cfg' : Config Dir Name Real Symbol Table Expr} (h : step w cfg = some cfg') :
    cfg.caches.symbol_table ≤ cfg'.caches.symbol_table := by
  obtain ⟨control, frames, s⟩ := cfg
  cases control with
  | enter c =>
    obtain rfl := Option.some.inj h
    exact stepEnter_table.ge
  | revalidate support_record fp_real =>
    obtain rfl := Option.some.inj h
    exact le_rfl
  | parse fp_real =>
    obtain rfl := Option.some.inj h
    unfold parseFile
    split
    · exact le_rfl
    · exact hdefs.le_insert fp_real s.symbol_table
  | items =>
    cases frames with
    | nil => cases h
    | cons f fs =>
      obtain rfl := Option.some.inj h
      unfold stepItems
      split
      · exact le_rfl
      · exact le_rfl
  | calls =>
    cases frames with
    | nil => cases h
    | cons f fs =>
      obtain rfl := Option.some.inj h
      unfold stepCalls
      split
      · split
        · exact le_rfl
        · exact le_rfl
      · exact le_rfl
  | ret result =>
    cases frames with
    | nil => cases h
    | cons f fs =>
      obtain rfl := Option.some.inj h
      obtain ⟨_, _, _, _, htable⟩ := addChild_rest (s := s) f.node f.dummy result
      exact htable.ge

end Table

theorem processOption_withoutNodes (d_opt : List Text) :
    processOption srv (withoutNodes s) d_opt = withoutNodes (processOption srv s d_opt) := by
  match d_opt with
  | [] => rfl
  | [_] => rfl
  | [_, _] => rfl
  | _ :: _ :: _ :: _ => rfl

theorem options_withoutNodes (d_opts : List (List Text)) :
    d_opts.foldl (processOption srv) (withoutNodes s) =
      withoutNodes (d_opts.foldl (processOption srv) s) := by
  induction d_opts generalizing s with
  | nil => rfl
  | cons d_opt d_opts ih => rw [List.foldl_cons, List.foldl_cons, processOption_withoutNodes, ih]

section Order
variable [Preorder Table] (hoptions : ∀ lhs rhs table, table ≤ srv.InsertMacroDefInTable lhs rhs table)
include hoptions

theorem insertMacroDef_defined (lhs rhs : Text) : Defined s (insertMacroDef srv lhs rhs s) ∧
    (insertMacroDef srv lhs rhs s).file_cache = s.file_cache ∧
    s.symbol_table ≤ (insertMacroDef srv lhs rhs s).symbol_table :=
  ⟨⟨rfl, rfl, List.length_map _, fun _ h => valid_of_invalidate h, fun _ h => h⟩, rfl,
    hoptions lhs rhs s.symbol_table⟩

theorem processOption_defined (d_opt : List Text) : Defined s (processOption srv s d_opt) ∧
    (processOption srv s d_opt).file_cache = s.file_cache ∧
    s.symbol_table ≤ (processOption srv s d_opt).symbol_table := by
  have hsame : Defined s s ∧ s.file_cache = s.file_cache ∧ s.symbol_table ≤ s.symbol_table :=
    ⟨⟨rfl, rfl, rfl, fun _ h => h, fun _ h => h⟩, rfl, le_rfl⟩
  match d_opt with
  | [] => exact hsame
  | [_] => exact hsame
  | [lhs, rhs] => exact insertMacroDef_defined hoptions lhs rhs
  | _ :: _ :: _ :: _ => exact hsame

theorem Sound.options (hdefs : Definitions w) {d_opts : List (List Text)}
    (h : Sound w real_path start (idle s)) (hmeets : OptionsMeet srv w s d_opts) :
    Sound w real_path start (idle (d_opts.foldl (processOption srv) s)) := by
  induction d_opts generalizing s with
  | nil => exact h
  | cons d_opt d_opts ih =>
    obtain ⟨hsupported, hmeets⟩ := hmeets
    obtain ⟨hdefined, hcache, htable⟩ := processOption_defined (s := s) hoptions d_opt
    refine ih (h.define hdefined hsupported ?_ trivial ?_ ?_) hmeets
    · intro n hn
      cases hn
    · rintro fp_real (hparse | ⟨r, hparse⟩)
      · cases hparse
      · cases hparse
    · intro fp_real hparsed
      rw [hcache] at hparsed
      exact hdefs.insert_le fp_real _ _ s.symbol_table ((h.parsed fp_real hparsed).trans htable)
        le_rfl

/-! ## The translation units -/

omit hoptions in
theorem Sound.begin (h : Sound w real_path start (idle s)) :
    Sound w real_path start ⟨.enter start, [], s⟩ := by
  apply Sound.same h Same.rfl
  · rintro fp_real (hparse | ⟨r, hparse⟩)
    · cases hparse
    · cases hparse
  · exact rfl
  · intro n hn
    cases hn

omit hoptions in
theorem Sound.finish {result : Option Nat} (h : Sound w real_path start ⟨.ret result, [], s⟩)
    (start' : Call Dir Name Real) : Sound w real_path start' (idle s) := by
  have hidle : Sound w real_path start (idle s) := by
    apply Sound.same h Same.rfl
    · rintro fp_real (hparse | ⟨r, hparse⟩)
      · cases hparse
      · cases hparse
    · trivial
    · intro n hn
      cases hn
  exact ⟨hidle.records, hidle.keys, hidle.visits, trivial, trivial, hidle.held, hidle.parsed⟩

omit hoptions in
theorem Sound.empty (table : Table) :
    Sound w real_path start (idle (emptyCaches table : Caches Dir Name Real Symbol Table)) := by
  refine ⟨?_, ?_, ?_, trivial, trivial, ?_, ?_⟩
  · intro n hn
    cases hn
  · intro key m hm
    cases hm
  · intro f hf
    cases hf
  · intro n hn
    have hnone : ∀ m, ¬ Held (idle (emptyCaches table : Caches Dir Name Real Symbol Table) :
        Config Dir Name Real Symbol Table Expr) m := by
      intro m hm
      induction hm with
      | key h hvalid => cases h
      | visit h hvalid => cases h
      | result h hvalid => cases h
      | child _ _ ih => exact ih
    exact absurd hn (hnone n)
  · intro fp_real hparsed
    cases hparsed

theorem Sound.unit (hfs : FileSystem w real_path) (hdefs : Definitions w)
    {tu : TranslationUnit Dir Name Real Text} {depth : Nat} {closure : IncludeClosure Dir Name Real}
    (h : Sound w real_path (startOf tu) (idle s))
    (hreal : real_path tu.filepath_resolved_pair = tu.filepath_real)
    (hmeets : UnitMeets srv w tu s) (hrun : RunAlgorithm srv w depth tu s = some (closure, s')) :
    ∃ root, closure = CalculateIncludeClosureExceptSystem srv s' (some root) ∧
      Sound w real_path (startOf tu) ⟨.ret (some root), [], s'⟩ ∧ s'.validNode root = true ∧
      Steps w ⟨.enter (startOf tu), [], tu.d_opts.foldl (processOption srv) s⟩
        ⟨.ret (some root), [], s'⟩ := by
  obtain ⟨⟨result, s₁⟩, hfind, hclosure⟩ := Option.map_eq_some_iff.mp hrun
  obtain ⟨rfl, rfl⟩ := Prod.mk.inj hclosure
  have hsteps := FindNode_steps w depth _ _ _ _ hfind []
  have hgenuine : Genuine real_path (startOf tu) := hreal
  have hsound := (h.options hoptions hdefs hmeets.1).begin.steps hfs hdefs hgenuine hmeets.2 hsteps
  obtain ⟨c, hc, hreturned⟩ := hsound.control
  obtain rfl := Option.some.inj hc
  cases result with
  | none => cases hreturned
  | some root => exact ⟨root, rfl, hsound, hmeets.2 _ hsteps, hsteps⟩

theorem Analysed.sound (hfs : FileSystem w real_path) (hdefs : Definitions w)
    (h : Analysed srv w real_path s) (start : Call Dir Name Real) :
    Sound w real_path start (idle s) := by
  induction h generalizing start with
  | start table => exact Sound.empty table
  | unit h hreal hmeets hrun ih =>
    obtain ⟨root, _, hsound, _⟩ := (ih _).unit hoptions hfs hdefs hreal hmeets hrun
    exact hsound.finish start

omit hoptions in
theorem steps_table_le (hdefs : Definitions w) {cfg cfg' : Config Dir Name Real Symbol Table Expr}
    (h : Steps w cfg cfg') : cfg.caches.symbol_table ≤ cfg'.caches.symbol_table := by
  induction h with
  | refl => exact le_rfl
  | tail _ hstep ih => exact ih.trans (step_table_le hdefs hstep)

end Order

section Plain

theorem meets_of_step {cfg cfg₁ : Config Dir Name Real Symbol Table Expr}
    (hstep : step w cfg = some cfg₁) (hcfg : StepMeets w cfg)
    (h : ∀ cfg', Steps w cfg₁ cfg' → StepMeets w cfg') :
    ∀ cfg', Steps w cfg cfg' → StepMeets w cfg' := by
  intro cfg' hsteps
  rcases Relation.ReflTransGen.cases_head hsteps with rfl | ⟨cfg₂, hstep₂, hsteps₂⟩
  · exact hcfg
  obtain rfl := Option.some.inj (hstep.symm.trans hstep₂)
  exact h cfg' hsteps₂

theorem meets_of_stop {cfg : Config Dir Name Real Symbol Table Expr} (hstep : step w cfg = none)
    (hcfg : StepMeets w cfg) : ∀ cfg', Steps w cfg cfg' → StepMeets w cfg' := by
  intro cfg' hsteps
  rcases Relation.ReflTransGen.cases_head hsteps with rfl | ⟨cfg₂, hstep₂, _⟩
  · exact hcfg
  have hnone : step w cfg = some cfg₂ := hstep₂
  rw [hstep] at hnone
  cases hnone

def plainWorld : World Unit Unit Bool Unit Unit Unit where
  currdir := ()
  quote_dirs := []
  angle_dirs := []
  absolute _ := false
  locate _ _ := some ((), true)
  finite_located := Set.toFinite _
  framework_fallback _ _ := []
  dirname _ := ((), false)
  parse _ := ⟨[], [], [], []⟩
  defines _ := [()]
  insert _ _ := ()
  evaluate _ _ := []

def plainServer : Server Unit Bool Unit Unit Unit where
  symbol _ := ()
  InsertMacroDefInTable _ _ _ := ()
  starts_with_systemdir _ := false
  rooted _ := true

def plainUnit : TranslationUnit Unit Unit Bool Unit := ⟨[], ((), ()), true⟩

def plainCaches : Caches Unit Unit Bool Unit Unit where
  nodes := Function.update (fun _ => none) (.resolved ((), ())) (some 0)
  made := [⟨some true, some ((), ()), [], 0⟩]
  records := [⟨true, []⟩]
  file_cache := Function.update (fun _ => false) true true
  symbol_table := ()

theorem plain_meets : UnitMeets plainServer plainWorld plainUnit (emptyCaches ()) := by
  refine ⟨trivial, ?_⟩
  refine meets_of_step rfl ?_ ?_
  · trivial
  refine meets_of_step rfl ?_ ?_
  · refine ⟨?_, ?_⟩
    · intro key n hkey _
      rcases setNode_some hkey with ⟨_, rfl⟩ | ⟨_, hnone⟩
      · exact ⟨_, rfl, rfl⟩
      · cases hnone
    · intro f hf
      cases hf
  refine meets_of_step rfl ?_ ?_
  · intro n _ _
    refine ⟨?_, ?_⟩
    · intro m hm
      cases n with
      | zero => cases hm
      | succ n => cases hm
    · intro fp fp_real _ item hitem
      cases hitem
  refine meets_of_step rfl ?_ ?_
  · trivial
  exact meets_of_stop rfl rfl

end Plain

section Redefined

/-- `tu.c` has `#define A "x.h"` and `#include A`, and `x.h` has `#define A "y.h"`. -/
inductive SourceFile where
  | tu
  | x
  | y
  deriving DecidableEq

instance : Fintype SourceFile where
  elems := {.tu, .x, .y}
  complete p := by cases p <;> simp

/-- The symbol table has the definitions of `A`; the real path `none` is the directory. -/
def redefiningWorld : World Unit SourceFile (Option SourceFile) Unit (List SourceFile) Unit where
  currdir := ()
  quote_dirs := []
  angle_dirs := []
  absolute _ := false
  locate _ fp := some ((), some fp)
  finite_located := Set.toFinite _
  framework_fallback _ _ := []
  dirname _ := ((), none)
  parse
    | some .tu => ⟨[], [], [()], []⟩
    | _ => ⟨[], [], [], []⟩
  defines
    | some .tu => [()]
    | some .x => [()]
    | _ => []
  insert
    | some .tu, table => table ++ [.x]
    | some .x, table => table ++ [.y]
    | _, table => table
  evaluate _ table := .other [()] :: table.map .quote

def redefiningServer : Server Unit (Option SourceFile) Unit (List SourceFile) SourceFile where
  symbol _ := ()
  InsertMacroDefInTable _ rhs table := table ++ [rhs]
  starts_with_systemdir _ := false
  rooted _ := true

def redefiningUnit : TranslationUnit Unit SourceFile (Option SourceFile) SourceFile :=
  ⟨[], ((), .tu), some .tu⟩

end Redefined

end Toolwhip.Distcc
