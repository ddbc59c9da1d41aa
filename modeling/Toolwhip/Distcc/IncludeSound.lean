import Toolwhip.Distcc.IncludeClosure

/-! # The node cache stays sound

One lemma for each kind of step; together with the conditions on the steps they give it for
a whole run. -/

namespace Toolwhip.Distcc
open List
set_option autoImplicit false
set_option linter.unusedSectionVars false

variable {Dir Name Real Symbol Table Expr : Type} [DecidableEq Dir] [DecidableEq Name]
  [DecidableEq Real] [DecidableEq Symbol]

section Caches
variable {s s' : Caches Dir Name Real Symbol Table} {n m : Nat}

/-- Nodes stay what they are, and only get children. -/
def Grows (s s' : Caches Dir Name Real Symbol Table) : Prop :=
  ∀ (n : Nat) (nd : Node Dir Name Real), s.made[n]? = some nd →
    ∃ nd' : Node Dir Name Real, s'.made[n]? = some nd' ∧ nd'.real = nd.real ∧
      nd'.resolved = nd.resolved ∧ nd'.support_record = nd.support_record ∧
      nd.children ⊆ nd'.children

theorem Grows.of_eq (h : s'.made = s.made) : Grows s s' := by
  intro n nd hn
  exact ⟨nd, h ▸ hn, rfl, rfl, rfl, fun _ hm => hm⟩

variable (hgrows : Grows s s')
include hgrows

theorem Grows.childrenOf : s.childrenOf n ⊆ s'.childrenOf n := by
  intro m hm
  unfold Caches.childrenOf at hm ⊢
  cases hn : s.made[n]? with
  | none =>
    rw [hn] at hm
    cases hm
  | some nd =>
    rw [hn] at hm
    obtain ⟨nd', hn', _, _, _, hchildren⟩ := hgrows n nd hn
    rw [hn']
    exact hchildren hm

variable (hn : n < s.made.length)
include hn

theorem Grows.fileOf : s'.fileOf n = s.fileOf n := by
  obtain ⟨nd', hn', hreal, hresolved, _⟩ := hgrows n _ (getElem?_eq_getElem hn)
  unfold Caches.fileOf resolutionOf
  rw [hn', getElem?_eq_getElem hn]
  simp only [hreal, hresolved]

theorem Grows.recordOf : s'.recordOf n = s.recordOf n := by
  obtain ⟨nd', hn', _, _, hrecord, _⟩ := hgrows n _ (getElem?_eq_getElem hn)
  unfold Caches.recordOf
  rw [hn', getElem?_eq_getElem hn]
  exact hrecord

theorem Grows.lt : n < s'.made.length := by
  obtain ⟨nd', hn', _⟩ := hgrows n _ (getElem?_eq_getElem hn)
  exact (List.getElem?_eq_some_iff.mp hn').1

end Caches

section AddChild
variable {s : Caches Dir Name Real Symbol Table} {node n : Nat} {dummy : Bool} {child : Option Nat}

theorem addChild_made : (s.addChild node dummy child).made =
    s.made.modify node fun n => { n with children := n.children ++ child.toList } := by
  cases child with
  | none =>
    have hid : (fun n : Node Dir Name Real => { n with children := n.children ++ [] }) = id := by
      funext n
      simp
    simp only [Caches.addChild, Option.toList_none, hid, modify_id]
  | some child =>
    cases dummy with
    | true => rfl
    | false => rfl

theorem made_addChild_self : (s.addChild node dummy child).made[node]? =
    s.made[node]?.map fun n => { n with children := n.children ++ child.toList } := by
  rw [addChild_made, getElem?_modify_eq]
  rfl

theorem made_addChild_of_ne (h : n ≠ node) :
    (s.addChild node dummy child).made[n]? = s.made[n]? := by
  rw [addChild_made, getElem?_modify_ne _ _ (Ne.symm h)]

theorem Grows.addChild : Grows s (s.addChild node dummy child) := by
  intro n nd hn
  by_cases heq : n = node
  · subst heq
    rw [made_addChild_self, hn]
    exact ⟨_, rfl, rfl, rfl, rfl, subset_append_left _ _⟩
  · rw [made_addChild_of_ne heq]
    exact ⟨nd, hn, rfl, rfl, rfl, fun _ hm => hm⟩

theorem childrenOf_addChild {m : Nat} (h : m ∈ (s.addChild node dummy child).childrenOf n) :
    m ∈ s.childrenOf n ∨ n = node ∧ child = some m := by
  unfold Caches.childrenOf at h ⊢
  by_cases heq : n = node
  · subst heq
    rw [made_addChild_self] at h
    cases hn : s.made[n]? with
    | none =>
      rw [hn] at h
      cases h
    | some nd =>
      rw [hn] at h
      rcases List.mem_append.mp h with h | h
      · exact Or.inl h
      · exact Or.inr ⟨rfl, Option.mem_toList.mp h⟩
  · rw [made_addChild_of_ne heq] at h
    exact Or.inl h

theorem childrenOf_addChild_self {m : Nat} (hn : node < s.made.length) :
    m ∈ (s.addChild node dummy (some m)).childrenOf node := by
  unfold Caches.childrenOf
  rw [made_addChild_self, getElem?_eq_getElem hn]
  exact mem_append_right _ mem_cons_self

theorem valid_update (symbols : List Symbol) (r r' : Nat) :
    (s.update r symbols).valid r' = s.valid r' := by
  unfold Caches.valid Caches.update
  rw [getElem?_modify]
  cases s.records[r']? with
  | none => rfl
  | some record =>
    by_cases heq : r = r'
    · simp [heq]
    · simp [heq]

theorem valid_addChild (r : Nat) : (s.addChild node dummy child).valid r = s.valid r := by
  cases child with
  | none => rfl
  | some child =>
    cases dummy with
    | true => rfl
    | false => exact valid_update _ _ _

end AddChild

section Records
variable {s : Caches Dir Name Real Symbol Table} {r r' : Nat}

theorem valid_setValid_of_ne (h : r' ≠ r) : (s.setValid r).valid r' = s.valid r' := by
  unfold Caches.valid Caches.setValid
  rw [getElem?_modify_ne _ _ (Ne.symm h)]

theorem valid_setValid_self (h : r < s.records.length) : (s.setValid r).valid r = true := by
  unfold Caches.valid Caches.setValid
  rw [getElem?_modify_eq, getElem?_eq_getElem h]
  rfl

theorem valid_newRecord_of_lt (h : r < s.records.length) : s.newRecord.valid r = s.valid r := by
  unfold Caches.valid Caches.newRecord
  rw [getElem?_append_left h]

theorem valid_of_invalidate {symbols : List Symbol} (h : (s.invalidate symbols).valid r = true) :
    s.valid r = true := by
  unfold Caches.valid Caches.invalidate at *
  rw [getElem?_map] at h
  cases hr : s.records[r]? with
  | none => rfl
  | some record =>
    rw [hr] at h
    simp only [Option.map_some] at h
    split at h
    · cases h
    · exact h

end Records

/-! ## Soundness -/

def Pending (cfg : Config Dir Name Real Symbol Table Expr) (n : Nat) (c : Call Dir Name Real) :
    Prop :=
  ∃ f ∈ cfg.frames, f.node = n ∧ c ∈ f.calls

section Sound
variable (w : World Dir Name Real Symbol Table Expr) (real_path : Dir × Name → Real)

def Genuine : Call Dir Name Real → Prop
  | .resolved (some (fp, fp_real)) => real_path fp = fp_real
  | _ => True

def PairAnswers (s : Caches Dir Name Real Symbol Table) (c : Call Dir Name Real) (m : Nat) : Prop :=
  ∀ found, resolveCall w c = some found →
    (s.fileOf m).map (realPair w) = some (realPair w found)

/-- A node is a dummy with, or still to get, a child for all files of the name. -/
structure NextAnswers (cfg : Config Dir Name Real Symbol Table Expr) (fp : Name) (file_dir : Dir)
    (m : Nat) : Prop where
  lt : m < cfg.caches.made.length
  file : cfg.caches.fileOf m = none
  children : ∀ found, .resolved (some found) ∈ nextCalls w fp file_dir →
    Pending cfg m (.resolved (some found)) ∨
      ∃ k ∈ cfg.caches.childrenOf m, PairAnswers w cfg.caches (.resolved (some found)) k

def Answers (cfg : Config Dir Name Real Symbol Table Expr) : Call Dir Name Real → Nat → Prop
  | .next fp file_dir, m => NextAnswers w cfg fp file_dir m
  | c, m => PairAnswers w cfg.caches c m

def Satisfied (cfg : Config Dir Name Real Symbol Table Expr) (n : Nat) (c : Call Dir Name Real) :
    Prop :=
  c = .resolved none ∨ ∃ m ∈ cfg.caches.childrenOf n, Answers w cfg c m

def Returned (cfg : Config Dir Name Real Symbol Table Expr) (c : Call Dir Name Real) :
    Option Nat → Prop
  | none => c = .resolved none
  | some m => m < cfg.caches.made.length ∧ Answers w cfg c m

def KeyAnswers (cfg : Config Dir Name Real Symbol Table Expr) : Key Dir Name Real → Nat → Prop
  | .quote fp file_dir, m => Answers w cfg (.quote fp file_dir) m
  | .angle fp file_dir, m => Answers w cfg (.angle fp file_dir) m
  | .next fp file_dir, m => Answers w cfg (.next fp file_dir) m
  | .resolved fp, m => Answers w cfg (.resolved (some (fp, real_path fp))) m
  | .real file dir, m => (cfg.caches.fileOf m).map (realPair w) = some (file, dir)

structure VisitOk (cfg : Config Dir Name Real Symbol Table Expr)
    (f : Visit Dir Name Real Symbol Expr) : Prop where
  lt : f.node < cfg.caches.made.length
  genuine : ∀ c ∈ f.calls, Genuine real_path c
  file : f.dummy = false →
    ∃ found, cfg.caches.fileOf f.node = some found ∧ f.fp_dirname = (w.dirname found.1).1
  dummy : f.dummy = true →
    f.left = [] ∧ cfg.caches.fileOf f.node = none ∧ ∀ c ∈ f.calls, ∃ found, c = .resolved (some found)

def Begun (s : Caches Dir Name Real Symbol Table) (f : Visit Dir Name Real Symbol Expr)
    (fp_real : Real) : Prop :=
  f.dummy = false ∧ f.calls = [] ∧ f.left = items (w.parse fp_real) ∧
    ∃ fp, s.fileOf f.node = some (fp, fp_real)

def awaited (start : Call Dir Name Real) :
    List (Visit Dir Name Real Symbol Expr) → Option (Call Dir Name Real)
  | [] => some start
  | f :: _ => f.calls.head?

def Chain (start : Call Dir Name Real) (cfg : Config Dir Name Real Symbol Table Expr) :
    List (Visit Dir Name Real Symbol Expr) → Prop
  | [] => True
  | f :: fs => (∃ c, awaited start fs = some c ∧ Answers w cfg c f.node) ∧ Chain start cfg fs

def ControlOk (start : Call Dir Name Real) (cfg : Config Dir Name Real Symbol Table Expr) : Prop :=
  match cfg.control, cfg.frames with
  | .enter c, fs => awaited start fs = some c
  | .ret result, fs => ∃ c, awaited start fs = some c ∧ Returned w cfg c result
  | .revalidate support_record fp_real, f :: _ => Begun w cfg.caches f fp_real ∧
      cfg.caches.recordOf f.node = support_record ∧ cfg.caches.childrenOf f.node = []
  | .parse fp_real, f :: _ => Begun w cfg.caches f fp_real
  | .items, f :: _ => f.dummy = false ∧ f.calls = []
  | .items, [] => True
  | .calls, _ :: _ => True
  | _, [] => False

def AboutToParse (cfg : Config Dir Name Real Symbol Table Expr) (fp_real : Real) : Prop :=
  cfg.control = .parse fp_real ∨ ∃ r, cfg.control = .revalidate r fp_real

/-- Every include of the node's file that is not left has its children, or will get them. -/
def ItemsOk (cfg : Config Dir Name Real Symbol Table Expr) (n : Nat) : Prop :=
  ∀ found, cfg.caches.fileOf n = some found →
    (cfg.caches.file_cache found.2 = true ∨ AboutToParse cfg found.2) ∧
    ∀ item ∈ items (w.parse found.2), Left cfg n item ∨
      ∀ c ∈ (callsFor w (w.dirname found.1).1 cfg.caches item).1, Pending cfg n c ∨ Satisfied w cfg n c

structure Sound [Preorder Table] (start : Call Dir Name Real)
    (cfg : Config Dir Name Real Symbol Table Expr) : Prop where
  records : ∀ n < cfg.caches.made.length, cfg.caches.recordOf n < cfg.caches.records.length
  keys : ∀ key m, cfg.caches.nodes key = some m →
    m < cfg.caches.made.length ∧ KeyAnswers w real_path cfg key m
  visits : ∀ f ∈ cfg.frames, VisitOk w real_path cfg f
  chain : Chain w start cfg cfg.frames
  control : ControlOk w start cfg
  held : ∀ n, Held cfg n → n < cfg.caches.made.length ∧ cfg.caches.validNode n = true ∧ ItemsOk w cfg n
  parsed : ∀ fp_real, cfg.caches.file_cache fp_real = true →
    w.insert fp_real cfg.caches.symbol_table ≤ cfg.caches.symbol_table

end Sound

section Keeps
variable {w : World Dir Name Real Symbol Table Expr} {real_path : Dir × Name → Real}
  {cfg cfg' : Config Dir Name Real Symbol Table Expr} {c : Call Dir Name Real} {n m : Nat}
  {key : Key Dir Name Real}
variable {s s' : Caches Dir Name Real Symbol Table} {start : Call Dir Name Real}

/-- The caches have the same nodes under the same keys, and as many records. -/
structure Kept (s s' : Caches Dir Name Real Symbol Table) : Prop where
  nodes : s'.nodes = s.nodes
  made : s'.made.length = s.made.length
  length : s'.records.length = s.records.length

theorem callsFor_congr (h : s'.symbol_table = s.symbol_table) (dir : Dir) (item : Item Name Expr) :
    callsFor w dir s' item = callsFor w dir s item := by
  cases item with
  | expr e => simp only [callsFor, h]
  | quote fp => rfl
  | angle fp => rfl
  | next fp => rfl

structure Extends (w : World Dir Name Real Symbol Table Expr)
    (cfg cfg' : Config Dir Name Real Symbol Table Expr) : Prop where
  grows : Grows cfg.caches cfg'.caches
  pending : ∀ n found, Pending cfg n (.resolved (some found)) →
    Pending cfg' n (.resolved (some found)) ∨
      ∃ k ∈ cfg'.caches.childrenOf n, PairAnswers w cfg'.caches (.resolved (some found)) k

theorem fileOf_lt {s : Caches Dir Name Real Symbol Table} {found : (Dir × Name) × Real}
    (h : s.fileOf n = some found) : n < s.made.length := by
  unfold Caches.fileOf at h
  cases hn : s.made[n]? with
  | none =>
    rw [hn] at h
    cases h
  | some nd => exact (List.getElem?_eq_some_iff.mp hn).1

theorem PairAnswers.grows (hgrows : Grows s s')
    (h : PairAnswers w s c m) : PairAnswers w s' c m := by
  intro found hfound
  obtain ⟨file, hfile, hpair⟩ := Option.map_eq_some_iff.mp (h found hfound)
  rw [hgrows.fileOf (fileOf_lt hfile), hfile, Option.map_some, hpair]

variable (hext : Extends w cfg cfg')
include hext

theorem NextAnswers.extends {fp : Name} {file_dir : Dir} (h : NextAnswers w cfg fp file_dir m) :
    NextAnswers w cfg' fp file_dir m := by
  refine ⟨hext.grows.lt h.lt, (hext.grows.fileOf h.lt).trans h.file, ?_⟩
  intro found hfound
  rcases h.children found hfound with hpending | ⟨k, hk, hanswers⟩
  · exact hext.pending m found hpending
  · exact Or.inr ⟨k, hext.grows.childrenOf hk, hanswers.grows hext.grows⟩

theorem Answers.extends (h : Answers w cfg c m) : Answers w cfg' c m := by
  cases c with
  | next fp file_dir => exact NextAnswers.extends hext h
  | quote fp file_dir => exact PairAnswers.grows hext.grows h
  | angle fp file_dir => exact PairAnswers.grows hext.grows h
  | resolved found => exact PairAnswers.grows hext.grows h

theorem Satisfied.extends (h : Satisfied w cfg n c) : Satisfied w cfg' n c := by
  rcases h with h | ⟨m, hm, hanswers⟩
  · exact Or.inl h
  · exact Or.inr ⟨m, hext.grows.childrenOf hm, hanswers.extends hext⟩

theorem KeyAnswers.extends (h : KeyAnswers w real_path cfg key m) :
    KeyAnswers w real_path cfg' key m := by
  cases key with
  | quote fp file_dir =>
    have h : Answers w cfg (.quote fp file_dir) m := h
    exact h.extends hext
  | angle fp file_dir =>
    have h : Answers w cfg (.angle fp file_dir) m := h
    exact h.extends hext
  | next fp file_dir =>
    have h : Answers w cfg (.next fp file_dir) m := h
    exact h.extends hext
  | resolved fp =>
    have h : Answers w cfg (.resolved (some (fp, real_path fp))) m := h
    exact h.extends hext
  | real file dir =>
    obtain ⟨found, hfile, hpair⟩ := Option.map_eq_some_iff.mp h
    have hfile' := (hext.grows.fileOf (fileOf_lt hfile)).trans hfile
    exact Option.map_eq_some_iff.mpr ⟨found, hfile', hpair⟩

theorem VisitOk.extends {f : Visit Dir Name Real Symbol Expr} (h : VisitOk w real_path cfg f) :
    VisitOk w real_path cfg' f := by
  have hfile := hext.grows.fileOf h.lt
  refine ⟨hext.grows.lt h.lt, h.genuine, ?_, ?_⟩
  · rw [hfile]
    exact h.file
  · rw [hfile]
    exact h.dummy

theorem Chain.extends {fs : List (Visit Dir Name Real Symbol Expr)}
    (h : Chain w start cfg fs) : Chain w start cfg' fs := by
  induction fs with
  | nil => trivial
  | cons f fs ih =>
    obtain ⟨⟨c, hc, hanswers⟩, hchain⟩ := h
    exact ⟨⟨c, hc, hanswers.extends hext⟩, ih hchain⟩

theorem ItemsOk.extends (h : ItemsOk w cfg n) (hn : n < cfg.caches.made.length)
    (hcache : ∀ fp_real, cfg.caches.file_cache fp_real = true ∨ AboutToParse cfg fp_real →
      cfg'.caches.file_cache fp_real = true ∨ AboutToParse cfg' fp_real)
    (hcalls : ∀ found, cfg.caches.fileOf n = some found → ∀ item ∈ items (w.parse found.2),
      Left cfg' n item ∨
      (∀ c ∈ (callsFor w (w.dirname found.1).1 cfg'.caches item).1, Pending cfg' n c) ∨
      ¬ Left cfg n item ∧ (callsFor w (w.dirname found.1).1 cfg'.caches item).1 ⊆
        (callsFor w (w.dirname found.1).1 cfg.caches item).1)
    (hpending : ∀ c, Pending cfg n c → Pending cfg' n c ∨ Satisfied w cfg' n c) :
    ItemsOk w cfg' n := by
  intro found hfound
  rw [hext.grows.fileOf hn] at hfound
  obtain ⟨hparsed, hitems⟩ := h found hfound
  refine ⟨hcache found.2 hparsed, ?_⟩
  intro item hitem
  rcases hcalls found hfound item hitem with hleft | hnew | ⟨hleft, hsub⟩
  · exact Or.inl hleft
  · exact Or.inr fun c hc => Or.inl (hnew c hc)
  right
  intro c hc
  rcases hitems item hitem with hleft' | hdone
  · exact absurd hleft' hleft
  rcases hdone c (hsub hc) with hpend | hsatisfied
  · exact hpending c hpend
  · exact Or.inr (hsatisfied.extends hext)

theorem Sound.carry [Preorder Table]
    (h : Sound w real_path start cfg) (hkept : Kept cfg.caches cfg'.caches)
    (hframes : ∀ g ∈ cfg'.frames, g ∈ cfg.frames ∨ VisitOk w real_path cfg' g)
    (hchain : Chain w start cfg' cfg'.frames) (hcontrol : ControlOk w start cfg')
    (hheld : ∀ n, Held cfg' n → n < cfg.caches.made.length ∧ cfg'.caches.validNode n = true ∧
      ItemsOk w cfg' n) (hparsed : ∀ fp_real, cfg'.caches.file_cache fp_real = true →
      w.insert fp_real cfg'.caches.symbol_table ≤ cfg'.caches.symbol_table) :
    Sound w real_path start cfg' := by
  refine ⟨?_, ?_, ?_, hchain, hcontrol, ?_, hparsed⟩
  · intro n hn
    rw [hkept.made] at hn
    rw [hext.grows.recordOf hn, hkept.length]
    exact h.records n hn
  · intro key m hm
    rw [hkept.nodes] at hm
    obtain ⟨hlt, hanswers⟩ := h.keys key m hm
    exact ⟨hext.grows.lt hlt, hanswers.extends hext⟩
  · intro g hg
    rcases hframes g hg with hg | hg
    · exact (h.visits g hg).extends hext
    · exact hg
  · intro n hn
    obtain ⟨hlt, hvalid, hitems⟩ := hheld n hn
    exact ⟨hext.grows.lt hlt, hvalid, hitems⟩

theorem ItemsOk.carry (h : ItemsOk w cfg n) (hn : n < cfg.caches.made.length)
    (hparse : ∀ fp_real, ¬ AboutToParse cfg fp_real)
    (hcache : cfg'.caches.file_cache = cfg.caches.file_cache)
    (htable : cfg'.caches.symbol_table = cfg.caches.symbol_table)
    (hleft : ∀ found item, cfg.caches.fileOf n = some found → Left cfg n item → Left cfg' n item ∨
      ∀ c ∈ (callsFor w (w.dirname found.1).1 cfg'.caches item).1, Pending cfg' n c)
    (hpending : ∀ c, Pending cfg n c → Pending cfg' n c ∨ Satisfied w cfg' n c) :
    ItemsOk w cfg' n := by
  apply h.extends hext hn
  · intro fp_real hor
    left
    rw [hcache]
    exact hor.resolve_right (hparse fp_real)
  · intro found hfound item _
    by_cases hitem : Left cfg n item
    · rcases hleft found item hfound hitem with hleft | hcalls
      · exact Or.inl hleft
      · exact Or.inr (Or.inl hcalls)
    right
    right
    rw [callsFor_congr htable]
    exact ⟨hitem, fun _ hc => hc⟩
  · exact hpending

end Keeps

section Same
variable {s s' : Caches Dir Name Real Symbol Table}

structure Same (s s' : Caches Dir Name Real Symbol Table) : Prop where
  nodes : s'.nodes = s.nodes
  made : s'.made = s.made
  length : s'.records.length = s.records.length
  valid : ∀ r, s'.valid r = s.valid r
  file_cache : s'.file_cache = s.file_cache
  symbol_table : s'.symbol_table = s.symbol_table

theorem Same.rfl : Same s s :=
  ⟨Eq.refl _, Eq.refl _, Eq.refl _, fun _ => Eq.refl _, Eq.refl _, Eq.refl _⟩

theorem Same.update (r : Nat) (symbols : List Symbol) : Same s (s.update r symbols) :=
  ⟨Eq.refl _, Eq.refl _, length_modify _ _ _, valid_update symbols r, Eq.refl _, Eq.refl _⟩

theorem Same.validNode (h : Same s s') (n : Nat) : s'.validNode n = s.validNode n := by
  unfold Caches.validNode Caches.recordOf
  rw [h.made, h.valid, h.length]

theorem Same.childrenOf (h : Same s s') (n : Nat) : s'.childrenOf n = s.childrenOf n := by
  unfold Caches.childrenOf
  rw [h.made]

theorem validNode_addChild (n : Nat) {dummy : Bool} {node : Nat} {result : Option Nat} :
    (s.addChild node dummy result).validNode n = s.validNode n := by
  have hlength : (s.addChild node dummy result).records.length = s.records.length := by
    cases result with
    | none => rfl
    | some child =>
      cases dummy with
      | true => rfl
      | false => exact length_modify _ _ _
  have hrecord : (s.addChild node dummy result).recordOf n = s.recordOf n := by
    unfold Caches.recordOf
    rw [hlength]
    by_cases heq : n = node
    · subst heq
      rw [made_addChild_self]
      cases s.made[n]? with
      | none => rfl
      | some nd => rfl
    · rw [made_addChild_of_ne heq]
  unfold Caches.validNode
  rw [hrecord, valid_addChild]

theorem addChild_rest (node : Nat) (dummy : Bool) (result : Option Nat) :
    (s.addChild node dummy result).nodes = s.nodes ∧
    (s.addChild node dummy result).made.length = s.made.length ∧
    (s.addChild node dummy result).records.length = s.records.length ∧
    (s.addChild node dummy result).file_cache = s.file_cache ∧
    (s.addChild node dummy result).symbol_table = s.symbol_table := by
  cases result with
  | none => exact ⟨rfl, rfl, rfl, rfl, rfl⟩
  | some child =>
    cases dummy with
    | true => exact ⟨rfl, length_modify _ _ _, rfl, rfl, rfl⟩
    | false => exact ⟨rfl, length_modify _ _ _, length_modify _ _ _, rfl, rfl⟩

end Same

section Genuine
variable {w : World Dir Name Real Symbol Table Expr} {real_path : Dir × Name → Real}
  {s : Caches Dir Name Real Symbol Table}

theorem Resolve_genuine (hfs : FileSystem w real_path) {name : Name} {searchdir : Option Dir}
    {searchlist : List Dir} {includer_dir : Dir} {found : (Dir × Name) × Real}
    (h : Resolve w name searchdir searchlist includer_dir = some found) :
    real_path found.1 = found.2 := by
  unfold Resolve at h
  split at h
  · cases h
  obtain ⟨d, _, hd⟩ := exists_of_findSome?_eq_some h
  obtain ⟨⟨d', fp_real⟩, hlocate, rfl⟩ := Option.map_eq_some_iff.mp hd
  exact hfs d name d' fp_real hlocate

theorem nextCalls_genuine (hfs : FileSystem w real_path) {fp : Name} {file_dir : Dir} :
    ∀ c ∈ nextCalls w fp file_dir, Genuine real_path c := by
  intro c hc
  obtain ⟨d, _, hd⟩ := List.mem_filterMap.mp hc
  obtain ⟨found, hfound, rfl⟩ := Option.map_eq_some_iff.mp hd
  exact Resolve_genuine hfs hfound

theorem callsFor_genuine (hfs : FileSystem w real_path) (dir : Dir) (item : Item Name Expr) :
    ∀ c ∈ (callsFor w dir s item).1, Genuine real_path c := by
  intro c hc
  cases item with
  | quote fp =>
    obtain rfl := List.mem_singleton.mp hc
    trivial
  | angle fp =>
    obtain rfl := List.mem_singleton.mp hc
    trivial
  | next fp =>
    obtain rfl := List.mem_singleton.mp hc
    trivial
  | expr e =>
    obtain ⟨result, hresult, rfl⟩ := List.mem_map.mp hc
    obtain ⟨v, _, hv⟩ := List.mem_filterMap.mp hresult
    cases result with
    | none => trivial
    | some found =>
      cases v with
      | quote fp => exact Resolve_genuine hfs (Option.some.inj hv)
      | angle fp => exact Resolve_genuine hfs (Option.some.inj hv)
      | other symbols => cases hv

end Genuine

/-! ## A new node -/

/-- A node has been made, with a record that may be new. -/
structure NewNode (s s' : Caches Dir Name Real Symbol Table) (nd : Node Dir Name Real) : Prop where
  made : s'.made = s.made ++ [nd]
  children : nd.children = []
  valid : ∀ r < s.records.length, s'.valid r = s.valid r
  length : s.records.length ≤ s'.records.length
  record : nd.support_record < s'.records.length
  file_cache : s'.file_cache = s.file_cache
  symbol_table : s'.symbol_table = s.symbol_table

section NewNode
variable {s s' : Caches Dir Name Real Symbol Table} {nd : Node Dir Name Real} {n : Nat}

section
variable (h : NewNode s s' nd)
include h

theorem NewNode.grows : Grows s s' := by
  intro n nd' hn
  refine ⟨nd', ?_, rfl, rfl, rfl, fun _ hm => hm⟩
  rw [h.made, getElem?_append_left (List.getElem?_eq_some_iff.mp hn).1]
  exact hn

theorem NewNode.lt : s.made.length < s'.made.length := by
  rw [h.made, length_append, length_singleton]
  omega

theorem NewNode.getElem? : s'.made[s.made.length]? = some nd := by
  rw [h.made, getElem?_concat_length]

theorem NewNode.fileOf : s'.fileOf s.made.length = resolutionOf nd := by
  unfold Caches.fileOf
  rw [h.getElem?]

theorem NewNode.recordOf : s'.recordOf s.made.length = nd.support_record := by
  unfold Caches.recordOf
  rw [h.getElem?]

theorem NewNode.childrenOf : s'.childrenOf s.made.length = [] := by
  unfold Caches.childrenOf
  rw [h.getElem?]
  exact h.children

theorem NewNode.childrenOf_of_ne (hn : n ≠ s.made.length) : s'.childrenOf n = s.childrenOf n := by
  unfold Caches.childrenOf
  rcases Nat.lt_or_gt_of_ne hn with hlt | hgt
  · rw [h.made, getElem?_append_left hlt]
  have hlength : s'.made.length ≤ n := by
    rw [h.made, length_append, length_singleton]
    omega
  rw [getElem?_eq_none hlength, getElem?_eq_none hgt.le]

theorem NewNode.setNode (key : Key Dir Name Real) (node : Nat) :
    NewNode s (s'.setNode key node) nd :=
  ⟨h.made, h.children, h.valid, h.length, h.record, h.file_cache, h.symbol_table⟩

end

theorem NewNode.old (hr : nd.support_record < s.records.length) (hchildren : nd.children = []) :
    NewNode s (s.newNode nd) nd :=
  ⟨rfl, hchildren, fun _ _ => rfl, le_rfl, hr, rfl, rfl⟩

theorem NewNode.newRecord (hr : nd.support_record = s.records.length) (hchildren : nd.children = []) :
    NewNode s (s.newRecord.newNode nd) nd := by
  have hlength : s.newRecord.records.length = s.records.length + 1 := by
    unfold Caches.newRecord
    rw [length_append, length_singleton]
  refine ⟨rfl, hchildren, fun _ hr => valid_newRecord_of_lt hr, ?_, ?_, rfl, rfl⟩
  · show s.records.length ≤ s.newRecord.records.length
    omega
  · show nd.support_record < s.newRecord.records.length
    omega

end NewNode

end Toolwhip.Distcc
