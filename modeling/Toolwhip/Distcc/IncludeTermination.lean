import Mathlib.Data.Fintype.Prod
import Mathlib.Data.Set.Finite.List
import Mathlib.Data.Prod.Lex
import Toolwhip.Distcc.IncludeRun

/-! # Whether the include recursion returns

Each miss parses a new file, makes an invalid record valid, or puts a new real file and
directory or a new resolved name into the cache. Files, directories and the names that are
found are finitely many; but of one file there may be as many names as fit in `PATH_MAX`. -/

namespace Toolwhip.Distcc
open Lib.DepthLimit List
set_option autoImplicit false
set_option linter.unusedSectionVars false

variable {Dir Name Real Symbol Table Expr : Type} [DecidableEq Dir] [DecidableEq Name]
  [DecidableEq Real] [DecidableEq Symbol]

section Level
variable [Fintype Real] (names : Finset (Dir × Name)) (s : Caches Dir Name Real Symbol Table)

def unparsed : Nat := (Finset.univ.filter fun r => s.file_cache r = false).card

def newPairs : Nat :=
  (Finset.univ.filter fun p : Real × Real => s.nodes (.real p.1 p.2) = none).card

def newNames : Nat := (names.filter fun p => s.nodes (.resolved p) = none).card

def invalid : Nat := s.records.countP fun r => !r.valid

def level : ℕ ×ₗ ℕ := toLex (unparsed s, newPairs s + newNames names s + invalid s)

end Level

section Steps
variable [Fintype Real] {names : Finset (Dir × Name)} {s s' : Caches Dir Name Real Symbol Table}
  {node support_record : Nat} {key : Key Dir Name Real}
variable {α : Type}

theorem level_le (hfiles : s'.file_cache = s.file_cache)
    (hsum : newPairs s' + newNames names s' + invalid s' ≤
      newPairs s + newNames names s + invalid s) : level names s' ≤ level names s := by
  have hunparsed : unparsed s' = unparsed s := by
    unfold unparsed
    rw [hfiles]
  unfold level
  rw [Prod.Lex.toLex_le_toLex, hunparsed]
  exact Or.inr ⟨rfl, hsum⟩

theorem level_lt (hfiles : s'.file_cache = s.file_cache)
    (hsum : newPairs s' + newNames names s' + invalid s' <
      newPairs s + newNames names s + invalid s) : level names s' < level names s := by
  have hunparsed : unparsed s' = unparsed s := by
    unfold unparsed
    rw [hfiles]
  unfold level
  rw [Prod.Lex.toLex_lt_toLex, hunparsed]
  exact Or.inr ⟨rfl, hsum⟩

theorem countP_modify_same {p : α → Bool} {f : α → α} (hf : ∀ a, p (f a) = p a)
    (l : List α) (i : Nat) : (l.modify i f).countP p = l.countP p := by
  induction l generalizing i with
  | nil => cases i <;> rfl
  | cons a l ih =>
    cases i with
    | zero => simp [countP_cons, hf]
    | succ i => simp [countP_cons, ih]

theorem countP_modify_lt {p : α → Bool} {f : α → α} (hf : ∀ a, p (f a) = false)
    {l : List α} {i : Nat} {a : α} (ha : l[i]? = some a) (hp : p a = true) :
    (l.modify i f).countP p < l.countP p := by
  induction l generalizing i with
  | nil => cases ha
  | cons b l ih =>
    cases i with
    | zero =>
      obtain rfl : b = a := Option.some.inj ha
      simp [hf, hp]
    | succ i =>
      have := ih ha
      simp only [modify_succ_cons, countP_cons]
      omega

theorem countP_modify_le {p : α → Bool} {f : α → α} (hf : ∀ a, p (f a) = false)
    (l : List α) (i : Nat) : (l.modify i f).countP p ≤ l.countP p := by
  induction l generalizing i with
  | nil => cases i <;> exact le_rfl
  | cons b l ih =>
    cases i with
    | zero => simp [countP_cons, hf]
    | succ i =>
      have := ih i
      simp only [modify_succ_cons, countP_cons]
      omega

theorem level_update (symbols : List Symbol) :
    level names (s.update support_record symbols) = level names s := by
  have hinvalid : invalid (s.update support_record symbols) = invalid s := by
    apply countP_modify_same
    intro r
    rfl
  unfold level
  rw [hinvalid]
  rfl

theorem level_addChild (dummy : Bool) (child : Option Nat) :
    level names (s.addChild node dummy child) = level names s := by
  cases child with
  | none => rfl
  | some child =>
    cases dummy with
    | true => rfl
    | false => exact level_update _

theorem level_newRecord : level names s.newRecord = level names s := by
  have hinvalid : invalid s.newRecord = invalid s := by
    unfold invalid Caches.newRecord
    simp [countP_append]
  unfold level
  rw [hinvalid]
  rfl

theorem setNode_none {key' : Key Dir Name Real} (h : (s.setNode key node).nodes key' = none) :
    key' ≠ key ∧ s.nodes key' = none := by
  have h : Function.update s.nodes key (some node) key' = none := h
  by_cases heq : key' = key
  · subst heq
    simp at h
  · rw [Function.update_of_ne heq] at h
    exact ⟨heq, h⟩

theorem newPairs_setNode : newPairs (s.setNode key node) ≤ newPairs s := by
  apply Finset.card_le_card
  intro p hp
  rw [Finset.mem_filter] at hp ⊢
  exact ⟨hp.1, (setNode_none hp.2).2⟩

theorem newNames_setNode : newNames names (s.setNode key node) ≤ newNames names s := by
  apply Finset.card_le_card
  intro p hp
  rw [Finset.mem_filter] at hp ⊢
  exact ⟨hp.1, (setNode_none hp.2).2⟩

theorem level_setNode : level names (s.setNode key node) ≤ level names s := by
  have hpairs : newPairs (s.setNode key node) ≤ newPairs s := newPairs_setNode
  have hnames : newNames names (s.setNode key node) ≤ newNames names s := newNames_setNode
  have hinvalid : invalid (s.setNode key node) = invalid s := rfl
  refine level_le rfl ?_
  omega

theorem level_addNode {n : Node Dir Name Real} :
    level names ((s.newNode n).setNode key node) ≤ level names s := level_setNode

theorem level_setNode_real {file dir : Real} (hnew : s.nodes (.real file dir) = none) :
    level names (s.setNode (.real file dir) node) < level names s := by
  have hpairs : newPairs (s.setNode (.real file dir) node) < newPairs s := by
    apply Finset.card_lt_card
    rw [Finset.ssubset_iff_of_subset]
    · refine ⟨(file, dir), by simpa using hnew, ?_⟩
      intro hmem
      rw [Finset.mem_filter] at hmem
      exact (setNode_none hmem.2).1 rfl
    · intro p hp
      rw [Finset.mem_filter] at hp ⊢
      exact ⟨hp.1, (setNode_none hp.2).2⟩
  have hnames : newNames names (s.setNode (.real file dir) node) ≤ newNames names s :=
    newNames_setNode
  have hinvalid : invalid (s.setNode (.real file dir) node) = invalid s := rfl
  refine level_lt rfl ?_
  omega

theorem level_setNode_resolved {fp : Dir × Name} (hfp : fp ∈ names)
    (hnew : s.nodes (.resolved fp) = none) :
    level names (s.setNode (.resolved fp) node) < level names s := by
  have hpairs : newPairs (s.setNode (.resolved fp) node) ≤ newPairs s := newPairs_setNode
  have hnames : newNames names (s.setNode (.resolved fp) node) < newNames names s := by
    apply Finset.card_lt_card
    rw [Finset.ssubset_iff_of_subset]
    · refine ⟨fp, by simpa using ⟨hfp, hnew⟩, ?_⟩
      intro hmem
      rw [Finset.mem_filter] at hmem
      exact (setNode_none hmem.2).1 rfl
    · intro p hp
      rw [Finset.mem_filter] at hp ⊢
      exact ⟨hp.1, (setNode_none hp.2).2⟩
  have hinvalid : invalid (s.setNode (.resolved fp) node) = invalid s := rfl
  refine level_lt rfl ?_
  omega

theorem level_setValid : level names (s.setValid support_record) ≤ level names s := by
  have hpairs : newPairs (s.setValid support_record) = newPairs s := rfl
  have hnames : newNames names (s.setValid support_record) = newNames names s := rfl
  have hinvalid : invalid (s.setValid support_record) ≤ invalid s :=
    countP_modify_le (fun _ => rfl) _ _
  refine level_le rfl ?_
  omega

theorem level_setValid_of_invalid (h : s.valid support_record = false) :
    level names (s.setValid support_record) < level names s := by
  have hpairs : newPairs (s.setValid support_record) = newPairs s := rfl
  have hnames : newNames names (s.setValid support_record) = newNames names s := rfl
  have hinvalid : invalid (s.setValid support_record) < invalid s := by
    unfold Caches.valid at h
    cases hr : s.records[support_record]? with
    | none =>
      rw [hr] at h
      cases h
    | some r =>
      rw [hr] at h
      simp only at h
      exact countP_modify_lt (fun _ => rfl) hr (by rw [h]; rfl)
  refine level_lt rfl ?_
  omega

theorem level_parseFile (w : World Dir Name Real Symbol Table Expr) (fp_real : Real) :
    level names (parseFile w fp_real s) ≤ level names s := by
  unfold parseFile
  split
  · exact le_rfl
  rename_i hnew
  apply le_of_lt
  unfold level
  left
  apply Finset.card_lt_card
  rw [Finset.ssubset_iff_of_subset]
  · refine ⟨fp_real, by simpa using hnew, ?_⟩
    intro hmem
    simp at hmem
  · intro r hr
    rw [Finset.mem_filter] at hr ⊢
    refine ⟨hr.1, ?_⟩
    have hfalse : Function.update s.file_cache fp_real true r = false := hr.2
    by_cases heq : r = fp_real
    · subst heq
      simp at hfalse
    · rwa [Function.update_of_ne heq] at hfalse

end Steps

section Calls
variable {s : Caches Dir Name Real Symbol Table} {node : Nat}

theorem visitAll_each {P : Call Dir Name Real → Prop} {dummy : Bool}
    {calls : List (Call Dir Name Real)}
    {after : Caches Dir Name Real Symbol Table → NodeBody Dir Name Real Symbol Table}
    (hcalls : ∀ c ∈ calls, P c) (hafter : ∀ s', Each P (after s')) :
    Each P (visitAll node dummy calls s after) := by
  induction calls generalizing s with
  | nil => exact hafter s
  | cons c calls ih =>
    refine ⟨hcalls c mem_cons_self, ?_⟩
    intro child s'
    exact ih fun c' hc' => hcalls c' (mem_cons_of_mem _ hc')

/-- A call is a hit, or makes a node for a new path or again for one with an invalid record. -/
theorem findNodeBody_cases (w : World Dir Name Real Symbol Table Expr)
    (call : Call Dir Name Real) (s : Caches Dir Name Real Symbol Table) :
    (∃ result, findNodeBody w call s = .ret result s) ∨
    (∃ key, keyOf call = some key ∧ s.nodes key = none ∧ findNodeBody w call s =
      makeNode w call key (resolveCall w call) s.records.length s.newRecord) ∨
    ∃ key node found, keyOf call = some key ∧ s.nodes key = some node ∧
      s.made[node]? = some found ∧ s.valid found.support_record = false ∧
      findNodeBody w call s =
        makeNode w call key (resolutionOf found) found.support_record s := by
  unfold findNodeBody
  split
  · exact Or.inl ⟨none, rfl⟩
  rename_i key hkey
  split
  · rename_i hnone
    exact Or.inr (Or.inl ⟨key, hkey, hnone, rfl⟩)
  rename_i node hnode
  split
  · exact Or.inl ⟨some node, rfl⟩
  rename_i found hfound
  split
  · exact Or.inl ⟨some node, rfl⟩
  rename_i hinvalid
  rw [Bool.not_eq_true] at hinvalid
  exact Or.inr (Or.inr ⟨key, node, found, hkey, hnode, hfound, hinvalid, rfl⟩)

end Calls

section Bodies
variable [Fintype Real] {names : Finset (Dir × Name)} {s : Caches Dir Name Real Symbol Table}
  {w : World Dir Name Real Symbol Table Expr} {node support_record : Nat}
  {key : Key Dir Name Real} {bound : ℕ ×ₗ ℕ} {fp_real : Real} {fp_dirname : Dir}
  {call c₁ : Call Dir Name Real} {s₁ : Caches Dir Name Real Symbol Table}
variable {found : Option ((Dir × Name) × Real)} {isResolved : Bool}

theorem visitAll_under {dummy : Bool} {calls : List (Call Dir Name Real)}
    {after : Caches Dir Name Real Symbol Table → NodeBody Dir Name Real Symbol Table}
    (hs : level names s ≤ bound)
    (hafter : ∀ s', level names s' ≤ bound → Under (level names) bound (after s')) :
    Under (level names) bound (visitAll node dummy calls s after) := by
  induction calls generalizing s with
  | nil => exact hafter s hs
  | cons c calls ih =>
    refine ⟨hs, ?_⟩
    intro child s' hle
    apply ih
    rw [level_addChild]
    exact hle.trans hs

theorem visitIncludes_under {left : List (Item Name Expr)} (hs : level names s ≤ bound) :
    Under (level names) bound (visitIncludes w node fp_dirname left s) := by
  induction left generalizing s with
  | nil => exact hs
  | cons item left ih =>
    apply visitAll_under hs
    intro s' hs'
    apply ih
    rw [level_update]
    exact hs'

theorem expand_under (hs : level names (s.setValid support_record) ≤ bound) :
    Under (level names) bound (expand w node support_record fp_real fp_dirname s) :=
  visitIncludes_under ((level_parseFile w fp_real).trans hs)

variable {fp : Dir × Name}

theorem enterFile_under (hs : level names s ≤ bound) :
    Under (level names) bound (enterFile w key isResolved node support_record fp fp_real s) := by
  unfold enterFile
  dsimp only
  split
  · exact expand_under (level_setValid.trans hs)
  split
  · exact level_setNode.trans hs
  · exact expand_under (level_setValid.trans (level_setNode.trans hs))

theorem makeNode_under (hs : level names s ≤ bound) :
    Under (level names) bound (makeNode w call key found support_record s) := by
  have hs' : ∀ n : Node Dir Name Real, level names ((s.newNode n).setNode key s.made.length) ≤ bound :=
    fun n => level_setNode.trans hs
  unfold makeNode
  split
  · exact visitAll_under (hs' _) fun _ h => h
  · exact hs' _
  · exact enterFile_under (hs' _)
  · exact enterFile_under (hs' _)

theorem findNodeBody_under (call : Call Dir Name Real) (s : Caches Dir Name Real Symbol Table) :
    Under (level names) (level names s) (findNodeBody w call s) := by
  unfold findNodeBody
  split
  · exact le_rfl
  split
  · exact makeNode_under level_newRecord.le
  split
  · exact le_rfl
  split
  · exact le_rfl
  · exact makeNode_under le_rfl

variable {top : ℕ ×ₗ ℕ}

theorem Made.level_lt {b : NodeBody Dir Name Real Symbol Table}
    (hb : Under (level names) bound b) (hlt : bound < top)
    (h : Made (findNodeBody w) b c₁ s₁) : level names s₁ < top :=
  (h.level_le findNodeBody_under hb).trans_lt hlt

theorem enterFile_invalid (hs : level names s ≤ top) (hvalid : s.valid support_record = false)
    (h : Made (findNodeBody w) (enterFile w key isResolved node support_record fp fp_real s) c₁ s₁) :
    level names s₁ < top := by
  unfold enterFile at h
  dsimp only at h
  split at h
  · exact Made.level_lt (expand_under le_rfl) ((level_setValid_of_invalid hvalid).trans_le hs) h
  split at h
  · cases h
  have hvalid' : (s.setNode (.real fp_real (w.dirname fp).2) node).valid support_record =
      false := hvalid
  exact Made.level_lt (expand_under le_rfl)
    ((level_setValid_of_invalid hvalid').trans_le (level_setNode.trans hs)) h

theorem enterFile_new (hs : level names s ≤ top) (hvalid : s.valid support_record = true)
    (h : Made (findNodeBody w) (enterFile w key false node support_record fp fp_real s) c₁ s₁) :
    level names s₁ < top := by
  unfold enterFile at h
  simp only [Bool.false_eq_true, if_false, hvalid] at h
  split at h
  · cases h
  rename_i hnone
  have hnew : s.nodes (.real fp_real (w.dirname fp).2) = none := by
    by_contra hsome
    obtain ⟨found, hfound⟩ := Option.ne_none_iff_exists'.mp hsome
    exact hnone found hfound rfl
  exact Made.level_lt (expand_under le_rfl)
    (level_setValid.trans_lt ((level_setNode_real hnew).trans_le hs)) h

omit [Fintype Real] in
theorem valid_newRecord (s : Caches Dir Name Real Symbol Table) :
    s.newRecord.valid s.records.length = true := by
  unfold Caches.valid Caches.newRecord
  simp

def Named (names : Finset (Dir × Name)) : Call Dir Name Real → Prop
  | .resolved (some (fp, _)) => fp ∈ names
  | .next _ _ => False
  | _ => True

theorem makeNode_invalid (hcall : Named names call) (hvalid : s.valid support_record = false)
    (h : Made (findNodeBody w) (makeNode w call key found support_record s) c₁ s₁) :
    level names s₁ < level names s := by
  unfold makeNode at h
  split at h
  · exact absurd hcall id
  · cases h
  · refine enterFile_invalid ?_ ?_ h
    · exact level_addNode
    · exact hvalid
  refine enterFile_invalid ?_ ?_ h
  · exact level_addNode
  · exact hvalid

theorem findNodeBody_level_lt (hcall : Named names call)
    (h : Made (findNodeBody w) (findNodeBody w call s) c₁ s₁) : level names s₁ < level names s := by
  rcases findNodeBody_cases w call s with ⟨result, hret⟩ | ⟨key, hkey, hnone, hmake⟩ |
    ⟨key, node, found, hkey, hnode, hfound, hinvalid, hmake⟩
  · rw [hret] at h
    cases h
  · rw [hmake] at h
    unfold makeNode at h
    split at h
    · exact absurd hcall id
    · cases h
    · rename_i fp fp_real fp' hresolve
      have hfp' : fp' = some (fp, fp_real) := hresolve
      rw [hfp'] at hkey hcall
      obtain rfl := Option.some.inj hkey
      have hlt : ∀ n : Node Dir Name Real, level names
          ((s.newRecord.newNode n).setNode (.resolved fp) s.newRecord.made.length) <
            level names s := by
        intro n
        rw [← level_newRecord (s := s)]
        exact level_setNode_resolved hcall hnone
      exact Made.level_lt (enterFile_under le_rfl) (hlt _) h
    · refine enterFile_new ?_ ?_ h
      · exact level_addNode.trans level_newRecord.le
      · exact valid_newRecord s
  · rw [hmake] at h
    exact makeNode_invalid hcall hinvalid h

theorem findNodeBody_next {fp : Name} {file_dir : Dir}
    (h : Made (findNodeBody w) (findNodeBody w (.next fp file_dir) s) c₁ s₁) :
    level names s₁ ≤ level names s ∧ c₁ ∈ nextCalls w fp file_dir ∨
      level names s₁ < level names s := by
  have hlevel : level names s₁ ≤ level names s :=
    h.level_le findNodeBody_under (findNodeBody_under (.next fp file_dir) s)
  have hmem : ∀ {s' : Caches Dir Name Real Symbol Table} {n : Nat},
      Made (findNodeBody w) (visitAll n true (nextCalls w fp file_dir) s' fun s => .ret (some n) s)
        c₁ s₁ → c₁ ∈ nextCalls w fp file_dir := by
    intro s' n hmade
    have heach : Each (· ∈ nextCalls w fp file_dir) (visitAll n true (nextCalls w fp file_dir) s'
        fun s => (.ret (some n) s : NodeBody Dir Name Real Symbol Table)) := by
      apply visitAll_each
      · intro c hc
        exact hc
      · intro s''
        trivial
    exact hmade.each heach
  rcases findNodeBody_cases w (.next fp file_dir) s with ⟨result, hret⟩ | ⟨key, hkey, hnone, hmake⟩ |
    ⟨key, node, found, hkey, hnode, hfound, hinvalid, hmake⟩
  · rw [hret] at h
    cases h
  · rw [hmake] at h
    exact Or.inl ⟨hlevel, hmem h⟩
  rw [hmake] at h
  cases hfiles : resolutionOf found with
  | none =>
    rw [hfiles] at h
    exact Or.inl ⟨hlevel, hmem h⟩
  | some files =>
    rw [hfiles] at h
    simp only [makeNode] at h
    right
    refine enterFile_invalid ?_ ?_ h
    · exact level_addNode
    · exact hinvalid

end Bodies

section Returns
variable {w : World Dir Name Real Symbol Table Expr} {call : Call Dir Name Real}
  {s : Caches Dir Name Real Symbol Table}
variable {file : Real}

/-- The names to which files are resolved before `FindNode` is called for them. -/
def NamesReached (w : World Dir Name Real Symbol Table Expr) (call : Call Dir Name Real)
    (s : Caches Dir Name Real Symbol Table) : Set (Dir × Name) :=
  {fp | ∃ fp_real s', Reaches (findNodeBody w) call s (.resolved (some (fp, fp_real))) s'}

def nameOf : Call Dir Name Real → Option (Dir × Name)
  | .resolved (some (fp, _)) => some fp
  | _ => none

def isNext : Call Dir Name Real → Bool
  | .next _ _ => true
  | _ => false

theorem returns_of_finite [Finite Real] (h : (NamesReached w call s).Finite) :
    ∃ x, Returns (findNodeBody w) call s x := by
  have hfintype := Fintype.ofFinite Real
  let names := h.toFinset
  -- a dummy does not change the level, but what it calls for is no dummy
  apply returns_of_rank fun c s => toLex (level names s, if isNext c then 1 else 0)
  intro c' s' hreach c₁ s₁ hmade
  rw [Prod.Lex.toLex_lt_toLex]
  cases c' with
  | next fp file_dir =>
    rcases findNodeBody_next hmade with ⟨hle, hmem⟩ | hlt
    · obtain ⟨d, _, hd⟩ := List.mem_filterMap.mp hmem
      obtain ⟨found, _, rfl⟩ := Option.map_eq_some_iff.mp hd
      rcases hle.lt_or_eq with hlt | heq
      · exact Or.inl hlt
      · exact Or.inr ⟨heq, Nat.zero_lt_one⟩
    · exact Or.inl hlt
  | quote fp file_dir =>
    have hnamed : Named names (.quote fp file_dir : Call Dir Name Real) := trivial
    exact Or.inl (findNodeBody_level_lt hnamed hmade)
  | angle fp file_dir =>
    have hnamed : Named names (.angle fp file_dir : Call Dir Name Real) := trivial
    exact Or.inl (findNodeBody_level_lt hnamed hmade)
  | resolved found =>
    left
    apply findNodeBody_level_lt _ hmade
    cases found with
    | none => trivial
    | some found => exact h.mem_toFinset.mpr ⟨found.2, s', hreach⟩

/-- A file is found under this name. -/
def Located (w : World Dir Name Real Symbol Table Expr) (fp : Dir × Name) : Prop :=
  ∃ d fp_real, w.locate d fp.2 = some (fp.1, fp_real)

theorem finite_Located (w : World Dir Name Real Symbol Table Expr) : {fp | Located w fp}.Finite := by
  have himage : {fp | Located w fp} ⊆
      {fp | some fp ∈ (fun p : Dir × Name => (w.locate p.1 p.2).map fun found => (found.1, p.2)) ''
        {p | (w.locate p.1 p.2).isSome = true}} := by
    rintro ⟨d', name⟩ ⟨d, fp_real, hlocate⟩
    refine ⟨(d, name), ?_, ?_⟩
    · exact Option.isSome_iff_exists.mpr ⟨_, hlocate⟩
    · exact congrArg (Option.map fun found => (found.1, name)) hlocate
  exact ((w.finite_located.image _).preimage (Option.some_injective _).injOn).subset himage

def CallLocated (w : World Dir Name Real Symbol Table Expr) : Call Dir Name Real → Prop
  | .resolved (some (fp, _)) => Located w fp
  | _ => True

theorem Resolve_located {name : Name} {searchdir : Option Dir} {searchlist : List Dir} {d : Dir}
    {found : (Dir × Name) × Real} (h : Resolve w name searchdir searchlist d = some found) :
    Located w found.1 := by
  unfold Resolve at h
  split at h
  · cases h
  obtain ⟨d', _, hd'⟩ := List.exists_of_findSome?_eq_some h
  obtain ⟨⟨d'', fp_real⟩, hlocate, rfl⟩ := Option.map_eq_some_iff.mp hd'
  exact ⟨d', fp_real, hlocate⟩

theorem callsFor_located (dir : Dir) (item : Item Name Expr) :
    ∀ c ∈ (callsFor w dir s item).1, CallLocated w c := by
  intro c hc
  cases item with
  | quote fp =>
    obtain rfl := List.mem_singleton.mp hc
    trivial
  | angle fp =>
    obtain rfl := List.mem_singleton.mp hc
    trivial
  | next fp =>
    obtain rfl := List.mem_singleton.mp hc
    trivial
  | expr e =>
    obtain ⟨found, hfound, rfl⟩ := List.mem_map.mp hc
    cases found with
    | none => trivial
    | some found =>
      obtain ⟨v, _, hv⟩ := List.mem_filterMap.mp hfound
      cases v with
      | quote fp => exact Resolve_located (Option.some.inj hv)
      | angle fp => exact Resolve_located (Option.some.inj hv)
      | other symbols => cases hv

theorem visitIncludes_located {node : Nat} {dir : Dir} {left : List (Item Name Expr)} :
    Each (CallLocated w) (visitIncludes w node dir left s) := by
  induction left generalizing s with
  | nil => trivial
  | cons item left ih => exact visitAll_each (callsFor_located dir item) fun _ => ih

theorem enterFile_located {key : Key Dir Name Real} {isResolved : Bool} {node support_record : Nat}
    {fp : Dir × Name} : Each (CallLocated w)
      (enterFile w key isResolved node support_record fp file s) := by
  unfold enterFile
  dsimp only
  split
  · exact visitIncludes_located
  split
  · trivial
  · exact visitIncludes_located

theorem makeNode_located {key : Key Dir Name Real} {support_record : Nat}
    {found : Option ((Dir × Name) × Real)} :
    Each (CallLocated w) (makeNode w call key found support_record s) := by
  unfold makeNode
  split
  · refine visitAll_each ?_ fun _ => trivial
    intro c hc
    obtain ⟨d, _, hd⟩ := List.mem_filterMap.mp hc
    obtain ⟨found, hfound, rfl⟩ := Option.map_eq_some_iff.mp hd
    exact Resolve_located hfound
  · trivial
  · exact enterFile_located
  · exact enterFile_located

theorem findNodeBody_located (call : Call Dir Name Real) (s : Caches Dir Name Real Symbol Table) :
    Each (CallLocated w) (findNodeBody w call s) := by
  rcases findNodeBody_cases w call s with ⟨result, hret⟩ | ⟨key, hkey, hnone, hmake⟩ |
    ⟨key, node, found, hkey, hnode, hfound, hinvalid, hmake⟩
  · rw [hret]
    trivial
  · rw [hmake]
    exact makeNode_located
  · rw [hmake]
    exact makeNode_located

theorem FindNode_returns [Finite Real] (w : World Dir Name Real Symbol Table Expr)
    (call : Call Dir Name Real) (s : Caches Dir Name Real Symbol Table) :
    ∃ depth x, FindNode w depth call s = some x := by
  have hreached : NamesReached w call s ⊆ {fp | nameOf call = some fp} ∪ {fp | Located w fp} := by
    rintro fp ⟨fp_real, s', hreach⟩
    rcases hreach.each findNodeBody_located with rfl | hlocated
    · exact Or.inl rfl
    · exact Or.inr hlocated
  have hstart : {fp | nameOf call = some fp}.Finite := by
    apply Set.Subsingleton.finite
    intro fp hfp fp' hfp'
    exact Option.some.inj (hfp.symm.trans hfp')
  obtain ⟨x, depth, heval⟩ := returns_of_finite ((hstart.union (finite_Located w)).subset hreached)
  exact ⟨depth, x, heval⟩

end Returns

/-! ## The real paths that stop the recursion -/

section Pairs
variable (w : World Dir Name Real Symbol Table Expr) (call : Call Dir Name Real)
  (s : Caches Dir Name Real Symbol Table)

/-- Neither its key nor the real paths lead to a node, and the file is gone through. -/
def Misses : Prop :=
  (∀ key, keyOf call = some key → s.nodes key = none) ∧
    ∃ support_record fp_real, (stepEnter w call [] s).control =
      .revalidate support_record fp_real

def AddsPair : Prop :=
  ∃ file dir, s.nodes (.real file dir) = none ∧
    ((stepEnter w call [] s).caches.nodes (.real file dir)).isSome = true

/-- The calls that `FindNode` makes of itself, and the state they start in. -/
def Recursive (c : Call Dir Name Real) (s' : Caches Dir Name Real Symbol Table) : Prop :=
  ∃ f fs, Steps w ⟨.enter call, [], s⟩ ⟨.enter c, f :: fs, s'⟩

/-- It returns, and with each call that is not cached there is a new pair of real paths. -/
structure StopsAtPairs : Prop where
  returns : ∃ depth x, FindNode w depth call s = some x
  adds : ∀ c s', Recursive w call s c s' → Misses w c s' → AddsPair w c s'

variable {w call s}

/-- Only a call for a resolved path goes through a file without a new pair. -/
theorem addsPair_of_misses (hcall : ∀ found, call ≠ .resolved (some found)) (h : Misses w call s) :
    AddsPair w call s := by
  obtain ⟨hmiss, support_record, fp_real, hcontrol⟩ := h
  unfold AddsPair
  unfold stepEnter at hcontrol ⊢
  cases hkey : keyOf call with
  | none =>
    rw [hkey] at hcontrol
    cases hcontrol
  | some key =>
    have hnone := hmiss key hkey
    simp only [hkey, hnone] at hcontrol ⊢
    have hfile : ∀ {fp : Dir × Name} {file : Real}
        {s' : Caches Dir Name Real Symbol Table} {node r : Nat},
        (stepFile w key false node r fp file [] s').control =
          .revalidate support_record fp_real → s'.valid r = true →
        (∀ file dir, s'.nodes (.real file dir) = s.nodes (.real file dir)) →
        ∃ file' dir, s.nodes (.real file' dir) = none ∧
          ((stepFile w key false node r fp file [] s').caches.nodes
            (.real file' dir)).isSome = true := by
      intro fp file s' node r hstep hvalid hsame
      unfold stepFile at hstep ⊢
      simp only [Bool.false_eq_true, if_false, hvalid] at hstep ⊢
      cases hpair : s'.nodes (.real file (w.dirname fp).2) with
      | some found =>
        simp only [hpair] at hstep
        cases hstep
      | none =>
        refine ⟨file, (w.dirname fp).2, by rw [← hsame, hpair], ?_⟩
        simp only [Caches.setNode, Function.update_self, Option.isSome_some]
    have hvalid := valid_newRecord s
    cases call with
    | next fp file_dir => cases hcontrol
    | resolved found =>
      cases found with
      | none => cases hkey
      | some found => exact absurd rfl (hcall found)
    | quote fp file_dir =>
      obtain rfl := Option.some.inj hkey
      cases hresolve : resolveCall w (.quote fp file_dir : Call Dir Name Real) with
      | none =>
        rw [hresolve] at hcontrol
        cases hcontrol
      | some found =>
        rw [hresolve] at hcontrol
        exact hfile hcontrol hvalid fun _ _ => rfl
    | angle fp file_dir =>
      obtain rfl := Option.some.inj hkey
      cases hresolve : resolveCall w (.angle fp file_dir : Call Dir Name Real) with
      | none =>
        rw [hresolve] at hcontrol
        cases hcontrol
      | some found =>
        rw [hresolve] at hcontrol
        exact hfile hcontrol hvalid fun _ _ => rfl

theorem resolved_misses {found : (Dir × Name) × Real} (hnone : s.nodes (.resolved found.1) = none) :
    Misses w (.resolved (some found)) s ∧ ¬ AddsPair w (.resolved (some found)) s := by
  have hstep : stepEnter w (.resolved (some found)) [] s =
      stepFile w (.resolved found.1) true s.made.length s.records.length found.1 found.2 []
        ((s.newRecord.newNode ⟨some found.2, some found.1, [], s.records.length⟩).setNode
          (.resolved found.1) s.made.length) := by
    unfold stepEnter
    simp only [keyOf, hnone]
    rfl
  unfold Misses AddsPair
  rw [hstep]
  refine ⟨⟨?_, _, _, rfl⟩, ?_⟩
  · intro key hkey
    obtain rfl := Option.some.inj hkey
    exact hnone
  · rintro ⟨file, dir, hold, hnew⟩
    have hsame : Function.update s.nodes (.resolved found.1) (some s.made.length)
        (.real file dir) = none := by
      rw [Function.update_of_ne (by simp)]
      exact hold
    have hnew : (Function.update s.nodes (.resolved found.1) (some s.made.length)
        (.real file dir)).isSome = true := hnew
    rw [hsame] at hnew
    cases hnew

def mutualWorld : World Unit Bool Bool Unit Unit Unit where
  currdir := ()
  quote_dirs := [()]
  angle_dirs := []
  absolute _ := false
  locate d fp := some (d, fp)
  finite_located := Set.toFinite _
  framework_fallback _ _ := []
  dirname _ := ((), false)
  parse fp_real := ⟨[!fp_real], [], [()], [!fp_real]⟩
  defines _ := [()]
  insert _ _ := ()
  evaluate _ _ := [.quote true, .other [()]]

end Pairs

section Self

/-- `D`, `..` and `mem.h` -/
inductive Part where
  | D
  | up
  | mem
  deriving DecidableEq

instance : Fintype Part where
  elems := {.D, .up, .mem}
  complete p := by cases p <;> simp

/-- The top directory, `D` in it and `D/mem.h`. -/
inductive RealPath where
  | top
  | D
  | mem
  deriving DecidableEq

instance : Fintype RealPath where
  elems := {.top, .D, .mem}
  complete p := by cases p <;> simp

def walk : RealPath → List Part → Option RealPath
  | p, [] => some p
  | .top, .D :: parts => walk .D parts
  | .D, .up :: parts => walk .top parts
  | .D, .mem :: parts => walk .mem parts
  | _, _ => none

/-- The bytes of a path, with a slash before each part. -/
def spelled : List Part → Nat
  | [] => 0
  | .D :: parts => 2 + spelled parts
  | .up :: parts => 3 + spelled parts
  | .mem :: parts => 6 + spelled parts

theorem length_le_spelled (path : List Part) : path.length ≤ spelled path := by
  induction path with
  | nil => exact le_rfl
  | cons part parts ih =>
    rw [length_cons]
    cases part <;> simp only [spelled] <;> omega

def PATH_MAX : Nat := 4096

def locateSelf (d fp : List Part) : Option (List Part × RealPath) :=
  if spelled (d ++ fp) < PATH_MAX then
    match walk .top (d ++ fp) with
    | some .mem => some (d, .mem)
    | _ => none
  else none

theorem finite_locateSelf :
    {p : List Part × List Part | (locateSelf p.1 p.2).isSome = true}.Finite := by
  have hshort : {path : List Part | path.length < PATH_MAX}.Finite := List.finite_length_lt Part _
  apply (hshort.prod hshort).subset
  rintro ⟨d, fp⟩ hlocate
  have hlt : spelled (d ++ fp) < PATH_MAX := by
    by_contra hlong
    have hnone : locateSelf d fp = none := if_neg hlong
    have hsome : (locateSelf d fp).isSome = true := hlocate
    rw [hnone] at hsome
    cases hsome
  have hle := length_le_spelled (d ++ fp)
  rw [length_append] at hle
  constructor
  · show d.length < PATH_MAX
    omega
  · show fp.length < PATH_MAX
    omega

/-- `mem.h` has `#define SELF "../D/mem.h"` and `#include SELF`. -/
def selfName : List Part := [.up, .D, .mem]

def selfWorld : World (List Part) (List Part) RealPath Unit Unit Unit where
  currdir := []
  quote_dirs := []
  angle_dirs := []
  absolute _ := false
  locate := locateSelf
  finite_located := finite_locateSelf
  framework_fallback _ _ := []
  dirname := fun (d, fp) => (d ++ fp.dropLast, (walk .top (d ++ fp.dropLast)).getD .top)
  parse
    | .mem => ⟨[], [], [()], []⟩
    | _ => ⟨[], [], [], []⟩
  defines _ := [()]
  insert _ _ := ()
  evaluate _ _ := [.quote selfName]

def dir : Nat → List Part
  | 0 => [.D]
  | n + 1 => .D :: .up :: dir n

theorem dir_append (n : Nat) : dir n ++ [.up, .D] = dir (n + 1) := by
  induction n with
  | zero => rfl
  | succ n ih =>
    have h : dir (n + 1) ++ [.up, .D] = .D :: .up :: (dir n ++ [.up, .D]) := rfl
    rw [h, ih]
    rfl

theorem walk_dir (n : Nat) (parts : List Part) : walk .top (dir n ++ parts) = walk .D parts := by
  induction n with
  | zero => rfl
  | succ n ih => exact ih

theorem spelled_dir (n : Nat) (parts : List Part) :
    spelled (dir n ++ parts) = 5 * n + 2 + spelled parts := by
  induction n with
  | zero =>
    rw [dir, singleton_append, spelled]
  | succ n ih =>
    rw [dir, cons_append, cons_append, spelled, spelled, ih]
    omega

variable {n : Nat}

theorem dir_ne {m : Nat} (h : m ≠ n) : dir m ≠ dir n := by
  intro heq
  have hm := spelled_dir m []
  have hn := spelled_dir n []
  rw [heq] at hm
  omega

abbrev SelfCaches := Caches (List Part) (List Part) RealPath Unit Unit

def selfCall (d fp : List Part) : Call (List Part) (List Part) RealPath :=
  .resolved (some ((d, fp), .mem))

theorem ResolveExpr_self (hn : n ≤ 816) (symbol_table : Unit) :
    ResolveExpr selfWorld () (dir n) symbol_table = ([some ((dir n, selfName), .mem)], []) := by
  have hshort : spelled (dir n ++ selfName) < PATH_MAX := by
    have hname : spelled selfName = 11 := rfl
    rw [spelled_dir, hname, PATH_MAX]
    omega
  have hlocate : selfWorld.locate (dir n) selfName = some (dir n, .mem) := by
    have hself : locateSelf (dir n) selfName = some (dir n, .mem) := by
      rw [locateSelf, if_pos hshort, walk_dir]
      rfl
    exact hself
  have hresolve : Resolve selfWorld selfName (some (dir n)) [] [] =
      some ((dir n, selfName), .mem) := by
    unfold Resolve
    simp [selfWorld] at hlocate ⊢
    simp [hlocate]
  unfold ResolveExpr
  simp only [selfWorld, filterMap_cons, filterMap_nil, resolveValue] at hresolve ⊢
  simp [hresolve]

theorem expand_self (hn : n ≤ 816) {node support_record : Nat} {s : SelfCaches} :
    ∃ s' next, expand selfWorld node support_record .mem (dir n) s =
      .call (selfCall (dir n) selfName) s' next ∧ s'.nodes = s.nodes := by
  have hitems : items (selfWorld.parse .mem) = [.expr ()] := rfl
  have hcalls : ∀ s' : SelfCaches, callsFor selfWorld (dir n) s' (.expr ()) =
      ([selfCall (dir n) selfName], []) := by
    intro s'
    simp only [callsFor, ResolveExpr_self hn]
    rfl
  unfold expand
  rw [hitems, visitIncludes, hcalls]
  refine ⟨_, _, rfl, ?_⟩
  unfold parseFile
  split <;> rfl

theorem findNodeBody_self (hn : n ≤ 816) {d f : List Part} {s : SelfCaches}
    (hdir : d ++ f.dropLast = dir n) (hnew : s.nodes (.resolved (d, f)) = none) :
    ∃ s' next, findNodeBody selfWorld (selfCall d f) s =
        .call (selfCall (dir n) selfName) s' next ∧
      ∀ name, name ≠ (d, f) → s'.nodes (.resolved name) = s.nodes (.resolved name) := by
  have hdirname : (selfWorld.dirname (d, f)).1 = dir n := hdir
  have hbody : findNodeBody selfWorld (selfCall d f) s =
      expand selfWorld s.made.length s.records.length .mem (selfWorld.dirname (d, f)).1
        ((s.newRecord.newNode ⟨some .mem, some (d, f), [], s.records.length⟩).setNode
          (.resolved (d, f)) s.made.length) := by
    simp only [findNodeBody, selfCall, keyOf, hnew]
    rfl
  rw [hbody, hdirname]
  obtain ⟨s', next, hexpand, hnodes⟩ := expand_self hn
  refine ⟨s', next, hexpand, ?_⟩
  intro name hname
  rw [hnodes]
  apply Function.update_of_ne
  intro heq
  exact hname (Key.resolved.inj heq)

theorem FindNode_self (depth n : Nat) (hdepth : n + depth ≤ 816) (s : SelfCaches)
    (hnew : ∀ k, n ≤ k → s.nodes (.resolved (dir k, selfName)) = none) :
    FindNode selfWorld depth (selfCall (dir n) selfName) s = none := by
  induction depth generalizing n s with
  | zero => rfl
  | succ depth ih =>
    obtain ⟨s', next, hbody, hnodes⟩ :=
      findNodeBody_self (n := n + 1) (by omega) (dir_append n) (hnew n le_rfl)
    have hnone : FindNode selfWorld depth (selfCall (dir (n + 1)) selfName) s' = none := by
      refine ih (n + 1) (by omega) s' ?_
      intro k hk
      rw [hnodes _ fun heq => dir_ne (by omega) (congrArg Prod.fst heq)]
      exact hnew k (by omega)
    unfold FindNode at hnone ⊢
    rw [eval, hbody, runBody, hnone]

theorem FindNode_start (s : SelfCaches) (hs : s.nodes = fun _ => none) :
    FindNode selfWorld 817 (selfCall [.D] [.mem]) s = none := by
  have hstart : s.nodes (.resolved ([.D], [.mem])) = none := by rw [hs]
  obtain ⟨s', next, hbody, hnodes⟩ := findNodeBody_self (n := 0) (Nat.zero_le _) rfl hstart
  have hnone : FindNode selfWorld 816 (selfCall (dir 0) selfName) s' = none := by
    refine FindNode_self 816 0 le_rfl s' ?_
    intro k hk
    rw [hnodes, hs]
    intro heq
    cases (congrArg Prod.snd heq)
  unfold FindNode at hnone ⊢
  rw [eval, hbody, runBody, hnone]

end Self

end Toolwhip.Distcc
