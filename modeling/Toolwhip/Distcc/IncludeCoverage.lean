import Toolwhip.Distcc.IncludeSoundSteps

/-! # What a run without a node cache can find

A node leads to all files that the includes of its files stand for. So a run under fewer
definitions, which starts at its file, finds no other ones. -/

namespace Toolwhip.Distcc
open List
set_option autoImplicit false
set_option linter.unusedSectionVars false

variable {Dir Name Real Symbol Table Expr : Type} [DecidableEq Dir] [DecidableEq Name]
  [DecidableEq Real] [DecidableEq Symbol]
  {w : World Dir Name Real Symbol Table Expr} {real_path : Dir × Name → Real}

section Alike
variable {fp fp' : Dir × Name} {name : Name} (halike : Alike w fp fp' name)
include halike

theorem Resolve_searchdir_alike (dirs : List Dir) {c c' : Dir}
    (hfallback : w.framework_fallback name c = w.framework_fallback name c') :
    (Resolve w name (some (w.dirname fp).1) dirs c).map (realPair w) =
      (Resolve w name (some (w.dirname fp').1) dirs c').map (realPair w) := by
  have hlocate : ((w.locate (w.dirname fp).1 name).map fun found => ((found.1, name), found.2)).map
      (realPair w) = ((w.locate (w.dirname fp').1 name).map fun found =>
        ((found.1, name), found.2)).map (realPair w) := by
    rw [Option.map_map, Option.map_map]
    exact halike.locate
  unfold Resolve
  split
  · rfl
  simp only [Option.toList_some, cons_append, findSome?_cons,
    hfallback]
  cases h : w.locate (w.dirname fp).1 name with
  | none =>
    rw [h] at hlocate
    have h' : w.locate (w.dirname fp').1 name = none := by
      cases h' : w.locate (w.dirname fp').1 name with
      | none => rfl
      | some found =>
        rw [h'] at hlocate
        cases hlocate
    rw [h']
  | some found =>
    rw [h] at hlocate
    cases h' : w.locate (w.dirname fp').1 name with
    | none =>
      rw [h'] at hlocate
      cases hlocate
    | some found' =>
      rw [h'] at hlocate
      exact hlocate

theorem Resolve_includer_alike (searchdir : Option Dir) (dirs : List Dir) :
    Resolve w name searchdir dirs (w.dirname fp).1 =
      Resolve w name searchdir dirs (w.dirname fp').1 := by
  unfold Resolve
  rw [halike.fallback]

end Alike

section Covered
variable (w) (s : Caches Dir Name Real Symbol Table) (root : Nat)

def Leads (n : Nat) : Prop := Relation.ReflTransGen (fun a b => b ∈ s.childrenOf a) root n

def Covered (pair : Real × Real) : Prop :=
  ∃ n, Leads s root n ∧ (s.fileOf n).map (realPair w) = some pair

/-- Nodes for the same file and real directory include alike from it and from `file`. -/
def IncludesAlike (file : (Dir × Name) × Real) : Prop :=
  ∀ n found, s.fileOf n = some found → realPair w found = realPair w file →
    ∀ name ∈ (w.parse found.2).names w s.symbol_table, Alike w found.1 file.1 name

def CallCovered : Call Dir Name Real → Prop
  | .next fp file_dir => ∀ found, .resolved (some found) ∈ nextCalls w fp file_dir →
      Covered w s root (realPair w found)
  | c => ∀ found, resolveCall w c = some found → Covered w s root (realPair w found)

/-- The root leads to all that the includes of its files stand for. -/
structure Complete [Preorder Table] : Prop where
  file_cache : ∀ n found, Leads s root n → s.fileOf n = some found → s.file_cache found.2 = true
  calls : ∀ n found, Leads s root n → s.fileOf n = some found → ∀ item ∈ items (w.parse found.2),
    ∀ c ∈ (callsFor w (w.dirname found.1).1 s item).1, CallCovered w s root c
  parsed : ∀ fp_real, s.file_cache fp_real = true → w.insert fp_real s.symbol_table ≤ s.symbol_table

end Covered

section Complete
variable [Preorder Table] {start : Call Dir Name Real} {s s' : Caches Dir Name Real Symbol Table}
  {root n : Nat}

theorem held_of_leads (hvalid : s.validNode root = true) (hn : Leads s root n) :
    Held (Config.mk (.ret (some root)) ([] : List (Visit Dir Name Real Symbol Expr)) s) n := by
  induction hn with
  | refl => exact Held.result rfl hvalid
  | tail _ hchild ih => exact Held.child ih hchild

theorem callCovered_of_satisfied {c : Call Dir Name Real} (hn : Leads s root n)
    (hc : Satisfied w (Config.mk (.ret (some root)) [] s) n c) : CallCovered w s root c := by
  rcases hc with rfl | ⟨m, hm, hanswers⟩
  · intro found hfound
    cases hfound
  have hm : Leads s root m := Relation.ReflTransGen.tail hn hm
  cases c with
  | next fp file_dir =>
    intro found hfound
    rcases NextAnswers.children hanswers found hfound with ⟨f, hf, _⟩ | ⟨k, hk, hpair⟩
    · cases hf
    · exact ⟨k, Relation.ReflTransGen.tail hm hk, hpair found rfl⟩
  | quote fp file_dir => exact fun found hfound => ⟨m, hm, hanswers found hfound⟩
  | angle fp file_dir => exact fun found hfound => ⟨m, hm, hanswers found hfound⟩
  | resolved fp => exact fun found hfound => ⟨m, hm, hanswers found hfound⟩

theorem Sound.complete (h : Sound w real_path start ⟨.ret (some root), [], s⟩)
    (hvalid : s.validNode root = true) : Complete w s root := by
  refine ⟨?_, ?_, h.parsed⟩
  · intro n found hn hfile
    obtain ⟨hcached | hparse | ⟨r, hparse⟩, _⟩ := (h.held n (held_of_leads hvalid hn)).2.2 found hfile
    · exact hcached
    · cases hparse
    · cases hparse
  · intro n found hn hfile item hitem c hc
    obtain ⟨_, hitems⟩ := (h.held n (held_of_leads hvalid hn)).2.2 found hfile
    rcases hitems item hitem with ⟨f, hf, _⟩ | hcalls
    · cases hf
    rcases hcalls c hc with ⟨f, hf, _⟩ | hsatisfied
    · cases hf
    · exact callCovered_of_satisfied hn hsatisfied

theorem mem_items {found : Includes Name Expr} {item : Item Name Expr} (h : item ∈ items found) :
    match item with
    | .quote fp => fp ∈ found.quote_includes
    | .angle fp => fp ∈ found.angle_includes
    | .expr e => e ∈ found.expr_includes
    | .next fp => fp ∈ found.next_includes := by
  unfold items at h
  cases item <;> simpa using h

/-- The includes of a covered file stand for covered files, under fewer definitions. -/
theorem Complete.callsFor (hdefs : Definitions w)
    (h : Complete w s root) (hle : s'.symbol_table ≤ s.symbol_table)
    {found : (Dir × Name) × Real} (hfound : Covered w s root (realPair w found))
    (hsame : IncludesAlike w s found)
    {item : Item Name Expr} (hitem : item ∈ items (w.parse found.2)) :
    ∀ c ∈ (callsFor w (w.dirname found.1).1 s' item).1, CallCovered w s root c := by
  obtain ⟨n, hn, hpair⟩ := hfound
  obtain ⟨file, hfile, hpair⟩ := Option.map_eq_some_iff.mp hpair
  have halike := hsame n file hfile hpair
  rw [← (Prod.mk.inj hpair).1] at hitem
  have hcalls := h.calls n file hn hfile item hitem
  have hmem := mem_items hitem
  intro c hc
  cases item with
  | quote fp =>
    obtain rfl := List.mem_singleton.mp hc
    have hcovered := hcalls _ mem_cons_self
    have hname := halike fp (Or.inl hmem)
    have hresolve := Resolve_searchdir_alike hname w.quote_dirs hname.fallback
    intro found' hfound'
    have hfound' : Resolve w fp (some (w.dirname found.1).1) w.quote_dirs (w.dirname found.1).1 =
      some found' := hfound'
    rw [hfound'] at hresolve
    obtain ⟨file', hfile', hpair'⟩ := Option.map_eq_some_iff.mp hresolve
    rw [← hpair']
    exact hcovered file' hfile'
  | angle fp =>
    obtain rfl := List.mem_singleton.mp hc
    have hcovered := hcalls _ mem_cons_self
    intro found' hfound'
    apply hcovered found'
    have hname := halike fp (Or.inr (Or.inl hmem))
    exact (Resolve_includer_alike hname none w.angle_dirs).trans hfound'
  | next fp =>
    obtain rfl := List.mem_singleton.mp hc
    have hcovered := hcalls _ mem_cons_self
    intro found' hfound'
    apply hcovered found'
    have hname := halike fp (Or.inr (Or.inr (Or.inl hmem)))
    have hnext : nextCalls w fp (w.dirname file.1).1 = nextCalls w fp (w.dirname found.1).1 := by
      apply filterMap_congr
      intro d _
      rw [Resolve_includer_alike hname none [d]]
    rw [hnext]
    exact hfound'
  | expr e =>
    obtain ⟨result, hresult, rfl⟩ := List.mem_map.mp hc
    obtain ⟨v, hv, hresolve⟩ := List.mem_filterMap.mp hresult
    have hv' : v ∈ w.evaluate e s.symbol_table := hdefs.evaluate e _ _ hle hv
    -- the value is resolved for the node's file as well
    have hvalue : ∀ result', resolveValue w (w.dirname file.1).1 v = some result' →
        CallCovered w s root (.resolved result') := by
      intro result' hresult'
      apply hcalls
      exact List.mem_map.mpr ⟨result', List.mem_filterMap.mpr ⟨v, hv', hresult'⟩, rfl⟩
    intro found' hfound'
    have hfound' : result = some found' := hfound'
    rw [hfound'] at hresolve
    cases v with
    | quote fp =>
      have hname := halike fp (Or.inr (Or.inr (Or.inr ⟨e, hmem, hv'⟩)))
      have hboth := Resolve_searchdir_alike hname w.quote_dirs
        (Eq.refl (w.framework_fallback fp w.currdir))
      have hresolve : Resolve w fp (some (w.dirname found.1).1) w.quote_dirs w.currdir =
        some found' := Option.some.inj hresolve
      rw [hresolve] at hboth
      obtain ⟨file', hfile', hpair'⟩ := Option.map_eq_some_iff.mp hboth
      rw [← hpair']
      exact hvalue (some file') (congrArg some hfile') file' rfl
    | angle fp => exact hvalue (some found') hresolve found' rfl
    | other symbols => cases hresolve

end Complete

section Run
variable [Preorder Table] {s : Caches Dir Name Real Symbol Table} {root : Nat}
  {cfg cfg' : Config Dir Name Real Symbol Table Expr}

/-- A visit has only covered files before it. -/
structure VisitCovered (w : World Dir Name Real Symbol Table Expr)
    (s : Caches Dir Name Real Symbol Table) (root : Nat) (f : Visit Dir Name Real Symbol Expr) :
    Prop where
  calls : ∀ c ∈ f.calls, CallCovered w s root c
  left : ∀ item ∈ f.left, ∃ found, Covered w s root (realPair w found) ∧ IncludesAlike w s found ∧
    f.fp_dirname = (w.dirname found.1).1 ∧ item ∈ items (w.parse found.2)

def ControlCovered (w : World Dir Name Real Symbol Table Expr)
    (s : Caches Dir Name Real Symbol Table) (root : Nat) : Control Dir Name Real → Prop
  | .enter c => CallCovered w s root c
  | .revalidate _ fp_real => s.file_cache fp_real = true
  | .parse fp_real => s.file_cache fp_real = true
  | _ => True

structure RunCovered (w : World Dir Name Real Symbol Table Expr)
    (s : Caches Dir Name Real Symbol Table) (root : Nat)
    (cfg : Config Dir Name Real Symbol Table Expr) : Prop where
  table : cfg.caches.symbol_table ≤ s.symbol_table
  files : ∀ n found, cfg.caches.fileOf n = some found → Covered w s root (realPair w found)
  visits : ∀ f ∈ cfg.frames, VisitCovered w s root f
  control : ControlCovered w s root cfg.control

theorem fileOf_congr {s s' : Caches Dir Name Real Symbol Table} (h : s'.made = s.made) (n : Nat) :
    s'.fileOf n = s.fileOf n := by
  unfold Caches.fileOf
  rw [h]

theorem fileOf_addChild {s : Caches Dir Name Real Symbol Table} {node : Nat} {dummy : Bool}
    {child : Option Nat} (n : Nat) : (s.addChild node dummy child).fileOf n = s.fileOf n := by
  unfold Caches.fileOf
  by_cases heq : n = node
  · subst heq
    rw [made_addChild_self]
    cases s.made[n]? with
    | none => rfl
    | some nd => rfl
  · rw [made_addChild_of_ne heq]

theorem fileOf_append {s s' : Caches Dir Name Real Symbol Table} {nd : Node Dir Name Real}
    (h : s'.made = s.made ++ [nd]) {n : Nat} {found : (Dir × Name) × Real}
    (hfound : s'.fileOf n = some found) : s.fileOf n = some found ∨ resolutionOf nd = some found := by
  unfold Caches.fileOf at hfound ⊢
  rw [h] at hfound
  rcases Nat.lt_trichotomy n s.made.length with hlt | rfl | hgt
  · rw [getElem?_append_left hlt] at hfound
    exact Or.inl hfound
  · rw [getElem?_concat_length] at hfound
    exact Or.inr hfound
  · rw [getElem?_eq_none (by rw [length_append, length_singleton]; omega)] at hfound
    cases hfound

theorem fileOf_stepNode {c : Call Dir Name Real} {key : Key Dir Name Real} {support_record : Nat}
    {found : (Dir × Name) × Real} {fs : List (Visit Dir Name Real Symbol Expr)}
    {s : Caches Dir Name Real Symbol Table} :
    (stepNode w c key (some found) support_record fs s).caches.fileOf s.made.length =
      some found := by
  have hmade : (stepNode w c key (some found) support_record fs s).caches.made =
      s.made ++ [nodeFor (some found) support_record] := by
    unfold stepNode
    cases c
    all_goals
      dsimp only [stepFile]
      repeat' split
      all_goals rfl
  unfold Caches.fileOf
  rw [hmade, getElem?_concat_length]
  exact resolutionOf_nodeFor (some found) support_record

theorem nextCalls_covered {fp : Name} {file_dir : Dir}
    (h : CallCovered w s root (.next fp file_dir)) :
    ∀ c ∈ nextCalls w fp file_dir, CallCovered w s root c := by
  intro c hc
  obtain ⟨d, _, hd⟩ := List.mem_filterMap.mp hc
  obtain ⟨found, _, rfl⟩ := Option.map_eq_some_iff.mp hd
  intro found' hfound'
  obtain rfl := Option.some.inj hfound'
  exact h found hc

section Step
variable {s₀ : Caches Dir Name Real Symbol Table} {fs : List (Visit Dir Name Real Symbol Expr)}
  {f : Visit Dir Name Real Symbol Expr} {c : Call Dir Name Real}

theorem RunCovered.file (hcomplete : Complete w s root) {s' : Caches Dir Name Real Symbol Table}
    {control : Control Dir Name Real} {fp : Dir × Name} {fp_real : Real} {node support_record : Nat}
    (h : RunCovered w s root ⟨control, fs, s'⟩)
    (hfile : Covered w s root (realPair w (fp, fp_real)))
    (hsame : IncludesAlike w s (fp, fp_real)) :
    RunCovered w s root ⟨.revalidate support_record fp_real,
      ⟨node, false, (w.dirname fp).1, [], [], items (w.parse fp_real)⟩ :: fs, s'⟩ := by
  refine ⟨h.table, h.files, ?_, ?_⟩
  · intro g hg
    rcases List.mem_cons.mp hg with rfl | hg
    · refine ⟨?_, ?_⟩
      · intro c hc
        cases hc
      · intro item hitem
        exact ⟨(fp, fp_real), hfile, hsame, rfl, hitem⟩
    · exact h.visits g hg
  · obtain ⟨n, hn, hpair⟩ := hfile
    obtain ⟨file, hfile, hpair⟩ := Option.map_eq_some_iff.mp hpair
    have hreal : file.2 = fp_real := (Prod.mk.inj hpair).1
    rw [← hreal]
    exact hcomplete.file_cache n file hn hfile

section
variable {control : Control Dir Name Real} {s' : Caches Dir Name Real Symbol Table}
    (h : RunCovered w s root ⟨control, fs, s'⟩)
include h

theorem RunCovered.setNode (key : Key Dir Name Real) (node : Nat) :
    RunCovered w s root ⟨control, fs, s'.setNode key node⟩ :=
  ⟨h.table, h.files, h.visits, h.control⟩

theorem RunCovered.result (result : Option Nat) : RunCovered w s root ⟨.ret result, fs, s'⟩ :=
  ⟨h.table, h.files, h.visits, trivial⟩

end

theorem RunCovered.node (hcomplete : Complete w s root) {key : Key Dir Name Real}
    {found : Option ((Dir × Name) × Real)} {support_record : Nat}
    (s₁ : Caches Dir Name Real Symbol Table) (h : RunCovered w s root ⟨.enter c, fs, s₀⟩)
    (hmade : s₁.made = s₀.made) (htable : s₁.symbol_table = s₀.symbol_table)
    (hfound : ∀ found', found = some found' → Covered w s root (realPair w found'))
    (halike : NamesAlike w s (stepNode w c key found support_record fs s₁).caches) :
    RunCovered w s root (stepNode w c key found support_record fs s₁) := by
  let s₂ := (s₁.newNode (nodeFor found support_record)).setNode key s₁.made.length
  have hresult : ∀ result, RunCovered w s root (Config.mk (.ret result) fs s₂) := by
    intro result
    refine ⟨?_, ?_, h.visits, trivial⟩
    · show s₁.symbol_table ≤ s.symbol_table
      rw [htable]
      exact h.table
    · intro n found' hfound'
      have hs₂ : s₂.made = s₁.made ++ [nodeFor found support_record] := rfl
      rcases fileOf_append hs₂ hfound' with hold | hnew
      · rw [fileOf_congr hmade] at hold
        exact h.files n found' hold
      · rw [resolutionOf_nodeFor] at hnew
        exact hfound found' hnew
  cases found with
  | none =>
    cases c with
    | next fp file_dir =>
      have hcontrol : CallCovered w s root (.next fp file_dir) := h.control
      refine ⟨(hresult none).table, (hresult none).files, ?_, trivial⟩
      intro g hg
      rcases List.mem_cons.mp hg with rfl | hg
      · refine ⟨nextCalls_covered hcontrol, ?_⟩
        intro item hitem
        cases hitem
      · exact h.visits g hg
    | quote fp file_dir => exact hresult _
    | angle fp file_dir => exact hresult _
    | resolved fp => exact hresult _
  | some found =>
    obtain ⟨fp, fp_real⟩ := found
    have hcovered := hfound _ rfl
    have hsame : IncludesAlike w s (fp, fp_real) :=
      fun n file hfile => halike n file _ _ hfile fileOf_stepNode
    have hunresolved : RunCovered w s root
        (stepFile w key false s₁.made.length support_record fp fp_real fs s₂) := by
      unfold stepFile
      dsimp only
      cases hnode : s₂.nodes (.real fp_real (w.dirname fp).2) with
      | none => exact ((hresult none).file hcomplete hcovered hsame).setNode _ _
      | some node =>
        cases hvalid : s₂.valid support_record with
        | false => exact ((hresult none).file hcomplete hcovered hsame).setNode _ _
        | true => exact (hresult (some node)).setNode _ _
    cases c with
    | resolved found => exact (hresult none).file hcomplete hcovered hsame
    | quote fp' file_dir => exact hunresolved
    | angle fp' file_dir => exact hunresolved
    | next fp' file_dir => exact hunresolved

theorem RunCovered.enter (hcomplete : Complete w s root)
    (h : RunCovered w s root ⟨.enter c, fs, s₀⟩)
    (halike : NamesAlike w s (stepEnter w c fs s₀).caches) :
    RunCovered w s root (stepEnter w c fs s₀) := by
  have hcontrol : CallCovered w s root c := h.control
  unfold stepEnter at halike ⊢
  cases hkey : keyOf c with
  | none => exact h.result _
  | some key =>
    simp only [hkey] at halike ⊢
    cases hkeyed : s₀.nodes key with
    | none =>
      simp only [hkeyed] at halike ⊢
      refine RunCovered.node hcomplete s₀.newRecord h rfl rfl ?_ halike
      intro found' hfound'
      cases c with
      | next fp file_dir => cases hfound'
      | quote fp file_dir => exact hcontrol found' hfound'
      | angle fp file_dir => exact hcontrol found' hfound'
      | resolved fp => exact hcontrol found' hfound'
    | some node =>
      simp only [hkeyed] at halike ⊢
      cases hnode : s₀.made[node]? with
      | none => exact h.result _
      | some nd =>
        simp only [hnode] at halike ⊢
        by_cases hvalid : s₀.valid nd.support_record = true
        · rw [if_pos hvalid]
          exact h.result _
        rw [if_neg hvalid] at halike ⊢
        refine RunCovered.node hcomplete s₀ h rfl rfl ?_ halike
        intro found' hfound'
        apply h.files node found'
        unfold Caches.fileOf
        rw [hnode]
        exact hfound'

theorem RunCovered.step (hdefs : Definitions w) (hcomplete : Complete w s root)
    (h : RunCovered w s root cfg) (hstep : step w cfg = some cfg')
    (halike : NamesAlike w s cfg'.caches) : RunCovered w s root cfg' := by
  obtain ⟨control, frames, s₀⟩ := cfg
  cases control with
  | enter c =>
    obtain rfl := Option.some.inj hstep
    exact h.enter hcomplete halike
  | revalidate support_record fp_real =>
    obtain rfl := Option.some.inj hstep
    exact ⟨h.table, h.files, h.visits, h.control⟩
  | parse fp_real =>
    obtain rfl := Option.some.inj hstep
    have hcached : s.file_cache fp_real = true := h.control
    refine ⟨?_, ?_, h.visits, trivial⟩
    · unfold parseFile
      split
      · exact h.table
      · exact hdefs.insert_le fp_real _ _ s.symbol_table (hcomplete.parsed fp_real hcached) h.table
    · intro n found hfound
      have hfile : (parseFile w fp_real s₀).fileOf n = some found := hfound
      rw [fileOf_congr (parseFile_defined w fp_real s₀).1.made] at hfile
      exact h.files n found hfile
  | items =>
    cases frames with
    | nil => cases hstep
    | cons f fs =>
      obtain rfl := Option.some.inj hstep
      have hf := h.visits f mem_cons_self
      unfold stepItems
      cases hleft : f.left with
      | nil => exact ⟨h.table, h.files, fun g hg => h.visits g (mem_cons_of_mem _ hg), trivial⟩
      | cons item left =>
        refine ⟨h.table, h.files, ?_, trivial⟩
        intro g hg
        rcases List.mem_cons.mp hg with rfl | hg
        · obtain ⟨found, hcovered, hsame, hdir, hitem⟩ := hf.left item (hleft ▸ mem_cons_self)
          refine ⟨?_, fun item' hitem' => hf.left item' (hleft ▸ mem_cons_of_mem _ hitem')⟩
          rw [hdir]
          exact hcomplete.callsFor hdefs h.table hcovered hsame hitem
        · exact h.visits g (mem_cons_of_mem _ hg)
  | calls =>
    cases frames with
    | nil => cases hstep
    | cons f fs =>
      obtain rfl := Option.some.inj hstep
      have hf := h.visits f mem_cons_self
      unfold stepCalls
      cases hcalls : f.calls with
      | nil =>
        dsimp only
        split
        · exact ⟨h.table, h.files, fun g hg => h.visits g (mem_cons_of_mem _ hg), trivial⟩
        · exact ⟨h.table, h.files, h.visits, trivial⟩
      | cons c calls =>
        exact ⟨h.table, h.files, h.visits, hf.calls c (hcalls ▸ mem_cons_self)⟩
  | ret result =>
    cases frames with
    | nil => cases hstep
    | cons f fs =>
      obtain rfl := Option.some.inj hstep
      have hf := h.visits f mem_cons_self
      obtain ⟨_, _, _, _, htable⟩ := addChild_rest (s := s₀) f.node f.dummy result
      refine ⟨?_, ?_, ?_, trivial⟩
      · show (s₀.addChild f.node f.dummy result).symbol_table ≤ s.symbol_table
        rw [htable]
        exact h.table
      · intro n found hfound
        have hfile : (s₀.addChild f.node f.dummy result).fileOf n = some found := hfound
        rw [fileOf_addChild] at hfile
        exact h.files n found hfile
      · intro g hg
        rcases List.mem_cons.mp hg with rfl | hg
        · exact ⟨fun c hc => hf.calls c (mem_of_mem_tail hc), hf.left⟩
        · exact h.visits g (mem_cons_of_mem _ hg)

theorem RunCovered.steps (hdefs : Definitions w) (hcomplete : Complete w s root)
    (h : RunCovered w s root cfg)
    (halike : ∀ cfg', Steps w cfg cfg' → NamesAlike w s cfg'.caches) (hsteps : Steps w cfg cfg') :
    RunCovered w s root cfg' := by
  induction hsteps with
  | refl => exact h
  | tail hsteps hstep ih =>
    exact ih.step hdefs hcomplete hstep (halike _ (hsteps.tail hstep))

end Step

end Run

end Toolwhip.Distcc
