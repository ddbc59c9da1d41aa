import Toolwhip.Distcc.IncludeSound

/-! # Every step keeps the node cache sound -/

namespace Toolwhip.Distcc
open List
set_option autoImplicit false
set_option linter.unusedSectionVars false

variable {Dir Name Real Symbol Table Expr : Type} [DecidableEq Dir] [DecidableEq Name]
  [DecidableEq Real] [DecidableEq Symbol] [Preorder Table]
  {w : World Dir Name Real Symbol Table Expr} {real_path : Dir × Name → Real}
  {start : Call Dir Name Real} {s s' : Caches Dir Name Real Symbol Table}
  {f : Visit Dir Name Real Symbol Expr} {fs : List (Visit Dir Name Real Symbol Expr)}
variable {control control' : Control Dir Name Real} {fp_real : Real}

theorem not_aboutToParse {control : Control Dir Name Real} (hparse : ∀ r, control ≠ .parse r)
    (hrevalidate : ∀ r fp_real, control ≠ .revalidate r fp_real) (fp_real : Real) :
    ¬ AboutToParse (Config.mk control fs s) fp_real := by
  rintro (h | ⟨r, h⟩)
  · exact hparse fp_real h
  · exact hrevalidate r fp_real h

section Same
variable {control control' : Control Dir Name Real}

theorem Extends.ofControl : Extends w ⟨control, fs, s⟩ ⟨control', fs, s⟩ := by
  refine ⟨Grows.of_eq rfl, ?_⟩
  intro n found h
  exact Or.inl h

theorem Sound.same (h : Sound w real_path start ⟨control, fs, s⟩) (hsame : Same s s')
    (hparse : ∀ fp_real, ¬ AboutToParse (Config.mk control fs s) fp_real)
    (hcontrol : ControlOk w start ⟨control', fs, s'⟩)
    (hresult : ∀ n, control' = .ret (some n) → s.validNode n = true →
      Held (Config.mk control fs s) n) : Sound w real_path start ⟨control', fs, s'⟩ := by
  have hext : Extends w ⟨control, fs, s⟩ ⟨control', fs, s'⟩ := by
    refine ⟨Grows.of_eq hsame.made, ?_⟩
    intro n found h
    exact Or.inl h
  have hheld : ∀ n, Held (Config.mk control' fs s') n → Held (Config.mk control fs s) n := by
    intro n hn
    induction hn with
    | key h hvalid => exact Held.key (hsame.nodes ▸ h) (hsame.validNode _ ▸ hvalid)
    | visit h hvalid => exact Held.visit h (hsame.validNode _ ▸ hvalid)
    | result h hvalid => exact hresult _ h (hsame.validNode _ ▸ hvalid)
    | child _ hchild ih => exact Held.child ih (hsame.childrenOf _ ▸ hchild)
  apply h.carry hext ⟨hsame.nodes, congrArg List.length hsame.made, hsame.length⟩
    (fun g hg => Or.inl hg) (h.chain.extends hext) hcontrol
  · intro n hn
    obtain ⟨hlt, hvalid, hitems⟩ := h.held n (hheld n hn)
    refine ⟨hlt, (hsame.validNode n).trans hvalid, ?_⟩
    apply hitems.carry hext hlt hparse hsame.file_cache hsame.symbol_table
    · intro found item _ hleft
      exact Or.inl hleft
    · intro c hc
      exact Or.inl hc
  · intro fp_real hparsed
    rw [hsame.symbol_table]
    exact h.parsed fp_real (hsame.file_cache ▸ hparsed)

end Same

theorem Sound.pop {control : Control Dir Name Real}
    (h : Sound w real_path start ⟨control, f :: fs, s⟩)
    (hparse : ∀ fp_real, ¬ AboutToParse (Config.mk control (f :: fs) s) fp_real)
    (hcalls : f.calls = []) (hleft : f.left = []) :
    Sound w real_path start ⟨.ret (some f.node), fs, s⟩ := by
  have hpending : ∀ n c, Pending (Config.mk control (f :: fs) s) n c →
      Pending (Config.mk (.ret (some f.node)) fs s) n c := by
    rintro n c ⟨g, hg, hnode, hc⟩
    rcases List.mem_cons.mp hg with rfl | hg
    · rw [hcalls] at hc
      cases hc
    · exact ⟨g, hg, hnode, hc⟩
  have hext : Extends w ⟨control, f :: fs, s⟩ ⟨.ret (some f.node), fs, s⟩ := by
    refine ⟨Grows.of_eq rfl, ?_⟩
    intro n found hn
    exact Or.inl (hpending n _ hn)
  have hheld : ∀ n, Held (Config.mk (.ret (some f.node)) fs s) n →
      Held (Config.mk control (f :: fs) s) n := by
    intro n hn
    induction hn with
    | key h hvalid => exact Held.key h hvalid
    | visit h hvalid => exact Held.visit (mem_cons_of_mem _ h) hvalid
    | result h hvalid =>
      obtain rfl := Option.some.inj (Control.ret.inj h)
      exact Held.visit mem_cons_self hvalid
    | child _ hchild ih => exact Held.child ih hchild
  obtain ⟨⟨c, hc, hanswers⟩, hchain⟩ := h.chain
  apply h.carry hext ⟨rfl, rfl, rfl⟩ (fun g hg => Or.inl (mem_cons_of_mem _ hg))
    (hchain.extends hext) ⟨c, hc, (h.visits f mem_cons_self).lt, hanswers.extends hext⟩ ?_
    h.parsed
  intro n hn
  obtain ⟨hlt, hvalid, hitems⟩ := h.held n (hheld n hn)
  refine ⟨hlt, hvalid, ?_⟩
  apply hitems.carry hext hlt hparse rfl rfl
  · rintro found item _ ⟨g, hg, hnode, hmem⟩
    rcases List.mem_cons.mp hg with rfl | hg
    · rw [hleft] at hmem
      cases hmem
    · exact Or.inl ⟨g, hg, hnode, hmem⟩
  · intro c hc
    exact Or.inl (hpending n c hc)

theorem Sound.ofItems (hfs : FileSystem w real_path)
    (h : Sound w real_path start ⟨.items, f :: fs, s⟩) :
    Sound w real_path start (stepItems w f fs s) := by
  obtain ⟨hdummy, hcalls⟩ := h.control
  have hparse : ∀ fp_real, ¬ AboutToParse (Config.mk .items (f :: fs) s) fp_real :=
    not_aboutToParse nofun nofun
  unfold stepItems
  cases hleft : f.left with
  | nil => exact h.pop hparse hcalls hleft
  | cons item left =>
    have hf := h.visits f mem_cons_self
    obtain ⟨found, hfile, hdir⟩ := hf.file hdummy
    let f' : Visit Dir Name Real Symbol Expr :=
      { f with
        calls := (callsFor w f.fp_dirname s item).1
        symbols := (callsFor w f.fp_dirname s item).2
        left := left }
    have hpending : ∀ n c, Pending (Config.mk .items (f :: fs) s) n c →
        Pending (Config.mk .calls (f' :: fs) s) n c := by
      rintro n c ⟨g, hg, hnode, hc⟩
      rcases List.mem_cons.mp hg with rfl | hg
      · rw [hcalls] at hc
        cases hc
      · exact ⟨g, mem_cons_of_mem _ hg, hnode, hc⟩
    have hext : Extends w ⟨.items, f :: fs, s⟩ ⟨.calls, f' :: fs, s⟩ := by
      refine ⟨Grows.of_eq rfl, ?_⟩
      intro n found hn
      exact Or.inl (hpending n _ hn)
    have hheld : ∀ n, Held (Config.mk .calls (f' :: fs) s) n →
        Held (Config.mk .items (f :: fs) s) n := by
      intro n hn
      induction hn with
      | key h hvalid => exact Held.key h hvalid
      | visit h hvalid =>
        rcases List.mem_cons.mp h with rfl | h
        · exact Held.visit (f := f) mem_cons_self hvalid
        · exact Held.visit (mem_cons_of_mem _ h) hvalid
      | result h hvalid => cases h
      | child _ hchild ih => exact Held.child ih hchild
    obtain ⟨⟨c, hc, hanswers⟩, hchain⟩ := h.chain
    apply h.carry hext ⟨rfl, rfl, rfl⟩ ?_ ⟨⟨c, hc, hanswers.extends hext⟩, hchain.extends hext⟩ trivial
      ?_ h.parsed
    · intro g hg
      rcases List.mem_cons.mp hg with rfl | hg
      · right
        refine ⟨hf.lt, callsFor_genuine hfs _ _, fun _ => ⟨found, hfile, hdir⟩, ?_⟩
        intro hdummy'
        rw [hdummy] at hdummy'
        cases hdummy'
      · exact Or.inl (mem_cons_of_mem _ hg)
    · intro n hn
      obtain ⟨hlt, hvalid, hitems⟩ := h.held n (hheld n hn)
      refine ⟨hlt, hvalid, ?_⟩
      apply hitems.carry hext hlt hparse rfl rfl
      · rintro found' item' hfound' ⟨g, hg, hnode, hmem⟩
        rcases List.mem_cons.mp hg with rfl | hg
        · rw [hleft] at hmem
          rcases List.mem_cons.mp hmem with rfl | hmem
          · right
            intro c hc
            refine ⟨f', mem_cons_self, hnode, ?_⟩
            have hsame : found' = found := by
              rw [← hnode] at hfound'
              exact Option.some.inj (hfound'.symm.trans hfile)
            rw [hsame, ← hdir] at hc
            exact hc
          · exact Or.inl ⟨f', mem_cons_self, hnode, hmem⟩
        · exact Or.inl ⟨g, mem_cons_of_mem _ hg, hnode, hmem⟩
      · intro c hc
        exact Or.inl (hpending n c hc)

theorem Sound.ofCalls (h : Sound w real_path start ⟨.calls, f :: fs, s⟩) :
    Sound w real_path start (stepCalls f fs s) := by
  have hparse : ∀ fp_real, ¬ AboutToParse (Config.mk .calls (f :: fs) s) fp_real :=
    not_aboutToParse nofun nofun
  have hf := h.visits f mem_cons_self
  unfold stepCalls
  cases hcalls : f.calls with
  | nil =>
    cases hdummy : f.dummy with
    | true => exact h.pop hparse hcalls (hf.dummy hdummy).1
    | false =>
      apply h.same (Same.update _ _) hparse
      · exact ⟨hdummy, hcalls⟩
      · intro n hn
        cases hn
  | cons c calls =>
    apply h.same Same.rfl hparse
    · show f.calls.head? = some c
      rw [hcalls]
      rfl
    · intro n hn
      cases hn

section Ret
variable {result : Option Nat}

theorem Sound.ofRet (h : Sound w real_path start ⟨.ret result, f :: fs, s⟩)
    (hmeets : StepMeets w (Config.mk (.ret result) (f :: fs) s)) :
    Sound w real_path start (stepRet result f fs s) := by
  obtain ⟨c, hc, hreturned⟩ := h.control
  obtain ⟨calls, hcalls⟩ : ∃ calls, f.calls = c :: calls := by
    have hc : f.calls.head? = some c := hc
    cases hcalls : f.calls with
    | nil =>
      rw [hcalls] at hc
      cases hc
    | cons c' calls =>
      rw [hcalls] at hc
      exact ⟨calls, congrArg (· :: calls) (Option.some.inj hc)⟩
  have hf := h.visits f mem_cons_self
  let f' : Visit Dir Name Real Symbol Expr := { f with calls := f.calls.tail }
  let s' := s.addChild f.node f.dummy result
  obtain ⟨hnodes, hlength, hrecords, hcache, htable⟩ : s'.nodes = s.nodes ∧
      s'.made.length = s.made.length ∧ s'.records.length = s.records.length ∧
      s'.file_cache = s.file_cache ∧ s'.symbol_table = s.symbol_table :=
    addChild_rest f.node f.dummy result
  have hgrows : Grows s s' := Grows.addChild
  -- the call that is done, if it was waited for
  have hdone : ∀ n c', Pending (Config.mk (.ret result) (f :: fs) s) n c' →
      Pending (Config.mk .calls (f' :: fs) s') n c' ∨ n = f.node ∧ c' = c := by
    rintro n c' ⟨g, hg, hnode, hmem⟩
    rcases List.mem_cons.mp hg with rfl | hg
    · rw [hcalls] at hmem
      rcases List.mem_cons.mp hmem with rfl | hmem
      · exact Or.inr ⟨hnode.symm, rfl⟩
      refine Or.inl ⟨f', mem_cons_self, hnode, ?_⟩
      show c' ∈ g.calls.tail
      rw [hcalls]
      exact hmem
    · exact Or.inl ⟨g, mem_cons_of_mem _ hg, hnode, hmem⟩
  have hext : Extends w ⟨.ret result, f :: fs, s⟩ ⟨.calls, f' :: fs, s'⟩ := by
    refine ⟨hgrows, ?_⟩
    intro n found hn
    rcases hdone n _ hn with hpending | ⟨rfl, rfl⟩
    · exact Or.inl hpending
    right
    cases result with
    | none => cases hreturned
    | some m =>
      refine ⟨m, childrenOf_addChild_self hf.lt, ?_⟩
      have hanswers : PairAnswers w s (.resolved (some found)) m := hreturned.2
      exact hanswers.grows hgrows
  have hheld : ∀ n, Held (Config.mk .calls (f' :: fs) s') n →
      Held (Config.mk (.ret result) (f :: fs) s) n := by
    intro n hn
    induction hn with
    | @key key n h hvalid =>
      have hvalid : s.validNode n = true := (validNode_addChild _).symm.trans hvalid
      exact Held.key (hnodes ▸ h) hvalid
    | @visit g h hvalid =>
      have hvalid : s.validNode g.node = true := (validNode_addChild _).symm.trans hvalid
      rcases List.mem_cons.mp h with rfl | h
      · exact Held.visit (f := f) mem_cons_self hvalid
      · exact Held.visit (mem_cons_of_mem _ h) hvalid
    | result h hvalid => cases h
    | child _ hchild ih =>
      rcases childrenOf_addChild hchild with hchild | ⟨rfl, rfl⟩
      · exact Held.child ih hchild
      · exact Held.result rfl hmeets
  obtain ⟨⟨c₀, hc₀, hanswers⟩, hchain⟩ := h.chain
  apply h.carry hext ⟨hnodes, hlength, hrecords⟩ ?_
    ⟨⟨c₀, hc₀, hanswers.extends hext⟩, hchain.extends hext⟩ trivial
  · intro n hn
    obtain ⟨hlt, hvalid, hitems⟩ := h.held n (hheld n hn)
    refine ⟨hlt, (validNode_addChild n).trans hvalid, ?_⟩
    apply hitems.carry hext hlt (not_aboutToParse nofun nofun) hcache htable
    · rintro found item _ ⟨g, hg, hnode, hmem⟩
      rcases List.mem_cons.mp hg with rfl | hg
      · exact Or.inl ⟨f', mem_cons_self, hnode, hmem⟩
      · exact Or.inl ⟨g, mem_cons_of_mem _ hg, hnode, hmem⟩
    · intro c' hc'
      rcases hdone n c' hc' with hpending | ⟨rfl, rfl⟩
      · exact Or.inl hpending
      right
      cases result with
      | none => exact Or.inl hreturned
      | some m => exact Or.inr ⟨m, childrenOf_addChild_self hf.lt, hreturned.2.extends hext⟩
  · intro fp_real hparsed
    have hle := h.parsed fp_real (hcache ▸ hparsed)
    rw [htable]
    exact hle
  · intro g hg
    rcases List.mem_cons.mp hg with rfl | hg
    · right
      have hf' := hf.extends hext
      have htail : ∀ {c'}, c' ∈ f.calls.tail → c' ∈ f.calls := fun hmem => mem_of_mem_tail hmem
      refine ⟨hf'.lt, fun c' hc' => hf'.genuine c' (htail hc'), hf'.file, ?_⟩
      intro hdummy
      obtain ⟨hleft, hfile, hresolved⟩ := hf'.dummy hdummy
      exact ⟨hleft, hfile, fun c' hc' => hresolved c' (htail hc')⟩
    · exact Or.inl (mem_cons_of_mem _ hg)

end Ret

section Enter
variable {c : Call Dir Name Real} {nd : Node Dir Name Real} {key : Key Dir Name Real}
variable {cfg : Config Dir Name Real Symbol Table Expr}

/-- A node has been made for the call, and is being made or returned, if it is used. -/
theorem Sound.newNode (used : Prop) {control : Control Dir Name Real}
    (new : List (Visit Dir Name Real Symbol Expr))
    (h : Sound w real_path start ⟨.enter c, fs, s⟩) (hnew : NewNode s s' nd)
    (hkeys : ∀ key m, s'.nodes key = some m → s.nodes key = some m ∨
      m < s'.made.length ∧ KeyAnswers w real_path (Config.mk control (new ++ fs) s') key m ∧
        (m = s.made.length ∧ used ∨ ∃ key', s.nodes key' = some m))
    (hvisits : ∀ g ∈ new, (g.node = s.made.length ∧ used) ∧
      VisitOk w real_path (Config.mk control (new ++ fs) s') g)
    (hchain : Chain w start (Config.mk control (new ++ fs) s') fs →
      Chain w start (Config.mk control (new ++ fs) s') (new ++ fs))
    (hcontrol : ControlOk w start (Config.mk control (new ++ fs) s'))
    (hresult : ∀ n, control = .ret (some n) →
      n = s.made.length ∧ used ∨ ∃ key', s.nodes key' = some n)
    (hitems : used → ItemsOk w (Config.mk control (new ++ fs) s') s.made.length) :
    Sound w real_path start ⟨control, new ++ fs, s'⟩ := by
  have hgrows := hnew.grows
  have hext : Extends w ⟨.enter c, fs, s⟩ ⟨control, new ++ fs, s'⟩ := by
    refine ⟨hgrows, ?_⟩
    rintro n found ⟨g, hg, hnode, hmem⟩
    exact Or.inl ⟨g, mem_append_right _ hg, hnode, hmem⟩
  have hvalid : ∀ n < s.made.length, s'.validNode n = s.validNode n := by
    intro n hn
    unfold Caches.validNode
    rw [hgrows.recordOf hn]
    exact hnew.valid _ (h.records n hn)
  -- what is in use was in use, or is the new node
  have hold : ∀ key m, s.nodes key = some m → s'.validNode m = true →
      Held (Config.mk (.enter c) fs s) m := by
    intro key m hm hvalid'
    rw [hvalid m (h.keys key m hm).1] at hvalid'
    exact Held.key hm hvalid'
  have hheld : ∀ n, Held (Config.mk control (new ++ fs) s') n →
      (Held (Config.mk (.enter c) fs s) n ∨ n = s.made.length ∧ used) ∧ s'.validNode n = true := by
    intro n hn
    induction hn with
    | @key key n hkey hvalid' =>
      refine ⟨?_, hvalid'⟩
      rcases hkeys key n hkey with hkey | ⟨_, _, hused | ⟨key', hkey'⟩⟩
      · exact Or.inl (hold key n hkey hvalid')
      · exact Or.inr hused
      · exact Or.inl (hold key' n hkey' hvalid')
    | @visit g hg hvalid' =>
      refine ⟨?_, hvalid'⟩
      rcases List.mem_append.mp hg with hg | hg
      · exact Or.inr (hvisits g hg).1
      left
      rw [hvalid g.node (h.visits g hg).lt] at hvalid'
      exact Held.visit hg hvalid'
    | @result n hresult' hvalid' =>
      refine ⟨?_, hvalid'⟩
      rcases hresult n hresult' with hused | ⟨key', hkey'⟩
      · exact Or.inr hused
      · exact Or.inl (hold key' n hkey' hvalid')
    | @child n m _ hchild ih =>
      rcases ih with ⟨hn | ⟨rfl, _⟩, _⟩
      · have hne : n ≠ s.made.length := ((h.held n hn).1).ne
        rw [hnew.childrenOf_of_ne hne] at hchild
        have hm := Held.child hn hchild
        obtain ⟨hlt, hvalid', _⟩ := h.held m hm
        exact ⟨Or.inl hm, (hvalid m hlt).trans hvalid'⟩
      · rw [hnew.childrenOf] at hchild
        cases hchild
  refine ⟨?_, ?_, ?_, hchain (h.chain.extends hext), hcontrol, ?_, ?_⟩
  · intro n hn
    rw [hnew.made, length_append, length_singleton] at hn
    rcases Nat.lt_succ_iff_lt_or_eq.mp hn with hn | rfl
    · have hrecord : s.recordOf n < s.records.length := h.records n hn
      rw [hgrows.recordOf hn]
      exact hrecord.trans_le hnew.length
    · rw [hnew.recordOf]
      exact hnew.record
  · intro key m hm
    rcases hkeys key m hm with hm | ⟨hlt, hanswers, _⟩
    · obtain ⟨hlt, hanswers⟩ := h.keys key m hm
      exact ⟨hgrows.lt hlt, hanswers.extends hext⟩
    · exact ⟨hlt, hanswers⟩
  · intro g hg
    rcases List.mem_append.mp hg with hg | hg
    · exact (hvisits g hg).2
    · exact (h.visits g hg).extends hext
  · intro n hn
    obtain ⟨hn | ⟨rfl, hused⟩, hvalid'⟩ := hheld n hn
    · obtain ⟨hlt, _, hitems'⟩ := h.held n hn
      refine ⟨hgrows.lt hlt, hvalid', ?_⟩
      apply hitems'.carry hext hlt (not_aboutToParse nofun nofun) hnew.file_cache hnew.symbol_table
      · rintro found item _ ⟨g, hg, hnode, hmem⟩
        exact Or.inl ⟨g, mem_append_right _ hg, hnode, hmem⟩
      · rintro c' ⟨g, hg, hnode, hmem⟩
        exact Or.inl ⟨g, mem_append_right _ hg, hnode, hmem⟩
    · exact ⟨hnew.lt, hvalid', hitems hused⟩
  · intro fp_real hparsed
    have hle := h.parsed fp_real (hnew.file_cache ▸ hparsed)
    rw [hnew.symbol_table]
    exact hle

theorem keyAnswers_iff {m : Nat} (hkey : keyOf c = some key) (hgenuine : Genuine real_path c) :
    KeyAnswers w real_path cfg key m ↔ Answers w cfg c m := by
  cases c with
  | quote fp file_dir =>
    obtain rfl := Option.some.inj hkey
    exact Iff.rfl
  | angle fp file_dir =>
    obtain rfl := Option.some.inj hkey
    exact Iff.rfl
  | next fp file_dir =>
    obtain rfl := Option.some.inj hkey
    exact Iff.rfl
  | resolved found =>
    cases found with
    | none => cases hkey
    | some found =>
      obtain rfl := Option.some.inj hkey
      have hreal : real_path found.1 = found.2 := hgenuine
      show Answers w cfg (.resolved (some (found.1, real_path found.1))) m ↔ _
      rw [hreal]

theorem awaited_genuine (h : Sound w real_path start cfg) (hstart : Genuine real_path start)
    (hc : awaited start cfg.frames = some c) : Genuine real_path c := by
  cases hfs : cfg.frames with
  | nil =>
    rw [hfs] at hc
    obtain rfl := Option.some.inj hc
    exact hstart
  | cons f fs =>
    rw [hfs] at hc
    have hf : f ∈ cfg.frames := hfs ▸ mem_cons_self
    exact (h.visits f hf).genuine c (mem_of_mem_head? hc)

def FoundOk (w : World Dir Name Real Symbol Table Expr) (c : Call Dir Name Real)
    (found : Option ((Dir × Name) × Real)) : Prop :=
  match c with
  | .next _ _ => found = none
  | c => ∀ found', resolveCall w c = some found' →
    found.map (realPair w) = some (realPair w found')

def nodeFor (found : Option ((Dir × Name) × Real)) (support_record : Nat) : Node Dir Name Real :=
  ⟨found.map Prod.snd, found.map Prod.fst, [], support_record⟩

theorem resolutionOf_nodeFor (found : Option ((Dir × Name) × Real)) (support_record : Nat) :
    resolutionOf (nodeFor found support_record) = found := by
  cases found with
  | none => rfl
  | some found => rfl

section Node
variable {found : Option ((Dir × Name) × Real)} {support_record : Nat}
variable {fp : Dir × Name} {file_dir : Dir} {fp_real : Real}

theorem pairAnswers_new (hnew : NewNode s s' (nodeFor found support_record))
    (hfound : FoundOk w c found) (hnext : ∀ fp file_dir, c ≠ .next fp file_dir) :
    PairAnswers w s' c s.made.length := by
  intro found' hfound'
  rw [hnew.fileOf, resolutionOf_nodeFor]
  cases c with
  | next fp file_dir => exact absurd rfl (hnext fp file_dir)
  | quote fp file_dir => exact hfound found' hfound'
  | angle fp file_dir => exact hfound found' hfound'
  | resolved fp => exact hfound found' hfound'

theorem answers_of_pair {cfg : Config Dir Name Real Symbol Table Expr} {m : Nat}
    (hnext : ∀ fp file_dir, c ≠ .next fp file_dir) (h : PairAnswers w cfg.caches c m) :
    Answers w cfg c m := by
  cases c with
  | next fp file_dir => exact absurd rfl (hnext fp file_dir)
  | quote fp file_dir => exact h
  | angle fp file_dir => exact h
  | resolved fp => exact h

theorem setNode_some {s : Caches Dir Name Real Symbol Table} {key' : Key Dir Name Real} {node m : Nat}
    (h : (s.setNode key node).nodes key' = some m) :
    key' = key ∧ m = node ∨ key' ≠ key ∧ s.nodes key' = some m := by
  have h : Function.update s.nodes key (some node) key' = some m := h
  by_cases heq : key' = key
  · subst heq
    rw [Function.update_self] at h
    exact Or.inl ⟨rfl, (Option.some.inj h).symm⟩
  · rw [Function.update_of_ne heq] at h
    exact Or.inr ⟨heq, h⟩

theorem nextAnswers_new {fp : Name} (hnew : NewNode s s' (nodeFor none support_record)) :
    NextAnswers w (Config.mk .calls
        ((⟨s.made.length, true, file_dir, nextCalls w fp file_dir, [], []⟩ :
          Visit Dir Name Real Symbol Expr) :: fs) s') fp file_dir s.made.length := by
  refine ⟨hnew.lt, ?_, ?_⟩
  · rw [hnew.fileOf]
    rfl
  · intro found hfound
    exact Or.inl ⟨_, mem_cons_self, rfl, hfound⟩

theorem key_not_real (hkey : keyOf c = some key) (file dir : Real) : key ≠ .real file dir := by
  rintro rfl
  cases c with
  | resolved found =>
    cases found with
    | none => cases hkey
    | some found => cases hkey
  | quote fp file_dir => cases hkey
  | angle fp file_dir => cases hkey
  | next fp file_dir => cases hkey

theorem Sound.newResult (h : Sound w real_path start ⟨.enter c, fs, s⟩)
    (hstart : Genuine real_path start) (hkey : keyOf c = some key)
    (hnew : NewNode s s' (nodeFor none support_record)) (hfound : FoundOk w c none)
    (hnext : ∀ fp file_dir, c ≠ .next fp file_dir) (hkeys : ∀ key' m, s'.nodes key' = some m →
      key' = key ∧ m = s.made.length ∨ s.nodes key' = some m) :
    Sound w real_path start ⟨.ret (some s.made.length), fs, s'⟩ := by
  have hc : awaited start fs = some c := h.control
  have hgenuine := awaited_genuine h hstart hc
  have hanswers : Answers w (Config.mk (.ret (some s.made.length)) ([] ++ fs) s') c s.made.length :=
    answers_of_pair hnext (pairAnswers_new hnew hfound hnext)
  refine h.newNode True [] hnew ?_ ?_ id ⟨c, hc, hnew.lt, hanswers⟩ ?_ ?_
  · intro key' m hm
    rcases hkeys key' m hm with ⟨rfl, rfl⟩ | hm
    · exact Or.inr ⟨hnew.lt, (keyAnswers_iff hkey hgenuine).mpr hanswers, Or.inl ⟨rfl, trivial⟩⟩
    · exact Or.inl hm
  · intro g hg
    cases hg
  · intro n hn
    exact Or.inl ⟨(Option.some.inj (Control.ret.inj hn)).symm, trivial⟩
  · intro _ found hfile
    rw [hnew.fileOf] at hfile
    cases hfile

theorem Sound.newDummy {fp : Name} (hfs : FileSystem w real_path)
    (h : Sound w real_path start ⟨.enter (.next fp file_dir), fs, s⟩)
    (hnew : NewNode s s' (nodeFor none support_record)) (hkeys : ∀ key' m, s'.nodes key' = some m →
      key' = .next fp file_dir ∧ m = s.made.length ∨ s.nodes key' = some m) :
    Sound w real_path start
      ⟨.calls, ⟨s.made.length, true, file_dir, nextCalls w fp file_dir, [], []⟩ :: fs, s'⟩ := by
  have hc : awaited start fs = some (.next fp file_dir) := h.control
  let f : Visit Dir Name Real Symbol Expr :=
    ⟨s.made.length, true, file_dir, nextCalls w fp file_dir, [], []⟩
  have hanswers : NextAnswers w (Config.mk .calls ([f] ++ fs) s') fp file_dir s.made.length :=
    nextAnswers_new hnew
  refine h.newNode True [f] hnew ?_ ?_ ?_ trivial ?_ ?_
  · intro key' m hm
    rcases hkeys key' m hm with ⟨rfl, rfl⟩ | hm
    · exact Or.inr ⟨hnew.lt, hanswers, Or.inl ⟨rfl, trivial⟩⟩
    · exact Or.inl hm
  · intro g hg
    obtain rfl := List.mem_singleton.mp hg
    refine ⟨⟨rfl, trivial⟩, hnew.lt, nextCalls_genuine hfs, ?_, ?_⟩
    · intro hdummy
      cases hdummy
    · intro _
      refine ⟨rfl, hanswers.file, ?_⟩
      intro c hc
      obtain ⟨d, _, hd⟩ := List.mem_filterMap.mp hc
      obtain ⟨found, _, rfl⟩ := Option.map_eq_some_iff.mp hd
      exact ⟨found, rfl⟩
  · intro hchain
    exact ⟨⟨_, hc, hanswers⟩, hchain⟩
  · intro n hn
    cases hn
  · intro _ found hfile
    rw [hnew.fileOf] at hfile
    cases hfile

theorem Sound.newFile (h : Sound w real_path start ⟨.enter c, fs, s⟩)
    (hstart : Genuine real_path start) (hkey : keyOf c = some key)
    (hnew : NewNode s s' (nodeFor (some (fp, fp_real)) support_record))
    (hfound : FoundOk w c (some (fp, fp_real))) (hkeys : ∀ key' m, s'.nodes key' = some m →
      (key' = key ∨ key' = .real fp_real (w.dirname fp).2) ∧ m = s.made.length ∨
        s.nodes key' = some m) : Sound w real_path start ⟨.revalidate support_record fp_real,
      ⟨s.made.length, false, (w.dirname fp).1, [], [], items (w.parse fp_real)⟩ :: fs, s'⟩ := by
  have hc : awaited start fs = some c := h.control
  have hgenuine := awaited_genuine h hstart hc
  have hnext : ∀ fp' file_dir, c ≠ .next fp' file_dir := by
    rintro fp' file_dir rfl
    cases hfound
  let f : Visit Dir Name Real Symbol Expr :=
    ⟨s.made.length, false, (w.dirname fp).1, [], [], items (w.parse fp_real)⟩
  have hfile : s'.fileOf s.made.length = some (fp, fp_real) := by
    rw [hnew.fileOf]
    rfl
  have hanswers : Answers w (Config.mk (.revalidate support_record fp_real) ([f] ++ fs) s') c
      s.made.length := answers_of_pair hnext (pairAnswers_new hnew hfound hnext)
  refine h.newNode True [f] hnew ?_ ?_ ?_ ?_ ?_ ?_
  · intro key' m hm
    rcases hkeys key' m hm with ⟨rfl | rfl, rfl⟩ | hm
    · exact Or.inr ⟨hnew.lt, (keyAnswers_iff hkey hgenuine).mpr hanswers, Or.inl ⟨rfl, trivial⟩⟩
    · refine Or.inr ⟨hnew.lt, ?_, Or.inl ⟨rfl, trivial⟩⟩
      show (s'.fileOf s.made.length).map (realPair w) = some (fp_real, (w.dirname fp).2)
      rw [hfile]
      rfl
    · exact Or.inl hm
  · intro g hg
    obtain rfl := List.mem_singleton.mp hg
    refine ⟨⟨rfl, trivial⟩, hnew.lt, ?_, fun _ => ⟨(fp, fp_real), hfile, rfl⟩, ?_⟩
    · intro c' hc'
      cases hc'
    · intro hdummy
      cases hdummy
  · intro hchain
    exact ⟨⟨c, hc, hanswers⟩, hchain⟩
  · exact ⟨⟨rfl, rfl, rfl, fp, hfile⟩, hnew.recordOf, hnew.childrenOf⟩
  · intro n hn
    cases hn
  · intro _ found hfound'
    rw [hfile] at hfound'
    obtain rfl := Option.some.inj hfound'
    refine ⟨Or.inr (Or.inr ⟨support_record, rfl⟩), ?_⟩
    intro item hitem
    exact Or.inl ⟨f, mem_cons_self, rfl, hitem⟩

theorem Sound.realHit {node : Nat} (h : Sound w real_path start ⟨.enter c, fs, s⟩)
    (hstart : Genuine real_path start) (hkey : keyOf c = some key)
    (hnew : NewNode s s' (nodeFor (some (fp, fp_real)) support_record))
    (hfound : FoundOk w c (some (fp, fp_real)))
    (hnode : s.nodes (.real fp_real (w.dirname fp).2) = some node)
    (hkeys : ∀ key' m, s'.nodes key' = some m → key' = key ∧ m = node ∨ s.nodes key' = some m) :
    Sound w real_path start ⟨.ret (some node), fs, s'⟩ := by
  have hc : awaited start fs = some c := h.control
  have hgenuine := awaited_genuine h hstart hc
  have hnext : ∀ fp' file_dir, c ≠ .next fp' file_dir := by
    rintro fp' file_dir rfl
    cases hfound
  obtain ⟨hlt, hpair⟩ := h.keys _ node hnode
  have hanswers : Answers w (Config.mk (.ret (some node)) ([] ++ fs) s') c node := by
    apply answers_of_pair hnext
    intro found' hfound'
    rw [hnew.grows.fileOf hlt, hpair]
    cases c with
    | next fp' file_dir => exact absurd rfl (hnext fp' file_dir)
    | quote fp' file_dir => exact hfound found' hfound'
    | angle fp' file_dir => exact hfound found' hfound'
    | resolved fp' => exact hfound found' hfound'
  have hlt' : node < s'.made.length := hnew.grows.lt hlt
  refine h.newNode False [] hnew ?_ ?_ id ⟨c, hc, hlt', hanswers⟩ ?_ ?_
  · intro key' m hm
    rcases hkeys key' m hm with ⟨rfl, rfl⟩ | hm
    · exact Or.inr ⟨hlt', (keyAnswers_iff hkey hgenuine).mpr hanswers, Or.inr ⟨_, hnode⟩⟩
    · exact Or.inl hm
  · intro g hg
    cases hg
  · intro n hn
    obtain rfl := Option.some.inj (Control.ret.inj hn)
    exact Or.inr ⟨_, hnode⟩
  · intro hused
    exact hused.elim

theorem Sound.ofNode (s₁ : Caches Dir Name Real Symbol Table) (hfs : FileSystem w real_path)
    (h : Sound w real_path start ⟨.enter c, fs, s⟩) (hstart : Genuine real_path start)
    (hkey : keyOf c = some key) (hmade : s₁.made = s.made) (hnodes : s₁.nodes = s.nodes)
    (hnew : NewNode s (s₁.newNode (nodeFor found support_record)) (nodeFor found support_record))
    (hfound : FoundOk w c found) :
    Sound w real_path start (stepNode w c key found support_record fs s₁) := by
  let s₂ := (s₁.newNode (nodeFor found support_record)).setNode key s₁.made.length
  have hnew₂ : NewNode s s₂ (nodeFor found support_record) := hnew.setNode key _
  have hlength : s₁.made.length = s.made.length := congrArg List.length hmade
  have hkeys : ∀ key' m, s₂.nodes key' = some m →
      key' = key ∧ m = s.made.length ∨ s.nodes key' = some m := by
    intro key' m hm
    rcases setNode_some hm with ⟨rfl, rfl⟩ | ⟨_, hm⟩
    · exact Or.inl ⟨rfl, hlength⟩
    · exact Or.inr (hnodes ▸ hm)
  cases found with
  | none =>
    cases c with
    | next fp file_dir =>
      obtain rfl := Option.some.inj hkey
      have hsound := h.newDummy hfs hnew₂ hkeys
      rw [← hlength] at hsound
      exact hsound
    | quote fp file_dir =>
      have hsound := h.newResult hstart hkey hnew₂ hfound (by rintro _ _ ⟨⟩) hkeys
      rw [← hlength] at hsound
      exact hsound
    | angle fp file_dir =>
      have hsound := h.newResult hstart hkey hnew₂ hfound (by rintro _ _ ⟨⟩) hkeys
      rw [← hlength] at hsound
      exact hsound
    | resolved fp =>
      have hsound := h.newResult hstart hkey hnew₂ hfound (by rintro _ _ ⟨⟩) hkeys
      rw [← hlength] at hsound
      exact hsound
  | some found =>
    obtain ⟨fp, fp_real⟩ := found
    have hfile : Sound w real_path start ⟨.revalidate support_record fp_real,
        ⟨s₁.made.length, false, (w.dirname fp).1, [], [], items (w.parse fp_real)⟩ :: fs, s₂⟩ := by
      rw [hlength]
      refine h.newFile hstart hkey hnew₂ hfound ?_
      intro key' m hm
      exact (hkeys key' m hm).imp_left fun h => ⟨Or.inl h.1, h.2⟩
    have hunresolved : Sound w real_path start
        (stepFile w key false s₁.made.length support_record fp fp_real fs s₂) := by
      unfold stepFile
      dsimp only
      have hmiss : Sound w real_path start ⟨.revalidate support_record fp_real,
          ⟨s₁.made.length, false, (w.dirname fp).1, [], [], items (w.parse fp_real)⟩ :: fs,
          s₂.setNode (.real fp_real (w.dirname fp).2) s₁.made.length⟩ := by
        rw [hlength]
        refine h.newFile hstart hkey (hnew₂.setNode _ _) hfound ?_
        intro key' m hm
        rcases setNode_some hm with ⟨rfl, rfl⟩ | ⟨_, hm⟩
        · exact Or.inl ⟨Or.inr rfl, rfl⟩
        · exact (hkeys key' m hm).imp_left fun h => ⟨Or.inl h.1, h.2⟩
      cases hnode : s₂.nodes (.real fp_real (w.dirname fp).2) with
      | none => exact hmiss
      | some node =>
        cases hvalid : s₂.valid support_record with
        | false => exact hmiss
        | true =>
          have hold : s.nodes (.real fp_real (w.dirname fp).2) = some node := by
            rcases hkeys _ _ hnode with ⟨heq, _⟩ | hold
            · exact absurd heq.symm (key_not_real hkey _ _)
            · exact hold
          refine h.realHit hstart hkey (hnew₂.setNode key node) hfound hold ?_
          intro key' m hm
          rcases setNode_some hm with hm | ⟨hne, hm⟩
          · exact Or.inl hm
          rcases hkeys key' m hm with ⟨heq, _⟩ | hm
          · exact absurd heq hne
          · exact Or.inr hm
    cases c with
    | resolved found => exact hfile
    | quote fp' file_dir => exact hunresolved
    | angle fp' file_dir => exact hunresolved
    | next fp' file_dir => exact hunresolved

end Node

theorem Sound.ofEnter (hfs : FileSystem w real_path)
    (h : Sound w real_path start ⟨.enter c, fs, s⟩) (hstart : Genuine real_path start) :
    Sound w real_path start (stepEnter w c fs s) := by
  have hc : awaited start fs = some c := h.control
  have hgenuine := awaited_genuine h hstart hc
  have hparse : ∀ fp_real, ¬ AboutToParse (Config.mk (.enter c) fs s) fp_real :=
    not_aboutToParse nofun nofun
  unfold stepEnter
  cases hkey : keyOf c with
  | none =>
    have hnone : c = .resolved none := by
      cases c with
      | resolved found =>
        cases found with
        | none => rfl
        | some found => cases hkey
      | quote fp file_dir => cases hkey
      | angle fp file_dir => cases hkey
      | next fp file_dir => cases hkey
    apply h.same Same.rfl hparse
    · exact ⟨c, hc, hnone⟩
    · intro n hn
      cases hn
  | some key =>
    dsimp only
    cases hnode : s.nodes key with
    | none =>
      apply h.ofNode s.newRecord hfs hstart hkey rfl rfl (NewNode.newRecord rfl rfl)
      cases c with
      | next fp file_dir => rfl
      | quote fp file_dir =>
        intro found hfound
        rw [hfound]
        rfl
      | angle fp file_dir =>
        intro found hfound
        rw [hfound]
        rfl
      | resolved fp =>
        intro found hfound
        rw [hfound]
        rfl
    | some node =>
      obtain ⟨hlt, hanswers⟩ := h.keys key node hnode
      have hanswers := (keyAnswers_iff hkey hgenuine).mp hanswers
      have hfound : s.made[node]? = some s.made[node] := getElem?_eq_getElem hlt
      have hrecord : s.recordOf node = s.made[node].support_record := by
        unfold Caches.recordOf
        rw [hfound]
      have hfile : s.fileOf node = resolutionOf s.made[node] := by
        unfold Caches.fileOf
        rw [hfound]
      simp only [hfound]
      cases hvalid : s.valid s.made[node].support_record with
      | true =>
        apply h.same Same.rfl hparse
        · exact ⟨c, hc, hlt, hanswers.extends Extends.ofControl⟩
        · intro n hn hvalid'
          obtain rfl := Option.some.inj (Control.ret.inj hn)
          exact Held.key hnode hvalid'
      | false =>
        apply h.ofNode s hfs hstart hkey rfl rfl (NewNode.old (hrecord ▸ h.records node hlt) rfl)
        cases c with
        | next fp file_dir =>
          have hnone : s.fileOf node = none := NextAnswers.file hanswers
          exact hfile ▸ hnone
        | quote fp file_dir => exact hfile ▸ hanswers
        | angle fp file_dir => exact hfile ▸ hanswers
        | resolved fp => exact hfile ▸ hanswers

end Enter

theorem Sound.ofRevalidate {support_record : Nat}
    (h : Sound w real_path start ⟨.revalidate support_record fp_real, f :: fs, s⟩)
    (hmeets : StepMeets w (Config.mk (.revalidate support_record fp_real) (f :: fs) s)) :
    Sound w real_path start ⟨.parse fp_real, f :: fs, s.setValid support_record⟩ := by
  obtain ⟨⟨hdummy, hcalls, hleft, fp, hfile⟩, hrecord, hchildren⟩ := h.control
  obtain ⟨hkeys, hframes⟩ := hmeets
  have hf := h.visits f mem_cons_self
  have hlength : (s.setValid support_record).records.length = s.records.length :=
    length_modify _ _ _
  have hrecordOf : ∀ n, (s.setValid support_record).recordOf n = s.recordOf n := by
    intro n
    unfold Caches.recordOf
    rw [hlength]
    rfl
  have hvalid_of_ne : ∀ n, s.recordOf n ≠ support_record →
      (s.setValid support_record).validNode n = s.validNode n := by
    intro n hne
    unfold Caches.validNode
    rw [hrecordOf, valid_setValid_of_ne hne]
  have hvalid_self : ∀ n, s.recordOf n = support_record →
      (s.setValid support_record).validNode n = true := by
    intro n heq
    unfold Caches.validNode
    rw [hrecordOf, heq]
    apply valid_setValid_self
    rw [← hrecord]
    exact h.records f.node hf.lt
  have hvalid_mono : ∀ n, s.validNode n = true →
      (s.setValid support_record).validNode n = true := by
    intro n hn
    by_cases heq : s.recordOf n = support_record
    · exact hvalid_self n heq
    · exact (hvalid_of_ne n heq).trans hn
  have hext : Extends w ⟨.revalidate support_record fp_real, f :: fs, s⟩
      ⟨.parse fp_real, f :: fs, s.setValid support_record⟩ := by
    refine ⟨Grows.of_eq rfl, ?_⟩
    intro n found hn
    exact Or.inl hn
  have hheld : ∀ n, Held (Config.mk (.parse fp_real) (f :: fs) (s.setValid support_record)) n →
      Held (Config.mk (.revalidate support_record fp_real) (f :: fs) s) n ∨ n = f.node := by
    intro n hn
    induction hn with
    | @key key n hkey hvalid =>
      by_cases heq : s.recordOf n = support_record
      · obtain ⟨g, hg, hnode⟩ := hkeys key n hkey heq
        obtain rfl := Option.some.inj hg
        exact Or.inr hnode.symm
      · exact Or.inl (Held.key hkey ((hvalid_of_ne n heq).symm.trans hvalid))
    | @visit g hg hvalid =>
      rcases List.mem_cons.mp hg with rfl | hg'
      · exact Or.inr rfl
      · exact Or.inl (Held.visit hg ((hvalid_of_ne _ (hframes g hg')).symm.trans hvalid))
    | result hresult hvalid => cases hresult
    | @child n m _ hchild ih =>
      rcases ih with hn | rfl
      · exact Or.inl (Held.child hn hchild)
      have hchild : m ∈ s.childrenOf f.node := hchild
      rw [hchildren] at hchild
      cases hchild
  apply h.carry hext ⟨rfl, rfl, hlength⟩ (fun g hg => Or.inl hg) (h.chain.extends hext)
    ⟨hdummy, hcalls, hleft, fp, hfile⟩ ?_ h.parsed
  · intro n hn
    rcases hheld n hn with hn | rfl
    · obtain ⟨hlt, hvalid, hitems⟩ := h.held n hn
      refine ⟨hlt, hvalid_mono n hvalid, hitems.extends hext hlt ?_ ?_ ?_⟩
      · rintro fp_real' (hcached | hparse | ⟨r, hparse⟩)
        · exact Or.inl hcached
        · cases hparse
        · obtain ⟨_, rfl⟩ := Control.revalidate.inj hparse
          exact Or.inr (Or.inl rfl)
      · intro found _ item _
        by_cases hitem : Left (Config.mk (.revalidate support_record fp_real) (f :: fs) s) n item
        · exact Or.inl hitem
        · exact Or.inr (Or.inr ⟨hitem, fun _ hc => hc⟩)
      · intro c hc
        exact Or.inl hc
    · refine ⟨hf.lt, hvalid_self _ hrecord, ?_⟩
      intro found hfound
      have hfound : s.fileOf f.node = some found := hfound
      rw [hfile] at hfound
      obtain rfl := Option.some.inj hfound
      refine ⟨Or.inr (Or.inl rfl), ?_⟩
      intro item hitem
      exact Or.inl ⟨f, mem_cons_self, rfl, hleft ▸ hitem⟩

/-- What new definitions do to the caches. -/
structure Defined (s s' : Caches Dir Name Real Symbol Table) : Prop where
  nodes : s'.nodes = s.nodes
  made : s'.made = s.made
  length : s'.records.length = s.records.length
  valid : ∀ r, s'.valid r = true → s.valid r = true
  file_cache : ∀ fp_real, s.file_cache fp_real = true → s'.file_cache fp_real = true

theorem Defined.validNode (h : Defined s s') {n : Nat} (hn : s'.validNode n = true) :
    s.validNode n = true := by
  unfold Caches.validNode at hn ⊢
  have hrecord : s'.recordOf n = s.recordOf n := by
    unfold Caches.recordOf
    rw [h.made, h.length]
  rw [hrecord] at hn
  exact h.valid _ hn

theorem Defined.held (h : Defined s s') (hsupported : Supported w (Config.mk control fs s) s')
    (hcontrol : ∀ n, control' ≠ .ret (some n)) {n : Nat} (hn : Held (Config.mk control' fs s') n) :
    Held (Config.mk control fs s) n ∧ s'.validNode n = true := by
  induction hn with
  | key hkey hvalid => exact ⟨Held.key (h.nodes ▸ hkey) (h.validNode hvalid), hvalid⟩
  | visit hf hvalid => exact ⟨Held.visit hf (h.validNode hvalid), hvalid⟩
  | result hresult hvalid => exact absurd hresult (hcontrol _)
  | @child n m _ hchild ih =>
    obtain ⟨hn, hvalid⟩ := ih
    unfold Caches.childrenOf at hchild
    rw [h.made] at hchild
    exact ⟨Held.child hn hchild, (hsupported n hn hvalid).1 m hchild⟩

theorem Sound.define (h : Sound w real_path start ⟨control, fs, s⟩) (hdefined : Defined s s')
    (hsupported : Supported w (Config.mk control fs s) s') (hresult : ∀ n, control' ≠ .ret (some n))
    (hcontrol : ControlOk w start ⟨control', fs, s'⟩)
    (hparse : ∀ fp_real, AboutToParse (Config.mk control fs s) fp_real →
      s'.file_cache fp_real = true) (hparsed : ∀ fp_real, s'.file_cache fp_real = true →
      w.insert fp_real s'.symbol_table ≤ s'.symbol_table) :
    Sound w real_path start ⟨control', fs, s'⟩ := by
  have hgrows : Grows s s' := Grows.of_eq hdefined.made
  have hext : Extends w ⟨control, fs, s⟩ ⟨control', fs, s'⟩ := by
    refine ⟨hgrows, ?_⟩
    intro n found hn
    exact Or.inl hn
  apply h.carry hext ⟨hdefined.nodes, congrArg List.length hdefined.made, hdefined.length⟩
    (fun g hg => Or.inl hg) (h.chain.extends hext) hcontrol ?_ hparsed
  · intro n hn
    obtain ⟨hn, hvalid⟩ := hdefined.held hsupported hresult hn
    obtain ⟨hlt, _, hitems⟩ := h.held n hn
    refine ⟨hlt, hvalid, hitems.extends hext hlt ?_ ?_ ?_⟩
    · rintro fp_real (hcached | habout)
      · exact Or.inl (hdefined.file_cache fp_real hcached)
      · exact Or.inl (hparse fp_real habout)
    · intro found hfile item hitem
      by_cases hleft : Left (Config.mk control fs s) n item
      · exact Or.inl hleft
      · exact Or.inr (Or.inr ⟨hleft, (hsupported n hn hvalid).2 _ _ hfile item hitem hleft⟩)
    · intro c hc
      exact Or.inl hc

theorem parseFile_defined (w : World Dir Name Real Symbol Table Expr) (fp_real : Real)
    (s : Caches Dir Name Real Symbol Table) :
    Defined s (parseFile w fp_real s) ∧ (parseFile w fp_real s).file_cache fp_real = true := by
  unfold parseFile
  split
  · rename_i hcached
    exact ⟨⟨rfl, rfl, rfl, fun _ h => h, fun _ h => h⟩, hcached⟩
  refine ⟨⟨rfl, rfl, length_map _, fun _ h => valid_of_invalidate h, ?_⟩, ?_⟩
  · intro r hr
    show Function.update s.file_cache fp_real true r = true
    by_cases heq : r = fp_real
    · subst heq
      rw [Function.update_self]
    · rw [Function.update_of_ne heq]
      exact hr
  · show Function.update s.file_cache fp_real true fp_real = true
    rw [Function.update_self]

theorem parseFile_parsed (hdefs : Definitions w)
    (hparsed : ∀ r, s.file_cache r = true → w.insert r s.symbol_table ≤ s.symbol_table) :
    s.symbol_table ≤ (parseFile w fp_real s).symbol_table ∧
    ∀ r, (parseFile w fp_real s).file_cache r = true →
      w.insert r (parseFile w fp_real s).symbol_table ≤ (parseFile w fp_real s).symbol_table := by
  unfold parseFile
  split
  · exact ⟨le_rfl, hparsed⟩
  have hle : s.symbol_table ≤ w.insert fp_real s.symbol_table := hdefs.le_insert _ _
  refine ⟨hle, ?_⟩
  intro r hr
  have hr : Function.update s.file_cache fp_real true r = true := hr
  by_cases heq : r = fp_real
  · subst heq
    exact hdefs.insert_le r _ _ s.symbol_table le_rfl le_rfl
  · rw [Function.update_of_ne heq] at hr
    exact hdefs.insert_le r _ _ s.symbol_table ((hparsed r hr).trans hle) le_rfl

theorem Sound.ofParse (hdefs : Definitions w)
    (h : Sound w real_path start ⟨.parse fp_real, f :: fs, s⟩)
    (hmeets : StepMeets w (Config.mk (.parse fp_real) (f :: fs) s)) :
    Sound w real_path start ⟨.items, f :: fs, parseFile w fp_real s⟩ := by
  obtain ⟨hdummy, hcalls, _⟩ := h.control
  obtain ⟨hdefined, hcached⟩ := parseFile_defined w fp_real s
  apply h.define hdefined hmeets
  · intro n hn
    cases hn
  · exact ⟨hdummy, hcalls⟩
  · rintro fp_real' (hparse | ⟨r, hparse⟩)
    · obtain rfl := Control.parse.inj hparse
      exact hcached
    · cases hparse
  · exact (parseFile_parsed hdefs h.parsed).2

section
variable {cfg cfg' : Config Dir Name Real Symbol Table Expr} (hfs : FileSystem w real_path)
    (hdefs : Definitions w) (hstart : Genuine real_path start) (h : Sound w real_path start cfg)
include hfs hdefs hstart h

theorem Sound.step
    (hmeets : StepMeets w cfg) (hstep : step w cfg = some cfg') : Sound w real_path start cfg' := by
  obtain ⟨control, frames, s⟩ := cfg
  cases control with
  | enter c =>
    obtain rfl := Option.some.inj hstep
    exact h.ofEnter hfs hstart
  | revalidate support_record fp_real =>
    obtain rfl := Option.some.inj hstep
    cases frames with
    | nil => exact absurd h.control id
    | cons f fs => exact h.ofRevalidate hmeets
  | parse fp_real =>
    obtain rfl := Option.some.inj hstep
    cases frames with
    | nil => exact absurd h.control id
    | cons f fs => exact h.ofParse hdefs hmeets
  | items =>
    cases frames with
    | nil => cases hstep
    | cons f fs =>
      obtain rfl := Option.some.inj hstep
      exact h.ofItems hfs
  | calls =>
    cases frames with
    | nil => cases hstep
    | cons f fs =>
      obtain rfl := Option.some.inj hstep
      exact h.ofCalls
  | ret result =>
    cases frames with
    | nil => cases hstep
    | cons f fs =>
      obtain rfl := Option.some.inj hstep
      exact h.ofRet hmeets

theorem Sound.steps
    (hmeets : ∀ cfg', Steps w cfg cfg' → StepMeets w cfg') (hsteps : Steps w cfg cfg') :
    Sound w real_path start cfg' := by
  induction hsteps with
  | refl => exact h
  | tail hsteps hstep ih => exact ih.step hfs hdefs hstart (hmeets _ hsteps) hstep

end

end Toolwhip.Distcc
