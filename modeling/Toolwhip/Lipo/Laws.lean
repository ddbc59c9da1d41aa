import Toolwhip.Lib.ThrowingFold
import Toolwhip.Lipo.FatLayout

/-! # What the operations do to the thin files

Of two thin files of a fat file at most one has a given architecture, so marking or replacing the
first one that has it is the same as doing so with all. -/

namespace Toolwhip.Lipo
open Lib.ThrowingFold List
set_option autoImplicit false
variable {file : List UInt8} {news : List (Replace × ThinFile)} {marked : List (ThinFile × Bool)}
  {segaligns : List (Arch × Nat)} {aligned : List ThinFile} {flags : List Arch} {replace : Replace}
  {flag : Arch}

section Update
variable {α : Type} {p : α → Bool} {f : α → α} {l : List α}

theorem updateFirst_eq_map (hone : l.Pairwise fun a b => ¬ (p a = true ∧ p b = true))
    (hex : ∃ a ∈ l, p a = true) :
    updateFirst p f l = some (l.map fun a => if p a then f a else a) := by
  induction l with
  | nil =>
    obtain ⟨a, ha, -⟩ := hex
    cases ha
  | cons a l ih =>
    obtain ⟨hfirst, hrest⟩ := List.pairwise_cons.mp hone
    unfold updateFirst
    rw [map_cons]
    by_cases ha : p a = true
    · have hsame : (l.map fun b => if p b then f b else b) = l := by
        have hnone : ∀ b ∈ l, (if p b then f b else b) = b := by
          intro b hb
          rw [if_neg fun hpb => hfirst b hb ⟨ha, hpb⟩]
        rw [map_congr_left hnone, map_id']
      rw [if_pos ha, if_pos ha, hsame]
    · have hex' : ∃ b ∈ l, p b = true := by
        obtain ⟨b, hb, hpb⟩ := hex
        rcases List.mem_cons.mp hb with rfl | hb
        · exact absurd hpb ha
        · exact ⟨b, hb, hpb⟩
      rw [if_neg ha, if_neg ha, ih hrest hex']
      rfl

theorem updateFirst_map {β : Type} {g : α → β} (hg : ∀ a, g (f a) = g a) {l' : List α}
    (h : updateFirst p f l = some l') : l'.map g = l.map g := by
  induction l generalizing l' with
  | nil => cases h
  | cons a l ih =>
    unfold updateFirst at h
    split at h
    · cases h
      rw [map_cons, map_cons, hg]
    · obtain ⟨m, hm, rfl⟩ := Option.map_eq_some_iff.mp h
      rw [map_cons, map_cons, ih hm]

theorem forall_updateFirst {P : α → Prop} (hf : ∀ a, P a → P (f a)) {l' : List α}
    (h : updateFirst p f l = some l') (hl : ∀ a ∈ l, P a) : ∀ a ∈ l', P a := by
  induction l generalizing l' with
  | nil => cases h
  | cons a l ih =>
    have ha := hl a mem_cons_self
    have hrest := fun b hb => hl b (mem_cons_of_mem a hb)
    unfold updateFirst at h
    split at h
    · cases h
      intro b hb
      rcases List.mem_cons.mp hb with rfl | hb
      · exact hf a ha
      · exact hrest b hb
    · obtain ⟨m, hm, rfl⟩ := Option.map_eq_some_iff.mp h
      intro b hb
      rcases List.mem_cons.mp hb with rfl | hb
      · exact ha
      · exact ih hm hrest b hb

end Update

theorem one_of_different {α : Type} {l : List α} {arch : α → Arch}
    (h : (l.map arch).Pairwise Different) (flag : Arch) :
    l.Pairwise fun a b => ¬ (sameArch flag (arch a) = true ∧ sameArch flag (arch b) = true) := by
  refine (List.pairwise_map.mp h).imp ?_
  intro a b hdifferent hboth
  have hsame := sameArch_trans (sameArch_symm hboth.1) hboth.2
  rw [hdifferent] at hsame
  cases hsame

theorem align_of_checkSlice {size : Nat} {a : FatArch} (h : checkSlice size a = .ok ()) :
    a.align ≤ MAXSECTALIGN := by
  unfold checkSlice at h
  split at h
  · cases h
  split at h
  · cases h
  · omega

variable {arches : List FatArch} {thins : List ThinFile}

theorem mapM_slices (h : arches.mapM (slice file) = .ok thins) :
    thins.map ThinFile.arch = arches.map FatArch.arch ∧
      ∀ t ∈ thins, ∃ a ∈ arches, t.align = a.align := by
  induction arches generalizing thins with
  | nil =>
    cases h
    exact ⟨rfl, nofun⟩
  | cons a arches ih =>
    rw [mapM_cons] at h
    obtain ⟨t, ht, hrest⟩ := bind_eq_ok.mp h
    obtain ⟨others, hothers, hcons⟩ := bind_eq_ok.mp hrest
    cases hcons
    obtain ⟨harches, haligns⟩ := ih hothers
    have hslice : t.arch = a.arch ∧ t.align = a.align := by
      unfold slice at ht
      split at ht
      · cases ht
      cases ht
      exact ⟨rfl, rfl⟩
    constructor
    · rw [map_cons, map_cons, harches, hslice.1]
    · intro u hu
      rcases List.mem_cons.mp hu with rfl | hu
      · exact ⟨a, mem_cons_self, hslice.2⟩
      obtain ⟨b, hb, heq⟩ := haligns u hu
      exact ⟨b, mem_cons_of_mem a hb, heq⟩

theorem fatSlices_spec (h : fatSlices file = .ok (arches, thins)) :
    (thins.map ThinFile.arch).Pairwise Different ∧ ∀ t ∈ thins, t.align ≤ MAXSECTALIGN := by
  unfold fatSlices at h
  dsimp only at h
  split at h
  · cases h
  obtain ⟨_, hchecked, h⟩ := bind_eq_ok.mp h
  split at h
  · cases h
  rename_i hnone
  obtain ⟨slices, hslices, h⟩ := bind_eq_ok.mp h
  cases h
  obtain ⟨harches, haligns⟩ := mapM_slices hslices
  constructor
  · rw [harches]
    exact firstSame_eq_none.mp hnone
  · intro t ht
    obtain ⟨a, ha, halign⟩ := haligns t ht
    rw [halign]
    exact align_of_checkSlice (forM_ok hchecked a ha)

theorem fatInput_spec {tools : Tools} (h : fatInput tools file = .ok thins) :
    (thins.map ThinFile.arch).Pairwise Different ∧ ∀ t ∈ thins, t.align ≤ MAXSECTALIGN := by
  unfold fatInput process_input_file at h
  obtain ⟨input, hinput, h⟩ := bind_eq_ok.mp h
  split at hinput
  · obtain ⟨⟨arches, slices⟩, hslices, hinput⟩ := bind_eq_ok.mp hinput
    cases hinput
    cases h
    exact fatSlices_spec hslices
  · obtain ⟨thin, -, hinput⟩ := bind_eq_ok.mp hinput
    cases hinput
    cases h

def named (flags : List Arch) (arch : Arch) : Bool := flags.any fun flag => sameArch flag arch

def Present (flags : List Arch) (thins : List ThinFile) : Prop :=
  ∀ flag ∈ flags, ∃ t ∈ thins, sameArch flag t.arch = true

theorem markExtracts_eq (h : Present flags (marked.map Prod.fst)) :
    markExtracts false flags marked =
      .ok (marked.map fun p => (p.1, p.2 || named flags p.1.arch)) := by
  induction flags generalizing marked with
  | nil => simp [markExtracts, named]
  | cons flag flags ih =>
    obtain ⟨t, ht, hsame⟩ := h flag mem_cons_self
    obtain ⟨p, hp, rfl⟩ := List.mem_map.mp ht
    have hany : (marked.any fun p => extracts false flag p.1.arch) = true :=
      List.any_eq_true.mpr ⟨p, hp, hsame⟩
    have hfst : (marked.map fun p => (p.1, p.2 || extracts false flag p.1.arch)).map Prod.fst =
        marked.map Prod.fst := by
      rw [map_map]
      rfl
    rw [markExtracts, if_pos hany, ih]
    · rw [map_map]
      congr 1
      apply map_congr_left
      intro q _
      simp [named, extracts, Bool.or_assoc]
    · intro other hother
      rw [hfst]
      exact h other (mem_cons_of_mem flag hother)

theorem markRemoves_eq (hdifferent : (marked.map fun p => p.1.arch).Pairwise Different)
    (h : Present flags (marked.map Prod.fst)) : markRemoves flags marked =
      .ok (marked.map fun p => (p.1, p.2 || named flags p.1.arch)) := by
  induction flags generalizing marked with
  | nil => simp [markRemoves, named]
  | cons flag flags ih =>
    obtain ⟨t, ht, hsame⟩ := h flag mem_cons_self
    obtain ⟨p, hp, rfl⟩ := List.mem_map.mp ht
    have hmark := @updateFirst_eq_map _ (fun p : ThinFile × Bool => sameArch flag p.1.arch)
      (fun p => (p.1, true)) marked (one_of_different hdifferent flag) ⟨p, hp, hsame⟩
    have hfst : ∀ q : ThinFile × Bool,
        (if sameArch flag q.1.arch = true then (q.1, true) else q).1 = q.1 := by
      intro q
      split <;> rfl
    rw [markRemoves, hmark]
    dsimp only
    rw [ih]
    · rw [map_map]
      congr 1
      apply map_congr_left
      intro q _
      by_cases hq : sameArch flag q.1.arch = true <;> simp [named, hq]
    · simpa [Function.comp_def, hfst] using hdifferent
    · intro other hother
      simpa [Function.comp_def, hfst] using h other (mem_cons_of_mem flag hother)

theorem marked_of_unmarked (thins : List ThinFile) (flags : List Arch) :
    (((unmarked thins).map fun p => (p.1, p.2 || named flags p.1.arch)).filter Prod.snd).map
      Prod.fst = thins.filter fun t => named flags t.arch := by
  unfold unmarked
  rw [map_map, filter_map, map_map]
  simp [Function.comp_def]

theorem unmarked_of_unmarked (thins : List ThinFile) (flags : List Arch) :
    (((unmarked thins).map fun p => (p.1, p.2 || named flags p.1.arch)).filter
      fun p => !p.2).map Prod.fst = thins.filter fun t => !named flags t.arch := by
  unfold unmarked
  rw [map_map, filter_map, map_map]
  simp [Function.comp_def]

theorem fst_unmarked (thins : List ThinFile) : (unmarked thins).map Prod.fst = thins := by
  unfold unmarked
  rw [map_map]
  exact map_id' thins

/-! ## The laws of the operations

A fat file is a map from architectures to bytes: `-create` and `-thin` are inverse to each other,
and `-extract`, `-remove` and `-replace` restrict, shrink and update the map. -/

variable {tools : Tools}

def replacedBy (news : List (Replace × ThinFile)) (t : ThinFile) : ThinFile :=
  match news.find? fun n => sameArch n.1.arch_flag t.arch with
  | some n => n.2
  | none => t

theorem replacedBy_cons (n : Replace × ThinFile) (news : List (Replace × ThinFile)) (t : ThinFile) :
    replacedBy (n :: news) t =
      if sameArch n.1.arch_flag t.arch = true then n.2 else replacedBy news t := by
  unfold replacedBy
  rw [find?_cons]
  cases sameArch n.1.arch_flag t.arch <;> rfl

variable {t : ThinFile}

theorem replacedBy_none
    (h : ∀ n ∈ news, sameArch n.1.arch_flag t.arch = false) : replacedBy news t = t := by
  have hnone : (news.find? fun n => sameArch n.1.arch_flag t.arch) = none := by
    rw [find?_eq_none]
    intro n hn
    rw [h n hn]
    exact Bool.false_ne_true
  unfold replacedBy
  rw [hnone]

theorem arch_of_replacement (h : process_replace_file tools replace = .ok t) :
    sameArch t.arch replace.arch_flag = true := by
  unfold process_replace_file at h
  split at h
  · cases h
  obtain ⟨thin, -, h⟩ := bind_eq_ok.mp h
  split at h
  · rename_i hsame
    cases h
    exact hsame
  · cases h

theorem align_of_replacement
    (h : process_replace_file tools replace = .ok t) : t.align ≤ MAXSECTALIGN := by
  unfold process_replace_file at h
  split at h
  · cases h
  obtain ⟨thin, hthin, h⟩ := bind_eq_ok.mp h
  split at h
  · cases h
    obtain ⟨kind, hkind, hthin⟩ := bind_eq_ok.mp hthin
    split at hthin
    · cases hthin
      exact tools.align_le _ _ _ hkind
    · cases hthin
      change 2 ≤ MAXSECTALIGN
      decide
    · cases hthin
      exact Nat.zero_le _
  · cases h

theorem different_map {thins : List ThinFile} {g : ThinFile → ThinFile}
    (hg : ∀ t, sameArch (g t).arch t.arch = true)
    (h : (thins.map ThinFile.arch).Pairwise Different) :
    ((thins.map g).map ThinFile.arch).Pairwise Different := by
  rw [map_map]
  refine List.pairwise_map.mpr ((List.pairwise_map.mp h).imp ?_)
  intro t u hdifferent
  unfold Different at hdifferent ⊢
  rw [← Bool.not_eq_true] at hdifferent ⊢
  intro hsame
  exact hdifferent (sameArch_trans (sameArch_symm (hg t)) (sameArch_trans hsame (hg u)))

theorem replaceThins_eq (hflags : (news.map fun n => n.1.arch_flag).Pairwise Different)
    (hnews : ∀ n ∈ news, process_replace_file tools n.1 = .ok n.2)
    (hthins : (thins.map ThinFile.arch).Pairwise Different)
    (hpresent : Present (news.map fun n => n.1.arch_flag) thins) :
    replaceThins tools (news.map Prod.fst) thins = .ok (thins.map (replacedBy news)) := by
  induction news generalizing thins with
  | nil =>
    have hnone : ∀ t ∈ thins, replacedBy [] t = t := fun _ _ => rfl
    rw [map_congr_left hnone, map_id']
    rfl
  | cons n news ih =>
    obtain ⟨hfirst, hrest⟩ := List.pairwise_cons.mp hflags
    have hn := hnews n mem_cons_self
    have harch := arch_of_replacement hn
    obtain ⟨t, ht, hsame⟩ := hpresent _ mem_cons_self
    have hupdate := @updateFirst_eq_map _ (fun t : ThinFile => sameArch n.1.arch_flag t.arch)
      (fun _ => n.2) thins (one_of_different hthins n.1.arch_flag) ⟨t, ht, hsame⟩
    -- a flag that comes later names neither the replaced thin file nor its replacement
    have hlater : ∀ m ∈ news, ∀ u : ThinFile, sameArch n.1.arch_flag u.arch = true →
        sameArch m.1.arch_flag u.arch = false := by
      intro m hm u hu
      have hdifferent := hfirst _ (mem_map_of_mem hm)
      unfold Different at hdifferent
      rw [← Bool.not_eq_true] at hdifferent ⊢
      exact fun hmu => hdifferent (sameArch_trans hu (sameArch_symm hmu))
    have hthins' := @different_map thins
      (fun t => if sameArch n.1.arch_flag t.arch = true then n.2 else t) (by
        intro u
        split
        · rename_i hu
          exact sameArch_trans harch hu
        · exact sameArch_self _) hthins
    have hpresent' : Present (news.map fun n => n.1.arch_flag)
        (thins.map fun t => if sameArch n.1.arch_flag t.arch = true then n.2 else t) := by
      intro flag hflag
      obtain ⟨u, hu, huflag⟩ := hpresent flag (mem_cons_of_mem _ hflag)
      obtain ⟨m, hm, rfl⟩ := List.mem_map.mp hflag
      refine ⟨u, List.mem_map.mpr ⟨u, hu, ?_⟩, huflag⟩
      rw [if_neg]
      intro hboth
      rw [hlater m hm u hboth] at huflag
      cases huflag
    rw [map_cons, replaceThins, hn]
    dsimp only [bind, Except.bind]
    rw [hupdate]
    dsimp only
    rw [ih hrest (fun m hm => hnews m (mem_cons_of_mem n hm)) hthins' hpresent', map_map]
    congr 1
    apply map_congr_left
    intro u _
    rw [replacedBy_cons, Function.comp_apply]
    by_cases hu : sameArch n.1.arch_flag u.arch = true
    · rw [if_pos hu, if_pos hu]
      exact replacedBy_none fun m hm => hlater m hm n.2 (sameArch_symm harch)
    · rw [if_neg hu, if_neg hu]

def pairs (thins : List ThinFile) : List (Arch × List UInt8) :=
  thins.map fun t => (t.arch, t.bytes)

/-- The alignments that are specified, each for an architecture of its own. -/
structure Applies (segaligns : List (Arch × Nat)) (thins aligned : List ThinFile) : Prop where
  different : (segaligns.map Prod.fst).Pairwise Different
  align_le : ∀ s ∈ segaligns, s.2 ≤ MAXSECTALIGN
  folds : foldSegaligns segaligns thins = .ok aligned

theorem applies_nil (thins : List ThinFile) : Applies [] thins thins :=
  ⟨List.Pairwise.nil, nofun, rfl⟩

theorem foldSegaligns_spec (hle : ∀ s ∈ segaligns, s.2 ≤ MAXSECTALIGN)
    (h : foldSegaligns segaligns thins = .ok aligned) (hthins : ∀ t ∈ thins, t.align ≤ MAXSECTALIGN) :
    pairs aligned = pairs thins ∧ ∀ t ∈ aligned, t.align ≤ MAXSECTALIGN := by
  induction segaligns generalizing thins with
  | nil =>
    cases h
    exact ⟨rfl, hthins⟩
  | cons s segaligns ih =>
    unfold foldSegaligns at h
    split at h
    · cases h
    rename_i thins' hupdate
    have hpairs : pairs thins' = pairs thins :=
      @updateFirst_map _ _ (fun t : ThinFile => { t with align := s.2 }) thins _ _
        (fun _ => rfl) _ hupdate
    have haligns := @forall_updateFirst _ _ (fun t : ThinFile => { t with align := s.2 }) thins
      (fun t : ThinFile => t.align ≤ MAXSECTALIGN) (fun _ _ => hle s mem_cons_self) _ hupdate
      hthins
    obtain ⟨hrest, hall⟩ := ih (fun u hu => hle u (mem_cons_of_mem s hu)) h haligns
    exact ⟨hrest.trans hpairs, hall⟩

/-- The thin files fit in a fat file; an empty one needs no padding. -/
structure Fits (tools : Tools) (thins : List ThinFile) : Prop where
  solid : Solid thins
  small : fatEnd (arches_end thins.length) (tools.qsort thins) < 2 ^ 32

def ReadsBack (tools : Tools) (file : List UInt8) (thins : List ThinFile) : Prop :=
  ∃ aligned arches slices, FatFileOf tools aligned file arches slices ∧ pairs aligned = pairs thins

theorem archs_of_pairs {l m : List ThinFile} (h : pairs l = pairs m) :
    l.map ThinFile.arch = m.map ThinFile.arch := by
  have hfst := congrArg (List.map Prod.fst) h
  unfold pairs at hfst
  rw [map_map, map_map] at hfst
  exact hfst

theorem create_fat_readsBack (hdifferent : (thins.map ThinFile.arch).Pairwise Different)
    (haligns : ∀ t ∈ thins, t.align ≤ MAXSECTALIGN) (happlies : Applies segaligns thins aligned)
    (hfits : Fits tools aligned) :
    ∃ file, create_fat tools segaligns false thins = .ok file ∧ ReadsBack tools file thins := by
  obtain ⟨hpairs, hle⟩ := foldSegaligns_spec happlies.align_le happlies.folds haligns
  have hplaceable : Placeable tools aligned := by
    refine ⟨?_, hle, hfits.solid, hfits.small⟩
    rw [archs_of_pairs hpairs]
    exact hdifferent
  refine ⟨writeFat false (tools.qsort aligned), ?_, aligned, _, _, writeFat_fatFileOf hplaceable,
    hpairs⟩
  unfold create_fat
  rw [firstSame_eq_none.mpr happlies.different]
  rw [happlies.folds]
  rfl

theorem find_of_different (h : (thins.map ThinFile.arch).Pairwise Different) (ht : t ∈ thins)
    (hsame : sameArch flag t.arch = true) :
    (thins.find? fun u => sameArch flag u.arch) = some t := by
  induction thins with
  | nil => cases ht
  | cons u thins ih =>
    obtain ⟨hfirst, hrest⟩ := List.pairwise_cons.mp h
    rw [find?_cons]
    rcases List.mem_cons.mp ht with rfl | ht
    · rw [hsame]
    cases hu : sameArch flag u.arch with
    | false => exact ih hrest ht
    | true =>
      have hdifferent := hfirst _ (mem_map_of_mem ht)
      unfold Different at hdifferent
      rw [sameArch_trans (sameArch_symm hu) hsame] at hdifferent
      cases hdifferent

theorem thin_of_fatInput (h : fatInput tools file = .ok thins) (ht : t ∈ thins)
    (hsame : sameArch flag t.arch = true) : thin tools flag file = .ok t.bytes := by
  unfold thin
  rw [h]
  dsimp only [bind, Except.bind]
  rw [find_of_different (fatInput_spec h).1 ht hsame]
  rfl

theorem fatInput_of_fatFile {slices : List ThinFile} (h : FatFileOf tools thins file arches slices) :
    fatInput tools file = .ok slices := by
  unfold fatInput
  rw [h.accepted]
  rfl

theorem thin_of_readsBack (h : ReadsBack tools file thins) (ht : t ∈ thins) :
    thin tools t.arch file = .ok t.bytes := by
  obtain ⟨aligned, arches, slices, hfile, hpairs⟩ := h
  have hmem : (t.arch, t.bytes) ∈ pairs aligned := by
    rw [hpairs]
    exact mem_map_of_mem ht
  obtain ⟨u, hu, heq⟩ := List.mem_map.mp hmem
  obtain ⟨harch, hbytes⟩ := Prod.mk.inj heq
  rw [← hbytes, ← harch]
  exact thin_of_fatInput (fatInput_of_fatFile hfile) (hfile.same.mem_iff.mpr hu) (sameArch_self _)

end Toolwhip.Lipo
