import Toolwhip.Ld64.DylibOrdinalsRank

/-! # When the ordinals are right

An ordinal is meant to be the position of a load command in the image. Besides the
bundle loaders' 255 three things can spoil it: a used alias of a dropped dylib, two
used bundle loaders, and a lazy command that is not laid out behind the others. -/

namespace Toolwhip.Ld64.DylibWriter
open Lib.Ranks Lib.SortContract List
set_option autoImplicit false

variable {w : DylibWriter}

def Used (w : DylibWriter) (info : DyLibUsed) : Prop :=
  info ∈ w.dynamicLibraries ∧ (w.library info.reader).providedExportAtom = true

def SharesInstallName (w : DylibWriter) (a b : DyLibUsed) : Prop :=
  a = b ∨ ∃ path, (w.library a.reader).getInstallPath = some path ∧
    (w.library b.reader).getInstallPath = some path

/-- Used readers' ordinals lead to their commands, however ties in the layout of the
load commands are resolved. -/
structure OrdinalsRight (w : DylibWriter) (r : OptimizedDylibs) : Prop where
  bundleLoader : ∀ info, w.Used info → info.options.fBundleLoader = true →
    w.ordinalForLibrary r info.reader = .ok EXECUTABLE_ORDINAL
  position : ∀ info, w.Used info → info.options.fBundleLoader = false →
    ∀ commands, Sorted commandBefore (w.retainedCommands r) commands →
      ∃ c n, commands[n]? = some c ∧
        (w.library c.reader).getInstallPath = (w.library info.reader).getInstallPath ∧
          w.ordinalForLibrary r info.reader = .ok (n + 1)
  retained : ∀ info, w.Used info → ∀ c,
    w.tables.fLibraryToLoadCommand info.reader = some c → r.fOptimizedAway c = false
  shared : ∀ info other, w.Used info → w.Used other →
    w.ordinalForLibrary r info.reader = w.ordinalForLibrary r other.reader →
      w.SharesInstallName info other

def Needed (w : DylibWriter) (c : DylibLoadCommandsAtom) : Prop :=
  ∃ info, w.Used info ∧ w.tables.fLibraryToLoadCommand info.reader = some c.reader

structure OrdinalsSafe (w : DylibWriter) : Prop where
  aliasOf : ∀ info, w.Used info → ∀ first,
    w.tables.fLibraryAliases info.reader = some first → w.canBeOptimizedAway first = false
  bundleLoaders : ∀ info other, w.Used info → w.Used other →
    info.options.fBundleLoader = true → other.options.fBundleLoader = true →
      w.SharesInstallName info other
  lazyLast : ∀ c ∈ w.keptCommands, ∀ d ∈ w.keptCommands,
    c.fLazyLoad = false → d.fLazyLoad = true → w.Needed c ∨ w.Needed d →
      c.getOrdinal < d.getOrdinal

theorem commandBefore_comparesKey : ComparesKey commandBefore (·.getOrdinal) := by
  intro a b
  exact decide_eq_true_iff

def tieKey (c : DylibLoadCommandsAtom) : Nat :=
  2 * c.getOrdinal + if c.fLazyLoad then 0 else 1

variable {info : DyLibUsed}

theorem Used.kept (h : w.Used info) : w.canBeOptimizedAway info.reader = false := by
  unfold canBeOptimizedAway
  rw [h.2]
  rfl

theorem Used.ne_self (h : w.Used info) : info.reader ≠ w.self := by
  intro heq
  apply w.self_not_mem
  rw [← heq]
  exact mem_map_of_mem h.1

theorem Renumbered.retainedCommands_eq {r : OptimizedDylibs} (h : w.Renumbered r) :
    w.retainedCommands r = w.keptCommands := by
  apply filter_congr
  intro c hc
  rw [h.away c hc]

theorem ordinalForLibrary_eq (htwo : w.nameSpace = .kTwoLevelNameSpace) {r : OptimizedDylibs}
    (hu : w.Used info) {o : Nat}
    (ho : r.fLibraryToOrdinal info.reader = some o) (hlt : o < 256) :
    w.ordinalForLibrary r info.reader = .ok o := by
  rw [ordinalForLibrary, if_neg (not_not_intro htwo), if_neg hu.ne_self, ho]
  exact congrArg Except.ok (Nat.mod_eq_of_lt hlt)

section Renumbered

variable {r : OptimizedDylibs} (hr : w.Renumbered r) (htwo : w.nameSpace = .kTwoLevelNameSpace)

include hr htwo

theorem ordinal_bundle {info : DyLibUsed} (hu : w.Used info)
    (hb : info.options.fBundleLoader = true) :
    w.ordinalForLibrary r info.reader = .ok EXECUTABLE_ORDINAL :=
  ordinalForLibrary_eq htwo hu (hr.bundle info hu.1 hb hu.kept) (Nat.lt_succ_self 255)

theorem rank_lt_max {c : DylibLoadCommandsAtom} (hc : c ∈ w.keptCommands) : w.rank c + 1 < 253 :=
  Nat.lt_of_le_of_lt (rank_lt hc) (hr.length_lt htwo)

theorem ordinal_command {info : DyLibUsed} (hu : w.Used info) {c : DylibLoadCommandsAtom}
    (hc : c ∈ w.keptCommands)
    (hor : c.reader = info.reader ∨ w.tables.fLibraryAliases info.reader = some c.reader) :
    w.ordinalForLibrary r info.reader = .ok (w.rank c + 1) := by
  have hlt := rank_lt_max hr htwo hc
  refine ordinalForLibrary_eq htwo hu ?_ (by omega)
  rcases hor with heq | halias
  · rw [← heq]
    exact hr.command c hc
  · exact hr.aliasOf info hu.1 c hc halias

end Renumbered

variable {c d : DylibLoadCommandsAtom}

theorem number_inj (hc : c ∈ w.keptCommands)
    (hd : d ∈ w.keptCommands) (h : c.number = d.number) : c = d :=
  eq_of_pairwise w.kept_pairwise hc hd (Nat.not_lt_of_le (Nat.le_of_eq h.symm))
    (Nat.not_lt_of_le (Nat.le_of_eq h))

theorem path_inj (hc : c ∈ w.tables.dylibCommands) (hd : d ∈ w.tables.dylibCommands)
    (h : (w.library c.reader).getInstallPath = (w.library d.reader).getInstallPath) : c = d :=
  eq_of_pairwise w.tables_numbered.paths hc hd (not_not_intro h) (not_not_intro h.symm)

theorem getOrdinal_lt_iff (h : c.fLazyLoad = d.fLazyLoad) :
    c.getOrdinal < d.getOrdinal ↔ c.number < d.number := by
  unfold DylibLoadCommandsAtom.getOrdinal
  rw [h]
  omega

theorem OrdinalsSafe.index_eq_rank (hsafe : w.OrdinalsSafe)
    (hc : c ∈ w.keptCommands) (hneed : w.Needed c) {commands : List DylibLoadCommandsAtom}
    (hs : Sorted commandBefore w.keptCommands commands) {n : Nat} (hn : commands[n]? = some c) :
    n = w.rank c := by
  have hbehind : ∀ d ∈ w.keptCommands, d.fLazyLoad = false → c.fLazyLoad = true →
      d.getOrdinal < c.getOrdinal :=
    fun d hd hdl hcl => hsafe.lazyLast d hd c hc hdl hcl (Or.inr hneed)
  have hahead : ∀ d ∈ w.keptCommands, d.fLazyLoad = true → c.fLazyLoad = false →
      c.getOrdinal < d.getOrdinal :=
    fun d hd hdl hcl => hsafe.lazyLast c hc d hd hcl hdl (Or.inl hneed)
  have hdiff : ∀ d ∈ w.keptCommands, d.getOrdinal = c.getOrdinal → d = c := by
    intro d hd heq
    cases hcl : c.fLazyLoad with
    | true =>
      cases hdl : d.fLazyLoad with
      | true =>
        refine number_inj hd hc ?_
        unfold DylibLoadCommandsAtom.getOrdinal at heq
        rw [hcl, hdl] at heq
        omega
      | false => exact absurd heq (Nat.ne_of_lt (hbehind d hd hdl hcl))
    | false =>
      cases hdl : d.fLazyLoad with
      | true => exact absurd heq.symm (Nat.ne_of_lt (hahead d hd hdl hcl))
      | false =>
        refine number_inj hd hc ?_
        unfold DylibLoadCommandsAtom.getOrdinal at heq
        rw [hcl, hdl] at heq
        omega
  rw [index_eq_countP hs commandBefore_comparesKey keptCommands_nodup hn hdiff]
  apply countP_congr
  intro d hd
  unfold precedes
  rw [decide_eq_true_iff]
  cases hcl : c.fLazyLoad with
  | true =>
    cases hdl : d.fLazyLoad with
    | true =>
      rw [getOrdinal_lt_iff (hdl.trans hcl.symm)]
      simp
    | false => simp [hbehind d hd hdl hcl]
  | false =>
    cases hdl : d.fLazyLoad with
    | true => simp [Nat.le_of_lt (hahead d hd hdl hcl)]
    | false =>
      rw [getOrdinal_lt_iff (hdl.trans hcl.symm)]
      simp

theorem command_of_needed (hu : w.Used info)
    (hcmd : w.tables.fLibraryToLoadCommand info.reader = some c.reader) :
    info.options.fBundleLoader = false ∧
      (w.library c.reader).getInstallPath = (w.library info.reader).getInstallPath ∧
        (c.reader = info.reader ∨ w.tables.fLibraryAliases info.reader = some c.reader) := by
  cases hb : info.options.fBundleLoader with
  | true =>
    rw [(w.tables_numbered.bundle info hu.1 hb).2.1] at hcmd
    cases hcmd
  | false =>
    obtain ⟨d, hd, hdcmd, hpath, hor⟩ := exists_command hu.1 hb
    rw [hcmd] at hdcmd
    have hreader := Option.some.inj hdcmd
    rw [← hreader] at hpath hor
    exact ⟨rfl, hpath, hor⟩

section
variable {r : OptimizedDylibs} (hright : w.OrdinalsRight r) (hr : w.Renumbered r)
    (htwo : w.nameSpace = .kTwoLevelNameSpace)
include hright hr htwo

/-- If the ordinals are right, needed commands stand at their rank also when ties put
lazy commands first. -/
theorem OrdinalsRight.rank_eq_countP
    {c : DylibLoadCommandsAtom} (hc : c ∈ w.keptCommands) (hneed : w.Needed c) :
    w.rank c = w.keptCommands.countP fun d => tieKey d < tieKey c := by
  have hkey : ComparesKey (fun a b => decide (tieKey a < tieKey b)) tieKey := by
    intro a b
    exact decide_eq_true_iff
  obtain ⟨commands, hs⟩ := exists_sorted hkey w.keptCommands
  have hlayout : Sorted commandBefore w.keptCommands commands := by
    refine ⟨hs.perm, (hs.pairwise_key hkey).imp ?_⟩
    intro a b hab
    unfold tieKey at hab
    unfold commandBefore
    rw [decide_eq_false_iff_not]
    split at hab <;> split at hab <;> omega
  obtain ⟨info, hu, hcmd⟩ := hneed
  have hcMem := (mem_keptCommands.mp hc).1
  obtain ⟨hb, hpath, hor⟩ := command_of_needed hu hcmd
  rw [← hr.retainedCommands_eq] at hlayout
  obtain ⟨d, n, hn, hdpath, hord⟩ := hright.position info hu hb commands hlayout
  have hd : d ∈ w.keptCommands := hs.perm.mem_iff.mp (mem_of_getElem? hn)
  have hdc : d = c := path_inj (mem_keptCommands.mp hd).1 hcMem (hdpath.trans hpath.symm)
  subst hdc
  rw [ordinal_command hr htwo hu hc hor] at hord
  have hrank := Except.ok.inj hord
  have hdiff : ∀ e ∈ w.keptCommands, tieKey e = tieKey d → e = d := by
    intro e he heq
    refine number_inj he hc ?_
    unfold tieKey DylibLoadCommandsAtom.getOrdinal at heq
    cases hel : e.fLazyLoad <;> cases hdl : d.fLazyLoad <;> rw [hel, hdl] at heq <;>
      simp only [if_true, Bool.false_eq_true, if_false] at heq <;> omega
  rw [← index_eq_countP hs hkey keptCommands_nodup hn hdiff]
  omega

theorem OrdinalsRight.lazyLast
    {c d : DylibLoadCommandsAtom} (hc : c ∈ w.keptCommands) (hd : d ∈ w.keptCommands)
    (hcl : c.fLazyLoad = false) (hdl : d.fLazyLoad = true) (hneed : w.Needed c ∨ w.Needed d) :
    c.getOrdinal < d.getOrdinal := by
  by_contra hle
  rcases hneed with hneed | hneed
  · have hrank := hright.rank_eq_countP hr htwo hc hneed
    have hlt : w.rank c < w.keptCommands.countP fun e => tieKey e < tieKey c := by
      refine countP_lt_of_imp ?_ hd ?_ ?_
      · intro e _ he
        unfold precedes at he
        unfold tieKey DylibLoadCommandsAtom.getOrdinal
        cases hel : e.fLazyLoad <;> rw [hel] at he <;> simp_all
      · unfold precedes
        rw [hcl, hdl]
        rfl
      · rw [decide_eq_true_iff]
        unfold tieKey
        rw [hcl, hdl]
        simp only [if_true, Bool.false_eq_true, if_false]
        omega
    omega
  · have hrank := hright.rank_eq_countP hr htwo hd hneed
    have hlt : (w.keptCommands.countP fun e => tieKey e < tieKey d) < w.rank d := by
      refine countP_lt_of_imp ?_ hc ?_ ?_
      · intro e _ he
        unfold tieKey DylibLoadCommandsAtom.getOrdinal at he
        unfold precedes
        cases hel : e.fLazyLoad <;> rw [hel] at he <;> simp_all
      · rw [decide_eq_false_iff_not]
        unfold tieKey
        rw [hcl, hdl]
        simp only [if_true, Bool.false_eq_true, if_false]
        omega
      · unfold precedes
        rw [hcl, hdl]
        rfl
    omega

theorem OrdinalsRight.safe : w.OrdinalsSafe where
  aliasOf := by
    intro info hu first hal
    cases hb : info.options.fBundleLoader with
    | true =>
      rw [(w.tables_numbered.bundle info hu.1 hb).2.2] at hal
      cases hal
    | false =>
      obtain ⟨c, hc, hcmd, -, hor⟩ := exists_command hu.1 hb
      rcases hor with heq | halias
      · obtain ⟨i, hi⟩ := mem_iff_getElem?.mp hc
        rw [← heq, (w.tables_numbered.command i c hi).2.2.1] at hal
        cases hal
      · rw [hal] at halias
        rw [Option.some.inj halias, ← hr.away c hc]
        exact hright.retained info hu c.reader hcmd
  bundleLoaders := by
    intro info other hu ho hb hob
    apply hright.shared info other hu ho
    rw [hright.bundleLoader info hu hb, hright.bundleLoader other ho hob]
  lazyLast := fun _ hc _ hd hcl hdl hneed => hright.lazyLast hr htwo hc hd hcl hdl hneed

end

theorem OrdinalsSafe.exists_kept (hsafe : w.OrdinalsSafe) (hu : w.Used info)
    (hb : info.options.fBundleLoader = false) :
    ∃ c ∈ w.keptCommands, w.tables.fLibraryToLoadCommand info.reader = some c.reader ∧
      (w.library c.reader).getInstallPath = (w.library info.reader).getInstallPath ∧
        (c.reader = info.reader ∨ w.tables.fLibraryAliases info.reader = some c.reader) := by
  obtain ⟨c, hc, hcmd, hpath, hor⟩ := exists_command hu.1 hb
  refine ⟨c, mem_keptCommands.mpr ⟨hc, ?_⟩, hcmd, hpath, hor⟩
  rcases hor with heq | halias
  · rw [heq]
    exact hu.kept
  · exact hsafe.aliasOf info hu c.reader halias

theorem OrdinalsSafe.right (hsafe : w.OrdinalsSafe) {r : OptimizedDylibs} (hr : w.Renumbered r)
    (htwo : w.nameSpace = .kTwoLevelNameSpace) : w.OrdinalsRight r where
  bundleLoader := fun _ hu hb => ordinal_bundle hr htwo hu hb
  position := by
    intro info hu hb commands hs
    rw [hr.retainedCommands_eq] at hs
    obtain ⟨c, hc, hcmd, hpath, hor⟩ := hsafe.exists_kept hu hb
    obtain ⟨n, hn⟩ := mem_iff_getElem?.mp (hs.perm.mem_iff.mpr hc)
    refine ⟨c, n, hn, hpath, ?_⟩
    rw [hsafe.index_eq_rank hc ⟨info, hu, hcmd⟩ hs hn]
    exact ordinal_command hr htwo hu hc hor
  retained := by
    intro info hu c' hcmd'
    cases hb : info.options.fBundleLoader with
    | true =>
      rw [(w.tables_numbered.bundle info hu.1 hb).2.1] at hcmd'
      cases hcmd'
    | false =>
      obtain ⟨c, hc, hcmd, -, -⟩ := hsafe.exists_kept hu hb
      rw [hcmd] at hcmd'
      obtain ⟨hcMem, hkeep⟩ := mem_keptCommands.mp hc
      rw [← Option.some.inj hcmd', hr.away c hcMem, hkeep]
  shared := by
    intro info other hu ho hsame
    cases hb : info.options.fBundleLoader with
    | true =>
      cases hob : other.options.fBundleLoader with
      | true => exact hsafe.bundleLoaders info other hu ho hb hob
      | false =>
        obtain ⟨c, hc, -, -, hor⟩ := hsafe.exists_kept ho hob
        rw [ordinal_bundle hr htwo hu hb, ordinal_command hr htwo ho hc hor] at hsame
        have hlt := rank_lt_max hr htwo hc
        have h255 : 255 = w.rank c + 1 := Except.ok.inj hsame
        omega
    | false =>
      obtain ⟨c, hc, hcmd, hpath, hor⟩ := hsafe.exists_kept hu hb
      cases hob : other.options.fBundleLoader with
      | true =>
        rw [ordinal_bundle hr htwo ho hob, ordinal_command hr htwo hu hc hor] at hsame
        have hlt := rank_lt_max hr htwo hc
        have h255 : w.rank c + 1 = 255 := Except.ok.inj hsame
        omega
      | false =>
        obtain ⟨d, hd, hdcmd, hdpath, hdor⟩ := hsafe.exists_kept ho hob
        rw [ordinal_command hr htwo hu hc hor, ordinal_command hr htwo ho hd hdor] at hsame
        have hranks := Except.ok.inj hsame
        -- Both commands stand at the same position of any layout.
        obtain ⟨commands, hs⟩ := exists_sorted commandBefore_comparesKey w.keptCommands
        obtain ⟨n, hn⟩ := mem_iff_getElem?.mp (hs.perm.mem_iff.mpr hc)
        obtain ⟨m, hm⟩ := mem_iff_getElem?.mp (hs.perm.mem_iff.mpr hd)
        have hnc := hsafe.index_eq_rank hc ⟨info, hu, hcmd⟩ hs hn
        have hmd := hsafe.index_eq_rank hd ⟨other, ho, hdcmd⟩ hs hm
        have hnm : n = m := by omega
        rw [hnm, hm] at hn
        rw [Option.some.inj hn] at hdpath
        obtain ⟨path, hsome⟩ := Option.isSome_iff_exists.mp (w.has_path info hu.1 hb)
        exact Or.inr ⟨path, hsome, by rw [← hdpath, hpath, hsome]⟩

/-- While bundle loaders keep their ordinal to themselves, the ordinals are right
exactly when they are safe. -/
theorem ordinalsRight_iff (w : DylibWriter) (htwo : w.nameSpace = .kTwoLevelNameSpace)
    {r : OptimizedDylibs} (h : w.optimizeDylibReferences = .ok r) :
    (w.BundleLoadersApart ∧ w.OrdinalsSafe → w.OrdinalsRight r) ∧
      (w.BundleLoadersApart → w.OrdinalsRight r → w.OrdinalsSafe) := by
  constructor
  · rintro ⟨hapart, hsafe⟩
    exact hsafe.right (optimizeDylibReferences_renumbered hapart h) htwo
  · intro hapart hright
    exact hright.safe (optimizeDylibReferences_renumbered hapart h) htwo

/-- Two dylibs on the command line of a two-level, dead stripping link. -/
def twoDylibs (first second : DylibReader) (hfirst : first.getInstallPath.isSome)
    (hsecond : second.getInstallPath.isSome) : DylibWriter where
  dynamicLibraries := [
    ⟨1, { fLazyLoad := first.isLazyLoadedDylib }⟩,
    ⟨2, { fLazyLoad := second.isLazyLoadedDylib }⟩]
  library := fun r => if r = 1 then first else second
  self := 0
  outputKind := .kDynamicExecutable
  nameSpace := .kTwoLevelNameSpace
  deadStripDylibs := true
  installPath := none
  macosxVersionMinBefore10_5 := false
  fgCurrentOrdinal := 5
  distinct := by
    change [1, 2].Nodup
    decide
  self_not_mem := by
    change 0 ∉ [1, 2]
    decide
  has_path := by
    intro info hinfo _
    rcases List.mem_pair.mp hinfo with rfl | rfl
    · exact hfirst
    · exact hsecond
  lazy_eq := by
    intro info hinfo
    rcases List.mem_pair.mp hinfo with rfl | rfl
    · rfl
    · rfl

def lazyAndSystem : DylibWriter :=
  twoDylibs
    { getInstallPath := some "/usr/lib/libz.dylib"
      providedExportAtom := true
      isLazyLoadedDylib := true }
    { getInstallPath := some "/usr/lib/libSystem.B.dylib"
      providedExportAtom := true } rfl rfl

theorem ordinalsRight_lazyAndSystem :
    ∃ r, lazyAndSystem.optimizeDylibReferences = .ok r ∧ lazyAndSystem.OrdinalsRight r := by
  refine ⟨_, rfl, (ordinalsRight_iff lazyAndSystem rfl rfl).1 ⟨?_, ?_, ?_, ?_⟩⟩
  · intro info hinfo hb
    rcases List.mem_pair.mp hinfo with rfl | rfl
    · cases hb
    · cases hb
  · intro info hu first hal
    rcases List.mem_pair.mp hu.1 with rfl | rfl
    · cases hal
    · cases hal
  · intro info other hu _ hb
    rcases List.mem_pair.mp hu.1 with rfl | rfl
    · cases hb
    · cases hb
  · intro c hc d hd hcl hdl _
    rcases List.mem_pair.mp hc with rfl | rfl
    · cases hcl
    rcases List.mem_pair.mp hd with rfl | rfl
    · decide
    · cases hdl

def usedAlias : DylibWriter :=
  twoDylibs
    { getInstallPath := some "/usr/lib/libSystem.B.dylib" }
    { getInstallPath := some "/usr/lib/libSystem.B.dylib"
      providedExportAtom := true } rfl rfl

theorem ordinals_wrong_for_usedAlias :
    ∃ r, usedAlias.optimizeDylibReferences = .ok r ∧ ¬ usedAlias.OrdinalsRight r ∧
      usedAlias.ordinalForLibrary r 2 = .ok 255 := by
  refine ⟨_, rfl, ?_, rfl⟩
  intro hright
  have hused : usedAlias.Used ⟨2, {}⟩ := ⟨mem_cons_of_mem _ mem_cons_self, rfl⟩
  have haway := hright.retained _ hused 1 rfl
  cases haway

end Toolwhip.Ld64.DylibWriter
