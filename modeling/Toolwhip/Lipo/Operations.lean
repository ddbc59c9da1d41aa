import Toolwhip.Lipo.Laws

/-! # What holds of every run

The edits are stated about files: what is read from the output is the edited map of what is read
from the input. -/

namespace Toolwhip.Lipo
open Lib.BigEndian List
set_option autoImplicit false

/-- The laws; `ReadsBack` says what is in the output. -/
structure LipoLaws (tools : Tools) : Prop where
  created : ∀ segaligns thins aligned, (thins.map ThinFile.arch).Pairwise Different →
    (∀ t ∈ thins, t.align ≤ MAXSECTALIGN) → Applies segaligns thins aligned → Fits tools aligned →
    ∃ file, create tools segaligns thins = .ok file ∧ ReadsBack tools file thins ∧
      ∀ t ∈ thins, thin tools t.arch file = .ok t.bytes
  extracted : ∀ file thins, fatInput tools file = .ok thins → ∀ flags, Present flags thins →
    checkExtracts thins 0 flags = .ok () → ∀ segaligns aligned,
    Applies segaligns (thins.filter fun t => named flags t.arch) aligned → Fits tools aligned →
    ∃ out, extract tools segaligns false flags file = .ok out ∧
      ReadsBack tools out (thins.filter fun t => named flags t.arch)
  removed : ∀ file thins, fatInput tools file = .ok thins → ∀ flags, flags.Pairwise Different →
    Present flags thins → (∃ t ∈ thins, named flags t.arch = false) → ∀ segaligns aligned,
    Applies segaligns (thins.filter fun t => !named flags t.arch) aligned → Fits tools aligned →
    ∃ out, remove tools segaligns flags file = .ok out ∧
      ReadsBack tools out (thins.filter fun t => !named flags t.arch)
  removedAll : ∀ file thins, fatInput tools file = .ok thins → ∀ flags, flags.Pairwise Different →
    Present flags thins → (∀ t ∈ thins, named flags t.arch = true) →
    ∀ segaligns, remove tools segaligns flags file = .error .emptyFatFile
  replaced : ∀ file thins, fatInput tools file = .ok thins → ∀ news : List (Replace × ThinFile),
    (news.map fun n => n.1.arch_flag).Pairwise Different →
    (∀ n ∈ news, process_replace_file tools n.1 = .ok n.2) →
    Present (news.map fun n => n.1.arch_flag) thins → ∀ segaligns aligned,
    Applies segaligns (thins.map (replacedBy news)) aligned → Fits tools aligned →
    ∃ out, replace tools segaligns (news.map Prod.fst) file = .ok out ∧
      ReadsBack tools out (thins.map (replacedBy news))
  removedTwice : ∀ segaligns flags file, ¬ flags.Pairwise Different →
    ∃ e, remove tools segaligns flags file = .error e
  replacedTwice : ∀ segaligns (replaces : List Replace) file,
    ¬ (replaces.map Replace.arch_flag).Pairwise Different →
    ∃ e, replace tools segaligns replaces file = .error e
  fatReplaced : tools.host = .big → ∀ segaligns (replaces : List Replace) file,
    (∃ r ∈ replaces, isFat r.file = true) → ∃ e, replace tools segaligns replaces file = .error e

section Operations
variable {tools : Tools}

theorem firstSame_isSome {l : List Arch} (h : ¬ l.Pairwise Different) : ∃ p, firstSame l = some p := by
  cases hsame : firstSame l with
  | none => exact absurd (firstSame_eq_none.mp hsame) h
  | some p => exact ⟨p, rfl⟩

theorem different_filter {thins : List ThinFile} (p : ThinFile → Bool)
    (h : (thins.map ThinFile.arch).Pairwise Different) :
    ((thins.filter p).map ThinFile.arch).Pairwise Different :=
  h.sublist ((filter_sublist (p := p) (l := thins)).map ThinFile.arch)

theorem different_unmarked {thins : List ThinFile}
    (h : (thins.map ThinFile.arch).Pairwise Different) :
    ((unmarked thins).map fun p => p.1.arch).Pairwise Different := by
  unfold unmarked
  rw [map_map]
  exact h

theorem create_law {segaligns : List (Arch × Nat)} {thins aligned : List ThinFile}
    (hdifferent : (thins.map ThinFile.arch).Pairwise Different)
    (haligns : ∀ t ∈ thins, t.align ≤ MAXSECTALIGN) (happlies : Applies segaligns thins aligned)
    (hfits : Fits tools aligned) :
    ∃ file, create tools segaligns thins = .ok file ∧ ReadsBack tools file thins ∧
      ∀ t ∈ thins, thin tools t.arch file = .ok t.bytes := by
  obtain ⟨file, hfile, hreads⟩ := create_fat_readsBack hdifferent haligns happlies hfits
  refine ⟨file, ?_, hreads, fun t ht => thin_of_readsBack hreads ht⟩
  unfold create
  rw [firstSame_eq_none.mpr hdifferent]
  exact hfile

section
variable {file : List UInt8} {thins : List ThinFile} (hinput : fatInput tools file = .ok thins)
include hinput

variable {flags : List Arch} {segaligns : List (Arch × Nat)} {aligned : List ThinFile}

theorem extract_law (hpresent : Present flags thins) (hcheck : checkExtracts thins 0 flags = .ok ())
    (happlies : Applies segaligns (thins.filter fun t => named flags t.arch) aligned)
    (hfits : Fits tools aligned) : ∃ out, extract tools segaligns false flags file = .ok out ∧
      ReadsBack tools out (thins.filter fun t => named flags t.arch) := by
  obtain ⟨hdifferent, haligns⟩ := fatInput_spec hinput
  obtain ⟨out, hout, hreads⟩ := create_fat_readsBack (different_filter _ hdifferent)
    (fun t ht => haligns t (List.mem_filter.mp ht).1) happlies hfits
  refine ⟨out, ?_, hreads⟩
  rw [← fst_unmarked thins] at hpresent
  unfold extract
  rw [hinput]
  dsimp only [bind, Except.bind]
  rw [hcheck]
  rw [markExtracts_eq hpresent]
  dsimp only
  rw [marked_of_unmarked]
  exact hout

theorem remove_eq (hflags : flags.Pairwise Different) (hpresent : Present flags thins)
    (segaligns : List (Arch × Nat)) : remove tools segaligns flags file =
      if (thins.filter fun t => !named flags t.arch) = [] then .error .emptyFatFile
      else create_fat tools segaligns false (thins.filter fun t => !named flags t.arch) := by
  have hdifferent := different_unmarked (fatInput_spec hinput).1
  rw [← fst_unmarked thins] at hpresent
  unfold remove
  rw [hinput]
  dsimp only [bind, Except.bind]
  rw [firstSame_eq_none.mpr hflags]
  rw [markRemoves_eq hdifferent hpresent]
  dsimp only
  rw [unmarked_of_unmarked]

theorem remove_law (hflags : flags.Pairwise Different) (hpresent : Present flags thins)
    (hkept : ∃ t ∈ thins, named flags t.arch = false)
    (happlies : Applies segaligns (thins.filter fun t => !named flags t.arch) aligned)
    (hfits : Fits tools aligned) : ∃ out, remove tools segaligns flags file = .ok out ∧
      ReadsBack tools out (thins.filter fun t => !named flags t.arch) := by
  obtain ⟨hdifferent, haligns⟩ := fatInput_spec hinput
  obtain ⟨out, hout, hreads⟩ := create_fat_readsBack (different_filter _ hdifferent)
    (fun t ht => haligns t (List.mem_filter.mp ht).1) happlies hfits
  refine ⟨out, ?_, hreads⟩
  obtain ⟨t, ht, hnamed⟩ := hkept
  have hmem : t ∈ thins.filter fun t => !named flags t.arch :=
    List.mem_filter.mpr ⟨ht, by rw [hnamed]; rfl⟩
  rw [remove_eq hinput hflags hpresent, if_neg (ne_nil_of_mem hmem)]
  exact hout

theorem replace_law {news : List (Replace × ThinFile)}
    (hflags : (news.map fun n => n.1.arch_flag).Pairwise Different)
    (hnews : ∀ n ∈ news, process_replace_file tools n.1 = .ok n.2)
    (hpresent : Present (news.map fun n => n.1.arch_flag) thins)
    (happlies : Applies segaligns (thins.map (replacedBy news)) aligned)
    (hfits : Fits tools aligned) :
    ∃ out, replace tools segaligns (news.map Prod.fst) file = .ok out ∧
      ReadsBack tools out (thins.map (replacedBy news)) := by
  obtain ⟨hdifferent, haligns⟩ := fatInput_spec hinput
  have hreplaced : ∀ t, sameArch (replacedBy news t).arch t.arch = true := by
    intro t
    unfold replacedBy
    split
    · rename_i n hfind
      have hn := mem_of_find?_eq_some hfind
      have hflag := @List.find?_some _ (fun n : Replace × ThinFile => sameArch n.1.arch_flag t.arch)
        _ _ hfind
      exact sameArch_trans (arch_of_replacement (hnews n hn)) hflag
    · exact sameArch_self _
  have haligns' : ∀ t ∈ thins.map (replacedBy news), t.align ≤ MAXSECTALIGN := by
    intro u hu
    obtain ⟨t, ht, rfl⟩ := List.mem_map.mp hu
    unfold replacedBy
    split
    · rename_i n hfind
      exact align_of_replacement (hnews n (mem_of_find?_eq_some hfind))
    · exact haligns t ht
  obtain ⟨out, hout, hreads⟩ := create_fat_readsBack (different_map hreplaced hdifferent) haligns'
    happlies hfits
  refine ⟨out, ?_, hreads⟩
  have hsame : (news.map Prod.fst).map Replace.arch_flag = news.map fun n => n.1.arch_flag := by
    rw [map_map]
    rfl
  unfold replace
  rw [hinput, hsame]
  dsimp only [bind, Except.bind]
  rw [firstSame_eq_none.mpr hflags]
  rw [replaceThins_eq hflags hnews hdifferent hpresent]
  exact hout

end

theorem process_replace_file_fat (hhost : tools.host = .big) {replace : Replace}
    (hfat : isFat replace.file = true) :
    process_replace_file tools replace = .error .replacementIsFat := by
  have hmagic : sizeof_fat_header ≤ replace.file.length ∧
      hostWord tools.host replace.file = FAT_MAGIC := by
    rw [hhost]
    exact of_decide_eq_true hfat
  unfold process_replace_file
  rw [if_pos hmagic]
  rfl

theorem replaceThins_fat (hhost : tools.host = .big) {replaces : List Replace}
    (hfat : ∃ r ∈ replaces, isFat r.file = true) (thins : List ThinFile) :
    ∃ e, replaceThins tools replaces thins = .error e := by
  induction replaces generalizing thins with
  | nil =>
    obtain ⟨r, hr, -⟩ := hfat
    cases hr
  | cons r replaces ih =>
    unfold replaceThins
    cases hthin : process_replace_file tools r with
    | error e => exact ⟨e, rfl⟩
    | ok thin =>
      have hrest : ∃ s ∈ replaces, isFat s.file = true := by
        obtain ⟨s, hs, hfat⟩ := hfat
        rcases List.mem_cons.mp hs with rfl | hs
        · rw [process_replace_file_fat hhost hfat] at hthin
          cases hthin
        · exact ⟨s, hs, hfat⟩
      dsimp only [bind, Except.bind]
      split
      · exact ⟨_, rfl⟩
      · exact ih hrest _

theorem fails_of_edit {α : Type} {file : List UInt8} {edit : List ThinFile → Except LipoError α}
    (h : ∀ thins, ∃ e, edit thins = .error e) : ∃ e, (fatInput tools file >>= edit) = .error e := by
  cases fatInput tools file with
  | error e => exact ⟨e, rfl⟩
  | ok thins => exact h thins

end Operations

theorem lipo_laws (tools : Tools) : LipoLaws tools where
  created _ _ _ hdifferent haligns happlies hfits := create_law hdifferent haligns happlies hfits
  extracted _ _ hinput _ hpresent hcheck _ _ happlies hfits :=
    extract_law hinput hpresent hcheck happlies hfits
  removed _ _ hinput _ hflags hpresent hkept _ _ happlies hfits :=
    remove_law hinput hflags hpresent hkept happlies hfits
  removedAll file thins hinput flags hflags hpresent hall segaligns := by
    have hnone : (thins.filter fun t => !named flags t.arch) = [] := by
      rw [filter_eq_nil_iff]
      intro t ht
      rw [hall t ht]
      exact Bool.false_ne_true
    rw [remove_eq hinput hflags hpresent, if_pos hnone]
  replaced _ _ hinput _ hflags hnews hpresent _ _ happlies hfits :=
    replace_law hinput hflags hnews hpresent happlies hfits
  removedTwice segaligns flags file htwice := by
    obtain ⟨p, hp⟩ := firstSame_isSome htwice
    apply fails_of_edit
    intro thins
    rw [hp]
    exact ⟨_, rfl⟩
  replacedTwice segaligns replaces file htwice := by
    obtain ⟨p, hp⟩ := firstSame_isSome htwice
    apply fails_of_edit
    intro thins
    rw [hp]
    exact ⟨_, rfl⟩
  fatReplaced hhost segaligns replaces file hfat := by
    apply fails_of_edit
    intro thins
    split
    · exact ⟨_, rfl⟩
    obtain ⟨e, he⟩ := replaceThins_fat hhost hfat thins
    rw [he]
    exact ⟨e, rfl⟩

def plainTools (host : ByteOrder) : Tools where
  recognize _ := .ok none
  align_le _ _ _ := nofun
  host := host
  qsort thins := thins.insertionSort fun a b => a.align ≤ b.align
  sorted thins := by
    have htotal : Std.Total fun a b : ThinFile => a.align ≤ b.align :=
      ⟨fun a b => Nat.le_total a.align b.align⟩
    have htrans : IsTrans ThinFile fun a b => a.align ≤ b.align :=
      ⟨fun _ _ _ => Nat.le_trans⟩
    refine ⟨perm_insertionSort _ thins, (pairwise_insertionSort _ thins).imp ?_⟩
    intro a b hab
    exact decide_eq_false (Nat.not_lt.mpr hab)

def i386 : Arch := { cputype := 7, cpusubtype := 3 }
def ppc : Arch := { cputype := 18, cpusubtype := 0 }

def oneSlice : List UInt8 := writeFat false [{ arch := i386, align := 0, bytes := [65] }]

/-- In the file `ppc` comes last, behind padding. -/
def twoThins : List ThinFile :=
  [{ arch := ppc, align := 6, bytes := [66, 67] }, { arch := i386, align := 0, bytes := [65] }]

def twoSlices : List UInt8 := writeFat false ((plainTools .big).qsort twoThins)

theorem twoThins_placeable : Placeable (plainTools .big) twoThins :=
  ⟨List.Pairwise.cons (by simp [Different, sameArch, ppc, i386]) (pairwise_singleton _ _),
    by simp [twoThins, MAXSECTALIGN], by simp [twoThins, Solid], by decide⟩

theorem fatInput_twoSlices : fatInput (plainTools .big) twoSlices = .ok twoThins.reverse := by
  have hsorted : (plainTools .big).qsort twoThins = twoThins.reverse := rfl
  have hinput := fatInput_of_fatFile (writeFat_fatFileOf twoThins_placeable)
  rw [hsorted] at hinput
  exact hinput

/-- What `ppc` is replaced by. -/
def newer : Replace × ThinFile :=
  ({ arch_flag := ppc, file := [68] }, { arch := ppc, align := 0, bytes := [68] })

/-- Two slices are written and read back; then the last one is extracted, removed and replaced. -/
theorem two_slices_thin :
    create (plainTools .big) [] twoThins = .ok twoSlices ∧
      thin (plainTools .big) ppc twoSlices = .ok [66, 67] ∧
      (∃ out, extract (plainTools .big) [] false [ppc] twoSlices = .ok out ∧
        thin (plainTools .big) ppc out = .ok [66, 67]) ∧
      (∃ out, remove (plainTools .big) [] [ppc] twoSlices = .ok out ∧
        thin (plainTools .big) i386 out = .ok [65]) ∧
      (∃ out, replace (plainTools .big) [] [newer.1] twoSlices = .ok out ∧
        thin (plainTools .big) ppc out = .ok [68] ∧ thin (plainTools .big) i386 out = .ok [65]) ∧
      remove (plainTools .big) [] [i386, ppc] twoSlices = .error .emptyFatFile ∧
      (∃ e, remove (plainTools .big) [] [ppc, ppc] twoSlices = .error e) ∧
      (∃ e, replace (plainTools .big) [] [newer.1, newer.1] twoSlices = .error e) ∧
      ∃ e, replace (plainTools .big) [] [{ arch_flag := ppc, file := twoSlices }] twoSlices =
        .error e := by
  have hlaws := lipo_laws (plainTools .big)
  have hone : Present [ppc] twoThins.reverse := by
    intro flag hflag
    cases List.mem_singleton.mp hflag
    exact ⟨twoThins[0], by simp [twoThins], rfl⟩
  have hboth : Present [i386, ppc] twoThins.reverse := by
    simp [Present, twoThins, sameArch_self]
  have htwice : ¬ [ppc, ppc].Pairwise Different := by simp [Different, sameArch_self]
  have hall : ∀ t ∈ twoThins.reverse, named [i386, ppc] t.arch = true := by decide
  have hfat : isFat twoSlices = true := by decide
  obtain ⟨file, hfile, -, hthin⟩ := hlaws.created [] twoThins twoThins twoThins_placeable.different
    twoThins_placeable.aligned (applies_nil _) ⟨twoThins_placeable.solid, twoThins_placeable.small⟩
  have hcreate : create (plainTools .big) [] twoThins = .ok twoSlices := rfl
  cases hcreate.symm.trans hfile
  obtain ⟨extracted, hextract, hkept⟩ := hlaws.extracted _ _ fatInput_twoSlices [ppc] hone rfl [] _
    (applies_nil _) ⟨by simp [twoThins, Solid], by decide⟩
  obtain ⟨removed, hremove, hleft⟩ := hlaws.removed _ _ fatInput_twoSlices [ppc]
    (pairwise_singleton _ _) hone ⟨twoThins[1], by simp [twoThins], by decide⟩ [] _ (applies_nil _)
    ⟨by simp [twoThins, Solid], by decide⟩
  obtain ⟨replaced, hreplace, hupdated⟩ := hlaws.replaced _ _ fatInput_twoSlices [newer]
    (pairwise_singleton _ _) (by simp [newer]; rfl) hone [] _ (applies_nil _)
    ⟨by simp [Solid, twoThins, replacedBy, newer, sameArch, ppc, i386], by decide⟩
  refine ⟨hcreate, hthin _ mem_cons_self, ⟨extracted, hextract, ?_⟩, ⟨removed, hremove, ?_⟩,
    ⟨replaced, hreplace, ?_, ?_⟩, ?_, ?_, ?_, ?_⟩
  · exact thin_of_readsBack hkept mem_cons_self
  · exact thin_of_readsBack hleft mem_cons_self
  · exact thin_of_readsBack (t := newer.2) hupdated (by decide)
  · exact thin_of_readsBack (t := twoThins[1]) hupdated (by decide)
  · exact hlaws.removedAll _ _ fatInput_twoSlices [i386, ppc]
      (List.Pairwise.cons (by simp [Different, sameArch, ppc, i386]) (pairwise_singleton _ _))
      hboth hall []
  · exact hlaws.removedTwice [] [ppc, ppc] twoSlices htwice
  · exact hlaws.replacedTwice [] [newer.1, newer.1] twoSlices htwice
  · exact hlaws.fatReplaced rfl [] _ twoSlices ⟨_, mem_singleton_self _, hfat⟩

theorem fatInput_oneSlice : fatInput (plainTools .big) oneSlice =
    .ok [{ arch := i386, align := 0, bytes := [65] }] := by
  have hplaceable : Placeable (plainTools .big) [{ arch := i386, align := 0, bytes := [65] }] :=
    ⟨pairwise_singleton _ _, by simp, by simp [Solid], by decide⟩
  have hsorted : (plainTools .big).qsort [{ arch := i386, align := 0, bytes := [65] }] =
      [{ arch := i386, align := 0, bytes := [65] }] := rfl
  have hfile := fatInput_of_fatFile (writeFat_fatFileOf hplaceable)
  exact hfile

/-- Nothing would be left. -/
theorem last_slice_stays :
    fatInput (plainTools .big) oneSlice = .ok [{ arch := i386, align := 0, bytes := [65] }] ∧
      [i386].Pairwise Different ∧
      Present [i386] [{ arch := i386, align := 0, bytes := [65] }] ∧
      ∀ out, remove (plainTools .big) [] [i386] oneSlice ≠ .ok out := by
  have hpresent : Present [i386] [{ arch := i386, align := 0, bytes := [65] }] := by
    intro flag hflag
    cases List.mem_singleton.mp hflag
    exact ⟨_, mem_singleton_self _, rfl⟩
  refine ⟨fatInput_oneSlice, pairwise_singleton _ _, hpresent, ?_⟩
  intro out hout
  rw [remove_eq fatInput_oneSlice (pairwise_singleton _ _) hpresent, if_pos (by decide)] at hout
  cases hout

/-- The same architecture twice: the second flag is compared with the second thin file. -/
example : checkExtracts [{ arch := i386, align := 0, bytes := [] },
    { arch := ppc, align := 0, bytes := [] }] 0 [i386, i386] = .ok () := rfl

/-- A little-endian host does not see that the file is fat. -/
example : process_replace_file (plainTools .little)
    { arch_flag := i386, file := encodeWords [FAT_MAGIC, 0] } =
      .ok { arch := i386, align := 0, bytes := encodeWords [FAT_MAGIC, 0] } := by decide

end Toolwhip.Lipo
