import Mathlib.Data.List.Infix
import Toolwhip.Lipo.FatFile

/-! # Where the slices lie

As long as the file stays below 2^32 bytes the slices follow each other at multiples of their
alignments, and what is written there can be read there. -/

namespace Toolwhip.Lipo
open Lib.AlignUp Lib.ByteBuffer List
set_option autoImplicit false
variable {arches : List FatArch} {thins : List ThinFile} {file : List UInt8} {buf : List UInt8}
    {a b : Arch}
  {pos : Nat} {bytes : List UInt8} {tools : Tools}

def fatEnd : Nat → List ThinFile → Nat
  | offset, [] => offset
  | offset, t :: rest => fatEnd (alignUp (2 ^ t.align) offset + t.bytes.length) rest

theorem le_fatEnd (offset : Nat) (thins : List ThinFile) : offset ≤ fatEnd offset thins := by
  induction thins generalizing offset with
  | nil => exact Nat.le_refl _
  | cons t rest ih =>
    have hle := le_alignUp (Nat.two_pow_pos t.align) offset
    have hrest := ih (alignUp (2 ^ t.align) offset + t.bytes.length)
    unfold fatEnd
    omega

theorem round_eq {v k : Nat} (hk : k ≤ MAXSECTALIGN) (h : alignUp (2 ^ k) v < 2 ^ 32) :
    round v (2 ^ k) = alignUp (2 ^ k) v := by
  have hle := le_alignUp (Nat.two_pow_pos k) v
  have hroom : v + 2 ^ k ≤ 2 ^ 32 := by
    -- two multiples of the alignment differ by it at least
    obtain ⟨m, hm⟩ := dvd_alignUp (2 ^ k) v
    have hk32 : k ≤ 32 := Nat.le_trans hk (by decide)
    have htop : 2 ^ 32 = 2 ^ k * 2 ^ (32 - k) := by
      rw [← Nat.pow_add, Nat.add_sub_cancel' hk32]
    have hlt : m < 2 ^ (32 - k) := by
      rw [hm, htop] at h
      exact Nat.lt_of_mul_lt_mul_left h
    have hnext : 2 ^ k * (m + 1) ≤ 2 ^ 32 := by
      rw [htop]
      exact Nat.mul_le_mul_left _ hlt
    rw [Nat.mul_add, ← hm] at hnext
    omega
  unfold round alignUp
  rw [Nat.mod_eq_of_lt (by omega)]

section Layout
variable {offset : Nat} {t : ThinFile} {thins : List ThinFile}

theorem fatEnd_cons : fatEnd offset (t :: thins) =
    fatEnd (alignUp (2 ^ t.align) offset + t.bytes.length) thins := rfl

theorem layout_cons (halign : t.align ≤ MAXSECTALIGN) (hend : fatEnd offset (t :: thins) < 2 ^ 32) :
    layout offset (t :: thins) =
      { arch := t.arch, offset := alignUp (2 ^ t.align) offset, size := t.bytes.length,
        align := t.align } ::
        layout (alignUp (2 ^ t.align) offset + t.bytes.length) thins := by
  rw [fatEnd_cons] at hend
  have hle := le_fatEnd (alignUp (2 ^ t.align) offset + t.bytes.length) thins
  rw [layout, round_eq halign (by omega), Nat.mod_eq_of_lt (by omega)]

def Records (a : FatArch) (t : ThinFile) : Prop :=
  a.arch = t.arch ∧ a.size = t.bytes.length ∧ a.align = t.align

theorem layout_records (offset : Nat) (thins : List ThinFile) :
    List.Forall₂ Records (layout offset thins) thins := by
  induction thins generalizing offset with
  | nil => exact .nil
  | cons t thins ih => exact .cons ⟨rfl, rfl, rfl⟩ (ih _)

theorem length_layout (offset : Nat) (thins : List ThinFile) :
    (layout offset thins).length = thins.length := (layout_records offset thins).length_eq

theorem layout_inside (haligns : ∀ t ∈ thins, t.align ≤ MAXSECTALIGN)
    (hend : fatEnd offset thins < 2 ^ 32) :
    ∀ a ∈ layout offset thins, offset ≤ a.offset ∧ a.offset + a.size ≤ fatEnd offset thins ∧
      2 ^ a.align ∣ a.offset := by
  induction thins generalizing offset with
  | nil => exact nofun
  | cons t thins ih =>
    have hle := le_alignUp (Nat.two_pow_pos t.align) offset
    rw [layout_cons (haligns t mem_cons_self) hend]
    intro a ha
    rcases List.mem_cons.mp ha with rfl | ha
    · exact ⟨hle, le_fatEnd _ _, dvd_alignUp _ _⟩
    obtain ⟨hbegin, hlast, hdvd⟩ := ih (fun u hu => haligns u (mem_cons_of_mem _ hu)) hend a ha
    exact ⟨by omega, hlast, hdvd⟩

theorem layout_disjoint (haligns : ∀ t ∈ thins, t.align ≤ MAXSECTALIGN)
    (hend : fatEnd offset thins < 2 ^ 32) :
    (layout offset thins).Pairwise fun a b => a.offset + a.size ≤ b.offset := by
  induction thins generalizing offset with
  | nil => exact List.Pairwise.nil
  | cons t thins ih =>
    have hrest := fun u hu => haligns u (mem_cons_of_mem t hu)
    rw [layout_cons (haligns t mem_cons_self) hend]
    refine List.Pairwise.cons ?_ (ih hrest hend)
    intro b hb
    exact (layout_inside hrest hend b hb).1

end Layout

def Solid (thins : List ThinFile) : Prop := ∀ t ∈ thins, t.bytes = [] → t.align = 0

theorem writeAt_beyond (h : buf.length ≤ pos) (hne : bytes ≠ []) :
    writeAt buf pos bytes = buf ++ (List.replicate (pos - buf.length) 0 ++ bytes) := by
  unfold writeAt
  rw [if_neg hne, take_of_length_le h, drop_eq_nil_of_le (by omega)]
  simp

theorem starts_writeAt (h : buf.length ≤ pos) (bytes : List UInt8) :
    buf <+: writeAt buf pos bytes := by
  by_cases hnil : bytes = []
  · unfold writeAt
    rw [if_pos hnil]
  · rw [writeAt_beyond h hnil]
    exact prefix_append _ _

theorem read_writeAt (h : buf.length ≤ pos)
    (hne : bytes ≠ []) : bytes <+: (writeAt buf pos bytes).drop pos := by
  have hlen : (buf ++ List.replicate (pos - buf.length) (0 : UInt8)).length = pos := by
    rw [length_append, length_replicate]
    omega
  have hdrop : (buf ++ List.replicate (pos - buf.length) 0 ++ bytes).drop pos = bytes :=
    drop_left' hlen
  rw [writeAt_beyond h hne, ← append_assoc, hdrop]

def ReadsAs (file : List UInt8) (a : FatArch) (t : ThinFile) : Prop :=
  a.offset + a.size ≤ file.length ∧ (file.drop a.offset).take a.size = t.bytes

theorem readsAs_of_starts {a : FatArch} {t : ThinFile}
    (hsize : a.size = t.bytes.length) (hin : a.offset ≤ file.length)
    (h : t.bytes <+: file.drop a.offset) : ReadsAs file a t := by
  have hle := h.length_le
  rw [length_drop] at hle
  refine ⟨by omega, ?_⟩
  obtain ⟨rest, hrest⟩ := h
  rw [← hrest, hsize, take_left]

section Writing
variable {buf : List UInt8} {offset : Nat} {t : ThinFile} {thins : List ThinFile}

theorem starts_writeSlices (haligns : ∀ t ∈ thins, t.align ≤ MAXSECTALIGN)
    (hend : fatEnd offset thins < 2 ^ 32) (hbuf : buf.length ≤ offset) :
    buf <+: writeSlices buf ((layout offset thins).zip thins) := by
  induction thins generalizing buf offset with
  | nil => exact prefix_refl buf
  | cons t thins ih =>
    have hle := le_alignUp (Nat.two_pow_pos t.align) offset
    rw [layout_cons (haligns t mem_cons_self) hend, zip_cons_cons, writeSlices]
    refine (starts_writeAt (Nat.le_trans hbuf hle) t.bytes).trans ?_
    apply ih (fun u hu => haligns u (mem_cons_of_mem _ hu)) hend
    by_cases hnil : t.bytes = []
    · unfold writeAt
      rw [if_pos hnil]
      omega
    · rw [length_writeAt _ _ hnil]
      omega

theorem writeSlices_reads (haligns : ∀ t ∈ thins, t.align ≤ MAXSECTALIGN)
    (hend : fatEnd offset thins < 2 ^ 32) (hbuf : buf.length = offset) (hsolid : Solid thins) :
    List.Forall₂ (ReadsAs (writeSlices buf ((layout offset thins).zip thins)))
      (layout offset thins) thins := by
  induction thins generalizing buf offset with
  | nil => exact .nil
  | cons t thins ih =>
    have hle := le_alignUp (Nat.two_pow_pos t.align) offset
    have hrest := fun u hu => haligns u (mem_cons_of_mem t hu)
    have hsolid' : Solid thins := fun u hu => hsolid u (mem_cons_of_mem _ hu)
    rw [layout_cons (haligns t mem_cons_self) hend, zip_cons_cons, writeSlices]
    rw [fatEnd_cons] at hend
    by_cases hnil : t.bytes = []
    · have hsame : alignUp (2 ^ t.align) offset = offset := by
        rw [hsolid t mem_cons_self hnil, Nat.pow_zero]
        exact alignUp_of_dvd Nat.one_pos (Nat.one_dvd _)
      have hwritten : writeAt buf offset [] = buf := if_pos rfl
      rw [hsame, hnil, length_nil, Nat.add_zero] at hend ⊢
      rw [hwritten]
      have hstarts := (starts_writeSlices hrest hend (Nat.le_of_eq hbuf)).length_le
      refine .cons (readsAs_of_starts ?_ ?_ ?_) (ih hrest hend hbuf hsolid')
      · rw [hnil]
        rfl
      · dsimp only
        omega
      · rw [hnil]
        exact nil_prefix
    · have hlen : (writeAt buf (alignUp (2 ^ t.align) offset) t.bytes).length =
          alignUp (2 ^ t.align) offset + t.bytes.length := by
        rw [length_writeAt _ _ hnil]
        omega
      have hstarts := starts_writeSlices hrest hend (Nat.le_of_eq hlen)
      have hslice := read_writeAt (Nat.le_trans (Nat.le_of_eq hbuf) hle) hnil
      have hinside := hstarts.length_le
      refine .cons (readsAs_of_starts rfl ?_ (hslice.trans (hstarts.drop _)))
        (ih hrest hend hlen hsolid')
      dsimp only
      omega

end Writing

/-! ## Reading back what was written

`process_input_file` accepts a file that `create_fat` wrote, and has the same thin files again. -/

open Lib.BigEndian

theorem sameArch_iff :
    sameArch a b = true ↔ a.cputype = b.cputype ∧ a.subtype = b.subtype := decide_eq_true_iff

theorem sameArch_self (a : Arch) : sameArch a a = true := sameArch_iff.mpr ⟨rfl, rfl⟩

theorem sameArch_symm (h : sameArch a b = true) : sameArch b a = true := by
  rw [sameArch_iff] at h ⊢
  exact ⟨h.1.symm, h.2.symm⟩

theorem sameArch_trans {a b c : Arch} (h : sameArch a b = true) (h' : sameArch b c = true) :
    sameArch a c = true := by
  rw [sameArch_iff] at h h' ⊢
  exact ⟨h.1.trans h'.1, h.2.trans h'.2⟩

def Different (a b : Arch) : Prop := sameArch a b = false

theorem Different.symm (h : Different a b) : Different b a := by
  unfold Different at h ⊢
  rw [← Bool.not_eq_true] at h ⊢
  exact fun hsame => h (sameArch_symm hsame)

theorem firstSame_eq_none {l : List Arch} : firstSame l = none ↔ l.Pairwise Different := by
  induction l with
  | nil => exact ⟨fun _ => List.Pairwise.nil, fun _ => rfl⟩
  | cons a rest ih =>
    unfold firstSame
    rw [pairwise_cons]
    cases hfind : rest.find? (sameArch a) with
    | some b =>
      refine ⟨nofun, ?_⟩
      rintro ⟨hall, -⟩
      have hb := hall b (mem_of_find?_eq_some hfind)
      unfold Different at hb
      rw [find?_some hfind] at hb
      cases hb
    | none =>
      rw [find?_eq_none] at hfind
      simp only [Bool.not_eq_true] at hfind
      exact ih.trans ⟨fun h => ⟨hfind, h⟩, fun h => h.2⟩

def FatArch.Bounded (a : FatArch) : Prop :=
  a.offset < 2 ^ 32 ∧ a.size < 2 ^ 32 ∧ a.align < 2 ^ 32

theorem read_encodeWords {a : FatArch} (h : a.Bounded) (rest : List UInt8) :
    FatArch.read (encodeWords a.words ++ rest) = a := by
  have hword : ∀ i, (hi : i < a.words.length) →
      word (encodeWords a.words ++ rest) i = a.words[i] % 2 ^ 32 :=
    fun i hi => word_encodeWords hi rest
  obtain ⟨hoffset, hsize, halign⟩ := h
  have h0 := hword 0 (by simp [FatArch.words])
  have h1 := hword 1 (by simp [FatArch.words])
  have h2 := (hword 2 (by simp [FatArch.words])).trans (Nat.mod_eq_of_lt hoffset)
  have h3 := (hword 3 (by simp [FatArch.words])).trans (Nat.mod_eq_of_lt hsize)
  have h4 := (hword 4 (by simp [FatArch.words])).trans (Nat.mod_eq_of_lt halign)
  have hcputype := h0.trans (Nat.mod_eq_of_lt a.arch.cputype.isLt)
  have hcpusubtype := h1.trans (Nat.mod_eq_of_lt a.arch.cpusubtype.isLt)
  unfold FatArch.read
  rw [hcputype, hcpusubtype, h2, h3, h4]
  simp [FatArch.words]

theorem readArches_encode (h : ∀ a ∈ arches, a.Bounded) (rest : List UInt8) :
    readArches arches.length ((arches.flatMap fun a => encodeWords a.words) ++ rest) = arches := by
  induction arches with
  | nil => rfl
  | cons a arches ih =>
    rw [flatMap_cons, append_assoc, length_cons, readArches,
      read_encodeWords (h a mem_cons_self)]
    have hlen : (encodeWords a.words).length = sizeof_fat_arch := length_encodeWords a.words
    rw [drop_left' hlen, ih fun b hb => h b (mem_cons_of_mem a hb)]

theorem length_fatHeader (arches : List FatArch) :
    (fatHeader arches).length = arches_end arches.length := by
  have hall : (arches.flatMap fun a => encodeWords a.words).length =
      arches.length * sizeof_fat_arch := by
    induction arches with
    | nil => rfl
    | cons a arches ih =>
      have hlen : (encodeWords a.words).length = sizeof_fat_arch := length_encodeWords a.words
      rw [flatMap_cons, length_append, ih, hlen, length_cons, Nat.add_one_mul,
        Nat.add_comm]
  unfold fatHeader arches_end
  rw [length_append, hall, length_encodeWords]
  rfl

section File
variable {file : List UInt8} {arches : List FatArch} {thins : List ThinFile}

theorem isFat_of_starts (h : fatHeader arches <+: file) : isFat file = true := by
  obtain ⟨rest, rfl⟩ := h
  have hlen := length_fatHeader arches
  have hmagic : word (fatHeader arches ++ rest) 0 = FAT_MAGIC := by
    unfold fatHeader
    rfl
  unfold arches_end at hlen
  apply decide_eq_true
  rw [length_append, hlen]
  exact ⟨by omega, hmagic⟩

theorem fatSlices_of_starts (h : fatHeader arches <+: file) (hbounded : ∀ a ∈ arches, a.Bounded)
    (hcount : arches.length < 2 ^ 32) (hchecked : ∀ a ∈ arches, checkSlice file.length a = .ok ())
    (hdifferent : (arches.map FatArch.arch).Pairwise Different)
    (hslices : List.Forall₂ (fun a t => slice file a = .ok t) arches thins) :
    fatSlices file = .ok (arches, thins) := by
  have hlen := h.length_le
  rw [length_fatHeader] at hlen
  unfold arches_end at hlen
  obtain ⟨rest, rfl⟩ := h
  have hnfat : word (fatHeader arches ++ rest) 1 = arches.length := by
    unfold fatHeader
    rw [append_assoc, word_encodeWords (by simp)]
    exact Nat.mod_eq_of_lt hcount
  have hread : readArches arches.length ((fatHeader arches ++ rest).drop sizeof_fat_header) =
      arches := by
    have hfixed : (encodeWords [FAT_MAGIC, arches.length]).length = sizeof_fat_header :=
      length_encodeWords _
    unfold fatHeader
    rw [append_assoc, drop_left' hfixed, readArches_encode hbounded]
  have hforM : arches.forM (checkSlice (fatHeader arches ++ rest).length) = .ok () := by
    generalize (fatHeader arches ++ rest).length = size at hchecked
    clear hread hnfat hlen hslices hdifferent hcount hbounded
    induction arches with
    | nil => rfl
    | cons a arches ih =>
      change (checkSlice size a >>= fun _ => arches.forM (checkSlice size)) = .ok ()
      rw [hchecked a mem_cons_self]
      exact ih fun b hb => hchecked b (mem_cons_of_mem a hb)
  have hmapM : arches.mapM (slice (fatHeader arches ++ rest)) = .ok thins := by
    generalize fatHeader arches ++ rest = file at hslices
    clear hread hnfat hlen hdifferent hcount hbounded hchecked hforM
    induction hslices with
    | nil => rfl
    | cons hslice _ ih =>
      rw [mapM_cons, hslice, ih]
      rfl
  unfold fatSlices
  rw [hnfat, if_neg (by omega), hread]
  dsimp only [bind, Except.bind, pure, Except.pure]
  rw [hforM, firstSame_eq_none.mpr hdifferent]
  rw [hmapM]

end File

/-- The thin files that `create_fat` can write; `-segalign` options were applied before. -/
structure Placeable (tools : Tools) (thins : List ThinFile) : Prop where
  different : (thins.map ThinFile.arch).Pairwise Different
  aligned : ∀ t ∈ thins, t.align ≤ MAXSECTALIGN
  solid : Solid thins
  small : fatEnd (arches_end thins.length) (tools.qsort thins) < 2 ^ 32

/-- The file is a fat file of these thin files. -/
structure FatFileOf (tools : Tools) (thins : List ThinFile) (file : List UInt8) (arches : List FatArch)
    (slices : List ThinFile) : Prop where
  accepted : process_input_file tools.toRecognizer none file =
    .ok { fat_arches := some arches, thin_files := slices }
  same : slices.Perm thins
  aligned : ∀ a ∈ arches, 2 ^ a.align ∣ a.offset
  disjoint : arches.Pairwise fun a b => a.offset + a.size ≤ b.offset
  behindHeader : ∀ a ∈ arches, arches_end arches.length ≤ a.offset ∧
    a.offset + a.size ≤ file.length

theorem pairwise_different_perm {l m : List ThinFile} (h : l.Perm m)
    (hm : (m.map ThinFile.arch).Pairwise Different) : (l.map ThinFile.arch).Pairwise Different :=
  (h.symm.map ThinFile.arch).pairwise hm Different.symm

theorem slices_of_reads (hrecords : List.Forall₂ Records arches thins)
    (hreads : List.Forall₂ (ReadsAs file) arches thins) :
    List.Forall₂ (fun a t => slice file a = .ok t) arches thins := by
  induction hrecords with
  | nil => exact .nil
  | cons hrecord _ ih =>
    cases hreads with
    | cons hread hrest =>
      refine .cons ?_ (ih hrest)
      unfold slice
      rw [if_neg (Nat.not_lt.mpr hread.1), hread.2, hrecord.1, hrecord.2.2]

theorem arch_of_records (h : List.Forall₂ Records arches thins) :
    arches.map FatArch.arch = thins.map ThinFile.arch := by
  induction h with
  | nil => rfl
  | cons hrecord _ ih => rw [map_cons, map_cons, ih, hrecord.1]

theorem align_of_records
    (h : List.Forall₂ Records arches thins) (haligns : ∀ t ∈ thins, t.align ≤ MAXSECTALIGN) :
    ∀ a ∈ arches, a.align ≤ MAXSECTALIGN := by
  induction h with
  | nil => exact nofun
  | cons hrecord _ ih =>
    intro a ha
    rcases List.mem_cons.mp ha with rfl | ha
    · rw [hrecord.2.2]
      exact haligns _ mem_cons_self
    · exact ih (fun t ht => haligns t (mem_cons_of_mem _ ht)) a ha

theorem inside_of_reads (h : List.Forall₂ (ReadsAs file) arches thins) :
    ∀ a ∈ arches, a.offset + a.size ≤ file.length := by
  induction h with
  | nil => exact nofun
  | cons hread _ ih =>
    intro a ha
    rcases List.mem_cons.mp ha with rfl | ha
    · exact hread.1
    · exact ih a ha

theorem fatFileOf_sorted {thins sorted : List ThinFile}
    (hdifferent : (sorted.map ThinFile.arch).Pairwise Different)
    (haligns : ∀ t ∈ sorted, t.align ≤ MAXSECTALIGN) (hsolid : Solid sorted)
    (hsmall : fatEnd (arches_end sorted.length) sorted < 2 ^ 32) (hperm : sorted.Perm thins) :
    FatFileOf tools thins (writeFat false sorted) (layout (arches_end sorted.length) sorted)
      sorted := by
  have hrecords := layout_records (arches_end sorted.length) sorted
  have hinside := layout_inside haligns hsmall
  have hlength := length_layout (arches_end sorted.length) sorted
  have hheader := length_fatHeader (layout (arches_end sorted.length) sorted)
  rw [hlength] at hheader
  have hstarts := starts_writeSlices haligns hsmall (Nat.le_of_eq hheader)
  have hreads := writeSlices_reads haligns hsmall hheader hsolid
  have hfile : writeFat false sorted =
      writeSlices (fatHeader (layout (arches_end sorted.length) sorted))
        ((layout (arches_end sorted.length) sorted).zip sorted) := by
    unfold writeFat
    rw [if_neg (by simp)]
  rw [← hfile] at hstarts hreads
  have hread := inside_of_reads hreads
  have hcount : arches_end sorted.length < 2 ^ 32 := Nat.lt_of_le_of_lt (le_fatEnd _ _) hsmall
  unfold arches_end sizeof_fat_arch at hcount
  refine ⟨?_, hperm, ?_, layout_disjoint haligns hsmall, ?_⟩
  · unfold process_input_file
    rw [if_pos (isFat_of_starts hstarts), fatSlices_of_starts hstarts ?_ ?_ ?_ ?_
      (slices_of_reads hrecords hreads)]
    · rfl
    · intro a ha
      have halign := align_of_records hrecords haligns a ha
      have hin := hinside a ha
      unfold MAXSECTALIGN at halign
      exact ⟨by omega, by omega, by omega⟩
    · omega
    · intro a ha
      have halign := align_of_records hrecords haligns a ha
      have hin := hinside a ha
      have hlt : a.offset + a.size < 2 ^ 32 := by omega
      unfold checkSlice
      rw [Nat.mod_eq_of_lt hlt, if_neg (Nat.not_lt.mpr (hread a ha)),
        if_neg (Nat.not_lt.mpr halign), if_neg (not_not.mpr (Nat.mod_eq_zero_of_dvd hin.2.2))]
    · rw [arch_of_records hrecords]
      exact hdifferent
  · intro a ha
    exact (hinside a ha).2.2
  · intro a ha
    rw [hlength]
    exact ⟨(hinside a ha).1, hread a ha⟩

theorem writeFat_fatFileOf (h : Placeable tools thins) :
    FatFileOf tools thins (writeFat false (tools.qsort thins))
      (layout (arches_end thins.length) (tools.qsort thins)) (tools.qsort thins) := by
  have hperm := (tools.sorted thins).perm
  have hsmall := h.small
  have hdifferent := pairwise_different_perm hperm h.different
  have haligns : ∀ t ∈ tools.qsort thins, t.align ≤ MAXSECTALIGN :=
    fun t ht => h.aligned t (hperm.mem_iff.mp ht)
  have hsolid : Solid (tools.qsort thins) := fun t ht => h.solid t (hperm.mem_iff.mp ht)
  rw [← hperm.length_eq] at hsmall ⊢
  refine fatFileOf_sorted ?_ ?_ hsolid hsmall hperm
  · exact hdifferent
  · exact haligns

end Toolwhip.Lipo
