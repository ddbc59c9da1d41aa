import Toolwhip.Distcc.FixDebugInfo

/-! # What is read and written of a Mach-O file

The headers of sections, the table of a fat file and the section that is changed are
always where they should be. The load commands are only if they happen to be: what
exactly has to hold of them is `FindInside`. -/

namespace Toolwhip.Distcc
open Lib.MappedFile Lib.ThrowingFold
set_option autoImplicit false

section Conditions
variable (host : BigEndian) (f : Mapped) (r : Region) (want : Wanted)

def peek_32 (pos : Nat) : BitVec 32 := maybe_swap_32 want.swap (number_32 host (peek f r pos 4))

def MachoBits.segment : MachoBits → BitVec 32
  | bits32 => LC_SEGMENT
  | bits64 => LC_SEGMENT_64

def CommandInside (command : Nat) (cmd : BitVec 32) : Prop :=
  (want.want_symtab = false → cmd = want.macho_bits.segment →
    command + want.macho_bits.nsectsAt + 4 ≤ r.size) ∧
  (want.want_symtab = true → cmd = LC_SYMTAB → command + 24 ≤ r.size)

/-- So it is for all commands that the walk comes to, with their headers, and the region
that it finds in the file is shorter than 2^31. -/
def CommandsInside (sizeofcmds : BitVec 32) (command : Nat) (cumulative : BitVec 32) :
    Nat → Prop
  | 0 => True
  | left + 1 =>
    let cmd := peek_32 host f r want command
    let cmdsize := peek_32 host f r want (command + 4)
    command + 8 ≤ r.size ∧
      (¬ (cumulative + cmdsize > sizeofcmds ∨ cumulative + cmdsize < cumulative) →
        CommandInside r want command cmd ∧
        (∀ sect_off sect_size, lookIn host f r want command cmd cmdsize =
            .ok (.found sect_off sect_size) →
          sect_off.toNat + sect_size.toNat ≤ r.size → sect_size.toNat < 2 ^ 31) ∧
        (lookIn host f r want command cmd cmdsize = .ok .goOn →
          CommandsInside sizeofcmds (command + cmdsize.toNat) (cumulative + cmdsize) left))

def FindInside : Prop :=
  let ncmds := peek_32 host f r want 16
  let sizeofcmds := peek_32 host f r want 20
  want.macho_bits.headerSize ≤ r.size → commandsInside f r want sizeofcmds = true →
    CommandsInside host f r want sizeofcmds want.macho_bits.headerSize 0 ncmds.toNat

variable (paths : Replacement)

/-- The condition for the three regions of a thin file, each as the ones before leave it. -/
def ThinInside : Prop :=
  let magic := number_32 host (peek f r 0 4)
  let wanted (region : Bool → MachoBits → Wanted) := region (swapOf magic) (bitsOf magic)
  4 ≤ r.size → FindInside host f r (wanted debugInfo) ∧
    ∀ f₁, update_macho_section host r paths (wanted debugInfo) f = .ok f₁ →
      FindInside host f₁ r (wanted debugStr) ∧
      ∀ f₂, update_macho_section host r paths (wanted debugStr) f₁ = .ok f₂ →
        FindInside host f₂ r (wanted stringTable)

def archWord (fat_index field : Nat) : BitVec 32 :=
  swap_big_to_cpu_32 host (number_32 host (peek f r (8 + 20 * fat_index + field) 4))

end Conditions

section Archs
variable (host : BigEndian) (r : Region) (paths : Replacement)

def ArchsInside (f : Mapped) (fat_index : Nat) : Nat → Prop
  | 0 => True
  | left + 1 =>
    let arch_off := archWord host f r fat_index 8
    let arch_size := archWord host f r fat_index 12
    let arch : Region := ⟨r.start + arch_off.toNat, arch_size.toNat⟩
    (arch_size = 0 → ArchsInside f (fat_index + 1) left) ∧
    (arch_size ≠ 0 → arch_off.toNat + arch_size.toNat ≤ r.size → ThinInside host f arch paths ∧
      ∀ f', update_debug_info_macho_thin host arch paths f = .ok f' →
        ArchsInside f' (fat_index + 1) left)

def FatInside (f : Mapped) : Prop :=
  let nfat_arch := swap_big_to_cpu_32 host (number_32 host (peek f r 4 4))
  8 + 20 * nfat_arch.toNat ≤ r.size → ArchsInside host r paths f 0 nfat_arch.toNat

end Archs

section Find
variable {host : BigEndian} {f : Mapped} {r : Region} {want : Wanted}

variable {pos : Nat}
variable {sect_off sect_size : BitVec 32} {command : Nat} {sect : Nat}

theorem load_32_iff {x : BitVec 32} : load_32 host f r want pos = .ok x ↔
    pos + 4 ≤ r.size ∧ x = peek_32 host f r want pos := by
  unfold load_32
  rw [map_eq_ok]
  constructor
  · intro ⟨bytes, hload, hx⟩
    obtain ⟨hle, rfl⟩ := load_ok hload
    exact ⟨hle, hx.symm⟩
  · intro ⟨hle, hx⟩
    exact ⟨_, load_of_le hle, hx.symm⟩

theorem load_32_of_le (h : pos + 4 ≤ r.size) :
    load_32 host f r want pos = .ok (peek_32 host f r want pos) :=
  load_32_iff.mpr ⟨h, rfl⟩

theorem load_64_of_le (h : pos + 8 ≤ r.size) : ∃ x, load_64 host f r want pos = .ok x := by
  unfold load_64
  rw [load_of_le h]
  exact ⟨_, rfl⟩

theorem isDesired_of_le (h : sect + 32 ≤ r.size) :
    ∃ desired, isDesired f r want sect = .ok desired := by
  unfold isDesired
  rw [load_of_le (by omega), load_of_le (by omega)]
  simp only [bind, Except.bind, Except.map]
  split
  · exact ⟨_, rfl⟩
  · exact ⟨_, rfl⟩

theorem sectionRegion_of_le (h : sect + want.macho_bits.sectionSize ≤ r.size + 1) :
    ∃ lookup, sectionRegion host f r want sect = .ok lookup := by
  unfold sectionRegion
  cases hbits : want.macho_bits with
  | bits32 =>
    rw [hbits] at h
    simp only [MachoBits.sectionSize] at h
    rw [load_32_of_le (by omega), load_32_of_le (by omega)]
    exact ⟨_, rfl⟩
  | bits64 =>
    rw [hbits] at h
    simp only [MachoBits.sectionSize] at h
    have hsize : ∃ x, load_64 host f r want (sect + 40) = .ok x := load_64_of_le (by omega)
    have hoff : load_32 host f r want (sect + 48) = .ok _ := load_32_of_le (by omega)
    obtain ⟨size, hsize⟩ := hsize
    simp only [hsize, hoff, bind, Except.bind, Except.map]
    split
    · exact ⟨_, rfl⟩
    · exact ⟨_, rfl⟩

theorem findSection_of_le {left sect : Nat}
    (h : sect + want.macho_bits.sectionSize * left ≤ r.size + 1) :
    ∃ lookup, findSection host f r want sect left = .ok lookup := by
  induction left generalizing sect with
  | zero => exact ⟨_, rfl⟩
  | succ left ih =>
    have hsize : 68 ≤ want.macho_bits.sectionSize := by
      cases want.macho_bits <;> simp [MachoBits.sectionSize]
    rw [Nat.mul_add, Nat.mul_one] at h
    have hdesired : ∃ desired, isDesired f r want sect = .ok desired :=
      isDesired_of_le (by omega)
    obtain ⟨desired, hdesired⟩ := hdesired
    rw [findSection, hdesired]
    cases desired with
    | true => exact sectionRegion_of_le (by omega)
    | false => exact ih (by omega)

/-! ## Load commands -/

/-- The table of sections is in the command, and the sum of its size does not wrap. -/
theorem lookInSegment_iff {cmdsize : BitVec 32} (hcommand : command + cmdsize.toNat ≤ r.size + 1) :
    (∃ lookup, lookInSegment host f r want command cmdsize = .ok lookup) ↔
      command + want.macho_bits.nsectsAt + 4 ≤ r.size := by
  unfold lookInSegment
  constructor
  · intro ⟨lookup, h⟩
    obtain ⟨nsects, hload, _⟩ := bind_eq_ok.mp h
    exact (load_32_iff.mp hload).1
  · intro hinside
    have hload : load_32 host f r want _ = .ok _ := load_32_of_le hinside
    simp only [hload, bind, Except.bind]
    split
    · exact ⟨_, rfl⟩
    rename_i hfits
    apply findSection_of_le
    have hnsects := (peek_32 host f r want (command + want.macho_bits.nsectsAt)).isLt
    cases hbits : want.macho_bits <;> rw [hbits] at hfits hnsects <;>
      simp only [MachoBits.segmentSize, MachoBits.sectionSize] at hfits ⊢ <;> omega

theorem lookIn_iff {cmd cmdsize : BitVec 32} (hcommand : command + cmdsize.toNat ≤ r.size + 1) :
    (∃ lookup, lookIn host f r want command cmd cmdsize = .ok lookup) ↔
      CommandInside r want command cmd := by
  unfold lookIn CommandInside
  cases want.want_symtab with
  | true =>
    by_cases hcmd : cmd = LC_SYMTAB
    · simp only [hcmd, Bool.not_true, Bool.false_eq_true, if_false, if_true, Bool.true_eq_false,
        false_implies, true_and, forall_const]
      constructor
      · intro ⟨lookup, h⟩
        obtain ⟨_, _, h⟩ := bind_eq_ok.mp h
        obtain ⟨_, hload, _⟩ := bind_eq_ok.mp h
        exact (load_32_iff.mp hload).1
      · intro h
        rw [load_32_of_le (by omega), load_32_of_le (by omega)]
        exact ⟨_, rfl⟩
    · simp [hcmd]
  | false =>
    simp only [Bool.not_false, if_true, forall_const, Bool.false_eq_true, false_implies, and_true]
    have hne : LC_SEGMENT_64 ≠ LC_SEGMENT := by decide
    by_cases hsegment : cmd = want.macho_bits.segment
    · have hbranch : (if cmd = LC_SEGMENT then
            if want.macho_bits ≠ .bits32 then (.ok .refused : Except Violation Lookup)
            else lookInSegment host f r want command cmdsize
          else if cmd = LC_SEGMENT_64 then
            if want.macho_bits ≠ .bits64 then .ok .refused
            else lookInSegment host f r want command cmdsize
          else .ok .goOn) = lookInSegment host f r want command cmdsize := by
        rw [hsegment]
        cases hbits : want.macho_bits <;> simp [MachoBits.segment, hne]
      rw [hbranch, lookInSegment_iff hcommand]
      simp [hsegment]
    · have hbranch : ∃ lookup, (if cmd = LC_SEGMENT then
            if want.macho_bits ≠ .bits32 then (.ok .refused : Except Violation Lookup)
            else lookInSegment host f r want command cmdsize
          else if cmd = LC_SEGMENT_64 then
            if want.macho_bits ≠ .bits64 then .ok .refused
            else lookInSegment host f r want command cmdsize
          else .ok .goOn) = .ok lookup := by
        cases hbits : want.macho_bits with
        | bits32 =>
          rw [hbits] at hsegment
          have hsegment : cmd ≠ LC_SEGMENT := hsegment
          by_cases hcmd : cmd = LC_SEGMENT_64 <;> simp [hsegment, hcmd, hne]
        | bits64 =>
          rw [hbits] at hsegment
          have hsegment : cmd ≠ LC_SEGMENT_64 := hsegment
          by_cases hcmd : cmd = LC_SEGMENT <;> simp [hsegment, hcmd]
      simp only [hbranch, hsegment, false_implies]

theorem returnSection_iff (hr : inside (whole f) r) :
    (∃ found, returnSection f r sect_off sect_size = .ok found) ↔
      (sect_off.toNat + sect_size.toNat ≤ r.size → sect_size.toNat < 2 ^ 31) := by
  have hrange := rangeInside_iff hr sect_off.isLt sect_size.isLt
  unfold returnSection
  by_cases hin : sect_off.toNat + sect_size.toNat ≤ r.size
  · rw [if_pos (hrange.mpr hin)]
    by_cases hsize : sect_size.toNat < 2 ^ 31
    · rw [if_pos hsize]
      exact ⟨fun _ _ => hsize, fun _ => ⟨_, rfl⟩⟩
    rw [if_neg hsize]
    constructor
    · rintro ⟨found, h⟩
      cases h
    · intro h
      exact absurd (h hin) hsize
  · rw [if_neg (fun h => hin (hrange.mp h))]
    exact ⟨fun _ h => absurd h hin, fun _ => ⟨_, rfl⟩⟩

theorem returnSection_inside (hr : inside (whole f) r)
    {sect : Region} (h : returnSection f r sect_off sect_size = .ok (some sect)) :
    inside r sect ∧ sect.size < 2 ^ 31 := by
  unfold returnSection at h
  split at h
  · rename_i hrange
    have hin := (rangeInside_iff hr sect_off.isLt sect_size.isLt).mp hrange
    split at h
    · rename_i hsize
      obtain rfl := Option.some.inj (Except.ok.inj h)
      refine ⟨⟨?_, ?_⟩, hsize⟩
      · exact Nat.le_add_right _ _
      · simp only
        omega
    · cases h
  · cases h

theorem toNat_add_of_not_lt {x y : BitVec 32} (h : ¬ x + y < x) :
    (x + y).toNat = x.toNat + y.toNat := by
  rw [BitVec.lt_def, BitVec.toNat_add] at h
  rw [BitVec.toNat_add]
  omega

section
variable (hr : inside (whole f) r)
variable {cumulative : BitVec 32} {left command : Nat} {sect : Region}
include hr

variable {sizeofcmds : BitVec 32}

theorem walkCommands_iff (hend : want.macho_bits.headerSize + sizeofcmds.toNat ≤ r.size + 1)
    (hcommand : command = want.macho_bits.headerSize + cumulative.toNat) :
    (∃ found, walkCommands host f r want sizeofcmds command cumulative left = .ok found) ↔
      CommandsInside host f r want sizeofcmds command cumulative left := by
  induction left generalizing command cumulative with
  | zero =>
    rw [CommandsInside, walkCommands]
    simp
  | succ left ih =>
    rw [CommandsInside, walkCommands]
    by_cases hheader : command + 8 ≤ r.size
    · have hcmd : load_32 host f r want command = .ok _ := load_32_of_le (by omega)
      have hcmdsize : load_32 host f r want (command + 4) = .ok _ := load_32_of_le (by omega)
      simp only [hcmd, hcmdsize, hheader, bind, Except.bind, true_and]
      generalize peek_32 host f r want command = cmd
      generalize peek_32 host f r want (command + 4) = cmdsize
      by_cases hover : cumulative + cmdsize > sizeofcmds ∨ cumulative + cmdsize < cumulative
      · simp [hover]
      rw [if_neg hover]
      simp only [hover, not_false_eq_true, forall_const]
      rw [not_or] at hover
      have hsum := toNat_add_of_not_lt hover.2
      have hle : (cumulative + cmdsize).toNat ≤ sizeofcmds.toNat := by
        have := hover.1
        rw [gt_iff_lt, BitVec.lt_def] at this
        omega
      have hinside : command + cmdsize.toNat ≤ r.size + 1 := by omega
      have hlookIn : (∃ lookup, lookIn host f r want command cmd cmdsize = .ok lookup) ↔ _ :=
        lookIn_iff hinside
      rw [← hlookIn]
      cases lookIn host f r want command cmd cmdsize with
      | error e => simp
      | ok lookup =>
        cases lookup with
        | refused => simp
        | found sect_off sect_size =>
          rw [returnSection_iff hr]
          constructor
          · intro h
            refine ⟨⟨_, rfl⟩, ?_, ?_⟩
            · intro off size heq
              cases heq
              exact h
            · intro heq
              cases heq
          · intro ⟨_, h, _⟩
            exact h sect_off sect_size rfl
        | goOn =>
          rw [ih (by omega)]
          simp
    · constructor
      · intro ⟨found, h⟩
        obtain ⟨_, _, h⟩ := bind_eq_ok.mp h
        obtain ⟨_, hload, _⟩ := bind_eq_ok.mp h
        have := (load_32_iff.mp hload).1
        omega
      · intro h
        exact absurd h.1 hheader

theorem walkCommands_inside
    (h : walkCommands host f r want sizeofcmds command cumulative left = .ok (some sect)) :
    inside r sect ∧ sect.size < 2 ^ 31 := by
  induction left generalizing command cumulative with
  | zero => cases h
  | succ left ih =>
    rw [walkCommands] at h
    obtain ⟨cmd, _, h⟩ := bind_eq_ok.mp h
    obtain ⟨cmdsize, _, h⟩ := bind_eq_ok.mp h
    dsimp only at h
    split at h
    · cases h
    obtain ⟨lookup, _, h⟩ := bind_eq_ok.mp h
    cases lookup with
    | refused => cases h
    | found sect_off sect_size => exact returnSection_inside hr h
    | goOn => exact ih h

theorem commandsInside_le
    (hle : want.macho_bits.headerSize ≤ r.size) (h : commandsInside f r want sizeofcmds = true) :
    want.macho_bits.headerSize + sizeofcmds.toNat ≤ r.size + 1 := by
  have hfits := f.fits
  have hlt := sizeofcmds.isLt
  obtain ⟨_, hend⟩ := hr
  simp only [whole] at hend
  unfold commandsInside pointer at h
  rw [Bool.not_eq_true', Bool.or_eq_false_iff] at h
  -- in both cases the commands do not end before they start, so their end has not wrapped
  have hafter := of_decide_eq_false h.1
  have hbefore := of_decide_eq_false h.2
  cases hbits : want.macho_bits <;> rw [hbits] at hle hafter hbefore <;>
    simp only [MachoBits.headerSize] at hle hafter hbefore ⊢ <;> omega

theorem pointers_ordered : ¬ pointer f r r.size < pointer f r 0 := by
  have hfits := f.fits
  obtain ⟨_, hend⟩ := hr
  simp only [whole] at hend
  unfold pointer
  omega

theorem FindMachOSection_iff :
    (∃ found, FindMachOSection host f r want = .ok found) ↔ FindInside host f r want := by
  unfold FindMachOSection FindInside
  rw [if_neg (pointers_ordered hr)]
  by_cases hsize : r.size < want.macho_bits.headerSize
  · rw [if_pos hsize]
    constructor
    · intro _ hle
      omega
    · intro _
      exact ⟨_, rfl⟩
  · rw [if_neg hsize]
    have hle : want.macho_bits.headerSize ≤ r.size := by omega
    have hheader : 28 ≤ want.macho_bits.headerSize := by
      cases want.macho_bits <;> simp [MachoBits.headerSize]
    have hncmds : load_32 host f r want 16 = .ok _ := load_32_of_le (by omega)
    have hsizeofcmds : load_32 host f r want 20 = .ok _ := load_32_of_le (by omega)
    simp only [hncmds, hsizeofcmds, bind, Except.bind, hle, forall_const]
    by_cases hcommands : commandsInside f r want (peek_32 host f r want 20) = true
    · simp only [hcommands, if_true, forall_const]
      exact walkCommands_iff hr (commandsInside_le hr hle hcommands) rfl
    · simp [hcommands]

theorem FindMachOSection_inside (h : FindMachOSection host f r want = .ok (some sect)) :
    inside r sect ∧ sect.size < 2 ^ 31 := by
  unfold FindMachOSection at h
  split at h
  · cases h
  split at h
  · cases h
  obtain ⟨ncmds, _, h⟩ := bind_eq_ok.mp h
  obtain ⟨sizeofcmds, _, h⟩ := bind_eq_ok.mp h
  split at h
  · exact walkCommands_inside hr h
  · cases h

end

end Find

section Update
variable {host : BigEndian} {f f' : Mapped} {r sect : Region} {paths : Replacement}
variable {want : Wanted}

/-- The same file with other bytes, and none of them outside a part. -/
structure SameOutside (sect : Region) (f f' : Mapped) : Prop where
  base : f'.base = f.base
  length : f'.bytes.length = f.bytes.length
  outside : ∀ i, i < sect.start ∨ sect.start + sect.size ≤ i →
    f'.bytes.getD i 0 = f.bytes.getD i 0

theorem SameOutside.refl (sect : Region) (f : Mapped) : SameOutside sect f f :=
  ⟨rfl, rfl, fun _ _ => rfl⟩

theorem SameOutside.trans {f'' : Mapped} (h : SameOutside sect f f')
    (h' : SameOutside sect f' f'') : SameOutside sect f f'' := by
  refine ⟨h'.base.trans h.base, h'.length.trans h.length, ?_⟩
  intro i hi
  rw [h'.outside i hi, h.outside i hi]

theorem SameOutside.inside (h : SameOutside sect f f') (hr : inside (whole f) r) :
    inside (whole f') r := by
  unfold Lib.MappedFile.inside whole at *
  rw [h.length]
  exact hr

theorem replaceAt_of_le (hr : inside (whole f) r) (hsect : inside r sect) {p : Nat}
    (hp : p + paths.search.length + 1 ≤ sect.size) :
    ∃ f', replaceAt r paths sect f p = .ok f' ∧ SameOutside sect f f' := by
  unfold replaceAt
  have hfirst : load f sect p 1 = .ok _ := load_of_le (by omega)
  have hhere : load f sect p paths.search.length = .ok _ := load_of_le (by omega)
  simp only [hfirst, hhere, bind, Except.bind]
  split
  · split
    · have hfits : p + paths.replace.length ≤ sect.size := by
        rw [paths.sameLength]
        omega
      obtain ⟨f', hstore⟩ := store_of_inside hfits hsect hr
      obtain ⟨hbase, hlength, houtside⟩ := store_ok hstore
      exact ⟨f', hstore, hbase, hlength, houtside⟩
    · exact ⟨f, rfl, SameOutside.refl sect f⟩
  · exact ⟨f, rfl, SameOutside.refl sect f⟩

theorem replaceFrom_of_le (hr : inside (whole f) r) (hsect : inside r sect) {p left : Nat}
    (hp : p + left + paths.search.length + 1 ≤ sect.size) :
    ∃ f', replaceFrom r paths sect f p left = .ok f' ∧ SameOutside sect f f' := by
  induction left generalizing f p with
  | zero => exact ⟨f, rfl, SameOutside.refl sect f⟩
  | succ left ih =>
    have hfits : p + paths.search.length + 1 ≤ sect.size := by omega
    obtain ⟨f₁, hat, hsame⟩ := replaceAt_of_le hr hsect hfits
    have hfits' : p + 1 + left + paths.search.length + 1 ≤ sect.size := by omega
    obtain ⟨f', hfrom, hsame'⟩ := ih (hsame.inside hr) hfits'
    refine ⟨f', ?_, hsame.trans hsame'⟩
    rw [replaceFrom, hat]
    exact hfrom

variable (paths) in
theorem replace_string_inside (hr : inside (whole f) r) (hsect : inside r sect) :
    ∃ f', replace_string r paths sect f = .ok f' ∧ SameOutside sect f f' := by
  unfold replace_string
  split
  · exact ⟨f, rfl, SameOutside.refl sect f⟩
  · exact replaceFrom_of_le hr hsect (by omega)

theorem SameOutside.mono (h : SameOutside sect f f') (hsect : Lib.MappedFile.inside r sect) :
    SameOutside r f f' := by
  refine ⟨h.base, h.length, ?_⟩
  intro i hi
  obtain ⟨hstart, hend⟩ := hsect
  apply h.outside
  omega

variable (paths) in
theorem update_macho_section_iff (hr : inside (whole f) r) {want : Wanted} :
    (∃ f', update_macho_section host r paths want f = .ok f') ↔ FindInside host f r want := by
  rw [← FindMachOSection_iff hr]
  unfold update_macho_section
  cases hfind : FindMachOSection host f r want with
  | error e => simp [bind, Except.bind]
  | ok found =>
    cases found with
    | none => simp [bind, Except.bind]
    | some sect =>
      obtain ⟨f', hreplace, _⟩ :=
        replace_string_inside paths hr (FindMachOSection_inside hr hfind).1
      simp [bind, Except.bind, hreplace]

theorem update_macho_section_same (hr : inside (whole f) r)
    (h : update_macho_section host r paths want f = .ok f') :
    f' = f ∨ ∃ sect, FindMachOSection host f r want = .ok (some sect) ∧ SameOutside sect f f' := by
  unfold update_macho_section at h
  obtain ⟨found, hfind, h⟩ := bind_eq_ok.mp h
  cases found with
  | none => exact Or.inl (Except.ok.inj h).symm
  | some sect =>
    obtain ⟨f₁, hreplace, hsame⟩ :=
      replace_string_inside paths hr (FindMachOSection_inside hr hfind).1
    obtain rfl := Except.ok.inj (hreplace.symm.trans h)
    exact Or.inr ⟨sect, hfind, hsame⟩

theorem update_macho_section_outside (hr : inside (whole f) r)
    (h : update_macho_section host r paths want f = .ok f') : SameOutside r f f' := by
  rcases update_macho_section_same hr h with rfl | ⟨sect, hfind, hsame⟩
  · exact SameOutside.refl r f'
  · exact hsame.mono (FindMachOSection_inside hr hfind).1

theorem update_debug_info_macho_thin_outside (hr : inside (whole f) r)
    (h : update_debug_info_macho_thin host r paths f = .ok f') : SameOutside r f f' := by
  unfold update_debug_info_macho_thin at h
  split at h
  · obtain rfl := Except.ok.inj h
    exact SameOutside.refl r f
  obtain ⟨bytes, _, h⟩ := bind_eq_ok.mp h
  obtain ⟨f₁, h₁, h⟩ := bind_eq_ok.mp h
  obtain ⟨f₂, h₂, h₃⟩ := bind_eq_ok.mp h
  have hsame₁ := update_macho_section_outside hr h₁
  have hsame₂ := update_macho_section_outside (hsame₁.inside hr) h₂
  have hsame₃ := update_macho_section_outside (hsame₂.inside (hsame₁.inside hr)) h₃
  exact (hsame₁.trans hsame₂).trans hsame₃

theorem update_debug_info_macho_thin_iff (hr : inside (whole f) r) :
    (∃ f', update_debug_info_macho_thin host r paths f = .ok f') ↔ ThinInside host f r paths := by
  unfold update_debug_info_macho_thin ThinInside
  by_cases hsize : r.size < 4
  · rw [if_pos hsize]
    constructor
    · intro _ hle
      omega
    · intro _
      exact ⟨_, rfl⟩
  · have hle : 4 ≤ r.size := by omega
    have hmagic : load f r 0 4 = .ok _ := load_of_le (by omega)
    simp only [hsize, if_false, hmagic, hle, forall_const, bind, Except.bind]
    generalize swapOf _ = swap
    generalize bitsOf _ = bits
    rw [← update_macho_section_iff paths hr]
    cases h₁ : update_macho_section host r paths (debugInfo swap bits) f with
    | error e => simp
    | ok f₁ =>
      have hsame₁ := update_macho_section_outside hr h₁
      have hr₁ := hsame₁.inside hr
      simp only [Except.ok.injEq, exists_eq', true_and, forall_eq']
      rw [← update_macho_section_iff paths hr₁]
      cases h₂ : update_macho_section host r paths (debugStr swap bits) f₁ with
      | error e => simp
      | ok f₂ =>
        have hsame₂ := update_macho_section_outside hr₁ h₂
        simp only [Except.ok.injEq, exists_eq', true_and, forall_eq']
        exact update_macho_section_iff paths (hsame₂.inside hr₁)

theorem inside_inside {outer : Region} (hr : inside outer r) (hsect : inside r sect) :
    inside outer sect := by
  obtain ⟨_, _⟩ := hr
  obtain ⟨_, _⟩ := hsect
  constructor <;> omega

theorem updateArchs_iff (hr : inside (whole f) r) {left fat_index : Nat}
    (htable : 8 + 20 * (fat_index + left) ≤ r.size) :
    (∃ f', updateArchs host r paths f fat_index left = .ok f') ↔
      ArchsInside host r paths f fat_index left := by
  induction left generalizing f fat_index with
  | zero => simp [updateArchs, ArchsInside]
  | succ left ih =>
    have hoff : load f r (8 + 20 * fat_index + 8) 4 = .ok _ := load_of_le (by omega)
    have hsize : load f r (8 + 20 * fat_index + 12) 4 = .ok _ := load_of_le (by omega)
    have htable' : 8 + 20 * (fat_index + 1 + left) ≤ r.size := by omega
    simp only [updateArchs, ArchsInside, hoff, hsize, bind, Except.bind]
    rw [← archWord, ← archWord]
    generalize archWord host f r fat_index 8 = arch_off
    generalize archWord host f r fat_index 12 = arch_size
    by_cases hzero : arch_size = 0
    · simp only [hzero, if_true, ih hr htable']
      simp
    have hrange := rangeInside_iff hr arch_off.isLt arch_size.isLt
    by_cases hin : arch_off.toNat + arch_size.toNat ≤ r.size
    · have harch : inside r ⟨r.start + arch_off.toNat, arch_size.toNat⟩ := by
        constructor
        · exact Nat.le_add_right _ _
        · simp only
          omega
      simp only [hzero, if_false, hrange.mpr hin, if_true, hin, forall_const, not_false_eq_true,
        false_implies, true_and, ne_eq]
      rw [← update_debug_info_macho_thin_iff (inside_inside hr harch)]
      cases hthin : update_debug_info_macho_thin host _ paths f with
      | error e => simp
      | ok f₁ =>
        have hsame := update_debug_info_macho_thin_outside (inside_inside hr harch) hthin
        rw [ih (hsame.inside hr) htable']
        simp
    · have hout : rangeInside f r arch_off.toNat arch_size.toNat = false := by
        rw [← Bool.not_eq_true, hrange]
        exact hin
      simp only [hzero, if_false, hout, hin, false_implies, ne_eq, not_false_eq_true]
      simp

theorem update_debug_info_macho_fat_iff (hr : inside (whole f) r) :
    (∃ f', update_debug_info_macho_fat host r paths f = .ok f') ↔ FatInside host r paths f := by
  unfold update_debug_info_macho_fat FatInside
  rw [if_neg (pointers_ordered hr)]
  by_cases hsize : r.size < 8
  · rw [if_pos hsize]
    constructor
    · intro _ hle
      omega
    · intro _
      exact ⟨_, rfl⟩
  · have hnfat : load f r 4 4 = .ok _ := load_of_le (by omega)
    simp only [hsize, if_false, hnfat, bind, Except.bind]
    generalize swap_big_to_cpu_32 host _ = nfat_arch
    -- the size of the table does not wrap around
    have hwrap : (8 + 20 * nfat_arch.toNat) % 2 ^ 64 = 8 + 20 * nfat_arch.toNat := by
      apply Nat.mod_eq_of_lt
      omega
    rw [hwrap]
    by_cases htable : r.size < 8 + 20 * nfat_arch.toNat
    · rw [if_pos htable]
      constructor
      · intro _ hle
        omega
      · intro _
        exact ⟨_, rfl⟩
    · have hle : 8 + 20 * nfat_arch.toNat ≤ r.size := by omega
      simp only [htable, if_false, hle, forall_const]
      apply updateArchs_iff hr
      omega

end Update

/-- Nothing outside the part of the file that a function is given is read, and nothing
outside the region that it finds is written, exactly if the load commands are in the file. -/
theorem macho_confined_iff (host : BigEndian) (f : Mapped) (r : Region) (hr : inside (whole f) r) :
    (∀ want : Wanted,
      ((∃ found, FindMachOSection host f r want = .ok found) ↔ FindInside host f r want) ∧
      ∀ sect, FindMachOSection host f r want = .ok (some sect) →
        inside r sect ∧ sect.size < 2 ^ 31) ∧
    ∀ paths : Replacement,
      (∀ want f', update_macho_section host r paths want f = .ok f' →
        f' = f ∨
          ∃ sect, FindMachOSection host f r want = .ok (some sect) ∧ SameOutside sect f f') ∧
      ((∃ f', update_debug_info_macho_thin host r paths f = .ok f') ↔
        ThinInside host f r paths) ∧
      ((∃ f', update_debug_info_macho_fat host r paths f = .ok f') ↔
        FatInside host r paths f) := by
  refine ⟨?_, ?_⟩
  · intro want
    refine ⟨FindMachOSection_iff hr, ?_⟩
    intro sect h
    exact FindMachOSection_inside hr h
  · intro paths
    refine ⟨?_, update_debug_info_macho_thin_iff hr, update_debug_info_macho_fat_iff hr⟩
    intro want f' h
    exact update_macho_section_same hr h

section Examples

def header64 (ncmds sizeofcmds : UInt8) : List UInt8 :=
  [0xcf, 0xfa, 0xed, 0xfe, 0, 0, 0, 0, 0, 0, 0, 0, 0, 0, 0, 0,
    ncmds, 0, 0, 0, sizeofcmds, 0, 0, 0, 0, 0, 0, 0, 0, 0, 0, 0]

def stringsFile : Mapped :=
  ⟨0x10000, header64 1 24 ++ [2, 0, 0, 0, 24, 0, 0, 0, 0, 0, 0, 0, 0, 0, 0, 0,
    56, 0, 0, 0, 4, 0, 0, 0] ++ [47, 116, 47, 0], by decide⟩

theorem macho_confined_strings : inside (whole stringsFile) ⟨56, 4⟩ ∧ 4 < 2 ^ 31 :=
  ((macho_confined_iff false stringsFile (whole stringsFile) ⟨le_rfl, le_rfl⟩).1
    (stringTable false .bits64)).2 ⟨56, 4⟩ rfl

def headerOnly : Mapped := ⟨0x10000, header64 1 0, by decide⟩

theorem command_read_past_end :
    FindMachOSection false headerOnly (whole headerOnly) (debugInfo false .bits64) =
      .error .load ∧
    update_debug_info_macho_thin false (whole headerOnly) ⟨[47], [46], rfl⟩ headerOnly =
      .error .load := ⟨rfl, rfl⟩

end Examples
end Toolwhip.Distcc
